import Reboot.Txn.CallTreeReports

/-!
# Who owns a state, and what its snapshots go back to

The owners of a state are the transactions around the call that claimed it last, and a
snapshot has the owners from before a claim. A transaction that has claimed a state is
among its owners until it commits, and among those in every later snapshot; a call under
way has all its transactions among the owners, and no snapshot that could still be gone
back to is older than that. All of this is about runs in which no message that a
transaction has committed overtakes one about a transaction within it (`InOrder`).

A call counts as in force under some owners when each of its transactions is one of
them or has committed.
-/

namespace Reboot.Txn.CallTree

open Reboot.Lib Reboot.Txn.Nested

variable {σ κ V M : Type}

/-! ## Claims and messages, for one participant -/

section Participant

variable {x x' : Participant Nat κ V M} [DecidableEq κ]

omit [DecidableEq κ] in
theorem claimOwnership_eq {ids : List Nat} (h : claimOwnership x ids = some x') :
    x.contents.ownerIds <+: ids ∧ x'.contents = { x.contents with ownerIds := ids } ∧
      (x'.snapshots = x.snapshots ∨
        x'.snapshots = x.snapshots ++ [snapshotOf x.contents ids]) := by
  unfold claimOwnership at h
  split at h
  next hclaimable =>
    have hp := isClaimableBy_iff.mp hclaimable
    split at h
    next heq =>
      cases h
      refine ⟨hp, ?_, .inl rfl⟩
      rw [← heq]
    next =>
      cases h
      refine ⟨hp, rfl, ?_⟩
      dsimp only
      split
      · exact .inr rfl
      · exact .inl rfl
  next => cases h

/-- What a rollback leaves of the contents. -/
def rolledBack (c : Contents Nat κ V M) (p : Snapshot Nat κ V) : Contents Nat κ V M where
  state := p.state
  tasks := c.tasks.filter fun t => decide (t.1 ∈ p.taskUuids)
  idempotentMutations :=
    c.idempotentMutations.filter fun m => decide (m.1 ∈ p.idempotentMutationKeys)
  ownerIds := p.ownerIds
  mode := p.mode

/-- A message is too late, goes back to a snapshot, or takes the transaction and all
within it off the owners. -/
theorem relinquishOwnership_eq {n : Nat} {aborted : Bool}
    (h : relinquishOwnership x n aborted = some x') :
    x' = x ∨
      (n ∈ x.contents.ownerIds ∧ aborted = true ∧ ∃ older p newer,
        x.snapshots = older ++ p :: newer ∧ n ∈ p.transactionIds ∧
        x'.snapshots = older ∧ x'.contents = rolledBack x.contents p) ∨
      (n ∈ x.contents.ownerIds ∧ aborted = false ∧ x'.snapshots <+: x.snapshots ∧
        x'.contents = { x.contents with
          ownerIds := x.contents.ownerIds.take (x.contents.ownerIds.idxOf n) }) := by
  unfold relinquishOwnership at h
  split at h
  next =>
    cases h
    exact .inl rfl
  next hmem =>
    have hmem : n ∈ x.contents.ownerIds := by simpa using hmem
    split at h
    next => cases h
    next p snapshots hpop =>
      right
      -- the snapshot that was found, and what stays of the stack
      simp only [maybePopSnapshot] at hpop
      generalize holder : x.snapshots.takeWhile (fun s => decide (n ∉ s.transactionIds)) = older
        at hpop
      split at hpop
      next p' hget =>
        cases hpop
        have hpre : older <+: x.snapshots := holder ▸ List.takeWhile_prefix _
        obtain ⟨rest, hrest⟩ := hpre
        have hhead : rest.head? = some p := by
          rw [← hrest, List.getElem?_append_right (Nat.le_refl _), Nat.sub_self] at hget
          rw [List.head?_eq_getElem?]
          exact hget
        obtain ⟨newer, rfl⟩ : ∃ newer, rest = p :: newer := by
          cases rest with
          | nil => cases hhead
          | cons y newer =>
            cases hhead
            exact ⟨newer, rfl⟩
        have hp : n ∈ p.transactionIds := by
          have hnot := List.head?_dropWhile_not (fun s => decide (n ∉ s.transactionIds))
            x.snapshots
          have hdrop : x.snapshots.dropWhile (fun s => decide (n ∉ s.transactionIds)) =
              p :: newer := by
            have happ := List.takeWhile_append_dropWhile
              (p := fun s : Snapshot Nat κ V => decide (n ∉ s.transactionIds))
              (l := x.snapshots)
            rw [holder] at happ
            exact List.append_cancel_left (happ.trans hrest.symm)
          rw [hdrop] at hnot
          simpa using hnot
        split at h
        next haborted =>
          left
          refine ⟨hmem, haborted, older, p, newer, hrest.symm, hp, ?_⟩
          have hun : isUnneeded older p n aborted = true := by simp [isUnneeded, haborted]
          rw [if_pos hun] at h
          unfold rollback at h
          split at h
          next => cases h
          next =>
            cases h
            exact ⟨rfl, rfl⟩
        next haborted =>
          right
          cases h
          refine ⟨hmem, by simpa using haborted, ?_, rfl⟩
          dsimp only
          split
          · exact hrest ▸ List.prefix_append older (p :: newer)
          · exact List.prefix_refl _
      next => cases hpop

end Participant

namespace System

variable {s s' : System σ κ V M}

/-! ## In force -/

/-- Each of the transactions is one of the owners or has committed. -/
def InForce (s : System σ κ V M) (ids owners : List Nat) : Prop :=
  ∀ t ∈ ids, t ∈ owners ∨ s.hasCommitted t = true

theorem InForce.later (hl : Later s s') {ids owners : List Nat} (h : s.InForce ids owners) :
    s'.InForce ids owners := fun t ht => (h t ht).imp id hl.hasCommitted

theorem InForce.mono {ids owners owners' : List Nat} (h : s.InForce ids owners)
    (hsub : ∀ t ∈ owners, t ∈ owners' ∨ s.hasCommitted t = true) : s.InForce ids owners' := by
  intro t ht
  rcases h t ht with hmem | hcommitted
  · exact hsub t hmem
  · exact .inr hcommitted

theorem InForce.of_isPrefix {ids owners owners' : List Nat} (h : s.InForce ids owners)
    (hp : owners <+: owners') : s.InForce ids owners' :=
  h.mono fun _ ht => .inl (hp.subset ht)

theorem inForce_of_isPrefix {ids owners : List Nat} (hp : ids <+: owners) :
    s.InForce ids owners := fun _ ht => .inl (hp.subset ht)

/-- What comes off the owners has committed. -/
def OffCommitted (s : System σ κ V M) (owners : List Nat) (n : Nat) : Prop :=
  ∀ t ∈ owners.drop (owners.idxOf n), s.hasCommitted t = true

theorem InForce.take {ids owners : List Nat} {n : Nat} (h : s.InForce ids owners)
    (hoff : s.OffCommitted owners n) : s.InForce ids (owners.take (owners.idxOf n)) := by
  refine h.mono fun t ht => ?_
  rw [← List.take_append_drop (owners.idxOf n) owners] at ht
  exact (List.mem_append.mp ht).imp id (hoff t)

/-- A list of owners that `n` is not in ends before `n`. -/
theorem isPrefix_take {ids owners : List Nat} {n : Nat} (hp : ids <+: owners) (hn : n ∉ ids) :
    ids <+: owners.take (owners.idxOf n) := by
  obtain ⟨rest, rfl⟩ := hp
  rw [List.idxOf_append_of_notMem hn, List.take_append]
  have htake : ids.take (ids.length + rest.idxOf n) = ids :=
    List.take_of_length_le (Nat.le_add_right _ _)
  rw [htake]
  exact List.prefix_append _ _

/-! ## One state -/

/-- The snapshots of a state, seen from its owners. -/
structure Owned (s : System σ κ V M) (i : Site κ V M) : Prop where
  rooted : ∀ p ∈ i.transaction.snapshots, 0 ∈ p.transactionIds
  taken : ∀ p ∈ i.transaction.snapshots, s.InForce p.transactionIds i.ownerIds
  sorted : i.transaction.snapshots.Pairwise fun p q => s.InForce p.transactionIds q.ownerIds

/-- A call under way, seen from the owners and the snapshots of its state. A snapshot that
is not older than the call is only gone back to with the call. -/
structure Standing (s : System σ κ V M) (k : Call σ κ V M) (i : Site κ V M) : Prop where
  owned : k.transactionIds <+: i.ownerIds
  snapshots : ∀ p ∈ i.transaction.snapshots, k.transactionIds <+: p.ownerIds ∨
    s.InForce p.transactionIds k.transactionIds

section

variable {i i' : Site κ V M} {k : Call σ κ V M}
  {t : Participant Nat κ (Option Nat × V) (Nat × M)}

theorem Owned.later (hl : Later s s') (h : s.Owned i) : s'.Owned i where
  rooted := h.rooted
  taken p hp := (h.taken p hp).later hl
  sorted := h.sorted.imp fun h => h.later hl

theorem Standing.later (hl : Later s s') (h : s.Standing k i) : s'.Standing k i where
  owned := h.owned
  snapshots p hp := (h.snapshots p hp).imp id fun h => h.later hl

theorem Owned.congr (h : s.Owned i) (ho : i'.ownerIds = i.ownerIds)
    (hs : i'.transaction.snapshots = i.transaction.snapshots) : s.Owned i' := by
  obtain ⟨hrooted, htaken, hsorted⟩ := h
  constructor <;> rw [hs]
  · exact hrooted
  · rw [ho]
    exact htaken
  · exact hsorted

theorem Standing.congr (h : s.Standing k i) (ho : i'.ownerIds = i.ownerIds)
    (hs : i'.transaction.snapshots = i.transaction.snapshots) : s.Standing k i' := by
  obtain ⟨howned, hsnapshots⟩ := h
  constructor
  · rw [ho]
    exact howned
  · rw [hs]
    exact hsnapshots

/-- A claim puts the call's transactions in the place of the owners. -/
theorem Owned.claim (h : s.Owned i) {ids : List Nat}
    (ht : claimOwnership i.transaction ids = some t) (hroot : 0 ∈ ids) (hi : i'.transaction = t) :
    s.Owned i' := by
  obtain ⟨hp, hcontents, hsnapshots⟩ := claimOwnership_eq ht
  have howner : i'.ownerIds = ids := by
    rw [Site.ownerIds, hi, hcontents]
  have hold : ∀ p ∈ i.transaction.snapshots, s.InForce p.transactionIds i'.ownerIds := by
    intro p hmem
    rw [howner]
    exact (h.taken p hmem).of_isPrefix hp
  constructor
  · rw [hi]
    rcases hsnapshots with hs | hs <;> rw [hs]
    · exact h.rooted
    · intro p hmem
      rcases List.mem_append.mp hmem with hmem | hmem
      · exact h.rooted p hmem
      · rw [List.mem_singleton.mp hmem]
        exact hroot
  · rw [hi]
    rcases hsnapshots with hs | hs <;> rw [hs]
    · exact hold
    · intro p hmem
      rcases List.mem_append.mp hmem with hmem | hmem
      · exact hold p hmem
      · rw [List.mem_singleton.mp hmem, howner]
        exact inForce_of_isPrefix (List.prefix_refl ids)
  · rw [hi]
    rcases hsnapshots with hs | hs <;> rw [hs]
    · exact h.sorted
    · refine List.pairwise_append.mpr ⟨h.sorted, List.pairwise_singleton _ _, fun p hmem q hq => ?_⟩
      rw [List.mem_singleton.mp hq]
      exact h.taken p hmem

theorem Standing.claim (h : s.Standing k i) {ids : List Nat}
    (ht : claimOwnership i.transaction ids = some t) (hi : i'.transaction = t) :
    s.Standing k i' := by
  obtain ⟨hp, hcontents, hsnapshots⟩ := claimOwnership_eq ht
  constructor
  · rw [Site.ownerIds, hi, hcontents]
    exact h.owned.trans hp
  · rw [hi]
    rcases hsnapshots with hs | hs <;> rw [hs]
    · exact h.snapshots
    · intro p hmem
      rcases List.mem_append.mp hmem with hmem | hmem
      · exact h.snapshots p hmem
      · rw [List.mem_singleton.mp hmem]
        exact .inl h.owned

/-- The call that claims is not older than any snapshot. -/
theorem Owned.standing (h : s.Owned i)
    (ht : claimOwnership i.transaction k.transactionIds = some t) (hi : i'.transaction = t) :
    s.Standing k i' := by
  obtain ⟨hp, hcontents, hsnapshots⟩ := claimOwnership_eq ht
  constructor
  · rw [Site.ownerIds, hi, hcontents]
  · rw [hi]
    have hold : ∀ p ∈ i.transaction.snapshots, s.InForce p.transactionIds k.transactionIds :=
      fun p hmem => (h.taken p hmem).of_isPrefix hp
    rcases hsnapshots with hs | hs <;> rw [hs]
    · exact fun p hmem => .inr (hold p hmem)
    · intro p hmem
      rcases List.mem_append.mp hmem with hmem | hmem
      · exact .inr (hold p hmem)
      · rw [List.mem_singleton.mp hmem]
        exact .inr (inForce_of_isPrefix (List.prefix_refl _))

/-- A message takes owners off, back to those of a snapshot or past those that have
committed. -/
theorem Owned.relinquish [DecidableEq κ] (h : s.Owned i) {n : Nat} {aborted : Bool}
    (ht : relinquishOwnership i.transaction n aborted = some t)
    (hoff : aborted = false → s.OffCommitted i.ownerIds n) (hi : i'.transaction = t) :
    s.Owned i' := by
  rcases relinquishOwnership_eq ht with rfl | ⟨-, -, older, p, newer, hsplit, -, hs, hcontents⟩ |
    ⟨-, haborted, hpre, hcontents⟩
  · exact h.congr (by rw [Site.ownerIds, hi]; rfl) (by rw [hi])
  · have howner : i'.ownerIds = p.ownerIds := by
      rw [Site.ownerIds, hi, hcontents]
      rfl
    have hsorted := h.sorted
    rw [hsplit] at hsorted
    obtain ⟨holder, -, hbefore⟩ := List.pairwise_append.mp hsorted
    constructor
    · rw [hi, hs]
      exact fun q hq => h.rooted q (hsplit ▸ List.mem_append_left _ hq)
    · rw [hi, hs, howner]
      exact fun q hq => hbefore q hq p List.mem_cons_self
    · rw [hi, hs]
      exact holder
  · have howner : i'.ownerIds = i.ownerIds.take (i.ownerIds.idxOf n) := by
      rw [Site.ownerIds, hi, hcontents]
      rfl
    constructor
    · rw [hi]
      exact fun q hq => h.rooted q (hpre.subset hq)
    · rw [hi, howner]
      exact fun q hq => (h.taken q (hpre.subset hq)).take (hoff haborted)
    · rw [hi]
      exact h.sorted.sublist hpre.sublist

/-- A call under way stays in place when a transaction that it is not within is taken off. -/
theorem Standing.relinquish [DecidableEq κ] (h : s.Standing k i) {n : Nat} {aborted : Bool}
    (ht : relinquishOwnership i.transaction n aborted = some t) (hn : n ∉ k.transactionIds)
    (haborted : aborted = true → s.hasCommitted n = false) (hi : i'.transaction = t) :
    s.Standing k i' := by
  rcases relinquishOwnership_eq ht with rfl | ⟨-, hab, older, p, newer, hsplit, hnp, hs, hcontents⟩ |
    ⟨-, -, hpre, hcontents⟩
  · exact h.congr (by rw [Site.ownerIds, hi]; rfl) (by rw [hi])
  · have hp : p ∈ i.transaction.snapshots := by
      rw [hsplit]
      exact List.mem_append_right _ List.mem_cons_self
    constructor
    · rw [Site.ownerIds, hi, hcontents]
      show k.transactionIds <+: p.ownerIds
      rcases h.snapshots p hp with hold | hforce
      · exact hold
      · -- the snapshot is within `n`, the call is not
        exfalso
        rcases hforce n hnp with hmem | hcommitted
        · exact hn hmem
        · rw [haborted hab] at hcommitted
          cases hcommitted
    · rw [hi, hs]
      exact fun q hq => h.snapshots q (hsplit ▸ List.mem_append_left _ hq)
  · constructor
    · rw [Site.ownerIds, hi, hcontents]
      exact isPrefix_take h.owned hn
    · rw [hi]
      exact fun q hq => h.snapshots q (hpre.subset hq)

end

/-! ## All states -/

/-- The message says how the transaction has ended. -/
def Told (s : System σ κ V M) (m : Relinquish σ) : Prop :=
  ∃ k o, s.call m.transactionId = some k ∧ k.method.kind.isTransaction = true ∧
    k.phase = .returned o ∧ m.aborted = decide (o ≠ .ok)

/-- Owners and snapshots of every state, as the calls under way need them. -/
structure Owners (s : System σ κ V M) : Prop where
  owned : ∀ x i, s.site x = some i → s.Owned i
  standing : ∀ c k i, s.call c = some k → k.phase.claimed = true →
    s.site k.method.ref = some i → s.Standing k i
  present : ∀ c k, s.call c = some k → k.phase.engaged = true →
    ∃ i, s.site k.method.ref = some i ∧ i.acquired = true
  told : ∀ m ∈ s.messages, s.Told m

/-- The sites after one was written back. -/
theorem site_put [DecidableEq σ] {x y : σ} {o : Option (Site κ V M)} {j : Site κ V M}
    (hsite : s'.site = Function.update s.site x o) (hy : s'.site y = some j) :
    (y = x ∧ o = some j) ∨ (y ≠ x ∧ s.site y = some j) := by
  rw [hsite, Function.update_apply] at hy
  split at hy
  next heq => exact .inl ⟨heq, hy⟩
  next hne => exact .inr ⟨hne, hy⟩

theorem initial_owners {method : Method σ κ} :
    Owners (initial method : System σ κ V M) := by
  refine ⟨?_, ?_, ?_, nofun⟩
  · intro x i hi
    cases hi
  · intro c k i hc hclaimed
    rw [(initial_call c k hc).2] at hclaimed
    cases hclaimed
  · intro c k hc hengaged
    rw [(initial_call c k hc).2] at hengaged
    cases hengaged

/-- The states have the same owners and snapshots as before. -/
def SameOwners (s s' : System σ κ V M) : Prop :=
  ∀ x, (s.site x = none ∧ s'.site x = none) ∨ ∃ i i', s.site x = some i ∧ s'.site x = some i' ∧
    i'.ownerIds = i.ownerIds ∧ i'.transaction.snapshots = i.transaction.snapshots ∧
    (i.acquired = true → i'.acquired = true)

theorem SameOwners.of_eq (h : s'.site = s.site) : SameOwners s s' := by
  intro x
  rw [h]
  cases s.site x with
  | none => exact .inl ⟨rfl, rfl⟩
  | some i => exact .inr ⟨i, i, rfl, rfl, rfl, rfl, id⟩

theorem SameOwners.put [DecidableEq σ] {x : σ} {i i' : Site κ V M} (hx : s.site x = some i)
    (hsite : s'.site = Function.update s.site x (some i')) (ho : i'.ownerIds = i.ownerIds)
    (hs : i'.transaction.snapshots = i.transaction.snapshots)
    (ha : i.acquired = true → i'.acquired = true) : SameOwners s s' := by
  intro y
  by_cases hy : y = x
  · subst hy
    exact .inr ⟨i, i', hx, by rw [hsite, Function.update_self], ho, hs, ha⟩
  · rw [hsite, Function.update_of_ne hy]
    cases s.site y with
    | none => exact .inl ⟨rfl, rfl⟩
    | some j => exact .inr ⟨j, j, rfl, rfl, rfl, rfl, id⟩

theorem Told.later (hl : Later s s') {m : Relinquish σ} (h : s.Told m) : s'.Told m := by
  obtain ⟨k, o, hc, hkind, hphase, haborted⟩ := h
  obtain ⟨k', hc', hgrown⟩ := hl _ k hc
  refine ⟨k', o, hc', by rw [hgrown.method]; exact hkind, ?_, haborted⟩
  rw [hgrown.ended (by rw [hphase]; rfl), hphase]

/-- A step that leaves owners and snapshots alone, and after which no call has claimed
that had not before. -/
theorem Owners.same (ho : Owners s) (hl : Later s s') (hsite : SameOwners s s')
    (hclaimed : ∀ c k', s'.call c = some k' → k'.phase.claimed = true →
      ∃ k, s.call c = some k ∧ k.phase.claimed = true ∧ k'.method = k.method ∧
        k'.transactionIds = k.transactionIds)
    (hengaged : ∀ c k', s'.call c = some k' → k'.phase.engaged = true →
      ∃ i, s.site k'.method.ref = some i ∧ i.acquired = true)
    (htold : ∀ m ∈ s'.messages, m ∈ s.messages) : Owners s' := by
  constructor
  · intro x i' hx
    rcases hsite x with ⟨-, hnone⟩ | ⟨i, i'', hi, hi', howner, hsnaps, -⟩
    · rw [hnone] at hx
      cases hx
    · rw [hi'] at hx
      cases hx
      exact ((ho.owned x i hi).later hl).congr howner hsnaps
  · intro c k' i' hc hphase hx
    obtain ⟨k, hk, hkphase, hmethod, hids⟩ := hclaimed c k' hc hphase
    rcases hsite k'.method.ref with ⟨-, hnone⟩ | ⟨i, i'', hi, hi', howner, hsnaps, -⟩
    · rw [hnone] at hx
      cases hx
    · rw [hi'] at hx
      cases hx
      have hstanding := ((ho.standing c k i hk hkphase (hmethod ▸ hi)).later hl).congr howner hsnaps
      exact ⟨hids ▸ hstanding.owned, hids ▸ hstanding.snapshots⟩
  · intro c k' hc hphase
    obtain ⟨i, hi, hacquired⟩ := hengaged c k' hc hphase
    rcases hsite k'.method.ref with ⟨hnone, -⟩ | ⟨i0, i', hi0, hi', -, -, ha⟩
    · rw [hi] at hnone
      cases hnone
    · rw [hi] at hi0
      cases hi0
      exact ⟨i', hi', ha hacquired⟩
  · intro m hm
    exact (ho.told m (htold m hm)).later hl

/-- One call goes on without claiming. -/
theorem Owners.went (ho : Owners s) (hl : Later s s') (hsite : SameOwners s s') {c : Nat}
    {k k' : Call σ κ V M} (hc : s.call c = some k)
    (hcall : s'.call = Function.update s.call c (some k')) (hmethod : k'.method = k.method)
    (hids : k'.transactionIds = k.transactionIds)
    (hclaimed : k'.phase.claimed = true → k.phase.claimed = true)
    (hengaged : k'.phase.engaged = true → k.phase.engaged = true ∨
      ∃ i, s.site k.method.ref = some i ∧ i.acquired = true)
    (htold : s'.messages = s.messages) : Owners s' := by
  refine ho.same hl hsite ?_ ?_ ?_
  · intro d kd hd hphase
    rcases call_put hcall hd with ⟨rfl, rfl⟩ | ⟨-, hold⟩
    · exact ⟨k, hc, hclaimed hphase, hmethod, hids⟩
    · exact ⟨kd, hold, hphase, rfl, rfl⟩
  · intro d kd hd hphase
    rcases call_put hcall hd with ⟨rfl, rfl⟩ | ⟨-, hold⟩
    · rw [hmethod]
      rcases hengaged hphase with h | h
      · exact ho.present _ k hc h
      · exact h
    · exact ho.present d kd hold hphase
  · intro m hm
    rw [htold] at hm
    exact hm

/-- No call goes on. -/
theorem Owners.still (ho : Owners s) (hl : Later s s') (hsite : SameOwners s s')
    (hcall : s'.call = s.call) (htold : s'.messages = s.messages) : Owners s' := by
  refine ho.same hl hsite ?_ ?_ ?_
  · intro d kd hd hphase
    rw [hcall] at hd
    exact ⟨kd, hd, hphase, rfl, rfl⟩
  · intro d kd hd hphase
    rw [hcall] at hd
    exact ho.present d kd hd hphase
  · intro m hm
    rw [htold] at hm
    exact hm

/-- A participant that nobody has joined appears or goes. -/
theorem Owners.unjoined [DecidableEq σ] (ho : Owners s) (hl : Later s s') {x : σ}
    {o : Option (Site κ V M)} (hsite : s'.site = Function.update s.site x o)
    (hx : ∀ i, s.site x = some i → i.acquired = false)
    (ho' : ∀ i, o = some i → i.transaction.snapshots = []) (hcall : s'.call = s.call)
    (htold : s'.messages = s.messages) : Owners s' := by
  have hother : ∀ y j, s'.site y = some j → (y = x ∧ o = some j) ∨ s.site y = some j := by
    intro y j hy
    rw [hsite, Function.update_apply] at hy
    split at hy
    next heq => exact .inl ⟨heq, hy⟩
    next => exact .inr hy
  -- nobody is engaged with the participant
  have hne : ∀ c k, s.call c = some k → k.phase.engaged = true → k.method.ref ≠ x := by
    rintro c k hc hengaged rfl
    obtain ⟨i, hi, hacquired⟩ := ho.present c k hc hengaged
    rw [hx i hi] at hacquired
    cases hacquired
  constructor
  · intro y j hy
    rcases hother y j hy with ⟨-, hj⟩ | hold
    · have hnil := ho' j hj
      constructor <;> rw [hnil]
      · nofun
      · nofun
      · exact List.Pairwise.nil
    · exact (ho.owned y j hold).later hl
  · intro c k j hc hclaimed hy
    rw [hcall] at hc
    rcases hother _ j hy with ⟨hsame, -⟩ | hold
    · exact absurd hsame (hne c k hc (Phase.engaged_of_claimed hclaimed))
    · exact (ho.standing c k j hc hclaimed hold).later hl
  · intro c k hc hengaged
    rw [hcall] at hc
    obtain ⟨i, hi, hacquired⟩ := ho.present c k hc hengaged
    exact ⟨i, by rw [hsite, Function.update_of_ne (hne c k hc hengaged)]; exact hi, hacquired⟩
  · intro m hm
    rw [htold] at hm
    exact (ho.told m hm).later hl

/-- A call that has joined is the same as before another one was made. -/
theorem engaged_of_made {p : Nat} {k : Call σ κ V M} {method : Method σ κ}
    (hp : s.call p = some k) {c : Nat} {kc : Call σ κ V M}
    (hc : (s.madeCall p k method).call c = some kc) (hengaged : kc.phase.engaged = true) :
    ∃ k0, s.call c = some k0 ∧ kc.phase = k0.phase ∧ kc.method = k0.method ∧
      kc.transactionIds = k0.transactionIds ∧ kc.participants = k0.participants := by
  rcases call_put (s := s.putCall p { k with
    outstandingRpcs := s.nextId :: k.outstandingRpcs }) rfl hc with ⟨-, rfl⟩ | ⟨-, hold⟩
  · cases hengaged
  · rcases call_put (s := s) rfl hold with ⟨rfl, rfl⟩ | ⟨-, hold⟩
    · exact ⟨k, hp, rfl, rfl, rfl, rfl⟩
    · exact ⟨kc, hold, rfl, rfl, rfl, rfl⟩

/-- A call is made. -/
theorem Owners.made (ho : Owners s) {p : Nat} {k : Call σ κ V M} {method : Method σ κ}
    (hl : Later s (s.madeCall p k method)) (hp : s.call p = some k) :
    Owners (s.madeCall p k method) := by
  refine ho.same hl (.of_eq rfl) ?_ ?_ (fun m hm => hm)
  · intro c kc hc hclaimed
    obtain ⟨k0, h0, hsame, hmethod, hids, -⟩ :=
      engaged_of_made hp hc (Phase.engaged_of_claimed hclaimed)
    exact ⟨k0, h0, hsame ▸ hclaimed, hmethod, hids⟩
  · intro c kc hc hengaged
    obtain ⟨k0, h0, hsame, hmethod, -⟩ := engaged_of_made hp hc hengaged
    rw [hmethod]
    exact ho.present c k0 h0 (hsame ▸ hengaged)

/-- A call claims its state. -/
theorem Owners.claim [DecidableEq σ] (ho : Owners s) (ht : Tree s) (hl : Later s s') {c : Nat}
    {k k' : Call σ κ V M} {i i' : Site κ V M}
    {t : Participant Nat κ (Option Nat × V) (Nat × M)} (hc : s.call c = some k)
    (hx : s.site k.method.ref = some i) (hphase : k.phase = .claiming)
    (hclaim : claimOwnership i.transaction k.transactionIds = some t)
    (hcall : s'.call = Function.update s.call c (some k'))
    (hsite : s'.site = Function.update s.site k.method.ref (some i'))
    (hi : i'.transaction = t) (ha : i'.acquired = i.acquired) (hmethod : k'.method = k.method)
    (hids : k'.transactionIds = k.transactionIds)
    (htold : s'.messages = s.messages) : Owners s' := by
  have hsites : ∀ y j', s'.site y = some j' →
      (y = k.method.ref ∧ j' = i') ∨ (y ≠ k.method.ref ∧ s.site y = some j') := by
    intro y j' hy
    rw [hsite, Function.update_apply] at hy
    split at hy
    next heq => exact .inl ⟨heq, (Option.some.inj hy).symm⟩
    next hne => exact .inr ⟨hne, hy⟩
  have howned := ho.owned _ i hx
  constructor
  · intro y j' hy
    rcases hsites y j' hy with ⟨rfl, rfl⟩ | ⟨-, hold⟩
    · exact (howned.claim hclaim (ht.root_mem hc) hi).later hl
    · exact (ho.owned y j' hold).later hl
  · intro d kd j' hd hclaimed hy
    rcases call_put hcall hd with ⟨rfl, rfl⟩ | ⟨-, hold⟩
    · rcases hsites _ j' hy with ⟨-, rfl⟩ | ⟨hne, -⟩
      · have hstanding := (howned.standing hclaim hi).later hl
        exact ⟨hids ▸ hstanding.owned, hids ▸ hstanding.snapshots⟩
      · exact absurd (by rw [hmethod]) hne
    · rcases hsites _ j' hy with ⟨hsame, rfl⟩ | ⟨-, holdy⟩
      · exact ((ho.standing d kd i hold hclaimed (hsame ▸ hx)).claim hclaim hi).later hl
      · exact (ho.standing d kd j' hold hclaimed holdy).later hl
  · intro d kd hd hengaged
    have hpresent : ∃ j, s.site kd.method.ref = some j ∧ j.acquired = true := by
      rcases call_put hcall hd with ⟨rfl, rfl⟩ | ⟨-, hold⟩
      · rw [hmethod]
        exact ho.present _ k hc (by rw [hphase]; rfl)
      · exact ho.present d kd hold hengaged
    obtain ⟨j, hj, hacquired⟩ := hpresent
    by_cases hsame : kd.method.ref = k.method.ref
    · refine ⟨i', by rw [hsite, hsame, Function.update_self], ?_⟩
      rw [hsame, hx] at hj
      cases hj
      rw [ha]
      exact hacquired
    · exact ⟨j, by rw [hsite, Function.update_of_ne hsame]; exact hj, hacquired⟩
  · intro m hm
    rw [htold] at hm
    exact (ho.told m hm).later hl

/-- A transaction is taken off the owners of a state. No call within it is under way. -/
theorem Owners.relinquish [DecidableEq σ] [DecidableEq κ] (ho : Owners s) (hl : Later s s')
    {x : σ} {n : Nat} {aborted : Bool} {i i' : Site κ V M}
    {t : Participant Nat κ (Option Nat × V) (Nat × M)} (hx : s.site x = some i)
    (hr : relinquishOwnership i.transaction n aborted = some t)
    (hsite : s'.site = Function.update s.site x (some i')) (hi : i'.transaction = t)
    (ha : i'.acquired = i.acquired)
    (hoff : aborted = false → s'.OffCommitted i.ownerIds n)
    (haborted : aborted = true → s'.hasCommitted n = false)
    (hnot : ∀ c k, s'.call c = some k → k.phase.claimed = true → n ∉ k.transactionIds)
    (hcalls : ∀ c k', s'.call c = some k' → k'.phase.engaged = true →
      s.call c = some k')
    (htold : ∀ m ∈ s'.messages, s'.Told m) : Owners s' := by
  have hsites : ∀ y j', s'.site y = some j' →
      (y = x ∧ j' = i') ∨ (y ≠ x ∧ s.site y = some j') := by
    intro y j' hy
    rw [hsite, Function.update_apply] at hy
    split at hy
    next heq => exact .inl ⟨heq, (Option.some.inj hy).symm⟩
    next hne => exact .inr ⟨hne, hy⟩
  constructor
  · intro y j' hy
    rcases hsites y j' hy with ⟨rfl, rfl⟩ | ⟨-, hold⟩
    · exact ((ho.owned _ i hx).later hl).relinquish hr hoff hi
    · exact (ho.owned y j' hold).later hl
  · intro d kd j' hd hclaimed hy
    have hold := hcalls d kd hd (Phase.engaged_of_claimed hclaimed)
    rcases hsites _ j' hy with ⟨hsame, rfl⟩ | ⟨-, holdy⟩
    · exact ((ho.standing d kd i hold hclaimed (hsame ▸ hx)).later hl).relinquish hr
        (hnot d kd hd hclaimed) haborted hi
    · exact (ho.standing d kd j' hold hclaimed holdy).later hl
  · intro d kd hd hengaged
    obtain ⟨j, hj, hacquired⟩ := ho.present d kd (hcalls d kd hd hengaged) hengaged
    by_cases hsame : kd.method.ref = x
    · refine ⟨i', by rw [hsite, hsame, Function.update_self], ?_⟩
      rw [hsame, hx] at hj
      cases hj
      rw [ha]
      exact hacquired
    · exact ⟨j, by rw [hsite, Function.update_of_ne hsame]; exact hj, hacquired⟩
  · exact htold

/-! ## Every step -/

/-- Nothing that has not committed comes off the owners with `n`. -/
def inOrder (s : System σ κ V M) (x : σ) (n : Nat) : Bool :=
  match s.site x with
  | none => true
  | some i =>
    (i.ownerIds.drop (i.ownerIds.idxOf n)).all fun t => decide (t = n) || s.hasCommitted t

/-- A transaction's commit does not overtake the end of a transaction within it: neither
its message to a state nor its own return. -/
def committedInOrder (s : System σ κ V M) : Action σ κ V M → Bool
  | .relinquish m => m.aborted || s.inOrder m.ref m.transactionId
  | .finish c .ok =>
    match s.call c with
    | none => true
    | some k => !k.nested || s.inOrder k.method.ref c
  | _ => true

theorem inOrder_iff {x : σ} {n : Nat} {i : Site κ V M} (hx : s.site x = some i) :
    s.inOrder x n = true ↔ ∀ t ∈ i.ownerIds.drop (i.ownerIds.idxOf n),
      t = n ∨ s.hasCommitted t = true := by
  simp only [inOrder, hx, List.all_eq_true, Bool.or_eq_true, decide_eq_true_eq]

section Ended

variable {n : Nat} {k : Call σ κ V M} {o : Outcome} {aborted : Bool}

theorem not_committed_of_ended (hc : s.call n = some k) (hphase : k.phase = .returned o)
    (haborted : aborted = decide (o ≠ .ok)) (hyes : aborted = true) : s.hasCommitted n = false := by
  refine Bool.eq_false_iff.mpr fun hcommitted => ?_
  obtain ⟨k', hk', hphase'⟩ := hasCommitted_iff.mp hcommitted
  rw [hc] at hk'
  cases hk'
  rw [hphase] at hphase'
  cases hphase'
  rw [haborted] at hyes
  simp at hyes

theorem aborted_of_ended (hc : s.call n = some k) (hkind : k.method.kind.isTransaction = true)
    (hphase : k.phase = .returned o) (haborted : aborted = decide (o ≠ .ok))
    (hyes : aborted = true) : s.hasAborted n = true := by
  refine hasAborted_iff.mpr ⟨k, hc, ?_⟩
  rw [haborted] at hyes
  simp only [Call.aborted, hkind, hphase, Bool.true_and]
  cases o with
  | ok => cases hyes
  | recoverable => rfl
  | unrecoverable => rfl

/-- A transaction that has committed in order takes committed ones off the owners. -/
theorem offCommitted_of_ended (hl : Later s s') {x : σ} {i : Site κ V M} (hx : s.site x = some i)
    (hc : s'.call n = some k) (hphase : k.phase = .returned o)
    (haborted : aborted = decide (o ≠ .ok)) (horder : aborted = false → s.inOrder x n = true)
    (hno : aborted = false) : s'.OffCommitted i.ownerIds n := by
  intro t ht
  have hok : o = .ok := by
    rw [haborted] at hno
    simpa using hno
  rcases (inOrder_iff hx).mp (horder hno) t ht with rfl | hcommitted
  · exact hasCommitted_iff.mpr ⟨k, hc, by rw [hphase, hok]⟩
  · exact hl.hasCommitted hcommitted

end Ended

variable [DecidableEq σ] [DecidableEq κ] [DecidableEq V] [DecidableEq M]
variable {env : Env σ V} {a : Action σ κ V M}

omit [DecidableEq σ] [DecidableEq κ] [DecidableEq V] [DecidableEq M] in
theorem exitOutcome_ok {k : Call σ κ V M} {o : Outcome} (h : (exitOutcome k o).1 = .ok) :
    o = .ok := by
  cases o with
  | ok => rfl
  | recoverable => simp only [exitOutcome] at h; grind
  | unrecoverable => cases h

omit [DecidableEq σ] [DecidableEq κ] [DecidableEq V] [DecidableEq M] in
theorem inOrder_of_finish {c : Nat} {k : Call σ κ V M} {o : Outcome} (hc : s.call c = some k)
    (hnested : k.nested = true) (horder : s.committedInOrder (.finish c o) = true)
    (hok : decide ((exitOutcome k o).1 ≠ .ok) = false) : s.inOrder k.method.ref c = true := by
  have ho : o = .ok := exitOutcome_ok (by simpa using hok)
  subst ho
  simpa only [committedInOrder, hc, hnested, Bool.not_true, Bool.false_or] using horder

omit [DecidableEq σ] [DecidableEq κ] [DecidableEq V] [DecidableEq M] in
theorem inOrder_of_relinquish {m : Relinquish σ} (horder : s.committedInOrder (.relinquish m) = true)
    (hok : m.aborted = false) : s.inOrder m.ref m.transactionId = true := by
  simpa only [committedInOrder, hok, Bool.false_or] using horder

omit [DecidableEq κ] [DecidableEq V] [DecidableEq M] in
/-- The call of a nested transaction that has given its own state back. -/
theorem leftNested_call {c : Nat} {k : Call σ κ V M} {i : Site κ V M} {result : Outcome}
    {aborted : Bool} (hnested : k.nested = true) (hs' : s' = s.leftNested c k i result aborted) :
    ∃ k', s'.call c = some k' ∧ k'.phase = .returned result ∧
      k'.method.kind.isTransaction = true := by
  subst hs'
  have hkind : k.method.kind.isTransaction = true := by
    simp only [Call.nested, Bool.and_eq_true] at hnested
    exact hnested.1
  exact ⟨_, Function.update_self .., rfl, hkind⟩

omit [DecidableEq κ] [DecidableEq V] [DecidableEq M] in
theorem offCommitted_finishNested (hl : Later s s') {c : Nat} {k : Call σ κ V M}
    {i j : Site κ V M} {o : Outcome} (hc : s.call c = some k) (hx : s.site k.method.ref = some i)
    (hnested : k.nested = true) (hs' : s' = s.leftNested c k j (exitOutcome k o).1
      (decide ((exitOutcome k o).1 ≠ .ok)))
    (horder : s.committedInOrder (.finish c o) = true)
    (hno : decide ((exitOutcome k o).1 ≠ .ok) = false) : s'.OffCommitted i.ownerIds c := by
  obtain ⟨k', hself, hphase, -⟩ := leftNested_call hnested hs'
  exact offCommitted_of_ended hl hx hself hphase rfl (inOrder_of_finish hc hnested horder) hno

omit [DecidableEq V] [DecidableEq M] in
/-- A nested transaction returns and gives its own state back. -/
theorem owners_finishNested (ho : Owners s) (hl : Later s s') (ht' : Tree s')
    (hnb : ¬ s'.Broken) {c : Nat} {k : Call σ κ V M} {i : Site κ V M} {o : Outcome}
    {t : Participant Nat κ (Option Nat × V) (Nat × M)} (hc : s.call c = some k)
    (hx : s.site k.method.ref = some i) (hnested : k.nested = true)
    (hr : relinquishOwnership i.transaction c (decide ((exitOutcome k o).1 ≠ .ok)) = some t)
    (hs' : s' = s.leftNested c k { flagged i (exitOutcome k o).2 with transaction := t }
      (exitOutcome k o).1 (decide ((exitOutcome k o).1 ≠ .ok)))
    (horder : s.committedInOrder (.finish c o) = true) : Owners s' := by
  have hin := inOrder_of_finish hc hnested horder
  obtain ⟨k', hself, hphase, hkind⟩ := leftNested_call hnested hs'
  subst hs'
  generalize (exitOutcome k o).1 = result at *
  have hsound : k'.phase.sound = true := by
    rw [hphase]
    refine Phase.sound_returned.mpr ?_
    rintro rfl
    exact hnb ⟨c, k', hself, .inl hphase⟩
  refine ho.relinquish hl hx hr rfl rfl rfl (offCommitted_of_ended hl hx hself hphase rfl hin)
    (not_committed_of_ended hself hphase rfl) ?_ ?_ ?_
  · intro d kd hd hclaimed hmem
    exact ht'.not_sound_of_live hd (Phase.live_of_claimed hclaimed) hmem hself hsound
  · intro d kd hd hengaged
    rcases call_put (s := s) rfl hd with ⟨rfl, rfl⟩ | ⟨-, hold⟩
    · cases hengaged
    · exact hold
  · intro m hm
    rcases List.mem_append.mp hm with hm | hm
    · exact (ho.told m hm).later hl
    · obtain ⟨y, -, rfl⟩ := List.mem_map.mp hm
      exact ⟨k', result, hself, hkind, hphase, rfl⟩

omit [DecidableEq V] [DecidableEq M] in
/-- A message is handled. -/
theorem owners_relinquish (ho : Owners s) (ht : Tree s) (hnb : ¬ s.Broken) {m : Relinquish σ}
    {i : Site κ V M} {t : Participant Nat κ (Option Nat × V) (Nat × M)} (hm : m ∈ s.messages)
    (hx : s.site m.ref = some i)
    (hr : relinquishOwnership i.transaction m.transactionId m.aborted = some t)
    (horder : s.committedInOrder (.relinquish m) = true) :
    Owners (s.putSite m.ref { i with transaction := t }) := by
  obtain ⟨k, o, hc, -, hphase, haborted⟩ := ho.told m hm
  have hsound : k.phase.sound = true := by
    rw [hphase]
    refine Phase.sound_returned.mpr ?_
    rintro rfl
    exact hnb ⟨_, k, hc, .inl hphase⟩
  have hl : Later s (s.putSite m.ref { i with transaction := t }) :=
    fun c k hc => ⟨k, hc, .refl k⟩
  refine ho.relinquish hl hx hr rfl rfl rfl
    (offCommitted_of_ended hl hx hc hphase haborted (inOrder_of_relinquish horder))
    (not_committed_of_ended hc hphase haborted) ?_ (fun d kd hd _ => hd) ?_
  · intro d kd hd hclaimed hmem
    exact ht.not_sound_of_live hd (Phase.live_of_claimed hclaimed) hmem hc hsound
  · intro m' hm'
    exact (ho.told m' hm').later hl

omit [DecidableEq σ] [DecidableEq κ] [DecidableEq V] [DecidableEq M] in
theorem claimed_of_live {p : Phase κ V M} (h : p = .running ∨ p = .loading ∨ p = .draining ∨
    ∃ e, p = .upgrading e) : p.claimed = true := by
  rcases h with rfl | rfl | rfl | ⟨e, rfl⟩ <;> rfl

/-- **Owners and snapshots are kept** by every step, as long as commits come in order. -/
theorem Move.owners (h : Move env s a s') (ho : Owners s) (ht : Tree s)
    (hnb : ¬ s'.Broken) (horder : s.committedInOrder a = true) : Owners s' := by
  have hl : Later s s' := fun c k hc => h.callMove.grown ht hc
  have ht' : Tree s' := h.callMove.tree ht
  cases h with
  | call hp hphase => exact ho.made hl hp
  | start hc hphase hx =>
    refine ho.unjoined hl rfl ?_ ?_ rfl rfl
    · intro i hi
      rw [hx] at hi
      cases hi
    · intro i hi
      cases hi
      rfl
  | acquire hx hacquired =>
    exact ho.still hl (.put hx rfl rfl rfl fun _ => rfl) rfl rfl
  | refuse hx hacquired =>
    refine ho.unjoined hl rfl ?_ (fun i hi => nomatch hi) rfl rfl
    intro i hi
    rw [hx] at hi
    cases hi
    exact hacquired
  | join hc hx hphase hacquired =>
    exact ho.went hl (.of_eq rfl) hc rfl rfl rfl nofun (fun _ => .inr ⟨_, hx, hacquired⟩) rfl
  | claim hc hx hphase hclaim =>
    exact ho.claim ht hl hc hx hphase hclaim rfl rfl rfl rfl rfl rfl rfl
  | drain hc hx hnested hphase =>
    have hclaimed := claimed_of_live (.inr (.inr (.inl hphase)))
    exact ho.went hl (.of_eq rfl) hc rfl rfl rfl (fun _ => hclaimed)
      (fun _ => .inl (Phase.engaged_of_claimed hclaimed)) rfl
  | upgrade hc hx hphase =>
    have hclaimed := claimed_of_live (.inr (.inr (.inr ⟨_, hphase⟩)))
    refine ho.went hl (.put hx rfl rfl rfl id) hc rfl ?_ ?_ (fun _ => hclaimed)
      (fun _ => .inl (Phase.engaged_of_claimed hclaimed)) rfl
    · split <;> rfl
    · split <;> rfl
  | upgradeStored hc hx hphase hstore =>
    have hclaimed := claimed_of_live (.inr (.inr (.inr ⟨_, hphase⟩)))
    exact ho.went hl (.put hx (Function.update_idem ..) rfl rfl id) hc rfl rfl rfl
      (fun _ => hclaimed) (fun _ => .inl (Phase.engaged_of_claimed hclaimed)) rfl
  | load hc hx hphase state hstate hk' =>
    have hclaimed := claimed_of_live (.inr (.inl hphase))
    refine ho.went hl (.put hx rfl rfl rfl id) hc rfl ?_ ?_ (fun _ => hclaimed)
      (fun _ => .inl (Phase.engaged_of_claimed hclaimed)) rfl
    · rw [hk']
    · rw [hk']
  | mutate hc hx hphase => exact ho.still hl (.put hx rfl rfl rfl id) rfl rfl
  | completeWaits hc hphase hkind =>
    have hclaimed := claimed_of_live (.inl hphase)
    exact ho.went hl (.of_eq rfl) hc rfl rfl rfl (fun _ => hclaimed)
      (fun _ => .inl (Phase.engaged_of_claimed hclaimed)) rfl
  | completeStored hc hx hphase hk' hstore =>
    have hclaimed := claimed_of_live (.inl hphase)
    rcases hk' with ⟨rfl, -⟩ | ⟨rfl, -⟩
    · exact ho.went hl (.put hx rfl rfl rfl id) hc rfl rfl rfl (fun _ => hclaimed)
        (fun _ => .inl (Phase.engaged_of_claimed hclaimed)) rfl
    · exact ho.went hl (.put hx rfl rfl rfl id) hc rfl rfl rfl (fun _ => hclaimed)
        (fun _ => .inl (Phase.engaged_of_claimed hclaimed)) rfl
  | finishOutside hc hphase hout =>
    exact ho.went hl (.of_eq rfl) hc rfl rfl rfl nofun nofun rfl
  | finishLeaf hc hx hphase hkind =>
    exact ho.went hl (.put hx rfl rfl rfl id) hc rfl rfl rfl nofun nofun rfl
  | finishRoot hc hx hphase hkind hcaller =>
    have hover : ∀ (j : Site κ V M) (o : Outcome),
        (rootPhase j o : Phase κ V M).engaged = true → False := by
      intro j o hengaged
      unfold rootPhase at hengaged
      split at hengaged
      · split at hengaged <;> cases hengaged
      · cases hengaged
    exact ho.went hl (.put hx rfl rfl rfl id) hc rfl rfl rfl
      (fun h => (hover _ _ (Phase.engaged_of_claimed h)).elim) (fun h => (hover _ _ h).elim) rfl
  | finishFlagged hc hx hphase hnested hflag =>
    exact ho.went hl (.put hx rfl rfl rfl id) hc rfl rfl rfl nofun nofun rfl
  | finishDoomed hc hx hphase hnested =>
    exact ho.went hl (.put hx rfl rfl rfl id) hc rfl rfl rfl nofun nofun rfl
  | finishNested hc hx hphase hnested hflag hr =>
    exact owners_finishNested ho hl ht' hnb hc hx hnested hr rfl horder
  | reply hc hcaller hp hrpc hentered hphase =>
    exact ho.went hl (.of_eq rfl) hp rfl rfl rfl id .inl rfl
  | lose hc hcaller hp hentered =>
    exact ho.went hl (.of_eq rfl) hp rfl rfl rfl id .inl rfl
  | relinquish hm hx hr =>
    exact owners_relinquish ho ht (fun h => hnb (hl.broken h)) hm hx hr horder
  | release hk hx howner hmode => exact ho.still hl (.of_eq rfl) rfl rfl
  | prepare hk hx howner hd => exact ho.still hl (.of_eq rfl) rfl rfl
  | commit hk hready => exact ho.still hl (.of_eq rfl) rfl rfl

/-! ## While the root coordinates -/

/-- While the root coordinates every call is over, no change is stored any more, and nothing
happens to a state that is back with the root. -/
theorem Move.settled (h : Move env s a s') (ho : Owners s) (ht : Tree s) (hco : s.Coordinating) :
    s'.call = s.call ∧ s'.changes = s.changes ∧ ∀ x i, s.site x = some i → i.acquired = true →
      isClaimableBy i.ownerIds [0] = true → s'.site x = some i := by
  have hover : ∀ {c : Nat} {k : Call σ κ V M} {P : Prop}, s.call c = some k →
      k.phase.live = true → P := by
    intro c k P hc hlive
    rw [Phase.not_live_of_sound (ht.all_sound hco hc)] at hlive
    cases hlive
  cases h with
  | call hp hphase => exact hover hp (by rw [hphase]; rfl)
  | start hc hphase hx => exact hover hc (by rw [hphase]; rfl)
  | @acquire x i hx hacquired =>
    refine ⟨rfl, rfl, fun y j hy hjacquired _ => ?_⟩
    have hne : y ≠ x := by
      rintro rfl
      rw [hx] at hy
      cases hy
      rw [hacquired] at hjacquired
      cases hjacquired
    exact (Function.update_of_ne hne ..).trans hy
  | @refuse x i hx hacquired =>
    refine ⟨rfl, rfl, fun y j hy hjacquired _ => ?_⟩
    have hne : y ≠ x := by
      rintro rfl
      rw [hx] at hy
      cases hy
      rw [hacquired] at hjacquired
      cases hjacquired
    exact (Function.update_of_ne hne ..).trans hy
  | join hc hx hphase hacquired => exact hover hc (by rw [hphase]; rfl)
  | claim hc hx hphase hclaim => exact hover hc (by rw [hphase]; rfl)
  | drain hc hx hnested hphase => exact hover hc (by rw [hphase]; rfl)
  | upgrade hc hx hphase => exact hover hc (by rw [hphase]; rfl)
  | upgradeStored hc hx hphase hstore => exact hover hc (by rw [hphase]; rfl)
  | load hc hx hphase state hstate hk' => exact hover hc (by rw [hphase]; rfl)
  | mutate hc hx hphase => exact hover hc (by rw [hphase]; rfl)
  | completeWaits hc hphase hkind => exact hover hc (by rw [hphase]; rfl)
  | completeStored hc hx hphase hk' hstore => exact hover hc (by rw [hphase]; rfl)
  | finishOutside hc hphase hout => exact hover hc (by simp [Phase.live, hphase])
  | finishLeaf hc hx hphase hkind => exact hover hc (Phase.live_of_entered hphase)
  | finishRoot hc hx hphase hkind hcaller => exact hover hc (Phase.live_of_entered hphase)
  | finishFlagged hc hx hphase hnested hflag => exact hover hc (Phase.live_of_entered hphase)
  | finishDoomed hc hx hphase hnested => exact hover hc (Phase.live_of_entered hphase)
  | finishNested hc hx hphase hnested hflag hr => exact hover hc (Phase.live_of_entered hphase)
  | reply hc hcaller hp hrpc hentered hphase => exact hover hp (Phase.live_of_entered hentered)
  | lose hc hcaller hp hentered => exact hover hp (Phase.live_of_entered hentered)
  | @relinquish m i t hm hx hr =>
    refine ⟨rfl, rfl, fun y j hy _ hclaimable => ?_⟩
    by_cases hym : y = m.ref
    · -- the message is too late
      subst hym
      rw [hx] at hy
      cases hy
      obtain ⟨k, o, hc, -, hphase, -⟩ := ho.told m hm
      have hnot : m.transactionId ∉ i.ownerIds := by
        intro hmem
        have hzero := (isClaimableBy_iff.mp hclaimable).subset hmem
        obtain ⟨k0, hk0, hcoordinating⟩ := hco
        rw [List.mem_singleton.mp hzero, hk0] at hc
        cases hc
        rw [hphase] at hcoordinating
        cases hcoordinating
      have hsame : t = i.transaction := by
        rcases relinquishOwnership_eq hr with rfl | ⟨hmem, -⟩ | ⟨hmem, -⟩
        · rfl
        · exact absurd hmem hnot
        · exact absurd hmem hnot
      show Function.update s.site m.ref _ m.ref = some i
      rw [Function.update_self, hsame]
    · exact (Function.update_of_ne hym ..).trans hy
  | release hk hx howner hmode => exact ⟨rfl, rfl, fun _ _ hy _ _ => hy⟩
  | prepare hk hx howner hd => exact ⟨rfl, rfl, fun _ _ hy _ _ => hy⟩
  | commit hk hready => exact ⟨rfl, rfl, fun _ _ hy _ _ => hy⟩

/-- `Prepare` writes what the participant has once it is back with the root. -/
theorem Move.prepared (h : Move env s a s') {x : σ} {d : Stored κ V M}
    (hd : s'.prepared x = some d) : s.prepared x = some d ∨
      (s.Coordinating ∧ ∃ i, s.site x = some i ∧ isClaimableBy i.ownerIds [0] = true ∧
        d = Site.toPrepare (env.usingRestartDetection x) i) := by
  cases h with
  | @prepare y k i d' hk hx howner hd' =>
    have hput : Function.update s.prepared y (some d') x = some d := hd
    rw [Function.update_apply] at hput
    split at hput
    next heq =>
      subst heq
      rw [← Option.some.inj hput]
      exact .inr ⟨⟨k, coordinator_eq hk⟩, i, hx, howner, hd'⟩
    next => exact .inl hput
  | _ => exact .inl hd

end System

end Reboot.Txn.CallTree
