import Reboot.Txn.CallTreeOwners

/-!
# Read-only participants have nothing to commit

The coordinator commits only the participants in `should_commit()`; the others are
prepared and released. A call reports its participant as read-only by what it saw of the
lock mode when it joined, and `transaction_participant_prepare` decides once more, by the
mode at the end. A write that is missed by either is dropped, while the root commits.

`writes_kept` says that nothing is dropped as long as three things do not happen, and
the runs behind it show what happens otherwise:
- a transaction's commit overtakes the end of a transaction within it;
- the lock is upgraded, or a transaction method completes with a change, while a nested
  transaction still owns the state: its rollback takes the mode back to shared;
- a transaction method declared exclusive upgrades the lock while a writer that joined
  in shared mode waits for ownership: the writer finds the lock exclusive and never
  reports its own state.

Mirroring notes:
- `Covers` is about a report that will reach the root if the call it is for counts;
  `Raised` is about a mode that no rollback takes back without the call.
-/

namespace Reboot.Txn.CallTree.System

open Reboot.Lib Reboot.Txn.Nested

variable {σ κ V M : Type}

/-! ## Reports and modes -/

/-- Some call has reported the state as one to commit, and counts whenever a call with the
given transactions does. What an aborted transaction had reported is taken back. -/
def Covers (s : System σ κ V M) (x : σ) (ids : List Nat) : Prop :=
  ∃ u k, s.call u = some k ∧
    (x ∈ k.participants.shouldCommit ∨ k.aborted = true) ∧ s.InForce k.transactionIds ids

/-- A writer that joined in shared mode waits for ownership. -/
def Waiting (s : System σ κ V M) (x : σ) : Prop :=
  ∃ c k, s.call c = some k ∧ k.method.ref = x ∧ k.method.kind = .writer ∧
    k.phase = .claiming ∧ x ∉ k.participants.shouldCommit

/-- The lock is exclusive, and stays so unless a transaction around the call aborts. -/
structure Raised (s : System σ κ V M) (ids : List Nat) (i : Site κ V M) : Prop where
  mode : i.mode = .exclusive
  owned : 0 ∈ i.ownerIds
  snapshots : ∀ p ∈ i.transaction.snapshots, p.mode = .exclusive ∨ s.InForce p.transactionIds ids

/-- The modes of a state and of its snapshots, and who has reported it. -/
structure Modes (s : System σ κ V M) (x : σ) (i : Site κ V M) : Prop where
  rooted : i.ownerIds ≠ [] → 0 ∈ i.ownerIds
  rootedSnapshots : ∀ p ∈ i.transaction.snapshots, p.ownerIds ≠ [] → 0 ∈ p.ownerIds
  le : ∀ p ∈ i.transaction.snapshots, p.mode = .exclusive → i.mode = .exclusive
  sorted : i.transaction.snapshots.Pairwise fun p q => p.mode = .exclusive → q.mode = .exclusive
  used : ∀ p ∈ i.transaction.snapshots, p.mode = .exclusive → p.ownerIds ≠ []
  covers : i.mode = .exclusive → s.Covers x i.ownerIds ∨ ¬ s.Waiting x
  coversSnapshots : ∀ p ∈ i.transaction.snapshots, p.mode = .exclusive →
    s.Covers x p.ownerIds ∨ ¬ s.Waiting x

section

variable {s s' : System σ κ V M} {x : σ} {i i' : Site κ V M} {ids ids' : List Nat}
  {t : Participant Nat κ (Option Nat × V) (Nat × M)}

theorem Covers.later (hl : Later s s') (h : s.Covers x ids) : s'.Covers x ids := by
  obtain ⟨u, k, hu, hreported, hforce⟩ := h
  obtain ⟨k', hu', hgrown⟩ := hl u k hu
  refine ⟨u, k', hu', ?_, hgrown.transactionIds ▸ hforce.later hl⟩
  rcases hreported with hmem | haborted
  · exact hgrown.reported x hmem
  · right
    have habort := hl.hasAborted (hasAborted_iff.mpr ⟨k, hu, haborted⟩)
    obtain ⟨k'', hk'', haborted''⟩ := hasAborted_iff.mp habort
    rw [hu'] at hk''
    cases hk''
    exact haborted''

theorem Covers.mono (h : s.Covers x ids) (hsub : ∀ t ∈ ids, t ∈ ids' ∨ s.hasCommitted t = true) :
    s.Covers x ids' := by
  obtain ⟨u, k, hu, hreported, hforce⟩ := h
  exact ⟨u, k, hu, hreported, hforce.mono hsub⟩

theorem Covers.of_isPrefix (h : s.Covers x ids) (hp : ids <+: ids') : s.Covers x ids' :=
  h.mono fun _ ht => .inl (hp.subset ht)

theorem Raised.later (hl : Later s s') (h : s.Raised ids i) : s'.Raised ids i :=
  { h with snapshots := fun p hp => (h.snapshots p hp).imp id fun h => h.later hl }

theorem Raised.congr (h : s.Raised ids i) (hc : i'.transaction.contents.mode = .exclusive)
    (ho : i'.ownerIds = i.ownerIds)
    (hs : i'.transaction.snapshots = i.transaction.snapshots) : s.Raised ids i' := by
  obtain ⟨-, howned, hsnapshots⟩ := h
  refine ⟨hc, ?_, ?_⟩
  · rw [ho]
    exact howned
  · rw [hs]
    exact hsnapshots

/-- A claim does not lower the mode, and the snapshot it takes has the mode of the state. -/
theorem Raised.claim (h : s.Raised ids i) (ht : claimOwnership i.transaction ids' = some t)
    (hi : i'.transaction = t) : s.Raised ids i' := by
  obtain ⟨hp, hcontents, hsnapshots⟩ := claimOwnership_eq ht
  constructor
  · rw [Site.mode, hi, hcontents]
    exact h.mode
  · rw [Site.ownerIds, hi, hcontents]
    exact hp.subset h.owned
  · rw [hi]
    rcases hsnapshots with hs | hs <;> rw [hs]
    · exact h.snapshots
    · intro p hmem
      rcases List.mem_append.mp hmem with hmem | hmem
      · exact h.snapshots p hmem
      · rw [List.mem_singleton.mp hmem]
        have hne : i.transaction.contents.ownerIds ≠ [] := List.ne_nil_of_mem h.owned
        left
        simp only [snapshotOf, if_neg hne]
        exact h.mode

/-- A rollback lowers the mode only if it also takes back the call. -/
theorem Raised.relinquish [DecidableEq κ] (h : s.Raised ids i) (hm : s.Modes x i) {n : Nat}
    {aborted : Bool} (ht : relinquishOwnership i.transaction n aborted = some t)
    (hoff : aborted = false → s.OffCommitted i.ownerIds n)
    (hroot : s.hasCommitted 0 = false)
    (haborted : aborted = true → s.hasCommitted n = false) (hi : i'.transaction = t) :
    (aborted = true ∧ n ∈ ids) ∨ s.Raised ids i' := by
  rcases relinquishOwnership_eq ht with rfl | ⟨-, hab, older, p, newer, hsplit, hnp, hs, hcontents⟩ |
    ⟨-, hab, hpre, hcontents⟩
  · right
    exact h.congr (by rw [hi]; exact h.mode) (by rw [Site.ownerIds, hi]; rfl) (by rw [hi])
  · have hp : p ∈ i.transaction.snapshots := by
      rw [hsplit]
      exact List.mem_append_right _ List.mem_cons_self
    rcases h.snapshots p hp with hexclusive | hforce
    · right
      constructor
      · rw [Site.mode, hi, hcontents]
        exact hexclusive
      · rw [Site.ownerIds, hi, hcontents]
        exact hm.rootedSnapshots p hp (hm.used p hp hexclusive)
      · rw [hi, hs]
        exact fun q hq => h.snapshots q (hsplit ▸ List.mem_append_left _ hq)
    · left
      refine ⟨hab, (hforce n hnp).resolve_right ?_⟩
      rw [haborted hab]
      simp
  · right
    constructor
    · rw [Site.mode, hi, hcontents]
      exact h.mode
    · rw [Site.ownerIds, hi, hcontents]
      show 0 ∈ i.ownerIds.take (i.ownerIds.idxOf n)
      have hkept : s.InForce [0] i.ownerIds := by
        intro t ht
        rw [List.mem_singleton.mp ht]
        exact .inl h.owned
      refine (hkept.take (hoff hab) 0 (List.mem_singleton_self 0)).resolve_right ?_
      rw [hroot]
      simp
    · rw [hi]
      exact fun q hq => h.snapshots q (hpre.subset hq)

/-- The lock is exclusive while the call itself owns the state. -/
theorem Owned.raised (h : s.Owned i) (hmode : i.mode = .exclusive) (howner : i.ownerIds = ids)
    (hroot : 0 ∈ ids) : s.Raised ids i where
  mode := hmode
  owned := howner ▸ hroot
  snapshots p hp := .inr (howner ▸ h.taken p hp)

/-- A claim in exclusive mode. -/
theorem Owned.raised_claim (h : s.Owned i) (ht : claimOwnership i.transaction ids = some t)
    (hmode : i.mode = .exclusive) (hroot : 0 ∈ ids) (hi : i'.transaction = t) :
    s.Raised ids i' := by
  have howned := h.claim ht hroot hi
  obtain ⟨-, hcontents, -⟩ := claimOwnership_eq ht
  refine howned.raised ?_ ?_ hroot
  · rw [Site.mode, hi, hcontents]
    exact hmode
  · rw [Site.ownerIds, hi, hcontents]

/-! ## The modes of one state -/

/-- Nobody has used the state. -/
theorem modes_unused (ho : i.ownerIds = []) (hs : i.transaction.snapshots = [])
    (hw : ¬ s.Waiting x) : s.Modes x i := by
  constructor
  · intro hne
    exact absurd ho hne
  all_goals try rw [hs]
  · nofun
  · nofun
  · exact List.Pairwise.nil
  · nofun
  · exact fun _ => .inr hw
  · nofun

/-- No writer has begun to wait, or the mode is shared anyway. -/
theorem Modes.later (hl : Later s s') (h : s.Modes x i)
    (hw : s'.Waiting x → s.Waiting x ∨ i.mode = .shared) : s'.Modes x i := by
  have hcovers : ∀ ids, i.mode = .exclusive → s.Covers x ids ∨ ¬ s.Waiting x →
      s'.Covers x ids ∨ ¬ s'.Waiting x := by
    intro ids hmode hor
    refine hor.imp (fun h => h.later hl) fun hno hwait => ?_
    rcases hw hwait with hold | hshared
    · exact hno hold
    · rw [hmode] at hshared
      cases hshared
  exact { h with
    covers := fun hmode => hcovers _ hmode (h.covers hmode)
    coversSnapshots := fun p hp hmode =>
      hcovers _ (h.le p hp hmode) (h.coversSnapshots p hp hmode) }

theorem Modes.congr (h : s.Modes x i) (hm : i'.mode = i.mode) (ho : i'.ownerIds = i.ownerIds)
    (hs : i'.transaction.snapshots = i.transaction.snapshots) : s.Modes x i' := by
  obtain ⟨hrooted, hrootedS, hle, hsorted, hused, hcovers, hcoversS⟩ := h
  constructor
  · rw [ho]
    exact hrooted
  · rw [hs]
    exact hrootedS
  · rw [hs, hm]
    exact hle
  · rw [hs]
    exact hsorted
  · rw [hs]
    exact hused
  · rw [hm, ho]
    exact hcovers
  · rw [hs]
    exact hcoversS

/-- The lock is upgraded for a call that reports it, or while no writer waits. -/
theorem Modes.upgrade (h : s.Modes x i) (hm : i'.mode = .exclusive)
    (ho : i'.ownerIds = i.ownerIds) (hs : i'.transaction.snapshots = i.transaction.snapshots)
    (hcovers : s.Covers x i.ownerIds ∨ ¬ s.Waiting x) : s.Modes x i' := by
  obtain ⟨hrooted, hrootedS, -, hsorted, hused, -, hcoversS⟩ := h
  constructor
  · rw [ho]
    exact hrooted
  · rw [hs]
    exact hrootedS
  · exact fun _ _ _ => hm
  · rw [hs]
    exact hsorted
  · rw [hs]
    exact hused
  · rw [ho]
    exact fun _ => hcovers
  · rw [hs]
    exact hcoversS

theorem Modes.claim (h : s.Modes x i) (howned : s.Owned i) (hroot : s.hasCommitted 0 = false)
    (ht : claimOwnership i.transaction ids = some t) (hids : 0 ∈ ids) (hi : i'.transaction = t) :
    s.Modes x i' := by
  obtain ⟨hp, hcontents, hsnapshots⟩ := claimOwnership_eq ht
  have hmode : i'.mode = i.mode := by rw [Site.mode, hi, hcontents]; rfl
  have howner : i'.ownerIds = ids := by rw [Site.ownerIds, hi, hcontents]
  -- the mode of the new snapshot is that of the state, unless nobody has used it
  have hnew : (snapshotOf i.transaction.contents ids).mode = .exclusive →
      i.ownerIds ≠ [] ∧ i.mode = .exclusive := by
    intro hexclusive
    simp only [snapshotOf] at hexclusive
    split at hexclusive
    next => cases hexclusive
    next hne => exact ⟨hne, hexclusive⟩
  have hold : ∀ p ∈ i'.transaction.snapshots, p ∈ i.transaction.snapshots ∨
      p = snapshotOf i.transaction.contents ids := by
    intro p hmem
    rw [hi] at hmem
    rcases hsnapshots with hs | hs <;> rw [hs] at hmem
    · exact .inl hmem
    · exact (List.mem_append.mp hmem).imp id List.mem_singleton.mp
  constructor
  · rw [howner]
    exact fun _ => hids
  · intro p hmem
    rcases hold p hmem with hmem | rfl
    · exact h.rootedSnapshots p hmem
    · exact h.rooted
  · intro p hmem hexclusive
    rw [hmode]
    rcases hold p hmem with hmem | rfl
    · exact h.le p hmem hexclusive
    · exact (hnew hexclusive).2
  · rw [hi]
    rcases hsnapshots with hs | hs <;> rw [hs]
    · exact h.sorted
    · refine List.pairwise_append.mpr ⟨h.sorted, List.pairwise_singleton _ _, fun p hmem q hq => ?_⟩
      rw [List.mem_singleton.mp hq]
      intro hexclusive
      -- whoever took the older snapshot is still an owner
      have hne : i.transaction.contents.ownerIds ≠ [] := by
        have hin := (howned.taken p hmem 0 (howned.rooted p hmem)).resolve_right (by
          rw [hroot]
          simp)
        exact List.ne_nil_of_mem hin
      simp only [snapshotOf, if_neg hne]
      exact h.le p hmem hexclusive
  · intro p hmem hexclusive
    rcases hold p hmem with hmem | rfl
    · exact h.used p hmem hexclusive
    · exact (hnew hexclusive).1
  · rw [hmode, howner]
    exact fun hexclusive => (h.covers hexclusive).imp (fun h => h.of_isPrefix hp) id
  · intro p hmem hexclusive
    rcases hold p hmem with hmem | rfl
    · exact h.coversSnapshots p hmem hexclusive
    · exact h.covers (hnew hexclusive).2

theorem Modes.relinquish [DecidableEq κ] (h : s.Modes x i) (hroot : s.hasCommitted 0 = false)
    {n : Nat} {aborted : Bool} (ht : relinquishOwnership i.transaction n aborted = some t)
    (hoff : aborted = false → s.OffCommitted i.ownerIds n) (hi : i'.transaction = t) :
    s.Modes x i' := by
  rcases relinquishOwnership_eq ht with rfl | ⟨-, -, older, p, newer, hsplit, -, hs, hcontents⟩ |
    ⟨-, hab, hpre, hcontents⟩
  · exact h.congr (by rw [Site.mode, hi]; rfl) (by rw [Site.ownerIds, hi]; rfl) (by rw [hi])
  · have hp : p ∈ i.transaction.snapshots := by
      rw [hsplit]
      exact List.mem_append_right _ List.mem_cons_self
    have hsub : ∀ q ∈ i'.transaction.snapshots, q ∈ i.transaction.snapshots := by
      intro q hq
      rw [hi, hs] at hq
      rw [hsplit]
      exact List.mem_append_left _ hq
    have hmode : i'.mode = p.mode := by rw [Site.mode, hi, hcontents]; rfl
    have howner : i'.ownerIds = p.ownerIds := by rw [Site.ownerIds, hi, hcontents]; rfl
    have hsorted := h.sorted
    rw [hsplit] at hsorted
    obtain ⟨holder, -, hbefore⟩ := List.pairwise_append.mp hsorted
    constructor
    · rw [howner]
      exact h.rootedSnapshots p hp
    · exact fun q hq => h.rootedSnapshots q (hsub q hq)
    · rw [hi, hs, hmode]
      exact fun q hq => hbefore q hq p List.mem_cons_self
    · rw [hi, hs]
      exact holder
    · exact fun q hq => h.used q (hsub q hq)
    · rw [hmode, howner]
      exact h.coversSnapshots p hp
    · exact fun q hq => h.coversSnapshots q (hsub q hq)
  · have hsub : ∀ q ∈ i'.transaction.snapshots, q ∈ i.transaction.snapshots := by
      intro q hq
      rw [hi] at hq
      exact hpre.subset hq
    have hmode : i'.mode = i.mode := by rw [Site.mode, hi, hcontents]; rfl
    have howner : i'.ownerIds = i.ownerIds.take (i.ownerIds.idxOf n) := by
      rw [Site.ownerIds, hi, hcontents]
      rfl
    have hkept : ∀ t ∈ i.ownerIds, t ∈ i'.ownerIds ∨ s.hasCommitted t = true := by
      rw [howner]
      exact (inForce_of_isPrefix (List.prefix_refl i.ownerIds)).take (hoff hab)
    constructor
    · intro hne
      refine (hkept 0 (h.rooted ?_)).resolve_right (by rw [hroot]; simp)
      rintro hnil
      rw [howner, hnil] at hne
      exact hne rfl
    · exact fun q hq => h.rootedSnapshots q (hsub q hq)
    · rw [hmode]
      exact fun q hq => h.le q (hsub q hq)
    · rw [hi]
      exact h.sorted.sublist hpre.sublist
    · exact fun q hq => h.used q (hsub q hq)
    · rw [hmode]
      exact fun hexclusive => (h.covers hexclusive).imp (fun h => h.mono hkept) id
    · exact fun q hq => h.coversSnapshots q (hsub q hq)

end

/-! ## All states and calls -/

/-- What is known about every state, every writer at work and every change stored so far. -/
structure Elision (s : System σ κ V M) : Prop where
  modes : ∀ x i, s.site x = some i → s.Modes x i
  writer : ∀ c k i, s.call c = some k → k.method.kind = .writer → k.phase.working = true →
    s.site k.method.ref = some i →
    s.Covers k.method.ref k.transactionIds ∧ s.Raised k.transactionIds i
  changes : ∀ c x, (c, x) ∈ s.changes → ∃ k i, s.call c = some k ∧ s.site x = some i ∧
    i.acquired = true ∧ s.Covers x k.transactionIds ∧
    (s.withinAborted c ∨ s.Raised k.transactionIds i)
  released : ∀ x, s.released x = true →
    s.Coordinating ∧ ∀ c, (c, x) ∈ s.changes → s.withinAborted c
  committed : s.committed = true → ∃ k, s.call 0 = some k ∧ k.phase = .coordinating ∧
    ∀ x ∈ k.participants.shouldCommit, (s.prepared x).isSome = true ∨ s.released x = true

section

variable {s s' : System σ κ V M}

/-- Where a state's mode is raised, it stays so or a transaction around the call aborts. -/
def KeepsRaised (s s' : System σ κ V M) : Prop :=
  ∀ x i ids, s.site x = some i → i.acquired = true → s.Raised ids i →
    ∃ i', s'.site x = some i' ∧ i'.acquired = true ∧
      ((∃ t ∈ ids, s'.hasAborted t = true) ∨ s'.Raised ids i')

/-- The parts a step has to be shown for. `hwriter` is about the writers that begin to
work, `hchanges` about the changes that are stored. -/
theorem Elision.of_parts [DecidableEq σ] (he : Elision s) (ho : Owners s) (hmove : CallMove s s') (hl : Later s s')
    (ht : Tree s) (ht' : Tree s') (hnb : ¬ s'.Broken) (hraised : KeepsRaised s s')
    (hpresent : ∀ x i, s.site x = some i → i.acquired = true →
      ∃ i', s'.site x = some i' ∧ i'.acquired = true)
    (hmodes : ∀ x i, s'.site x = some i → s'.Modes x i)
    (hwriter : ∀ c k', s'.call c = some k' → k'.method.kind = .writer →
      k'.phase.working = true →
      (∃ k, s.call c = some k ∧ k.phase.working = true ∧ k'.method = k.method ∧
        k'.transactionIds = k.transactionIds) ∨
      (s'.Covers k'.method.ref k'.transactionIds ∧
        ∀ i', s'.site k'.method.ref = some i' → s'.Raised k'.transactionIds i'))
    (hchanges : ∀ c x, (c, x) ∈ s'.changes → (c, x) ∈ s.changes ∨
      ((∃ k, s.call c = some k ∧ k.phase.live = true) ∧
        ∃ k' i', s'.call c = some k' ∧ s'.site x = some i' ∧ i'.acquired = true ∧
          s'.Covers x k'.transactionIds ∧ s'.Raised k'.transactionIds i'))
    (hreleased : s'.released = s.released) (hprepared : s'.prepared = s.prepared)
    (hcommitted : s'.committed = s.committed) : Elision s' := by
  constructor
  · exact hmodes
  · intro c k' i' hc hkind hworking hx
    have hlive := Phase.live_of_claimed (Phase.claimed_of_working hworking)
    rcases hwriter c k' hc hkind hworking with ⟨k, hk, hkw, hmethod, hids⟩ | ⟨hcovers, hnew⟩
    · obtain ⟨i, hi, hacquired⟩ := ho.present c k hk
        (Phase.engaged_of_claimed (Phase.claimed_of_working hkw))
      obtain ⟨hcovers, hr⟩ := he.writer c k i hk (hmethod ▸ hkind) hkw hi
      rw [hmethod, hids]
      refine ⟨hcovers.later hl, ?_⟩
      obtain ⟨i'', hi'', -, hor⟩ := hraised _ i _ hi hacquired hr
      rw [hmethod, hi''] at hx
      cases hx
      refine hor.resolve_left ?_
      rintro ⟨t, hmem, haborted⟩
      rw [ht'.not_aborted hnb hc hlive (hids ▸ hmem)] at haborted
      cases haborted
    · exact ⟨hcovers, hnew i' hx⟩
  · intro c x hcx
    rcases hchanges c x hcx with hold | ⟨-, k', i', hc, hx, hacquired, hcovers, hr⟩
    · obtain ⟨k, i, hk, hi, hacquired, hcovers, hor⟩ := he.changes c x hold
      obtain ⟨k', hk', hgrown⟩ := hl c k hk
      rcases hor with hwithin | hr
      · obtain ⟨i', hi', ha⟩ := hpresent x i hi hacquired
        exact ⟨k', i', hk', hi', ha, hgrown.transactionIds ▸ hcovers.later hl,
          .inl (hl.withinAborted hwithin)⟩
      · obtain ⟨i', hi', ha, hor⟩ := hraised x i _ hi hacquired hr
        refine ⟨k', i', hk', hi', ha, hgrown.transactionIds ▸ hcovers.later hl, ?_⟩
        rw [hgrown.transactionIds]
        refine hor.imp ?_ id
        rintro ⟨t, hmem, haborted⟩
        exact ⟨k', hk', t, hgrown.transactionIds ▸ hmem, haborted⟩
    · exact ⟨k', i', hc, hx, hacquired, hcovers, .inr hr⟩
  · intro x hx
    rw [hreleased] at hx
    obtain ⟨⟨k, hk, hphase⟩, hall⟩ := he.released x hx
    have hk' : s'.call 0 = some k := hmove.coordinator hk hphase ht
    refine ⟨⟨k, hk', hphase⟩, fun c hcx => ?_⟩
    rcases hchanges c x hcx with hold | ⟨⟨kc, hkc, hlive⟩, -⟩
    · exact hl.withinAborted (hall c hold)
    · -- nobody stores any more
      exfalso
      rw [Phase.not_live_of_sound (ht.all_sound ⟨k, hk, hphase⟩ hkc)] at hlive
      cases hlive
  · intro hyes
    rw [hcommitted] at hyes
    obtain ⟨k, hk, hphase, hall⟩ := he.committed hyes
    refine ⟨k, hmove.coordinator hk hphase ht, hphase, ?_⟩
    rw [hprepared, hreleased]
    exact hall

/-- A step that leaves owners, snapshots and modes alone. -/
theorem Elision.quiet [DecidableEq σ] (he : Elision s) (ho : Owners s) (hmove : CallMove s s')
    (hl : Later s s') (ht : Tree s) (ht' : Tree s') (hnb : ¬ s'.Broken) (hsame : SameOwners s s')
    (hmode : ∀ x i i', s.site x = some i → s'.site x = some i' → i'.mode = i.mode)
    (hwait : ∀ x, s'.Waiting x → s.Waiting x ∨ ∀ i, s.site x = some i → i.mode = .shared)
    (hwriter : ∀ c k', s'.call c = some k' → k'.method.kind = .writer →
      k'.phase.working = true → ∃ k, s.call c = some k ∧ k.phase.working = true ∧
        k'.method = k.method ∧ k'.transactionIds = k.transactionIds)
    (hchanges : s'.changes = s.changes) (hreleased : s'.released = s.released)
    (hprepared : s'.prepared = s.prepared) (hcommitted : s'.committed = s.committed) :
    Elision s' := by
  refine he.of_parts ho hmove hl ht ht' hnb ?_ ?_ ?_ ?_ ?_ hreleased hprepared hcommitted
  · intro x i ids hx hacquired hr
    rcases hsame x with ⟨hnone, -⟩ | ⟨j, i', hj, hi', howner, hsnaps, ha⟩
    · rw [hx] at hnone
      cases hnone
    · rw [hx] at hj
      cases hj
      have hm := (hmode x i i' hx hi').trans hr.mode
      exact ⟨i', hi', ha hacquired, .inr ((hr.later hl).congr hm howner hsnaps)⟩
  · intro x i hx hacquired
    rcases hsame x with ⟨hnone, -⟩ | ⟨j, i', hj, hi', -, -, ha⟩
    · rw [hx] at hnone
      cases hnone
    · rw [hx] at hj
      cases hj
      exact ⟨i', hi', ha hacquired⟩
  · intro x i' hx
    rcases hsame x with ⟨-, hnone⟩ | ⟨i, j, hi, hj, howner, hsnaps, -⟩
    · rw [hx] at hnone
      cases hnone
    · rw [hx] at hj
      cases hj
      have hold := (he.modes x i hi).later hl fun hw => (hwait x hw).imp id fun h => h i hi
      exact hold.congr (hmode x i i' hi hx) howner hsnaps
  · exact fun c k' hc hkind hworking => .inl (hwriter c k' hc hkind hworking)
  · intro c x hcx
    rw [hchanges] at hcx
    exact .inl hcx

/-- A writer that waits after one call went on has waited before, if that call does not. -/
theorem waiting_of_went {c : Nat} {k' : Call σ κ V M} {x : σ} (hw : s'.Waiting x)
    (hcall : s'.call = Function.update s.call c (some k')) (hno : k'.phase ≠ .claiming) :
    s.Waiting x := by
  obtain ⟨d, kd, hd, href, hkind, hphase, hnot⟩ := hw
  rcases call_put hcall hd with ⟨rfl, rfl⟩ | ⟨-, hold⟩
  · exact absurd hphase hno
  · exact ⟨d, kd, hold, href, hkind, hphase, hnot⟩

/-- A writer at work after one call went on was at work before, if that call was. -/
theorem working_of_went {c d : Nat} {k k' kd : Call σ κ V M} (hd : s'.call d = some kd)
    (hkind : kd.method.kind = .writer) (hworking : kd.phase.working = true)
    (hc : s.call c = some k) (hcall : s'.call = Function.update s.call c (some k'))
    (hmethod : k'.method = k.method) (hids : k'.transactionIds = k.transactionIds)
    (hw : k'.method.kind = .writer → k'.phase.working = true → k.phase.working = true) :
    ∃ k, s.call d = some k ∧ k.phase.working = true ∧ kd.method = k.method ∧
      kd.transactionIds = k.transactionIds := by
  rcases call_put hcall hd with ⟨rfl, rfl⟩ | ⟨-, hold⟩
  · exact ⟨k, hc, hw hkind hworking, hmethod, hids⟩
  · exact ⟨kd, hold, hworking, rfl, rfl⟩

/-- One call goes on, and neither begins to wait nor to work. -/
theorem Elision.went [DecidableEq σ] (he : Elision s) (ho : Owners s) (hmove : CallMove s s')
    (hl : Later s s') (ht : Tree s) (ht' : Tree s') (hnb : ¬ s'.Broken) (hsame : SameOwners s s')
    {c : Nat} {k k' : Call σ κ V M} (hc : s.call c = some k)
    (hcall : s'.call = Function.update s.call c (some k'))
    (hmode : ∀ x i i', s.site x = some i → s'.site x = some i' → i'.mode = i.mode)
    (hmethod : k'.method = k.method) (hids : k'.transactionIds = k.transactionIds)
    (hno : k'.phase ≠ .claiming)
    (hw : k'.method.kind = .writer → k'.phase.working = true → k.phase.working = true)
    (hchanges : s'.changes = s.changes) (hreleased : s'.released = s.released)
    (hprepared : s'.prepared = s.prepared) (hcommitted : s'.committed = s.committed) :
    Elision s' :=
  he.quiet ho hmove hl ht ht' hnb hsame hmode
    (fun _ hwait => .inl (waiting_of_went hwait hcall hno))
    (fun _ _ hd hkind hworking => working_of_went hd hkind hworking hc hcall hmethod hids hw)
    hchanges hreleased hprepared hcommitted

theorem mode_of_eq (hsite : s'.site = s.site) (x : σ) (i i' : Site κ V M)
    (hi : s.site x = some i) (hi' : s'.site x = some i') : i'.mode = i.mode := by
  rw [hsite, hi] at hi'
  cases hi'
  rfl

theorem mode_of_put [DecidableEq σ] {y : σ} {j j' : Site κ V M} (hy : s.site y = some j)
    (hsite : s'.site = Function.update s.site y (some j')) (hm : j'.mode = j.mode) (x : σ)
    (i i' : Site κ V M) (hi : s.site x = some i) (hi' : s'.site x = some i') :
    i'.mode = i.mode := by
  rw [hsite, Function.update_apply] at hi'
  split at hi'
  next heq =>
    subst heq
    rw [hy] at hi
    cases hi
    cases hi'
    exact hm
  next =>
    rw [hi] at hi'
    cases hi'
    rfl

/-! ## The steps that matter -/

/-- Nobody waits for a state that nobody has joined. -/
theorem Owners.not_waiting (ho : Owners s) {x : σ}
    (hx : ∀ i, s.site x = some i → i.acquired = false) : ¬ s.Waiting x := by
  rintro ⟨c, k, hc, rfl, -, hphase, -⟩
  obtain ⟨i, hi, hacquired⟩ := ho.present c k hc (by rw [hphase]; rfl)
  rw [hx i hi] at hacquired
  cases hacquired

/-- A participant that nobody has joined appears or goes. -/
theorem Elision.unjoined [DecidableEq σ] (he : Elision s) (ho : Owners s) (hmove : CallMove s s')
    (hl : Later s s') (ht : Tree s) (ht' : Tree s') (hnb : ¬ s'.Broken) {x : σ}
    {o : Option (Site κ V M)} (hsite : s'.site = Function.update s.site x o)
    (hx : ∀ i, s.site x = some i → i.acquired = false)
    (hunused : ∀ i, o = some i → i.ownerIds = [] ∧ i.transaction.snapshots = [])
    (hcall : s'.call = s.call) (hchanges : s'.changes = s.changes)
    (hreleased : s'.released = s.released) (hprepared : s'.prepared = s.prepared)
    (hcommitted : s'.committed = s.committed) : Elision s' := by
  have hkept : ∀ y i, s.site y = some i → i.acquired = true → s'.site y = some i := by
    intro y i hy hacquired
    have hne : y ≠ x := by
      rintro rfl
      rw [hx i hy] at hacquired
      cases hacquired
    rw [hsite, Function.update_of_ne hne]
    exact hy
  have hwait : ∀ y, s'.Waiting y → s.Waiting y := by
    rintro y ⟨c, k, hc, hk⟩
    exact ⟨c, k, by rw [← hcall]; exact hc, hk⟩
  refine he.of_parts ho hmove hl ht ht' hnb ?_ ?_ ?_ ?_ ?_ hreleased hprepared hcommitted
  · intro y i ids hy hacquired hr
    exact ⟨i, hkept y i hy hacquired, hacquired, .inr (hr.later hl)⟩
  · exact fun y i hy hacquired => ⟨i, hkept y i hy hacquired, hacquired⟩
  · intro y i hy
    rcases site_put hsite hy with ⟨rfl, hi⟩ | ⟨-, hold⟩
    · obtain ⟨howner, hsnaps⟩ := hunused i hi
      exact modes_unused howner hsnaps fun hw => ho.not_waiting hx (hwait _ hw)
    · exact (he.modes y i hold).later hl fun hw => .inl (hwait y hw)
  · intro c k hc hkind hworking
    rw [hcall] at hc
    exact .inl ⟨k, hc, hworking, rfl, rfl⟩
  · intro c y hcx
    rw [hchanges] at hcx
    exact .inl hcx

/-- A call claims its state. A writer that finds the lock exclusive, and has not reported
the state itself, was waiting, so somebody else has. -/
theorem Elision.claim [DecidableEq σ] (he : Elision s) (ho : Owners s) (hmove : CallMove s s')
    (hl : Later s s') (ht : Tree s) (ht' : Tree s') (hnb : ¬ s'.Broken)
    (hroot : s'.hasCommitted 0 = false) {c : Nat} {k k' : Call σ κ V M} {i i' : Site κ V M}
    {t : Participant Nat κ (Option Nat × V) (Nat × M)} (hc : s.call c = some k)
    (hx : s.site k.method.ref = some i) (hphase : k.phase = .claiming)
    (hclaim : claimOwnership i.transaction k.transactionIds = some t)
    (hcall : s'.call = Function.update s.call c (some k'))
    (hsite : s'.site = Function.update s.site k.method.ref (some i'))
    (hk' : k' = { k with phase := if k.nested then .draining else k.enter i.mode })
    (hi : i'.transaction = t) (ha : i'.acquired = i.acquired)
    (hchanges : s'.changes = s.changes) (hreleased : s'.released = s.released)
    (hprepared : s'.prepared = s.prepared) (hcommitted : s'.committed = s.committed) :
    Elision s' := by
  have hids : 0 ∈ k.transactionIds := ht.root_mem hc
  have hno : k'.phase ≠ .claiming := by
    rw [hk']
    dsimp only
    split
    · nofun
    · intro h
      have hentered := Call.enter_entered (k := k) i.mode
      rw [h] at hentered
      cases hentered
  have hself : s'.call c = some k' := by rw [hcall, Function.update_self]
  have hnew : s'.site k.method.ref = some i' := by rw [hsite, Function.update_self]
  have hrootOld : s.hasCommitted 0 = false := by
    refine Bool.eq_false_iff.mpr fun h => ?_
    rw [hl.hasCommitted h] at hroot
    cases hroot
  refine he.of_parts ho hmove hl ht ht' hnb ?_ ?_ ?_ ?_ ?_ hreleased hprepared hcommitted
  · intro y j ids hy hacquired hr
    by_cases hyx : y = k.method.ref
    · subst hyx
      rw [hx] at hy
      cases hy
      exact ⟨i', hnew, ha.trans hacquired, .inr ((hr.claim hclaim hi).later hl)⟩
    · refine ⟨j, ?_, hacquired, .inr (hr.later hl)⟩
      rw [hsite, Function.update_of_ne hyx]
      exact hy
  · intro y j hy hacquired
    by_cases hyx : y = k.method.ref
    · subst hyx
      rw [hx] at hy
      cases hy
      exact ⟨i', hnew, ha.trans hacquired⟩
    · exact ⟨j, by rw [hsite, Function.update_of_ne hyx]; exact hy, hacquired⟩
  · intro y j hy
    have hwait : s'.Waiting y → s.Waiting y ∨ j.mode = .shared :=
      fun hw => .inl (waiting_of_went hw hcall hno)
    rcases site_put hsite hy with ⟨rfl, hj⟩ | ⟨-, hold⟩
    · cases hj
      have hmodes := (he.modes _ i hx).claim (ho.owned _ i hx) hrootOld hclaim hids hi
      exact hmodes.later hl hwait
    · exact (he.modes y j hold).later hl hwait
  · intro d kd hd hkind hworking
    rcases call_put hcall hd with ⟨rfl, rfl⟩ | ⟨-, hold⟩
    · -- the writer found the lock exclusive
      right
      have hwriter : k.method.kind = .writer := by
        rw [hk'] at hkind
        exact hkind
      have hmode : i.mode = .exclusive := by
        cases hm : i.mode with
        | exclusive => rfl
        | shared =>
          rw [hk'] at hworking
          simp [Call.nested, hwriter, Kind.isTransaction, Call.enter, hm, Phase.working]
            at hworking
      have hkids : kd.transactionIds = k.transactionIds := by rw [hk']
      have hkmethod : kd.method = k.method := by rw [hk']
      have hparticipants : kd.participants = k.participants := by rw [hk']
      rw [hkids, hkmethod]
      constructor
      · by_cases hreported : k.method.ref ∈ k.participants.shouldCommit
        · refine ⟨d, kd, hself, .inl ?_, ?_⟩
          · rw [hparticipants]
            exact hreported
          · rw [hkids]
            exact inForce_of_isPrefix (List.prefix_refl _)
        · have hwaiting : s.Waiting k.method.ref :=
            ⟨d, k, hc, rfl, hwriter, hphase, hreported⟩
          have hcovers := ((he.modes _ i hx).covers hmode).resolve_right fun h => h hwaiting
          exact (hcovers.of_isPrefix (claimOwnership_eq hclaim).1).later hl
      · intro j hj
        rw [hnew] at hj
        cases hj
        exact ((ho.owned _ i hx).raised_claim hclaim hmode hids hi).later hl
    · exact .inl ⟨kd, hold, hworking, rfl, rfl⟩
  · intro d y hdy
    rw [hchanges] at hdy
    exact .inl hdy

/-- A call has the lock exclusive and goes to work or stores its effects. Unless it has
reported its state and nothing can lower the mode under it, it is no writer and stores
nothing. -/
theorem Elision.work [DecidableEq σ] (he : Elision s) (ho : Owners s) (hmove : CallMove s s')
    (hl : Later s s') (ht : Tree s) (ht' : Tree s') (hnb : ¬ s'.Broken) {c : Nat}
    {k k' : Call σ κ V M} {i i' : Site κ V M} (hc : s.call c = some k)
    (hx : s.site k.method.ref = some i) (hclaimed : k.phase.claimed = true)
    (hcall : s'.call = Function.update s.call c (some k'))
    (hsite : s'.site = Function.update s.site k.method.ref (some i'))
    (hmethod : k'.method = k.method) (hids : k'.transactionIds = k.transactionIds)
    (hno : k'.phase ≠ .claiming) (hmode : i'.mode = .exclusive)
    (howner : i'.ownerIds = i.ownerIds)
    (hsnaps : i'.transaction.snapshots = i.transaction.snapshots)
    (ha : i'.acquired = i.acquired)
    (hcovers : s'.Covers k.method.ref i.ownerIds ∨ ¬ s.Waiting k.method.ref)
    (hchanges : ∀ d y, (d, y) ∈ s'.changes → (d, y) ∈ s.changes ∨ (d = c ∧ y = k.method.ref))
    (hfacts : (s'.Covers k.method.ref k.transactionIds ∧ s'.Raised k.transactionIds i') ∨
      (k.method.kind ≠ .writer ∧ s'.changes = s.changes))
    (hreleased : s'.released = s.released) (hprepared : s'.prepared = s.prepared)
    (hcommitted : s'.committed = s.committed) : Elision s' := by
  have hself : s'.call c = some k' := by rw [hcall, Function.update_self]
  have hnew : s'.site k.method.ref = some i' := by rw [hsite, Function.update_self]
  have hacquired : i.acquired = true := by
    obtain ⟨j, hj, hacquired⟩ := ho.present c k hc (Phase.engaged_of_claimed hclaimed)
    rw [hx] at hj
    cases hj
    exact hacquired
  refine he.of_parts ho hmove hl ht ht' hnb ?_ ?_ ?_ ?_ ?_ hreleased hprepared hcommitted
  · intro y j ids hy hjacquired hr
    by_cases hyx : y = k.method.ref
    · subst hyx
      rw [hx] at hy
      cases hy
      exact ⟨i', hnew, ha.trans hacquired, .inr ((hr.later hl).congr hmode howner hsnaps)⟩
    · refine ⟨j, ?_, hjacquired, .inr (hr.later hl)⟩
      rw [hsite, Function.update_of_ne hyx]
      exact hy
  · intro y j hy hjacquired
    by_cases hyx : y = k.method.ref
    · subst hyx
      exact ⟨i', hnew, ha.trans hacquired⟩
    · exact ⟨j, by rw [hsite, Function.update_of_ne hyx]; exact hy, hjacquired⟩
  · intro y j hy
    rcases site_put hsite hy with ⟨rfl, hj⟩ | ⟨-, hold⟩
    · cases hj
      have hmodes := (he.modes _ i hx).later hl fun hw => .inl (waiting_of_went hw hcall hno)
      exact hmodes.upgrade hmode howner hsnaps
        (hcovers.imp id fun h hw => h (waiting_of_went hw hcall hno))
    · exact (he.modes y j hold).later hl fun hw => .inl (waiting_of_went hw hcall hno)
  · intro d kd hd hkind hworking
    rcases call_put hcall hd with ⟨rfl, rfl⟩ | ⟨-, hold⟩
    · right
      rw [hmethod] at hkind ⊢
      rw [hids]
      obtain ⟨hcov, hr⟩ := hfacts.resolve_right fun h => h.1 hkind
      refine ⟨hcov, fun j hj => ?_⟩
      rw [hnew] at hj
      cases hj
      exact hr
    · exact .inl ⟨kd, hold, hworking, rfl, rfl⟩
  · intro d y hdy
    rcases hfacts with ⟨hcov, hr⟩ | ⟨-, hsame⟩
    · rcases hchanges d y hdy with hold | ⟨rfl, rfl⟩
      · exact .inl hold
      · right
        refine ⟨⟨k, hc, Phase.live_of_claimed hclaimed⟩, k', i', hself, hnew,
          ha.trans hacquired, ?_⟩
        rw [hids]
        exact ⟨hcov, hr⟩
    · rw [hsame] at hdy
      exact .inl hdy

/-- A transaction is taken off the owners of a state. -/
theorem Elision.relinquish [DecidableEq σ] [DecidableEq κ] (he : Elision s) (ho : Owners s)
    (hmove : CallMove s s') (hl : Later s s') (ht : Tree s) (ht' : Tree s') (hnb : ¬ s'.Broken)
    (hroot : s'.hasCommitted 0 = false) {x : σ} {n : Nat} {aborted : Bool} {i i' : Site κ V M}
    {t : Participant Nat κ (Option Nat × V) (Nat × M)} (hx : s.site x = some i)
    (hr : relinquishOwnership i.transaction n aborted = some t)
    (hsite : s'.site = Function.update s.site x (some i')) (hi : i'.transaction = t)
    (ha : i'.acquired = i.acquired)
    (hoff : aborted = false → s'.OffCommitted i.ownerIds n)
    (haborted : aborted = true → s'.hasAborted n = true ∧ s'.hasCommitted n = false)
    (hwait : ∀ y, s'.Waiting y → s.Waiting y)
    (hwriter : ∀ c k', s'.call c = some k' → k'.method.kind = .writer →
      k'.phase.working = true → ∃ k, s.call c = some k ∧ k.phase.working = true ∧
        k'.method = k.method ∧ k'.transactionIds = k.transactionIds)
    (hchanges : s'.changes = s.changes) (hreleased : s'.released = s.released)
    (hprepared : s'.prepared = s.prepared) (hcommitted : s'.committed = s.committed) :
    Elision s' := by
  have hnew : s'.site x = some i' := by rw [hsite, Function.update_self]
  have hmodes := (he.modes x i hx).later hl fun hw => .inl (hwait x hw)
  refine he.of_parts ho hmove hl ht ht' hnb ?_ ?_ ?_ ?_ ?_ hreleased hprepared hcommitted
  · intro y j ids hy hacquired hraised
    by_cases hyx : y = x
    · subst hyx
      rw [hx] at hy
      cases hy
      refine ⟨i', hnew, ha.trans hacquired, ?_⟩
      rcases (hraised.later hl).relinquish hmodes hr hoff hroot (fun h => (haborted h).2) hi with
        ⟨hab, hmem⟩ | hkept
      · exact .inl ⟨n, hmem, (haborted hab).1⟩
      · exact .inr hkept
    · refine ⟨j, ?_, hacquired, .inr (hraised.later hl)⟩
      rw [hsite, Function.update_of_ne hyx]
      exact hy
  · intro y j hy hacquired
    by_cases hyx : y = x
    · subst hyx
      rw [hx] at hy
      cases hy
      exact ⟨i', hnew, ha.trans hacquired⟩
    · exact ⟨j, by rw [hsite, Function.update_of_ne hyx]; exact hy, hacquired⟩
  · intro y j hy
    rcases site_put hsite hy with ⟨rfl, hj⟩ | ⟨-, hold⟩
    · cases hj
      exact hmodes.relinquish hroot hr hoff hi
    · exact (he.modes y j hold).later hl fun hw => .inl (hwait y hw)
  · exact fun c k' hc hkind hworking => .inl (hwriter c k' hc hkind hworking)
  · intro c y hcy
    rw [hchanges] at hcy
    exact .inl hcy

end

/-! ## Every step -/

section

variable [DecidableEq σ] [DecidableEq κ] [DecidableEq V] [DecidableEq M]
variable {env : Env σ V} {s s' : System σ κ V M} {a : Action σ κ V M}

/-- `Waiting`, decided. -/
def writerWaits (s : System σ κ V M) (x : σ) : Bool :=
  (List.range s.nextId).any fun c =>
    match s.call c with
    | none => false
    | some k => decide (k.method.ref = x ∧ k.method.kind = .writer ∧ k.phase = .claiming ∧
        x ∉ k.participants.shouldCommit)

/-- Nothing that the reports rest on is taken away by the step: commits come in order, the
lock is not upgraded under a nested transaction that may roll it back, nor for a
transaction method that has not run yet while a writer waits, and a transaction method
does not complete with a change under a nested transaction either. -/
def elisionSafe (s : System σ κ V M) (a : Action σ κ V M) : Bool :=
  s.committedInOrder a &&
    match a with
    | .upgrade c =>
      match s.lookup c with
      | none => true
      | some (k, i) => decide (i.ownerIds = k.transactionIds) &&
          (decide (k.method.kind = .writer ∨ k.phase ≠ .upgrading none) ||
            !s.writerWaits k.method.ref)
    | .complete c e =>
      match s.lookup c with
      | none => true
      | some (k, i) => decide (k.method.kind = .writer ∨ ¬ k.changes e ∨ i.mode = .shared ∨
          i.ownerIds = k.transactionIds)
    | _ => true

theorem writerWaits_iff (ht : Tree s) {x : σ} :
    s.writerWaits x = true ↔ s.Waiting x := by
  simp only [writerWaits, List.any_eq_true, List.mem_range]
  constructor
  · rintro ⟨c, -, hc⟩
    split at hc
    next => cases hc
    next k hk => exact ⟨c, k, hk, by simpa using hc⟩
  · rintro ⟨c, k, hk, hwait⟩
    refine ⟨c, ht.fresh c k hk, ?_⟩
    rw [hk]
    simpa using hwait

omit [DecidableEq κ] [DecidableEq V] [DecidableEq M] in
/-- A call that reports its own state has the lock exclusive, with nobody else's claim in
between. -/
theorem Elision.marked (he : Elision s) (ho : Owners s) (hmove : CallMove s s')
    (hl : Later s s') (ht : Tree s) (ht' : Tree s') (hnb : ¬ s'.Broken) {c : Nat}
    {k k' : Call σ κ V M} {i i' : Site κ V M} (hc : s.call c = some k)
    (hx : s.site k.method.ref = some i) (hclaimed : k.phase.claimed = true)
    (hcall : s'.call = Function.update s.call c (some k'))
    (hsite : s'.site = Function.update s.site k.method.ref (some i'))
    (hk' : k' = { markCommit k with phase := k'.phase })
    (hno : k'.phase ≠ .claiming) (hmode : i'.mode = .exclusive)
    (howner : i'.ownerIds = i.ownerIds)
    (hsnaps : i'.transaction.snapshots = i.transaction.snapshots)
    (ha : i'.acquired = i.acquired) (hown : i.ownerIds = k.transactionIds)
    (hchanges : ∀ d y, (d, y) ∈ s'.changes → (d, y) ∈ s.changes ∨ (d = c ∧ y = k.method.ref))
    (hreleased : s'.released = s.released) (hprepared : s'.prepared = s.prepared)
    (hcommitted : s'.committed = s.committed) : Elision s' := by
  have hself : s'.call c = some k' := by rw [hcall, Function.update_self]
  have hids : k'.transactionIds = k.transactionIds := by rw [hk']; rfl
  have hcovers : s'.Covers k.method.ref k.transactionIds := by
    refine ⟨c, k', hself, .inl ?_, ?_⟩
    · rw [hk']
      exact Participants.mem_add.mpr (.inr ⟨rfl, rfl⟩)
    · rw [hids]
      exact inForce_of_isPrefix (List.prefix_refl _)
  have hraised : s'.Raised k.transactionIds i' := by
    have howned := ((ho.owned _ i hx).later hl).congr howner hsnaps
    exact howned.raised hmode (howner.trans hown) (ht.root_mem hc)
  exact he.work ho hmove hl ht ht' hnb hc hx hclaimed hcall hsite (by rw [hk']; rfl) hids hno hmode
    howner hsnaps ha (.inl (hown ▸ hcovers)) hchanges (.inl ⟨hcovers, hraised⟩) hreleased hprepared
    hcommitted

omit [DecidableEq σ] [DecidableEq κ] [DecidableEq V] [DecidableEq M] in
theorem mem_changes_if {l : List (Nat × σ)} {d c : Nat} {x y : σ} {p : Prop} [Decidable p]
    (h : (d, y) ∈ if p then (c, x) :: l else l) : (d, y) ∈ l ∨ (d = c ∧ y = x) := by
  split at h
  next =>
    rcases List.mem_cons.mp h with heq | hmem
    · exact .inr (Prod.mk.inj heq)
    · exact .inl hmem
  next => exact .inl h

omit [DecidableEq M] in
/-- A writer stores its effects. That its state is reported was seen to when it went to
work. -/
theorem Elision.written (he : Elision s) (ho : Owners s) (hmove : CallMove s s')
    (hl : Later s s') (ht : Tree s) (ht' : Tree s') (hnb : ¬ s'.Broken) {c : Nat}
    {k : Call σ κ V M} {i : Site κ V M} {e : Effects κ V M} (hc : s.call c = some k)
    (hx : s.site k.method.ref = some i) (hphase : k.phase = .running)
    (hkind : k.method.kind = .writer) (hs' : s' = s.stored env c k i e) : Elision s' := by
  subst hs'
  have hworking : k.phase.working = true := by rw [hphase]; rfl
  have hclaimed := Phase.claimed_of_working hworking
  obtain ⟨hcovers, hraised⟩ := he.writer c k i hc hkind hworking hx
  have hstanding := ho.standing c k i hc hclaimed hx
  exact he.work ho hmove hl ht ht' hnb hc hx hclaimed rfl rfl rfl rfl nofun hraised.mode rfl rfl rfl
    (.inl ((hcovers.of_isPrefix hstanding.owned).later hl)) (fun _ _ => mem_changes_if)
    (.inl ⟨hcovers.later hl, (hraised.later hl).congr hraised.mode rfl rfl⟩) rfl rfl rfl

/-- `complete` stores the effects of a call. -/
theorem Elision.completed (he : Elision s) (ho : Owners s) (hmove : CallMove s s')
    (hl : Later s s') (ht : Tree s) (ht' : Tree s') (hnb : ¬ s'.Broken) {c : Nat}
    {k k' : Call σ κ V M} {i : Site κ V M} {e : Effects κ V M} (hc : s.call c = some k)
    (hx : s.site k.method.ref = some i) (hphase : k.phase = .running)
    (hk' : (k' = k ∧ (k.method.kind = .writer ∨ ¬ k.changes e)) ∨
      (k' = markCommit k ∧ k.method.kind.isTransaction = true ∧ k.changes e ∧
        i.mode = .exclusive))
    (hsafe : s.elisionSafe (.complete c e) = true) (hs' : s' = s.stored env c k' i e) :
    Elision s' := by
  have hclaimed : k.phase.claimed = true := by rw [hphase]; rfl
  rcases hk' with ⟨rfl, hwriter | hno⟩ | ⟨rfl, hkind, hchange, hmode⟩
  · exact he.written ho hmove hl ht ht' hnb hc hx hphase hwriter hs'
  · -- nothing to commit
    subst hs'
    exact he.went ho hmove hl ht ht' hnb (.put hx rfl rfl rfl id) hc rfl
      (mode_of_put hx rfl rfl) rfl rfl nofun (fun _ _ => by rw [hphase]; rfl) (if_neg hno)
      rfl rfl rfl
  · subst hs'
    have hlook : s.lookup c = some (k, i) := by simp only [lookup, hc, hx]
    have hown : i.ownerIds = k.transactionIds := by
      simp only [elisionSafe, hlook, Bool.and_eq_true, decide_eq_true_eq] at hsafe
      rcases hsafe.2 with h | h | h | h
      · rw [h] at hkind
        cases hkind
      · exact absurd hchange h
      · rw [hmode] at h
        cases h
      · exact h
    exact he.marked ho hmove hl ht ht' hnb hc hx hclaimed rfl rfl rfl nofun hmode rfl rfl rfl hown
      (fun _ _ => mem_changes_if) rfl rfl rfl

/-- The lock is granted to an upgrade before the method runs. -/
theorem Elision.upgraded (he : Elision s) (ho : Owners s) (hmove : CallMove s s')
    (hl : Later s s') (ht : Tree s) (ht' : Tree s') (hnb : ¬ s'.Broken) {c : Nat}
    {k : Call σ κ V M} {i : Site κ V M} (hc : s.call c = some k)
    (hx : s.site k.method.ref = some i) (hphase : k.phase = .upgrading none)
    (hsafe : s.elisionSafe (.upgrade c) = true)
    (hs' : s' = (s.putSite k.method.ref i.upgraded).putCall c
      { (if k.method.kind = .writer then markCommit k else k) with phase := .loading }) :
    Elision s' := by
  subst hs'
  have hclaimed : k.phase.claimed = true := by rw [hphase]; rfl
  have hlook : s.lookup c = some (k, i) := by simp only [lookup, hc, hx]
  simp only [elisionSafe, hlook, Bool.and_eq_true, Bool.or_eq_true, decide_eq_true_eq,
    Bool.not_eq_true'] at hsafe
  obtain ⟨-, hown, hwaits⟩ := hsafe
  by_cases hkind : k.method.kind = .writer
  · rw [if_pos hkind] at hmove hl ht' hnb ⊢
    exact he.marked ho hmove hl ht ht' hnb hc hx hclaimed rfl rfl rfl nofun rfl rfl rfl rfl hown
      (fun _ _ h => .inl h) rfl rfl rfl
  · -- a transaction declared exclusive: nobody may be waiting
    rw [if_neg hkind] at hmove hl ht' hnb ⊢
    have hno : ¬ s.Waiting k.method.ref := by
      rw [← writerWaits_iff ht, Bool.not_eq_true]
      refine hwaits.resolve_left ?_
      rintro (h | h)
      · exact hkind h
      · exact h hphase
    exact he.work ho hmove hl ht ht' hnb hc hx hclaimed rfl rfl rfl rfl nofun rfl rfl rfl rfl
      (.inr hno) (fun _ _ h => .inl h) (.inr ⟨hkind, rfl⟩) rfl rfl rfl

/-- The lock is granted to a transaction method that has changed its state. -/
theorem Elision.upgradeStored (he : Elision s) (ho : Owners s) (hmove : CallMove s s')
    (hl : Later s s') (ht : Tree s) (ht' : Tree s') (hnb : ¬ s'.Broken) {c : Nat}
    {k : Call σ κ V M} {i : Site κ V M} {e : Effects κ V M} (hc : s.call c = some k)
    (hx : s.site k.method.ref = some i) (hphase : k.phase = .upgrading (some e))
    (hsafe : s.elisionSafe (.upgrade c) = true)
    (hs' : s' = (s.putSite k.method.ref i.upgraded).stored env c (markCommit k) i.upgraded e) :
    Elision s' := by
  subst hs'
  have hclaimed : k.phase.claimed = true := by rw [hphase]; rfl
  have hlook : s.lookup c = some (k, i) := by simp only [lookup, hc, hx]
  simp only [elisionSafe, hlook, Bool.and_eq_true, decide_eq_true_eq] at hsafe
  exact he.marked ho hmove hl ht ht' hnb hc hx hclaimed rfl (Function.update_idem ..) rfl nofun rfl
    rfl rfl rfl hsafe.2.1 (fun _ _ => mem_changes_if) rfl rfl rfl

omit [DecidableEq V] [DecidableEq M] in
/-- A nested transaction returns and gives its own state back. -/
theorem Elision.finishNested (he : Elision s) (ho : Owners s) (hmove : CallMove s s')
    (hl : Later s s') (ht : Tree s) (ht' : Tree s') (hnb : ¬ s'.Broken)
    (hroot : s'.hasCommitted 0 = false) {c : Nat} {k : Call σ κ V M} {i : Site κ V M}
    {o : Outcome} {t : Participant Nat κ (Option Nat × V) (Nat × M)} (hc : s.call c = some k)
    (hx : s.site k.method.ref = some i) (hnested : k.nested = true)
    (hr : relinquishOwnership i.transaction c (decide ((exitOutcome k o).1 ≠ .ok)) = some t)
    (hs' : s' = s.leftNested c k { flagged i (exitOutcome k o).2 with transaction := t }
      (exitOutcome k o).1 (decide ((exitOutcome k o).1 ≠ .ok)))
    (horder : s.committedInOrder (.finish c o) = true) : Elision s' := by
  have hin := inOrder_of_finish hc hnested horder
  obtain ⟨k', hself, hphase, hkind⟩ := leftNested_call hnested hs'
  subst hs'
  refine he.relinquish ho hmove hl ht ht' hnb hroot hx hr rfl rfl rfl
    (offCommitted_of_ended hl hx hself hphase rfl hin) ?_ ?_ ?_ rfl rfl rfl rfl
  · exact fun h => ⟨aborted_of_ended hself hkind hphase rfl h,
      not_committed_of_ended hself hphase rfl h⟩
  · exact fun y hw => waiting_of_went hw rfl nofun
  · intro d kd hd hwriter hworking
    exact working_of_went hd hwriter hworking hc rfl rfl rfl nofun

omit [DecidableEq σ] [DecidableEq κ] [DecidableEq V] [DecidableEq M] in
/-- The two phases go on. What is released has a shared lock, so whoever had stored a
change there has been rolled back. -/
theorem Elision.voted (he : Elision s) (hl : Later s s') (hsite : s'.site = s.site)
    (hcall : s'.call = s.call) (hchanges : s'.changes = s.changes)
    (hreleased : ∀ x, s'.released x = true → s.released x = true ∨
      (s.Coordinating ∧ ∃ i, s.site x = some i ∧ i.mode = .shared))
    (hcommitted : s'.committed = true → ∃ k, s.call 0 = some k ∧ k.phase = .coordinating ∧
      ∀ x ∈ k.participants.shouldCommit, (s'.prepared x).isSome = true ∨ s'.released x = true) :
    Elision s' := by
  constructor
  · intro x i hx
    rw [hsite] at hx
    refine (he.modes x i hx).later hl fun hw => .inl ?_
    obtain ⟨c, k, hc, hwait⟩ := hw
    exact ⟨c, k, hcall ▸ hc, hwait⟩
  · intro c k i hc hkind hworking hx
    rw [hcall] at hc
    rw [hsite] at hx
    obtain ⟨hcovers, hraised⟩ := he.writer c k i hc hkind hworking hx
    exact ⟨hcovers.later hl, hraised.later hl⟩
  · intro c x hcx
    rw [hchanges] at hcx
    obtain ⟨k, i, hc, hx, hacquired, hcovers, hor⟩ := he.changes c x hcx
    refine ⟨k, i, by rw [hcall]; exact hc, by rw [hsite]; exact hx, hacquired, hcovers.later hl, ?_⟩
    exact hor.imp (fun h => hl.withinAborted h) fun h => h.later hl
  · intro x hx
    have hsame : s'.Coordinating ↔ s.Coordinating := by
      unfold Coordinating
      rw [hcall]
    rw [hsame, hchanges]
    rcases hreleased x hx with hold | ⟨hco, i, hi, hshared⟩
    · obtain ⟨hco, hall⟩ := he.released x hold
      exact ⟨hco, fun c hc => hl.withinAborted (hall c hc)⟩
    · refine ⟨hco, fun c hc => hl.withinAborted ?_⟩
      obtain ⟨k, j, -, hj, -, -, hor⟩ := he.changes c x hc
      refine hor.resolve_right fun hraised => ?_
      rw [hi] at hj
      cases hj
      rw [hraised.mode] at hshared
      cases hshared
  · intro hyes
    rw [hcall]
    exact hcommitted hyes

omit [DecidableEq κ] [DecidableEq V] [DecidableEq M] in
/-- A call is made. -/
theorem Elision.called (he : Elision s) (ho : Owners s) (hmove : CallMove s s')
    (hl : Later s s') (ht : Tree s) (ht' : Tree s') (hnb : ¬ s'.Broken) {p : Nat}
    {k : Call σ κ V M} {method : Method σ κ} (hp : s.call p = some k)
    (hs' : s' = s.madeCall p k method) : Elision s' := by
  subst hs'
  refine he.quiet ho hmove hl ht ht' hnb (.of_eq rfl) (mode_of_eq rfl) ?_ ?_ rfl rfl rfl rfl
  · rintro x ⟨c, kc, hc, href, hkind, hwait, hnot⟩
    obtain ⟨k0, h0, hsame, hmethod, -, hparticipants⟩ :=
      engaged_of_made hp hc (by rw [hwait]; rfl)
    exact .inl ⟨c, k0, h0, hmethod ▸ href, hmethod ▸ hkind, hsame ▸ hwait, hparticipants ▸ hnot⟩
  · intro c kc hc hkind hworking
    obtain ⟨k0, h0, hsame, hmethod, hids, -⟩ :=
      engaged_of_made hp hc (Phase.engaged_of_claimed (Phase.claimed_of_working hworking))
    exact ⟨k0, h0, hsame ▸ hworking, hmethod, hids⟩

omit [DecidableEq κ] [DecidableEq V] [DecidableEq M] in
/-- A call joins; it reports its state as read-only only if it sees a shared lock. -/
theorem Elision.joined (he : Elision s) (ho : Owners s) (hmove : CallMove s s')
    (hl : Later s s') (ht : Tree s) (ht' : Tree s') (hnb : ¬ s'.Broken) {c : Nat}
    {k : Call σ κ V M} {i : Site κ V M} (hc : s.call c = some k)
    (hx : s.site k.method.ref = some i)
    (hs' : s' = s.putCall c { k with
      phase := .claiming
      participants := k.participants.add k.method.ref (decide (i.mode = .shared ∧
        k.method.idempotencyKey = none ∧ env.usingRestartDetection k.method.ref = true)) }) :
    Elision s' := by
  subst hs'
  refine he.quiet ho hmove hl ht ht' hnb (.of_eq rfl) (mode_of_eq rfl) ?_ ?_ rfl rfl rfl rfl
  · rintro x ⟨d, kd, hd, href, hkind, hwait, hnot⟩
    rcases call_put (s := s) rfl hd with ⟨rfl, rfl⟩ | ⟨-, hold⟩
    · right
      intro j hj
      subst href
      rw [hx] at hj
      cases hj
      cases hm : i.mode with
      | shared => rfl
      | exclusive =>
        refine absurd (Participants.mem_add.mpr (.inr ⟨rfl, ?_⟩)) hnot
        rw [hm]
        simp
    · exact .inl ⟨d, kd, hold, href, hkind, hwait, hnot⟩
  · intro d kd hd hkind hworking
    exact working_of_went hd hkind hworking hc rfl rfl rfl fun _ h => Bool.noConfusion h

omit [DecidableEq κ] [DecidableEq V] [DecidableEq M] in
/-- The root is over. -/
theorem Elision.finishedRoot (he : Elision s) (ho : Owners s) (hmove : CallMove s s')
    (hl : Later s s') (ht : Tree s) (ht' : Tree s') (hnb : ¬ s'.Broken) {c : Nat}
    {k : Call σ κ V M} {i : Site κ V M} {o : Outcome} (hc : s.call c = some k)
    (hx : s.site k.method.ref = some i)
    (hs' : s' = (s.putSite k.method.ref (flagged i (exitOutcome k o).2)).putCall c
      { k with phase := rootPhase (flagged i (exitOutcome k o).2) (exitOutcome k o).1 }) :
    Elision s' := by
  subst hs'
  have hover : ∀ (j : Site κ V M) (o : Outcome),
      (rootPhase j o : Phase κ V M) ≠ .claiming ∧
        (rootPhase j o : Phase κ V M).working = false := by
    intro j o
    unfold rootPhase
    split
    · split <;> exact ⟨(by simp), rfl⟩
    · exact ⟨(by simp), rfl⟩
  refine he.went ho hmove hl ht ht' hnb (.put hx rfl rfl rfl id) hc rfl (mode_of_put hx rfl rfl)
    rfl rfl (hover _ _).1 (fun _ h => ?_) rfl rfl rfl rfl
  rw [(hover _ _).2] at h
  cases h

/-- A participant is released at `Prepare`, -/
theorem Elision.released_of_prepare (he : Elision s) (hl : Later s s') {x : σ} {k : Call σ κ V M}
    {i : Site κ V M} (hk : s.coordinator = some k) (hx : s.site x = some i)
    (hmode : i.mode = .shared)
    (hs' : s' = { s with released := Function.update s.released x true }) : Elision s' := by
  subst hs'
  refine he.voted hl rfl rfl rfl ?_ ?_
  · intro y hy
    have hy : Function.update s.released x true y = true := hy
    rw [Function.update_apply] at hy
    split at hy
    next heq =>
      subst heq
      exact .inr ⟨⟨k, coordinator_eq hk⟩, i, hx, hmode⟩
    next => exact .inl hy
  · intro hyes
    obtain ⟨k0, hk0, hphase, hall⟩ := he.committed hyes
    refine ⟨k0, hk0, hphase, fun y hy => (hall y hy).imp id fun h => ?_⟩
    show Function.update s.released x true y = true
    rw [Function.update_apply, h, ite_self]

omit [DecidableEq κ] [DecidableEq V] [DecidableEq M] in
/-- or prepares. -/
theorem Elision.prepared_of_prepare (he : Elision s) (hl : Later s s') {x : σ}
    {d : Stored κ V M} (hs' : s' = { s with prepared := Function.update s.prepared x (some d) }) :
    Elision s' := by
  subst hs'
  refine he.voted hl rfl rfl rfl (fun _ h => .inl h) ?_
  intro hyes
  obtain ⟨k0, hk0, hphase, hall⟩ := he.committed hyes
  refine ⟨k0, hk0, hphase, fun y hy => (hall y hy).imp (fun h => ?_) id⟩
  show (Function.update s.prepared x (some d) y).isSome = true
  rw [Function.update_apply]
  split
  · rfl
  · exact h

/-- **What the reports rest on is kept** by every step that is safe. -/
theorem Move.elision (h : Move env s a s') (he : Elision s) (ho : Owners s) (ht : Tree s)
    (hroot : s'.hasCommitted 0 = false) (hnb : ¬ s'.Broken)
    (hsafe : s.elisionSafe a = true) : Elision s' := by
  have hmove := h.callMove
  have hl : Later s s' := fun c k hc => hmove.grown ht hc
  have ht' : Tree s' := hmove.tree ht
  have horder : s.committedInOrder a = true := by
    simp only [elisionSafe, Bool.and_eq_true] at hsafe
    exact hsafe.1
  cases h with
  | call hp hphase => exact he.called ho hmove hl ht ht' hnb hp rfl
  | start hc hphase hx =>
    refine he.unjoined ho hmove hl ht ht' hnb rfl ?_ ?_ rfl rfl rfl rfl rfl
    · intro i hi
      rw [hx] at hi
      cases hi
    · intro i hi
      cases hi
      exact ⟨rfl, rfl⟩
  | acquire hx hacquired =>
    exact he.quiet ho hmove hl ht ht' hnb (.put hx rfl rfl rfl fun _ => rfl)
      (mode_of_put hx rfl rfl) (fun _ hw => .inl hw)
      (fun c k hc _ hworking => ⟨k, hc, hworking, rfl, rfl⟩) rfl rfl rfl rfl
  | refuse hx hacquired =>
    refine he.unjoined ho hmove hl ht ht' hnb rfl ?_ (fun i hi => by simp at hi) rfl rfl rfl rfl rfl
    intro i hi
    rw [hx] at hi
    cases hi
    exact hacquired
  | join hc hx hphase hacquired => exact he.joined ho hmove hl ht ht' hnb hc hx rfl
  | claim hc hx hphase hclaim =>
    exact he.claim ho hmove hl ht ht' hnb hroot hc hx hphase hclaim rfl rfl rfl rfl rfl rfl rfl rfl
      rfl
  | @drain c k i hc hx hnested hphase =>
    refine he.went ho hmove hl ht ht' hnb (.of_eq rfl) hc rfl (mode_of_eq rfl) rfl rfl ?_ ?_ rfl rfl
      rfl rfl
    · exact Phase.not_claiming_of_entered (Call.enter_entered i.mode)
    · intro hkind
      simp only [Call.nested, Bool.and_eq_true] at hnested
      rw [show k.method.kind = .writer from hkind] at hnested
      cases hnested.1
  | upgrade hc hx hphase => exact he.upgraded ho hmove hl ht ht' hnb hc hx hphase hsafe rfl
  | upgradeStored hc hx hphase hstore =>
    exact he.upgradeStored ho hmove hl ht ht' hnb hc hx hphase hsafe rfl
  | load hc hx hphase state hstate hk' =>
    refine he.went ho hmove hl ht ht' hnb (.put hx rfl rfl rfl id) hc rfl (mode_of_put hx rfl rfl)
      (by rw [hk']) (by rw [hk']) (by rw [hk']; simp) ?_ rfl rfl rfl rfl
    exact fun _ _ => by rw [hphase]; rfl
  | mutate hc hx hphase =>
    exact he.quiet ho hmove hl ht ht' hnb (.put hx rfl rfl rfl id) (mode_of_put hx rfl rfl)
      (fun _ hw => .inl hw) (fun c k hc _ hworking => ⟨k, hc, hworking, rfl, rfl⟩) rfl rfl rfl rfl
  | completeWaits hc hphase hkind =>
    exact he.went ho hmove hl ht ht' hnb (.of_eq rfl) hc rfl (mode_of_eq rfl) rfl rfl (by simp)
      (fun _ h => Bool.noConfusion h)
      rfl rfl rfl rfl
  | completeStored hc hx hphase hk' hstore =>
    exact he.completed ho hmove hl ht ht' hnb hc hx hphase hk' hsafe rfl
  | finishOutside hc hphase hout =>
    exact he.went ho hmove hl ht ht' hnb (.of_eq rfl) hc rfl (mode_of_eq rfl) rfl rfl (by simp)
      (fun _ h => Bool.noConfusion h)
      rfl rfl rfl rfl
  | finishLeaf hc hx hphase hkind =>
    exact he.went ho hmove hl ht ht' hnb (.put hx rfl rfl rfl id) hc rfl (mode_of_put hx rfl rfl)
      rfl rfl (by simp) (fun _ h => Bool.noConfusion h) rfl rfl rfl rfl
  | finishRoot hc hx hphase hkind hcaller =>
    exact he.finishedRoot ho hmove hl ht ht' hnb hc hx rfl
  | finishFlagged hc hx hphase hnested hflag =>
    exact he.went ho hmove hl ht ht' hnb (.put hx rfl rfl rfl id) hc rfl (mode_of_put hx rfl rfl)
      rfl rfl (by simp) (fun _ h => Bool.noConfusion h) rfl rfl rfl rfl
  | finishDoomed hc hx hphase hnested =>
    exact he.went ho hmove hl ht ht' hnb (.put hx rfl rfl rfl id) hc rfl (mode_of_put hx rfl rfl)
      rfl rfl (by simp) (fun _ h => Bool.noConfusion h) rfl rfl rfl rfl
  | finishNested hc hx hphase hnested hflag hr =>
    exact he.finishNested ho hmove hl ht ht' hnb hroot hc hx hnested hr rfl horder
  | reply hc hcaller hp hrpc hentered hphase =>
    exact he.went ho hmove hl ht ht' hnb (.of_eq rfl) hp rfl (mode_of_eq rfl) rfl rfl
      (Phase.not_claiming_of_entered hentered) (fun _ h => h) rfl rfl rfl rfl
  | lose hc hcaller hp hentered =>
    exact he.went ho hmove hl ht ht' hnb (.of_eq rfl) hp rfl (mode_of_eq rfl) rfl rfl
      (Phase.not_claiming_of_entered hentered) (fun _ h => h) rfl rfl rfl rfl
  | relinquish hm hx hr =>
    obtain ⟨k, o, hc, hkind, hphase, haborted⟩ := ho.told _ hm
    refine he.relinquish ho hmove hl ht ht' hnb hroot hx hr rfl rfl rfl
      (offCommitted_of_ended hl hx hc hphase haborted (inOrder_of_relinquish horder)) ?_
      (fun _ h => h) (fun c k hc _ hworking => ⟨k, hc, hworking, rfl, rfl⟩) rfl rfl rfl rfl
    exact fun h => ⟨aborted_of_ended hc hkind hphase haborted h,
      not_committed_of_ended hc hphase haborted h⟩
  | release hk hx howner hmode => exact he.released_of_prepare hl hk hx hmode rfl
  | prepare hk hx howner hd => exact he.prepared_of_prepare hl rfl
  | commit hk hready =>
    refine he.voted hl rfl rfl rfl (fun _ h => .inl h) fun _ => ?_
    obtain ⟨hco, hphase⟩ := coordinator_eq hk
    exact ⟨_, hco, hphase, hready⟩

/-- What `Prepare` wrote is what the participant has. -/
def Voted (env : Env σ V) (s : System σ κ V M) : Prop :=
  ∀ x d, s.prepared x = some d → s.Coordinating ∧ ∀ c, (c, x) ∈ s.changes →
    ∃ i, s.site x = some i ∧ i.acquired = true ∧ isClaimableBy i.ownerIds [0] = true ∧
      d = Site.toPrepare (env.usingRestartDetection x) i

theorem Move.voted (h : Move env s a s') (hv : Voted env s) (he : Elision s) (ho : Owners s)
    (ht : Tree s) : Voted env s' := by
  intro x d hd
  have hlater : s.Coordinating → s'.Coordinating := by
    rintro ⟨k, hk, hphase⟩
    exact ⟨k, h.callMove.coordinator hk hphase ht, hphase⟩
  rcases h.prepared hd with hold | ⟨hco, i, hx, howner, hd'⟩
  · obtain ⟨hco, hall⟩ := hv x d hold
    obtain ⟨-, hchanges, hsites⟩ := h.settled ho ht hco
    refine ⟨hlater hco, fun c hc => ?_⟩
    obtain ⟨i, hx, hacquired, howner, hd'⟩ := hall c (hchanges ▸ hc)
    exact ⟨i, hsites x i hx hacquired howner, hacquired, howner, hd'⟩
  · obtain ⟨-, hchanges, hsites⟩ := h.settled ho ht hco
    refine ⟨hlater hco, fun c hc => ?_⟩
    obtain ⟨-, j, -, hj, hacquired, -⟩ := he.changes c x (hchanges ▸ hc)
    rw [hx] at hj
    cases hj
    exact ⟨i, hsites x i hx hacquired howner, hacquired, howner, hd'⟩

/-! ## Every run -/

/-- What holds in every run of safe steps. Once the root can no longer commit, the calls
alone are looked at. -/
structure Kept (env : Env σ V) (s : System σ κ V M) : Prop where
  tree : Tree s
  root : ∀ k, s.call 0 = some k → k.method.kind.isTransaction = true
  coordinating : s.committed = true → s.Coordinating
  unbroken : ¬ s.Broken → Owners s ∧ Elision s ∧ Voted env s

omit [DecidableEq σ] [DecidableEq κ] [DecidableEq V] [DecidableEq M] in
theorem initial_kept {method : Method σ κ} (hroot : method.kind.isTransaction = true) :
    Kept env (initial method : System σ κ V M) where
  tree := initial_tree
  root k hk := by
    have hk : some (Call.new method none [0] : Call σ κ V M) = some k := hk
    cases hk
    exact hroot
  coordinating := nofun
  unbroken _ := by
    refine ⟨initial_owners, ⟨?_, ?_, nofun, nofun, nofun⟩, nofun⟩
    · intro x i hi
      cases hi
    · intro c k i hc _ hworking
      rw [(initial_call c k hc).2] at hworking
      cases hworking

theorem Move.coordinating (h : Move env s a s') (ht : Tree s)
    (hold : s.committed = true → s.Coordinating) (hcommitted : s'.committed = true) :
    s'.Coordinating := by
  have hco : s.Coordinating := by
    cases h with
    | commit hk hready => exact ⟨_, coordinator_eq hk⟩
    | _ => exact hold hcommitted
  obtain ⟨k, hk, hphase⟩ := hco
  exact ⟨k, h.callMove.coordinator hk hphase ht, hphase⟩

theorem Move.kept (h : Move env s a s') (hs : Kept env s) (hsafe : s.elisionSafe a = true) :
    Kept env s' := by
  obtain ⟨ht, hroot, hcoordinating, hunbroken⟩ := hs
  have hl : Later s s' := fun c k hc => h.callMove.grown ht hc
  have ht' : Tree s' := h.callMove.tree ht
  have hroot' : ∀ k, s'.call 0 = some k → k.method.kind.isTransaction = true := by
    intro k' hk'
    obtain ⟨k, hk, -⟩ := ht.root
    obtain ⟨k'', hk'', hgrown⟩ := hl 0 k hk
    rw [hk''] at hk'
    cases hk'
    rw [hgrown.method]
    exact hroot k hk
  refine ⟨ht', hroot', h.coordinating ht hcoordinating, fun hnb => ?_⟩
  obtain ⟨ho, he, hv⟩ := hunbroken fun hb => hnb (hl.broken hb)
  have horder : s.committedInOrder a = true := by
    simp only [elisionSafe, Bool.and_eq_true] at hsafe
    exact hsafe.1
  exact ⟨h.owners ho ht hnb horder, h.elision he ho ht (ht'.root_open hroot') hnb hsafe,
    h.voted hv he ho ht⟩

/-- **No write is dropped.** In every run of safe steps after which the root has committed,
a participant on which a call left a change, not within an aborted transaction, is one to
commit: it was not released but prepared, from a lock in exclusive mode, with what it
has. -/
theorem writes_kept {method : Method σ κ} (hroot : method.kind.isTransaction = true)
    (h : Reach (step env) (fun s a => s.elisionSafe a = true) (initial method) s)
    (hcommitted : s.committed = true) : ∃ k, s.coordinator = some k ∧
      ∀ c x, (c, x) ∈ s.changes → ¬ s.withinAborted c →
        x ∈ k.participants.shouldCommit ∧ ∃ i, s.site x = some i ∧ i.mode = .exclusive ∧
          s.prepared x = some (Site.toPrepare (env.usingRestartDetection x) i) := by
  have hkept : Kept env s := h.invariant (Kept env) (initial_kept hroot)
    fun _ _ _ hs hsafe hstep => (step_move hstep).kept hs hsafe
  -- a root that has committed is not doomed
  have hco := hkept.coordinating hcommitted
  have ht := hkept.tree
  obtain ⟨-, he, hv⟩ := hkept.unbroken (ht.not_broken hco)
  obtain ⟨k, hk, hphase, hall⟩ := he.committed hcommitted
  refine ⟨k, by simp only [coordinator, hk, hphase, if_true], fun c x hcx hnot => ?_⟩
  obtain ⟨kc, i, hkc, hx, -, hcovers, hor⟩ := he.changes c x hcx
  have hmode := (hor.resolve_left hnot).mode
  have hmem : x ∈ k.participants.shouldCommit := by
    -- whoever reported the state is in no aborted transaction, as the call is not
    obtain ⟨u, ku, hu, hreported, hforce⟩ := hcovers
    have hall : ∀ t ∈ ku.transactionIds, s.hasAborted t = false := by
      intro t ht'
      rcases hforce t ht' with hmem | hdone
      · exact Bool.eq_false_iff.mpr fun habort => hnot ⟨kc, hkc, t, hmem, habort⟩
      · exact not_aborted_of_committed hdone
    refine ht.reported_root hk hphase hu (hreported.resolve_right fun haborted => ?_) hall
    have hself := ht.self_mem hu (Call.isTransaction_of_aborted haborted)
    have hno := hall u hself
    rw [hasAborted_iff.mpr ⟨ku, hu, haborted⟩] at hno
    cases hno
  refine ⟨hmem, i, hx, hmode, ?_⟩
  rcases hall x hmem with hprepared | hreleased
  · obtain ⟨d, hd⟩ := Option.isSome_iff_exists.mp hprepared
    obtain ⟨j, hj, -, -, hd'⟩ := (hv x d hd).2 c hcx
    rw [hx] at hj
    cases hj
    rw [hd, hd']
  · exact absurd ((he.released x hreleased).2 c hcx) hnot

end

/-- Two states that are stored, of types with restart detection. -/
def twoStates : Env Nat Nat := ⟨fun _ => true, fun _ => some 0, 0⟩

/-- Effects that are a state and nothing else. -/
def onlyState (value : Nat) : Effects Nat Nat Nat := ⟨some value, [], [], 0⟩

/-- The root runs on state 0 and has read state 1, in call 1; then it writes state 1 in
call 2. -/
def upgradedRun : List (Action Nat Nat Nat Nat) :=
  [.start 0, .acquire 0, .join 0, .claim 0, .load 0,
    .call 0 ⟨.reader, 1, none⟩, .start 1, .acquire 1, .join 1, .claim 1, .load 1,
    .finish 1 .ok, .reply 1,
    .call 0 ⟨.writer, 1, none⟩, .join 2, .claim 2, .upgrade 2, .load 2,
    .complete 2 (onlyState 5), .finish 2 .ok, .reply 2,
    .complete 0 (onlyState 0), .finish 0 .ok, .prepare 0, .prepare 1, .commit]

/-- After `upgradedRun`. -/
def upgradedEnd : System Nat Nat Nat Nat :=
  last (step twoStates) (initial ⟨.transaction false, 0, none⟩) upgradedRun

/-- The writer that had to upgrade the lock is committed. -/
theorem writes_kept_upgraded : (2, 1) ∈ upgradedEnd.changes ∧
    ∃ k, upgradedEnd.coordinator = some k ∧
      ∀ c x, (c, x) ∈ upgradedEnd.changes → ¬ upgradedEnd.withinAborted c →
        x ∈ k.participants.shouldCommit ∧ ∃ i, upgradedEnd.site x = some i ∧
          i.mode = .exclusive ∧ upgradedEnd.prepared x =
            some (Site.toPrepare (twoStates.usingRestartDetection x) i) :=
  ⟨by decide +kernel, writes_kept (by decide) (reach_last upgradedRun .init (by decide +kernel))
    (by decide +kernel)⟩

/-- Call 1 reads state 1 for a long time. Call 2, a nested transaction on it that is
declared exclusive, waits for the reader, and call 3, a writer, for the transaction. When
the writer gets its turn the lock is exclusive already, so that it never reports the state
as one to commit, and the transaction has changed nothing. -/
def droppedRun : List (Action Nat Nat Nat Nat) :=
  [.start 0, .acquire 0, .join 0, .claim 0, .load 0,
    .call 0 ⟨.reader, 1, none⟩, .start 1, .acquire 1, .join 1, .claim 1, .load 1,
    .call 0 ⟨.transaction true, 1, none⟩, .call 0 ⟨.writer, 1, none⟩,
    .join 2, .claim 2, .join 3, .finish 1 .ok, .reply 1,
    .drain 2, .upgrade 2, .load 2, .complete 2 (onlyState 0), .finish 2 .ok, .reply 2,
    .claim 3, .load 3, .complete 3 (onlyState 5), .finish 3 .ok, .reply 3,
    .complete 0 (onlyState 0), .finish 0 .ok, .commit]

/-- After `droppedRun`. -/
def droppedEnd : System Nat Nat Nat Nat :=
  last (step twoStates) (initial ⟨.transaction false, 0, none⟩) droppedRun

/-- The write of call 3 is dropped, and nothing has aborted. -/
theorem write_dropped :
    Reach (step twoStates) (fun _ _ => True) (initial ⟨.transaction false, 0, none⟩) droppedEnd ∧
      droppedEnd.committed = true ∧ (3, 1) ∈ droppedEnd.changes ∧ ¬ droppedEnd.withinAborted 3 ∧
      ∃ k, droppedEnd.coordinator = some k ∧ 1 ∉ k.participants.shouldCommit ∧
        droppedEnd.prepared 1 = none := by
  refine ⟨reach_last droppedRun .init (by decide +kernel), by decide +kernel, by decide +kernel,
    ?_, ?_⟩
  · rintro ⟨k, hk, t, ht, haborted⟩
    have hids : (droppedEnd.call 3).map (·.transactionIds) = some [0] := by decide +kernel
    rw [hk] at hids
    have hids : k.transactionIds = [0] := Option.some.inj hids
    rw [hids, List.mem_singleton] at ht
    have hroot : droppedEnd.hasAborted 0 = false := by decide +kernel
    rw [ht, hroot] at haborted
    cases haborted
  · have hcommit : droppedEnd.coordinator.map (·.participants.shouldCommit) = some [] := by
      decide +kernel
    obtain ⟨k, hk, hnil⟩ := Option.map_eq_some_iff.mp hcommit
    have hnil : k.participants.shouldCommit = [] := hnil
    refine ⟨k, hk, ?_, by decide +kernel⟩
    rw [hnil]
    exact List.not_mem_nil

end Reboot.Txn.CallTree.System
