import Reboot.Txn.CallTreeOwners

/-!
# What an aborted nested transaction leaves behind

When a nested transaction raises an error that its caller catches, its participants are
told to go back to their snapshots, and the root may still commit. What `Prepare` then
writes to the database should have nothing in it that a call within that transaction
wrote: no state, no task, no idempotent mutation, no colocated entry.

`aborted_not_durable` says so for every run in which three things do not happen, and the
runs behind it show what happens otherwise:
- a transaction's commit overtakes the end of a transaction within it;
- a nested transaction raises such an error after a call within it has written to a state
  without restart detection: that write is in the database's transaction already, and
  no rollback goes there (the transaction's own state is looked at, the others are not);
- a call stores a mutation under an idempotency key that the transaction already has: the
  snapshot knows the key, and keeps whatever is under it by then.

Mirroring notes:
- What `Prepare` writes is what a commit makes durable. A participant that is not to
  commit is prepared as well, so the result is about more than the committed ones.
- An entry is `Mine` under some owners if the call that wrote it is in force there. A
  state that is back with the root has only the root among its owners.
-/

namespace Reboot.Txn.CallTree

open Reboot.Lib Reboot.Txn.Nested

variable {σ κ V M : Type}

/-- Some column holds something that the call wrote. -/
def Stored.mentions (d : Stored κ V M) (c : Nat) : Bool :=
  d.state.any (fun v => decide (v.1 = some c)) ||
    (d.tasks ++ d.idempotentMutations ++ d.colocated).any fun e => decide (e.2.1 = c)

theorem Stored.mentions_iff {d : Stored κ V M} {c : Nat} :
    d.mentions c = true ↔ (∃ v, d.state = some (some c, v)) ∨
      (∃ e ∈ d.tasks, e.2.1 = c) ∨ (∃ e ∈ d.idempotentMutations, e.2.1 = c) ∨
      ∃ e ∈ d.colocated, e.2.1 = c := by
  have hstate : d.state.any (fun v => decide (v.1 = some c)) = true ↔
      ∃ v, d.state = some (some c, v) := by
    cases d.state with
    | none => simp
    | some v =>
      obtain ⟨tag, v⟩ := v
      simp only [Option.any_some, decide_eq_true_eq, Option.some.injEq, Prod.mk.injEq]
      exact ⟨fun h => ⟨v, h, rfl⟩, fun ⟨_, h, _⟩ => h⟩
  rw [mentions, Bool.or_eq_true, hstate, List.any_eq_true]
  simp only [List.mem_append, decide_eq_true_eq]
  constructor
  · rintro (h | ⟨e, (he | he) | he, hc⟩)
    · exact .inl h
    · exact .inr (.inl ⟨e, he, hc⟩)
    · exact .inr (.inr (.inl ⟨e, he, hc⟩))
    · exact .inr (.inr (.inr ⟨e, he, hc⟩))
  · rintro (h | ⟨e, he, hc⟩ | ⟨e, he, hc⟩ | ⟨e, he, hc⟩)
    · exact .inl h
    · exact .inr ⟨e, .inl (.inl he), hc⟩
    · exact .inr ⟨e, .inl (.inr he), hc⟩
    · exact .inr ⟨e, .inr he, hc⟩

/-! ## Entries -/

section Entries

variable {c : Nat} {k : Call σ κ V M} {e : Effects κ V M}

theorem mem_tagged {l : List (κ × M)} {x : κ × Nat × M} (h : x ∈ tagged c l) : x.2.1 = c := by
  obtain ⟨y, -, rfl⟩ := List.mem_map.mp h
  rfl

theorem mem_mutationOf {x : κ × Nat × M} (h : x ∈ mutationOf c k e) :
    x.2.1 = c ∧ k.method.idempotencyKey = some x.1 := by
  unfold mutationOf at h
  split at h
  next => cases h
  next key hkey =>
    rw [List.mem_singleton.mp h]
    exact ⟨rfl, hkey⟩

variable [DecidableEq κ]

theorem mem_foldl_putKey {l es : List (κ × Nat × M)} {x : κ × Nat × M}
    (h : x ∈ es.foldl putKey l) : x ∈ l ∨ x ∈ es := by
  induction es generalizing l with
  | nil => exact .inl h
  | cons y es ih =>
    rcases ih h with hmem | hmem
    · unfold putKey at hmem
      split at hmem
      next =>
        obtain ⟨z, hz, heq⟩ := List.mem_map.mp hmem
        split at heq
        next =>
          subst heq
          exact .inr List.mem_cons_self
        next =>
          subst heq
          exact .inl hz
      next =>
        rcases List.mem_append.mp hmem with hmem | hmem
        · exact .inl hmem
        · exact .inr (List.mem_singleton.mp hmem ▸ List.mem_cons_self)
    · exact .inr (List.mem_cons_of_mem y hmem)

/-- A store adds what the call wrote and nothing else. -/
theorem Stored.mentions_write {d : Stored κ V M} {b : Nat} (h : (d.write c k e).mentions b = true) :
    b = c ∨ d.mentions b = true := by
  rcases mentions_iff.mp h with ⟨v, hv⟩ | ⟨x, hx, rfl⟩ | ⟨x, hx, rfl⟩ | ⟨x, hx, rfl⟩
  · simp only [write] at hv
    cases hstate : e.state with
    | none =>
      rw [hstate] at hv
      exact .inr (mentions_iff.mpr (.inl ⟨v, hv⟩))
    | some w =>
      rw [hstate] at hv
      cases hv
      exact .inl rfl
  · rcases List.mem_append.mp hx with hx | hx
    · exact .inr (mentions_iff.mpr (.inr (.inl ⟨x, hx, rfl⟩)))
    · exact .inl (mem_tagged hx)
  · rcases mem_foldl_putKey hx with hx | hx
    · exact .inr (mentions_iff.mpr (.inr (.inr (.inl ⟨x, hx, rfl⟩))))
    · exact .inl (mem_mutationOf hx).1
  · rcases mem_foldl_putKey hx with hx | hx
    · exact .inr (mentions_iff.mpr (.inr (.inr (.inr ⟨x, hx, rfl⟩))))
    · exact .inl (mem_tagged hx)

/-- A mutation under a new key goes to the end. -/
theorem foldl_putKey_mutationOf {l : List (κ × Nat × M)}
    (hnew : ∀ key, k.method.idempotencyKey = some key → key ∉ l.map (·.1)) :
    (mutationOf c k e).foldl putKey l = l ++ mutationOf c k e := by
  unfold mutationOf
  split
  next => exact (List.append_nil l).symm
  next key hkey =>
    rw [List.foldl_cons, List.foldl_nil, putKey, if_neg (hnew key hkey)]

end Entries

namespace System

variable {s s' : System σ κ V M}

/-! ## What one state has -/

/-- The call is in force under the owners. -/
def Mine (s : System σ κ V M) (owners : List Nat) (c : Nat) : Prop :=
  ∃ k, s.call c = some k ∧ s.InForce k.transactionIds owners

theorem Mine.later (hl : Later s s') {owners : List Nat} {c : Nat} (h : s.Mine owners c) :
    s'.Mine owners c := by
  obtain ⟨k, hc, hforce⟩ := h
  obtain ⟨k', hc', hgrown⟩ := hl c k hc
  exact ⟨k', hc', hgrown.transactionIds ▸ hforce.later hl⟩

theorem Mine.mono {owners owners' : List Nat} {c : Nat} (h : s.Mine owners c)
    (hsub : ∀ t ∈ owners, t ∈ owners' ∨ s.hasCommitted t = true) : s.Mine owners' c := by
  obtain ⟨k, hc, hforce⟩ := h
  exact ⟨k, hc, hforce.mono hsub⟩

/-- A call under way is in force. -/
theorem Owners.mine (ho : Owners s) {c : Nat} {k : Call σ κ V M} {i : Site κ V M}
    (hc : s.call c = some k) (hclaimed : k.phase.claimed = true)
    (hx : s.site k.method.ref = some i) : s.Mine i.ownerIds c :=
  ⟨k, hc, inForce_of_isPrefix (ho.standing c k i hc hclaimed hx).owned⟩

/-- The call is within no nested transaction that has aborted. -/
def Clear (s : System σ κ V M) (c : Nat) : Prop :=
  ∃ k, s.call c = some k ∧ ∀ t ∈ k.transactionIds, t ≠ 0 → s.hasAborted t = false

/-- What is back with the root is from calls that count. -/
theorem Mine.clear {owners : List Nat} {c : Nat} (h : s.Mine owners c)
    (howner : isClaimableBy owners [0] = true) : s.Clear c := by
  obtain ⟨k, hc, hforce⟩ := h
  refine ⟨k, hc, fun t ht h0 => ?_⟩
  rcases hforce t ht with hmem | hcommitted
  · have hzero := (isClaimableBy_iff.mp howner).subset hmem
    exact absurd (List.mem_singleton.mp hzero) h0
  · exact not_aborted_of_committed hcommitted

/-- The entries of a log are in force, and those that a snapshot would keep were so before
it was taken. `kept` are the keys a snapshot keeps. -/
structure Logged (s : System σ κ V M) (owners : List Nat)
    (snapshots : List (Snapshot Nat κ (Option Nat × V)))
    (kept : Snapshot Nat κ (Option Nat × V) → List κ) (l : List (κ × Nat × M)) : Prop where
  now : ∀ e ∈ l, s.Mine owners e.2.1
  before : ∀ p ∈ snapshots, ∀ e ∈ l, e.1 ∈ kept p → s.Mine p.ownerIds e.2.1
  keys : ∀ p ∈ snapshots, ∀ key ∈ kept p, key ∈ l.map (·.1)
  sorted : snapshots.Pairwise fun p q => ∀ key ∈ kept p, key ∈ kept q

section Logged

variable {owners owners' : List Nat} {snapshots : List (Snapshot Nat κ (Option Nat × V))}
  {kept : Snapshot Nat κ (Option Nat × V) → List κ} {l : List (κ × Nat × M)}

theorem logged_nil : s.Logged owners [] kept [] :=
  ⟨nofun, nofun, nofun, List.Pairwise.nil⟩

theorem Logged.later (hl : Later s s') (h : s.Logged owners snapshots kept l) :
    s'.Logged owners snapshots kept l :=
  { h with
    now := fun e he => (h.now e he).later hl
    before := fun p hp e he hk => (h.before p hp e he hk).later hl }

theorem Logged.mono (h : s.Logged owners snapshots kept l)
    (hsub : ∀ t ∈ owners, t ∈ owners' ∨ s.hasCommitted t = true) :
    s.Logged owners' snapshots kept l :=
  { h with now := fun e he => (h.now e he).mono hsub }

/-- Snapshots are dropped from the top. -/
theorem Logged.of_isPrefix (h : s.Logged owners snapshots kept l)
    {older : List (Snapshot Nat κ (Option Nat × V))} (hp : older <+: snapshots) :
    s.Logged owners older kept l :=
  { h with
    before := fun p hmem => h.before p (hp.subset hmem)
    keys := fun p hmem => h.keys p (hp.subset hmem)
    sorted := h.sorted.sublist hp.sublist }

/-- A snapshot is taken of the log. -/
theorem Logged.push (h : s.Logged owners snapshots kept l)
    {p : Snapshot Nat κ (Option Nat × V)} (howner : p.ownerIds = owners)
    (hkept : kept p = l.map (·.1)) : s.Logged owners (snapshots ++ [p]) kept l := by
  have hmem : ∀ q ∈ snapshots ++ [p], q ∈ snapshots ∨ q = p := fun q hq =>
    (List.mem_append.mp hq).imp id List.mem_singleton.mp
  constructor
  · exact h.now
  · intro q hq e he hk
    rcases hmem q hq with hq | rfl
    · exact h.before q hq e he hk
    · rw [howner]
      exact h.now e he
  · intro q hq key hk
    rcases hmem q hq with hq | rfl
    · exact h.keys q hq key hk
    · rw [← hkept]
      exact hk
  · refine List.pairwise_append.mpr ⟨h.sorted, List.pairwise_singleton _ _, fun q hq r hr => ?_⟩
    rw [List.mem_singleton.mp hr, hkept]
    exact h.keys q hq

/-- The log goes back to a snapshot. -/
theorem Logged.pop [DecidableEq κ] {older newer : List (Snapshot Nat κ (Option Nat × V))}
    {p : Snapshot Nat κ (Option Nat × V)}
    (h : s.Logged owners (older ++ p :: newer) kept l) :
    s.Logged p.ownerIds older kept (l.filter fun e => decide (e.1 ∈ kept p)) := by
  have hp : p ∈ older ++ p :: newer := List.mem_append_right _ List.mem_cons_self
  obtain ⟨holder, -, hbefore⟩ := List.pairwise_append.mp h.sorted
  constructor
  · intro e he
    obtain ⟨he, hk⟩ := List.mem_filter.mp he
    exact h.before p hp e he (of_decide_eq_true hk)
  · intro q hq e he hk
    exact h.before q (List.mem_append_left _ hq) e (List.mem_filter.mp he).1 hk
  · intro q hq key hk
    obtain ⟨e, he, rfl⟩ := List.mem_map.mp (h.keys q (List.mem_append_left _ hq) key hk)
    have hkp : e.1 ∈ kept p := hbefore q hq p List.mem_cons_self _ hk
    exact List.mem_map.mpr ⟨e, List.mem_filter.mpr ⟨he, decide_eq_true hkp⟩, rfl⟩
  · exact holder

/-- A call in force adds entries under new keys. -/
theorem Logged.append (h : s.Logged owners snapshots kept l) {es : List (κ × Nat × M)}
    (hmine : ∀ e ∈ es, s.Mine owners e.2.1) (hnew : ∀ e ∈ es, e.1 ∉ l.map (·.1)) :
    s.Logged owners snapshots kept (l ++ es) := by
  constructor
  · intro e he
    rcases List.mem_append.mp he with he | he
    · exact h.now e he
    · exact hmine e he
  · intro p hp e he hk
    rcases List.mem_append.mp he with he | he
    · exact h.before p hp e he hk
    · exact absurd (h.keys p hp e.1 hk) (hnew e he)
  · intro p hp key hk
    rw [List.map_append]
    exact List.mem_append_left _ (h.keys p hp key hk)
  · exact h.sorted

end Logged

/-- What a participant has in memory, and what its snapshots go back to, is from calls in
force. -/
structure Held (s : System σ κ V M) (i : Site κ V M) : Prop where
  state : ∀ c v, i.transaction.contents.state = some (some c, v) → s.Mine i.ownerIds c
  stateBefore : ∀ p ∈ i.transaction.snapshots, ∀ c v, p.state = some (some c, v) →
    s.Mine p.ownerIds c
  tasks : s.Logged i.ownerIds i.transaction.snapshots Snapshot.taskUuids
    i.transaction.contents.tasks
  mutations : s.Logged i.ownerIds i.transaction.snapshots Snapshot.idempotentMutationKeys
    i.transaction.contents.idempotentMutations

section Held

variable {i i' : Site κ V M} {t : Participant Nat κ (Option Nat × V) (Nat × M)}

theorem held_fromContext {mode : Mode} : s.Held (Site.fromContext mode) :=
  ⟨nofun, nofun, logged_nil, logged_nil⟩

theorem Held.later (hl : Later s s') (h : s.Held i) : s'.Held i where
  state c v hv := (h.state c v hv).later hl
  stateBefore p hp c v hv := (h.stateBefore p hp c v hv).later hl
  tasks := h.tasks.later hl
  mutations := h.mutations.later hl

/-- The lock, the mode and the counters do not matter. -/
theorem Held.congr (h : s.Held i)
    (hc : i'.transaction.contents = { i.transaction.contents with
      mode := i'.transaction.contents.mode })
    (hs : i'.transaction.snapshots = i.transaction.snapshots) : s.Held i' := by
  obtain ⟨hstate, hbefore, htasks, hmutations⟩ := h
  have howner : i'.ownerIds = i.ownerIds := by rw [Site.ownerIds, hc]; rfl
  constructor
  · rw [howner, hc]
    exact hstate
  · rw [hs]
    exact hbefore
  · rw [howner, hs, hc]
    exact htasks
  · rw [howner, hs, hc]
    exact hmutations

/-- The state is loaded or changed by a call in force. -/
theorem Held.withState (h : s.Held i) {state : Option (Option Nat × V)}
    (hstate : state = i.transaction.contents.state ∨
      ∀ c v, state = some (some c, v) → s.Mine i.ownerIds c) :
    s.Held (i.withContents { i.transaction.contents with state := state }) := by
  refine ⟨?_, h.stateBefore, h.tasks, h.mutations⟩
  rcases hstate with rfl | hstate
  · exact h.state
  · exact hstate

theorem Held.claim (h : s.Held i) {ids : List Nat}
    (ht : claimOwnership i.transaction ids = some t) (hi : i'.transaction = t) : s.Held i' := by
  obtain ⟨hp, hcontents, hsnapshots⟩ := claimOwnership_eq ht
  have hsub : ∀ t ∈ i.ownerIds, t ∈ ids ∨ s.hasCommitted t = true :=
    fun t ht => .inl (hp.subset ht)
  have howner : i'.ownerIds = ids := by rw [Site.ownerIds, hi, hcontents]
  constructor
  · rw [howner, hi, hcontents]
    exact fun c v hv => (h.state c v hv).mono hsub
  · rw [hi]
    rcases hsnapshots with hs | hs <;> rw [hs]
    · exact h.stateBefore
    · intro p hmem
      rcases List.mem_append.mp hmem with hmem | hmem
      · exact h.stateBefore p hmem
      · rw [List.mem_singleton.mp hmem]
        exact h.state
  · rw [howner, hi, hcontents]
    rcases hsnapshots with hs | hs <;> rw [hs]
    · exact h.tasks.mono hsub
    · exact (h.tasks.push rfl rfl).mono hsub
  · rw [howner, hi, hcontents]
    rcases hsnapshots with hs | hs <;> rw [hs]
    · exact h.mutations.mono hsub
    · exact (h.mutations.push rfl rfl).mono hsub

theorem Held.relinquish [DecidableEq κ] (h : s.Held i) {n : Nat} {aborted : Bool}
    (ht : relinquishOwnership i.transaction n aborted = some t)
    (hoff : aborted = false → s.OffCommitted i.ownerIds n) (hi : i'.transaction = t) :
    s.Held i' := by
  rcases relinquishOwnership_eq ht with rfl | ⟨-, -, older, p, newer, hsplit, -, hs, hcontents⟩ |
    ⟨-, haborted, hpre, hcontents⟩
  · exact h.congr (by rw [hi]) (by rw [hi])
  · have howner : i'.ownerIds = p.ownerIds := by rw [Site.ownerIds, hi, hcontents]; rfl
    have hp : p ∈ i.transaction.snapshots := by
      rw [hsplit]
      exact List.mem_append_right _ List.mem_cons_self
    obtain ⟨-, hbefore, htasks, hmutations⟩ := h
    rw [hsplit] at htasks hmutations
    constructor
    · rw [howner, hi, hcontents]
      exact hbefore p hp
    · rw [hi, hs]
      exact fun q hq => hbefore q (hsplit ▸ List.mem_append_left _ hq)
    · rw [howner, hi, hs, hcontents]
      exact htasks.pop
    · rw [howner, hi, hs, hcontents]
      exact hmutations.pop
  · have howner : i'.ownerIds = i.ownerIds.take (i.ownerIds.idxOf n) := by
      rw [Site.ownerIds, hi, hcontents]
      rfl
    have hkept : ∀ t ∈ i.ownerIds, t ∈ i'.ownerIds ∨ s.hasCommitted t = true := by
      rw [howner]
      exact (inForce_of_isPrefix (List.prefix_refl i.ownerIds)).take (hoff haborted)
    obtain ⟨hstate, hbefore, htasks, hmutations⟩ := h
    constructor
    · intro c v hv
      rw [hi, hcontents] at hv
      exact (hstate c v hv).mono hkept
    · rw [hi]
      exact fun q hq => hbefore q (hpre.subset hq)
    · have hlog := (htasks.of_isPrefix hpre).mono hkept
      rw [hi, hcontents]
      exact hi ▸ hlog
    · have hlog := (hmutations.of_isPrefix hpre).mono hkept
      rw [hi, hcontents]
      exact hi ▸ hlog

/-- What participants have in memory, after one was written back. -/
theorem held_put [DecidableEq σ] (hheld : ∀ x i, s.site x = some i → s.Held i) (hl : Later s s') {x : σ}
    {o : Option (Site κ V M)} (hsite : s'.site = Function.update s.site x o)
    (hnew : ∀ i, o = some i → s'.Held i) : ∀ y i, s'.site y = some i → s'.Held i := by
  intro y i hy
  rcases site_put hsite hy with ⟨-, hi⟩ | ⟨-, hold⟩
  · exact hnew i hi
  · exact (hheld y i hold).later hl

end Held

section Store

variable [DecidableEq κ]

/-- The transaction has nothing under the call's idempotency key yet. -/
def keyIsNew (k : Call σ κ V M) (i : Site κ V M) : Bool :=
  match k.method.idempotencyKey with
  | none => true
  | some key => decide (key ∉ i.transaction.contents.idempotentMutations.map (·.1))

/-- A call in force stores its effects. -/
theorem Held.stored {env : Env σ V} {c : Nat} {k : Call σ κ V M} {i : Site κ V M}
    {e : Effects κ V M} (h : s.Held i) (hmine : s.Mine i.ownerIds c)
    (hmay : mayStore env c k i e = true) (hkey : keyIsNew k i = true) :
    s.Held (storedSite env c k i e) := by
  have hnew : ∀ key, k.method.idempotencyKey = some key →
      key ∉ i.transaction.contents.idempotentMutations.map (·.1) := by
    intro key heq
    simpa [keyIsNew, heq] using hkey
  simp only [mayStore, Bool.and_eq_true, decide_eq_true_eq] at hmay
  have hnodup := hmay.1
  rw [List.map_append, List.nodup_append] at hnodup
  obtain ⟨-, -, hdisjoint⟩ := hnodup
  constructor
  · intro b v hv
    have hv : (memoryWrites c k e).state.or i.transaction.contents.state = some (some b, v) := hv
    cases hw : (memoryWrites c k e).state with
    | none =>
      rw [hw] at hv
      exact h.state b v hv
    | some w =>
      rw [hw] at hv
      have hcall : w.1 = some c := by
        simp only [memoryWrites] at hw
        split at hw
        next => cases hw
        next =>
          obtain ⟨v', -, rfl⟩ := Option.map_eq_some_iff.mp hw
          rfl
      cases hv
      cases hcall
      exact hmine
  · exact h.stateBefore
  · refine h.tasks.append (fun x hx => (mem_tagged hx) ▸ hmine) fun x hx hmem => ?_
    exact hdisjoint x.1 hmem x.1 (List.mem_map_of_mem hx) rfl
  · show s.Logged i.ownerIds i.transaction.snapshots _ ((mutationOf c k e).foldl putKey
      i.transaction.contents.idempotentMutations)
    rw [foldl_putKey_mutationOf hnew]
    refine h.mutations.append (fun x hx => (mem_mutationOf hx).1 ▸ hmine) fun x hx => ?_
    exact hnew x.1 (mem_mutationOf hx).2

end Store

/-! ## All states -/

/-- What is known about every participant and about what was prepared. -/
structure Durable (s : System σ κ V M) : Prop where
  held : ∀ x i, s.site x = some i → s.Held i
  database : ∀ x i c, s.site x = some i → i.database.mentions c = true →
    s.Clear c ∧ ∃ k, s.call c = some k ∧ k.method.ref = x
  prepared : ∀ x d c, s.prepared x = some d → d.mentions c = true → s.Clear c

/-- What `Prepare` writes is from calls that count. -/
theorem Durable.toPrepare (h : Durable s) {x : σ} {i : Site κ V M} (hx : s.site x = some i)
    (howner : isClaimableBy i.ownerIds [0] = true) {b : Bool} {c : Nat}
    (hc : (Site.toPrepare b i).mentions c = true) : s.Clear c := by
  have hheld := h.held x i hx
  cases b with
  | false => exact (h.database x i c hx hc).1
  | true =>
    rcases Stored.mentions_iff.mp hc with ⟨v, hv⟩ | ⟨e, he, rfl⟩ | ⟨e, he, rfl⟩ | ⟨e, he, -⟩
    · simp only [Site.toPrepare, if_true] at hv
      split at hv
      next => exact (hheld.state c v hv).clear howner
      next => cases hv
    · exact (hheld.tasks.now e he).clear howner
    · exact (hheld.mutations.now e he).clear howner
    · cases he

/-! ## Which transactions abort, and what goes to the database -/

/-- One call goes on, and no other has aborted by that. -/
theorem hasAborted_put {c t : Nat} {k' : Call σ κ V M} (h : s'.hasAborted t = true)
    (hcall : s'.call = Function.update s.call c (some k')) :
    s.hasAborted t = true ∨ (t = c ∧ k'.aborted = true) := by
  obtain ⟨kt, hkt, haborted⟩ := hasAborted_iff.mp h
  rcases call_put hcall hkt with ⟨rfl, rfl⟩ | ⟨-, hold⟩
  · exact .inr ⟨rfl, haborted⟩
  · exact .inl (hasAborted_iff.mpr ⟨kt, hold, haborted⟩)

/-- A call that goes on without an error has not aborted. -/
theorem hasAborted_went {c t : Nat} {k' : Call σ κ V M} (h : s'.hasAborted t = true)
    (hcall : s'.call = Function.update s.call c (some k')) (hphase : k'.phase.failed = false) :
    s.hasAborted t = true := by
  refine (hasAborted_put h hcall).resolve_right ?_
  rintro ⟨-, haborted⟩
  simp [Call.aborted, hphase] at haborted

theorem recoverable_of_aborted (hnb : ¬ s.Broken) {c : Nat} {k : Call σ κ V M} {o : Outcome}
    (hc : s.call c = some k) (hphase : k.phase = .returned o) (haborted : k.aborted = true) :
    o = .recoverable := by
  cases o with
  | ok => simp [Call.aborted, hphase, Phase.failed] at haborted
  | recoverable => rfl
  | unrecoverable => exact absurd ⟨c, k, hc, .inl hphase⟩ hnb

/-- A call that returns has aborted only if it raised an error to be caught. -/
theorem hasAborted_returned (hnb : ¬ s'.Broken) {c t : Nat} {k : Call σ κ V M} {o : Outcome}
    {participants : Participants σ} (h : s'.hasAborted t = true)
    (hcall : s'.call = Function.update s.call c (some { k with
      phase := .returned o, participants := participants })) :
    s.hasAborted t = true ∨ (t = c ∧ k.method.kind.isTransaction = true ∧ o = .recoverable) := by
  refine (hasAborted_put h hcall).imp id ?_
  rintro ⟨rfl, haborted⟩
  have hkind := Call.isTransaction_of_aborted haborted
  refine ⟨rfl, hkind, ?_⟩
  exact recoverable_of_aborted hnb (by rw [hcall, Function.update_self]) rfl haborted

section Moves

variable [DecidableEq σ] [DecidableEq κ] [DecidableEq V] [DecidableEq M]
variable {env : Env σ V} {a : Action σ κ V M}

/-- A transaction aborts by its own end. If the root may still commit, it is a nested one
that raised an error to be caught. -/
theorem Move.newlyAborted (h : Move env s a s') (ht : Tree s) (hnb : ¬ s'.Broken) {t : Nat}
    (habort : s'.hasAborted t = true) : s.hasAborted t = true ∨ t = 0 ∨
      ∃ o k, a = .finish t o ∧ s.call t = some k ∧ k.nested = true ∧
        (exitOutcome k o).1 = .recoverable := by
  cases h with
  | @call p k method hp hphase =>
    left
    have h1 : (s.putCall p { k with
        outstandingRpcs := s.nextId :: k.outstandingRpcs }).hasAborted t = true :=
      hasAborted_went habort rfl rfl
    exact hasAborted_went h1 rfl (by rw [hphase]; rfl)
  | join hc hx hphase hacquired => exact .inl (hasAborted_went habort rfl rfl)
  | @claim c k i t hc hx hphase hclaim =>
    left
    refine hasAborted_went habort rfl ?_
    dsimp only
    split
    · rfl
    · exact Phase.not_failed_of_entered (Call.enter_entered i.mode)
  | drain hc hx hnested hphase =>
    exact .inl (hasAborted_went habort rfl (Phase.not_failed_of_entered (Call.enter_entered _)))
  | upgrade hc hx hphase => exact .inl (hasAborted_went habort rfl rfl)
  | upgradeStored hc hx hphase hstore => exact .inl (hasAborted_went habort rfl rfl)
  | load hc hx hphase state hstate hk' =>
    exact .inl (hasAborted_went habort rfl (by rw [hk']; rfl))
  | completeWaits hc hphase hkind => exact .inl (hasAborted_went habort rfl rfl)
  | completeStored hc hx hphase hk' hstore => exact .inl (hasAborted_went habort rfl rfl)
  | @finishOutside c k o hc hphase ho =>
    rcases hasAborted_returned hnb habort rfl with hold | ⟨rfl, hkind, rfl⟩
    · exact .inl hold
    · right
      by_cases hcaller : k.caller = none
      · exact .inl (ht.eq_zero hc hcaller)
      · refine .inr ⟨_, k, rfl, hc, ?_, ?_⟩
        · simp [Call.nested, hkind, Option.isSome_iff_ne_none, hcaller]
        · -- nothing of it is open, as it has not begun
          obtain ⟨hrpcs, hun⟩ := ht.quiet _ k hc hphase
          simp [exitOutcome, hrpcs, hun]
  | @finishLeaf c k i o hc hx hphase hkind =>
    rcases hasAborted_returned hnb habort rfl with hold | ⟨rfl, hkind', -⟩
    · exact .inl hold
    · rw [hkind] at hkind'
      cases hkind'
  | @finishRoot c k i o hc hx hphase hkind hcaller =>
    refine (hasAborted_put habort rfl).imp id fun h => .inl ?_
    rw [h.1]
    exact ht.eq_zero hc hcaller
  | @finishFlagged c k i o hc hx hphase hnested hflag =>
    rcases hasAborted_returned hnb habort rfl with hold | ⟨rfl, -, ho⟩
    · exact .inl hold
    · exact .inr (.inr ⟨o, k, rfl, hc, hnested, ho⟩)
  | @finishDoomed c k i o hc hx hphase hnested =>
    rcases hasAborted_returned hnb habort rfl with hold | ⟨-, -, ho⟩
    · exact .inl hold
    · cases ho
  | @finishNested c k i o x hc hx hphase hnested hflag hr =>
    rcases hasAborted_returned hnb habort rfl with hold | ⟨rfl, -, ho⟩
    · exact .inl hold
    · exact .inr (.inr ⟨o, k, rfl, hc, hnested, ho⟩)
  | reply hc hcaller hp hrpc hentered hphase =>
    exact .inl (hasAborted_went habort rfl (Phase.not_failed_of_entered hentered))
  | lose hc hcaller hp hentered =>
    exact .inl (hasAborted_went habort rfl (Phase.not_failed_of_entered hentered))
  | _ => exact .inl habort

/-- What is in the database's transaction was there before, or a call has just stored it. -/
theorem Move.database (h : Move env s a s') {x : σ} {i' : Site κ V M} {b : Nat}
    (hx' : s'.site x = some i') (hb : i'.database.mentions b = true) :
    (∃ i, s.site x = some i ∧ i.database.mentions b = true) ∨
      ∃ k, s'.call b = some k ∧ k.method.ref = x ∧ k.phase = .completed := by
  -- the database's transaction of one participant is written back as it was
  have hsame : ∀ {y : σ} {i i'' : Site κ V M}, s.site y = some i →
      s'.site = Function.update s.site y (some i'') → i''.database = i.database →
      ∃ i, s.site x = some i ∧ i.database.mentions b = true := by
    intro y i i'' hy hsite hdatabase
    rcases site_put hsite hx' with ⟨rfl, heq⟩ | ⟨-, hold⟩
    · cases heq
      exact ⟨i, hy, hdatabase ▸ hb⟩
    · exact ⟨i', hold, hb⟩
  have hstored : ∀ {c : Nat} {k : Call σ κ V M} {i j : Site κ V M} {e : Effects κ V M},
      s.site k.method.ref = some i → j.database = i.database →
      s'.site = Function.update s.site k.method.ref (some (storedSite env c k j e)) →
      s'.call c = some { k with phase := .completed } →
      (∃ i, s.site x = some i ∧ i.database.mentions b = true) ∨
        ∃ k, s'.call b = some k ∧ k.method.ref = x ∧ k.phase = .completed := by
    intro c k i j e hx hdatabase hsite hcall
    rcases site_put hsite hx' with ⟨rfl, heq⟩ | ⟨-, hold⟩
    · cases heq
      simp only [storedSite, hdatabase] at hb
      split at hb
      next => exact .inl ⟨i, hx, hb⟩
      next =>
        rcases Stored.mentions_write hb with rfl | hb
        · exact .inr ⟨_, hcall, rfl, rfl⟩
        · exact .inl ⟨i, hx, hb⟩
    · exact .inl ⟨i', hold, hb⟩
  cases h with
  | call hp hphase => exact .inl ⟨i', hx', hb⟩
  | start hc hphase hx =>
    rcases site_put (s := s) rfl hx' with ⟨rfl, heq⟩ | ⟨-, hold⟩
    · cases heq
      cases hb
    · exact .inl ⟨i', hold, hb⟩
  | refuse hx hacquired =>
    rcases site_put (s := s) rfl hx' with ⟨-, heq⟩ | ⟨-, hold⟩
    · cases heq
    · exact .inl ⟨i', hold, hb⟩
  | @upgradeStored c k i e hc hx hphase hstore =>
    exact hstored (k := markCommit k) (j := i.upgraded) hx rfl (Function.update_idem ..) (Function.update_self ..)
  | @completeStored c k k' i e hc hx hphase hk' hstore =>
    have href : k'.method = k.method := by rcases hk' with ⟨rfl, -⟩ | ⟨rfl, -⟩ <;> rfl
    have hx : s.site k'.method.ref = some i := href ▸ hx
    exact hstored hx rfl rfl (Function.update_self ..)
  | acquire hx hacquired => exact .inl (hsame hx rfl rfl)
  | claim hc hx hphase hclaim => exact .inl (hsame hx rfl rfl)
  | upgrade hc hx hphase => exact .inl (hsame hx rfl rfl)
  | load hc hx hphase state hstate hk' => exact .inl (hsame hx rfl rfl)
  | mutate hc hx hphase => exact .inl (hsame hx rfl rfl)
  | finishLeaf hc hx hphase hkind => exact .inl (hsame hx rfl rfl)
  | finishRoot hc hx hphase hkind hcaller => exact .inl (hsame hx rfl rfl)
  | finishFlagged hc hx hphase hnested hflag => exact .inl (hsame hx rfl rfl)
  | finishDoomed hc hx hphase hnested => exact .inl (hsame hx rfl rfl)
  | finishNested hc hx hphase hnested hflag hr => exact .inl (hsame hx rfl rfl)
  | relinquish hm hx hr => exact .inl (hsame hx rfl rfl)
  | _ => exact .inl ⟨i', hx', hb⟩

/-! ## Every step -/

/-- No call within the transaction has written to a database's transaction. -/
def nothingInDatabase (s : System σ κ V M) (n : Nat) : Bool :=
  (List.range s.nextId).all fun c =>
    match s.call c with
    | none => true
    | some k =>
      decide (n ∉ k.transactionIds) ||
        match s.site k.method.ref with
        | none => true
        | some i => !i.database.mentions c

/-- Nothing is left behind by the step: commits come in order, a nested transaction that
raises an error to be caught has written to no database, and nothing is stored under a key
that is taken. -/
def durableSafe (s : System σ κ V M) (a : Action σ κ V M) : Bool :=
  s.committedInOrder a &&
    match a with
    | .finish c o =>
      match s.call c with
      | none => true
      | some k => decide (k.nested = true → (exitOutcome k o).1 = .recoverable →
          s.nothingInDatabase c = true)
    | .complete c e =>
      match s.lookup c with
      | none => true
      | some (k, i) =>
        -- a transaction method that upgrades the lock first stores nothing yet
        decide (k.method.kind ≠ .writer ∧ k.changes e ∧ i.mode = .shared) || keyIsNew k i
    | .upgrade c =>
      match s.lookup c with
      | none => true
      | some (k, i) => decide (k.phase = .upgrading none) || keyIsNew k i
    | _ => true

/-- A call that counted counts after a safe step. -/
theorem Move.clear (h : Move env s a s') (ht : Tree s) (hnb : ¬ s'.Broken)
    (hsafe : s.durableSafe a = true) {x : σ} {i : Site κ V M} {c : Nat}
    (hx : s.site x = some i) (hc : i.database.mentions c = true) (hclear : s.Clear c)
    (href : ∃ k, s.call c = some k ∧ k.method.ref = x) :
    s'.Clear c := by
  obtain ⟨k, hk, hno⟩ := hclear
  obtain ⟨k', hk', hgrown⟩ := h.callMove.grown ht hk
  refine ⟨k', hk', fun t hmem h0 => Bool.eq_false_iff.mpr fun habort => ?_⟩
  rw [hgrown.transactionIds] at hmem
  rcases h.newlyAborted ht hnb habort with hold | hzero | ⟨o, kt, rfl, hkt, hnested, ho⟩
  · rw [hno t hmem h0] at hold
    cases hold
  · exact h0 hzero
  · -- the transaction has just raised, and had written to no database
    simp only [durableSafe, hkt, Bool.and_eq_true, decide_eq_true_eq] at hsafe
    have hnothing := hsafe.2 hnested ho
    simp only [nothingInDatabase, List.all_eq_true, List.mem_range] at hnothing
    have hthis := hnothing c (ht.fresh c k hk)
    obtain ⟨kr, hkr, href⟩ := href
    rw [hk] at hkr
    cases hkr
    simp only [hk, href, hx, hc, Bool.or_eq_true, decide_eq_true_eq] at hthis
    exact hthis.elim (fun h => h hmem) (by simp)

/-- What participants have in memory after a safe step. -/
theorem Move.held (h : Move env s a s') (hheld : ∀ x i, s.site x = some i → s.Held i)
    (ho : Owners s) (ht : Tree s) (hsafe : s.durableSafe a = true) :
    ∀ x i, s'.site x = some i → s'.Held i := by
  have hl : Later s s' := fun c k hc => h.callMove.grown ht hc
  have horder : s.committedInOrder a = true := by
    simp only [durableSafe, Bool.and_eq_true] at hsafe
    exact hsafe.1
  -- only the mode, the lock or a counter has changed
  have hsame : ∀ {y : σ} {i i'' : Site κ V M}, s.site y = some i →
      s'.site = Function.update s.site y (some i'') →
      i''.transaction.contents = { i.transaction.contents with
        mode := i''.transaction.contents.mode } →
      i''.transaction.snapshots = i.transaction.snapshots →
      ∀ x i, s'.site x = some i → s'.Held i := by
    intro y i i'' hy hsite hcontents hsnaps
    refine held_put hheld hl hsite fun j hj => ?_
    cases hj
    exact ((hheld y i hy).later hl).congr hcontents hsnaps
  have hrest : s'.site = s.site → ∀ x i, s'.site x = some i → s'.Held i := by
    intro hsite x i hx
    rw [hsite] at hx
    exact (hheld x i hx).later hl
  cases h with
  | start hc hphase hx =>
    refine held_put hheld hl rfl fun j hj => ?_
    cases hj
    exact held_fromContext
  | refuse hx hacquired => exact held_put hheld hl rfl fun j hj => nomatch hj
  | claim hc hx hphase hclaim =>
    refine held_put hheld hl rfl fun j hj => ?_
    cases hj
    exact ((hheld _ _ hx).later hl).claim hclaim rfl
  | @upgradeStored c k i e hc hx hphase hstore =>
    refine held_put hheld hl (Function.update_idem ..) fun j hj => ?_
    cases hj
    have hmine := ho.mine hc (claimed_of_live (.inr (.inr (.inr ⟨_, hphase⟩)))) hx
    have hlook : s.lookup c = some (k, i) := by simp only [lookup, hc, hx]
    have hkey : keyIsNew k i = true := by
      simp only [durableSafe, hlook, Bool.and_eq_true, Bool.or_eq_true, decide_eq_true_eq] at hsafe
      refine hsafe.2.resolve_left ?_
      rw [hphase]
      nofun
    have hold : s.Held i.upgraded := (hheld _ _ hx).congr rfl rfl
    exact Held.later hl (hold.stored (k := markCommit k) hmine hstore hkey)
  | @load c k k' i hc hx hphase state hstate hk' =>
    refine held_put hheld hl rfl fun j hj => ?_
    cases hj
    have hmine := ho.mine hc (claimed_of_live (.inr (.inl hphase))) hx
    refine Held.later hl ((hheld _ _ hx).withState (hstate.imp id ?_))
    rintro ⟨v, rfl | rfl⟩ b w hw
    · cases hw
    · cases hw
      exact hmine
  | @mutate c k i v hc hx hphase =>
    refine held_put hheld hl rfl fun j hj => ?_
    cases hj
    have hmine := ho.mine hc (claimed_of_live (.inl hphase)) hx
    refine Held.later hl ((hheld _ _ hx).withState (.inr ?_))
    intro b w hw
    cases hw
    exact hmine
  | @completeStored c k k' i e hc hx hphase hk' hstore =>
    refine held_put hheld hl rfl fun j hj => ?_
    cases hj
    have hmine := ho.mine hc (claimed_of_live (.inl hphase)) hx
    have hlook : s.lookup c = some (k, i) := by simp only [lookup, hc, hx]
    have hkey : keyIsNew k i = true := by
      simp only [durableSafe, hlook, Bool.and_eq_true, Bool.or_eq_true, decide_eq_true_eq] at hsafe
      refine hsafe.2.resolve_left ?_
      rintro ⟨hwriter, hchanges, hshared⟩
      rcases hk' with ⟨-, h | h⟩ | ⟨-, -, -, hexclusive⟩
      · exact hwriter h
      · exact h hchanges
      · rw [hshared] at hexclusive
        cases hexclusive
    refine Held.later hl ((hheld _ _ hx).stored hmine hstore ?_)
    rcases hk' with ⟨rfl, -⟩ | ⟨rfl, -⟩ <;> exact hkey
  | @finishNested c k i o t hc hx hphase hnested hflag hr =>
    have hoff := offCommitted_finishNested hl hc hx hnested rfl horder
    refine held_put hheld hl rfl fun j hj => ?_
    cases hj
    exact ((hheld _ _ hx).later hl).relinquish hr hoff rfl
  | @relinquish m i t hm hx hr =>
    obtain ⟨k, o, hc, hkind, hphase, haborted⟩ := ho.told _ hm
    have hoff := offCommitted_of_ended hl hx hc hphase haborted (inOrder_of_relinquish horder)
    refine held_put hheld hl rfl fun j hj => ?_
    cases hj
    exact ((hheld _ _ hx).later hl).relinquish hr hoff rfl
  | acquire hx hacquired => exact hsame hx rfl rfl rfl
  | upgrade hc hx hphase => exact hsame hx rfl rfl rfl
  | finishLeaf hc hx hphase hkind => exact hsame hx rfl rfl rfl
  | finishRoot hc hx hphase hkind hcaller => exact hsame hx rfl rfl rfl
  | finishFlagged hc hx hphase hnested hflag => exact hsame hx rfl rfl rfl
  | finishDoomed hc hx hphase hnested => exact hsame hx rfl rfl rfl
  | _ => exact hrest rfl

/-- **Nothing is left behind** by a safe step. -/
theorem Move.durable (h : Move env s a s') (hd : Durable s) (ho : Owners s) (ht : Tree s)
    (hnb : ¬ s'.Broken) (hco : ∀ x d, s.prepared x = some d → s.Coordinating)
    (hsafe : s.durableSafe a = true) : Durable s' := by
  have hl : Later s s' := fun c k hc => h.callMove.grown ht hc
  have ht' : Tree s' := h.callMove.tree ht
  refine ⟨h.held hd.held ho ht hsafe, ?_, ?_⟩
  · intro x i c hx hc
    rcases h.database hx hc with ⟨j, hj, hold⟩ | ⟨k, hk, href, hphase⟩
    · obtain ⟨hclear, k, hk, href⟩ := hd.database x j c hj hold
      obtain ⟨k', hk', hgrown⟩ := hl c k hk
      exact ⟨h.clear ht hnb hsafe hj hold hclear ⟨k, hk, href⟩, k', hk',
        by rw [hgrown.method]; exact href⟩
    · -- a call that has just stored is under way
      refine ⟨⟨k, hk, fun t hmem _ => ?_⟩, k, hk, href⟩
      exact ht'.not_aborted hnb hk (by rw [hphase]; rfl) hmem
  · intro x d c hx hc
    have hclear : s.Coordinating → s.Clear c → s'.Clear c := by
      intro hco hc
      obtain ⟨hcall, -, -⟩ := h.settled ho ht hco
      obtain ⟨k, hk, hno⟩ := hc
      refine ⟨k, by rw [hcall]; exact hk, fun t ht h0 => ?_⟩
      simpa only [hasAborted, hcall] using hno t ht h0
    rcases h.prepared hx with hold | ⟨hco, i, hi, howner, rfl⟩
    · exact hclear (hco x d hold) (hd.prepared x d c hold hc)
    · exact hclear hco (hd.toPrepare hi howner hc)

/-! ## Every run -/

/-- What holds in every run of safe steps. Once the root can no longer commit, the calls
alone are looked at. -/
structure Lasting (s : System σ κ V M) : Prop where
  tree : Tree s
  coordinating : ∀ x d, s.prepared x = some d → s.Coordinating
  unbroken : ¬ s.Broken → Owners s ∧ Durable s

theorem initial_lasting {method : Method σ κ} : Lasting (initial method : System σ κ V M) := by
  refine ⟨initial_tree, ?_, fun _ => ⟨initial_owners, ?_, ?_, ?_⟩⟩
  · intro x d hd
    cases hd
  · intro x i hi
    cases hi
  · intro x i c hi
    cases hi
  · intro x d c hd
    cases hd

theorem Move.lasting (h : Move env s a s') (hs : Lasting s) (hsafe : s.durableSafe a = true) :
    Lasting s' := by
  obtain ⟨ht, hco, hunbroken⟩ := hs
  have hl : Later s s' := fun c k hc => h.callMove.grown ht hc
  have hco' : ∀ x d, s'.prepared x = some d → s'.Coordinating := by
    intro x d hd
    obtain ⟨k, hk, hphase⟩ : s.Coordinating := by
      rcases h.prepared hd with hold | ⟨hco, -⟩
      · exact hco x d hold
      · exact hco
    exact ⟨k, h.callMove.coordinator hk hphase ht, hphase⟩
  refine ⟨h.callMove.tree ht, hco', fun hnb => ?_⟩
  obtain ⟨ho, hd⟩ := hunbroken fun hb => hnb (hl.broken hb)
  have horder : s.committedInOrder a = true := by
    simp only [durableSafe, Bool.and_eq_true] at hsafe
    exact hsafe.1
  exact ⟨h.owners ho ht hnb horder, h.durable hd ho ht hnb hco hsafe⟩

/-- **An aborted nested transaction has no durable effect.** In every run of safe steps,
what was prepared has nothing in it that a call within an aborted transaction wrote. -/
theorem aborted_not_durable {method : Method σ κ}
    (h : Reach (step env) (fun s a => s.durableSafe a = true) (initial method) s) {c : Nat}
    {x : σ} {d : Stored κ V M} (hd : s.prepared x = some d) (hc : s.withinAborted c) :
    d.mentions c = false := by
  have hlasting : Lasting s := by
    exact h.invariant Lasting initial_lasting fun _ _ _ hs hsafe hstep =>
      (step_move hstep).lasting hs hsafe
  have hco := hlasting.coordinating x d hd
  obtain ⟨-, hdurable⟩ := hlasting.unbroken (hlasting.tree.not_broken hco)
  refine Bool.eq_false_iff.mpr fun hmentions => ?_
  obtain ⟨k, hk, t, ht, haborted⟩ := hc
  obtain ⟨k', hk', hno⟩ := hdurable.prepared x d c hd hmentions
  rw [hk] at hk'
  cases hk'
  -- the root itself has not aborted
  have h0 : t ≠ 0 := by
    rintro rfl
    obtain ⟨k0, hk0, hphase⟩ := hco
    obtain ⟨kr, hkr, hroot⟩ := hasAborted_iff.mp haborted
    rw [hk0] at hkr
    cases hkr
    simp [Call.aborted, hphase, Phase.failed] at hroot
  rw [hno t ht h0] at haborted
  cases haborted

end Moves

/-- Four stored states, of which state 1 is of a type without restart detection. -/
def oneSortedMap : Env Nat Nat := ⟨fun x => decide (x ≠ 1), fun _ => some 0, 0⟩

/-- The effects of a writer that sets the state and inserts an entry. -/
def inserts (value key entry : Nat) : Effects Nat Nat Nat := ⟨some value, [], [(key, entry)], 0⟩

/-- The root runs on state 0 and writes state `x`, in call 1. The nested transaction 2, on
state 2, writes state `x` too, in call 3, and raises an error. The root catches it and
commits. -/
def caughtRun (x : Nat) (first second : Effects Nat Nat Nat) : List (Action Nat Nat Nat Nat) :=
  [.start 0, .acquire 0, .join 0, .claim 0, .load 0,
    .call 0 ⟨.writer, x, none⟩, .start 1, .acquire x, .join 1, .claim 1, .load 1,
    .complete 1 first, .finish 1 .ok, .reply 1,
    .call 0 ⟨.transaction false, 2, none⟩, .start 2, .acquire 2, .join 2, .claim 2, .drain 2,
    .load 2, .call 2 ⟨.writer, x, none⟩, .join 3, .claim 3, .load 3,
    .complete 3 second, .finish 3 .ok, .reply 3,
    .finish 2 .recoverable, .reply 2, .relinquish ⟨x, 2, true⟩,
    .complete 0 ⟨some 0, [], [], 0⟩, .finish 0 .ok,
    .prepare 0, .prepare x, .prepare 2, .commit]

/-- The writes are to state 3, of a type with restart detection. -/
def rolledBackEnd : System Nat Nat Nat Nat :=
  last (step oneSortedMap) (initial ⟨.transaction false, 0, none⟩)
    (caughtRun 3 ⟨some 5, [], [], 0⟩ ⟨some 6, [], [], 0⟩)

theorem aborted_not_durable_caught : rolledBackEnd.committed = true ∧
    (rolledBackEnd.prepared 3).map (·.state) = some (some (some 1, 5)) ∧
    ∀ d, rolledBackEnd.prepared 3 = some d → d.mentions 3 = false := by
  refine ⟨by decide +kernel, by decide +kernel, fun d hd => ?_⟩
  have hids : (rolledBackEnd.call 3).map (·.transactionIds) = some [0, 2] := by decide +kernel
  have hwithin : rolledBackEnd.withinAborted 3 :=
    withinAborted_of hids (t := 2) (by decide) (by decide +kernel)
  exact aborted_not_durable (reach_last _ .init (by decide +kernel)) hd hwithin

/-- The writes are to state 1, whose entries go to the database's transaction at once. -/
def leftBehindEnd : System Nat Nat Nat Nat :=
  last (step oneSortedMap) (initial ⟨.transaction false, 0, none⟩)
    (caughtRun 1 (inserts 0 7 8) (inserts 0 9 10))

/-- The entry that the aborted transaction inserted is committed. -/
theorem aborted_durable :
    Reach (step oneSortedMap) (fun _ _ => True) (initial ⟨.transaction false, 0, none⟩)
        leftBehindEnd ∧
      leftBehindEnd.committed = true ∧ leftBehindEnd.withinAborted 3 ∧
      (leftBehindEnd.coordinator.map fun k => decide (1 ∈ k.participants.shouldCommit)) =
        some true ∧
      ∃ d, leftBehindEnd.prepared 1 = some d ∧ (9, 3, 10) ∈ d.colocated := by
  refine ⟨reach_last _ .init (by decide +kernel), by decide +kernel, ?_, by decide +kernel, ?_⟩
  · have hids : (leftBehindEnd.call 3).map (·.transactionIds) = some [0, 2] := by decide +kernel
    exact withinAborted_of hids (t := 2) (by decide) (by decide +kernel)
  · have hentries : (leftBehindEnd.prepared 1).map (·.colocated) =
        some [(7, 1, 8), (9, 3, 10)] := by decide +kernel
    obtain ⟨d, hd, hcolocated⟩ := Option.map_eq_some_iff.mp hentries
    have hcolocated : d.colocated = [(7, 1, 8), (9, 3, 10)] := hcolocated
    refine ⟨d, hd, ?_⟩
    rw [hcolocated]
    decide

end System

end Reboot.Txn.CallTree
