import Reboot.Txn.Participants

/-!
# A participant's mode and its hold of the lock

A transaction gives its hold back by the mode it has recorded, so the two have to
agree when `_complete_participant_transaction` runs. The lock changes when a waiter is
granted, the record when the waiting coroutine comes back; in between, and while a
transaction still waits for its first hold, they differ.

`Inv` is the invariant that ties lock, suspended calls and records together. Every step
preserves it except for two kinds (`Quiet` excludes them): a transaction that is
completed while one of its calls is suspended in the lock, and a call that upgrades or
rolls back after its transaction was completed. `quiet_bookkept` is what follows for
whole runs, and `upgrade_lost` is a run that goes wrong at the first kind.
-/

namespace Reboot.Txn

open Reboot.Lib

/-! ## Which steps are quiet -/

namespace State

/-- No call of the transaction is suspended in the lock. -/
def idle (s : State) (t : TxnId) : Bool :=
  s.calls.all fun c => decide (c.party ≠ .txn t)

/-- The transaction is in `_participant_transactions`. -/
def isRegistered (s : State) (t : TxnId) : Bool :=
  (s.txn t).any (·.registered)

/-- Completing waits for the suspended calls, and nothing touches the lock for a
transaction that was completed. -/
def Quiet (s : State) : Action → Prop
  | .complete t _ => s.idle t = true
  | .upgrade t _ => s.isRegistered t = true
  | .relinquish t _ aborted rpc => aborted = true → rpc = false → s.isRegistered t = true
  | _ => True

instance (s : State) (a : Action) : Decidable (s.Quiet a) := by
  cases a <;> unfold Quiet <;> infer_instance

theorem idle_iff {s : State} {t : TxnId} :
    s.idle t = true ↔ ∀ c ∈ s.calls, c.party ≠ .txn t := by
  simp [idle]

theorem isRegistered_iff {s : State} {t : TxnId} {x : Transaction} (hx : s.txn t = some x) :
    s.isRegistered t = true ↔ x.registered = true := by
  simp [isRegistered, hx]

theorem recorded_txn {s : State} {t : TxnId} {x : Transaction} (hx : s.txn t = some x) :
    s.recorded (.txn t) = x.recorded := by
  simp [recorded, hx]

theorem recorded_set {s s' : State} {t : TxnId} {x : Transaction}
    (ht : s'.txn = Function.update s.txn t (some x)) (hw : s'.writers = s.writers) :
    s'.recorded = Function.update s.recorded (.txn t) x.recorded := by
  funext p
  cases p with
  | txn u =>
    by_cases hu : u = t
    · subst hu
      simp [recorded, ht]
    · simp [recorded, ht, hu]
  | anonymous n => simp [recorded, hw]

/-- The record of a party outside transactions. -/
theorem recorded_writers {s s' : State} {n : Nat} {m : Option Mode} (ht : s'.txn = s.txn)
    (hn : (if n ∈ s'.writers then some Mode.exclusive else none) = m)
    (hw : ∀ k, k ≠ n → (k ∈ s'.writers ↔ k ∈ s.writers)) :
    s'.recorded = Function.update s.recorded (.anonymous n) m := by
  funext p
  cases p with
  | txn u => simp [recorded, ht]
  | anonymous k =>
    by_cases hk : k = n
    · subst hk
      simp [recorded, hn]
    · simp [recorded, hw k hk, hk]

/-- Who can be completed. -/
theorem complete_enabled {s : State} {t : TxnId} {x : Transaction} {how : End}
    (hx : s.txn t = some x) (hreg : x.registered = true) (hjoin : x.join ≠ .storing)
    (hfree : s.lockFree t = true) (hend : canEnd x how = true) :
    ∃ s', s.complete t how = some s' := by
  simp [complete, hx, hreg, hjoin, hfree, hend]

/-- Completing takes the transaction out of the participants and nothing else of it. -/
theorem complete_eq {s s' : State} {t : TxnId} {x : Transaction} {how : End}
    (hx : s.txn t = some x) (h : s.complete t how = some s') :
    s'.calls = s.calls ∧ s'.txn t = some { x with registered := false } := by
  simp only [complete, hx] at h
  split at h
  · cases h
  · cases h
    exact ⟨rfl, by simp [afterOp, update]⟩

end State

/-! ## The invariant -/

/-- What a transaction with a suspended call looks like. -/
def Transaction.Awaits (x : Transaction) (c : Call TxnId) : Prop :=
  x.registered = true ∧
    if c.isUpgrade then x.acquired = true ∧ x.mode = .shared ∧ c.target = .exclusive
    else x.acquired = false ∧ x.join = .waiting ∧ c.target = x.mode

/-- Of two snapshots, the older one is exclusive only if the other is, and only the
oldest one can be from before anybody owned the state. -/
def Snapshot.Older (p q : Snapshot) : Prop :=
  (p.mode = .exclusive → q.mode = .exclusive) ∧ q.ownerIds ≠ []

/-- What holds of every transaction; `calls` are the suspended ones. -/
structure Transaction.Ok (x : Transaction) (t : TxnId) (calls : List (Call TxnId)) : Prop where
  waits : x.registered = true → x.acquired = false → ∃ c ∈ calls, c.party = .txn t
  unowned : x.acquired = false → x.ownerIds = []
  root : x.ownerIds ≠ [] → x.ownerIds.head? = some x.rootId
  snapshot_root : ∀ p ∈ x.snapshots, p.ownerIds ≠ [] → p.ownerIds.head? = some x.rootId
  snapshot : ∀ p ∈ x.snapshots, p.mode = .exclusive → x.mode = .exclusive
  order : x.snapshots.Pairwise Snapshot.Older
  first : x.ownerIds = [] → x.snapshots = []

/-- A transaction that nobody owned yet. -/
theorem Transaction.Ok.fresh {x : Transaction} {t : TxnId} {calls : List (Call TxnId)}
    (hwaits : x.registered = true → x.acquired = false → ∃ c ∈ calls, c.party = .txn t)
    (howner : x.ownerIds = []) (hsnap : x.snapshots = []) : x.Ok t calls := by
  refine ⟨hwaits, fun _ => howner, fun h => absurd howner h, ?_, ?_, ?_, fun _ => hsnap⟩
  · simp [hsnap]
  · simp [hsnap]
  · simp [hsnap]

/-- The suspended calls move, or the fields that say how far the transaction is. -/
theorem Transaction.Ok.of_waits {x y : Transaction} {t : TxnId} {calls calls' : List (Call TxnId)}
    (hx : x.Ok t calls)
    (hwaits : y.registered = true → y.acquired = false → ∃ c ∈ calls', c.party = .txn t)
    (hacq : y.acquired = false → x.acquired = false)
    (hmode : x.mode = .exclusive → y.mode = .exclusive) (hroot : y.rootId = x.rootId)
    (howner : y.ownerIds = x.ownerIds) (hsnap : y.snapshots = x.snapshots) : y.Ok t calls' := by
  refine ⟨hwaits, fun ha => ?_, ?_, ?_, fun p hp hm => ?_, ?_, ?_⟩
  · rw [howner]
    exact hx.unowned (hacq ha)
  · rw [howner, hroot]
    exact hx.root
  · rw [hsnap, hroot]
    exact hx.snapshot_root
  · exact hmode (hx.snapshot p (hsnap ▸ hp) hm)
  · rw [hsnap]
    exact hx.order
  · rw [howner, hsnap]
    exact hx.first

/-- Lock, suspended calls and records agree. -/
structure Inv (s : State) : Prop where
  agrees : Agrees s.lock s.calls s.recorded
  call_id : ∀ c ∈ s.calls, c.id < s.nextId
  writer_id : ∀ n ∈ s.writers, n < s.nextId
  txn_call : ∀ c ∈ s.calls, ∀ t, c.party = .txn t → ∃ x, s.txn t = some x ∧ x.Awaits c
  anonymous_call : ∀ c ∈ s.calls, ∀ n, c.party = .anonymous n →
    c.id = n ∧ c.isUpgrade = false ∧ c.target = .exclusive
  txn : ∀ t x, s.txn t = some x → x.Ok t s.calls
  held : s.assertionFailed = false

namespace Inv

variable {s s' : State} {t : TxnId} {x : Transaction}

/-- A step for one transaction: its fields, its own suspended calls and the lock move,
everything else stays. -/
theorem set {m : Option Mode} (hi : Inv s) (htxn : s'.txn = Function.update s.txn t (some x))
    (hw : s'.writers = s.writers) (hnext : s.nextId ≤ s'.nextId) (hrec : x.recorded = m)
    (hagrees : Agrees s'.lock s'.calls (Function.update s.recorded (.txn t) m))
    (hother : ∀ c, c.party ≠ .txn t → (c ∈ s'.calls ↔ c ∈ s.calls))
    (hself : ∀ c ∈ s'.calls, c.party = .txn t → c.id < s'.nextId ∧ x.Awaits c)
    (hx : x.Ok t s'.calls) (hheld : s'.assertionFailed = false) : Inv s' where
  agrees := by rwa [State.recorded_set htxn hw, hrec]
  call_id c hc := by
    by_cases hp : c.party = .txn t
    · exact (hself c hc hp).1
    · exact Nat.lt_of_lt_of_le (hi.call_id c ((hother c hp).mp hc)) hnext
  writer_id n hn := Nat.lt_of_lt_of_le (hi.writer_id n (hw ▸ hn)) hnext
  txn_call c hc u hu := by
    by_cases he : u = t
    · subst he
      exact ⟨x, by simp [htxn], (hself c hc hu).2⟩
    · have hp : c.party ≠ .txn t := fun h => he (Party.txn.inj (hu.symm.trans h))
      obtain ⟨y, hy, hc'⟩ := hi.txn_call c ((hother c hp).mp hc) u hu
      exact ⟨y, by rw [htxn, Function.update_of_ne he, hy], hc'⟩
  anonymous_call c hc n hn := by
    have hp : c.party ≠ .txn t := by simp [hn]
    exact hi.anonymous_call c ((hother c hp).mp hc) n hn
  txn u y hy := by
    by_cases he : u = t
    · subst he
      rw [htxn, Function.update_self] at hy
      cases hy
      exact hx
    · rw [htxn, Function.update_of_ne he] at hy
      refine (hi.txn u y hy).of_waits (fun hr ha => ?_) id id rfl rfl rfl
      obtain ⟨c, hc, hp⟩ := (hi.txn u y hy).waits hr ha
      have hne : c.party ≠ .txn t := fun h => he (Party.txn.inj (hp.symm.trans h))
      exact ⟨c, (hother c hne).mpr hc, hp⟩
  held := hheld

/-- A step for one transaction that leaves the suspended calls alone. -/
theorem set_fields {m : Option Mode} {y : Transaction} (hi : Inv s) (hx : s.txn t = some x)
    (htxn : s'.txn = Function.update s.txn t (some y)) (hw : s'.writers = s.writers)
    (hcalls : s'.calls = s.calls) (hnext : s'.nextId = s.nextId) (hrec : y.recorded = m)
    (hagrees : Agrees s'.lock s.calls (Function.update s.recorded (.txn t) m))
    (hawaits : ∀ c ∈ s.calls, c.party = .txn t → x.Awaits c → y.Awaits c)
    (hok : x.Ok t s.calls → y.Ok t s.calls) (hheld : s'.assertionFailed = false) : Inv s' := by
  refine hi.set htxn hw (Nat.le_of_eq hnext.symm) hrec (hcalls ▸ hagrees) (fun c _ => by rw [hcalls]) ?_
    (hcalls ▸ hok (hi.txn t x hx)) hheld
  intro c hc hp
  rw [hcalls] at hc
  obtain ⟨z, hz, haw⟩ := hi.txn_call c hc t hp
  rw [hx] at hz
  cases hz
  exact ⟨hnext ▸ hi.call_id c hc, hawaits c hc hp haw⟩

/-- A step for one transaction that does not move its hold. -/
theorem set_same {y : Transaction} (hi : Inv s) (hx : s.txn t = some x)
    (htxn : s'.txn = Function.update s.txn t (some y)) (hw : s'.writers = s.writers)
    (hlock : s'.lock = s.lock) (hcalls : s'.calls = s.calls) (hnext : s'.nextId = s.nextId)
    (hrec : y.recorded = x.recorded)
    (hawaits : ∀ c ∈ s.calls, c.party = .txn t → x.Awaits c → y.Awaits c)
    (hok : x.Ok t s.calls → y.Ok t s.calls) (hheld : s'.assertionFailed = s.assertionFailed) :
    Inv s' := by
  refine hi.set_fields hx htxn hw hcalls hnext hrec ?_ hawaits hok (hheld.trans hi.held)
  rw [← State.recorded_txn hx, Function.update_eq_self, hlock]
  exact hi.agrees

/-- A step of a caller outside transactions. -/
theorem set_writer {n : Nat} {m : Option Mode} (hi : Inv s) (htxn : s'.txn = s.txn)
    (hn : (if n ∈ s'.writers then some Mode.exclusive else none) = m)
    (hw : ∀ k, k ≠ n → (k ∈ s'.writers ↔ k ∈ s.writers)) (hnlt : n < s'.nextId)
    (hnext : s.nextId ≤ s'.nextId)
    (hagrees : Agrees s'.lock s'.calls (Function.update s.recorded (.anonymous n) m))
    (hother : ∀ c, c.party ≠ .anonymous n → (c ∈ s'.calls ↔ c ∈ s.calls))
    (hself : ∀ c ∈ s'.calls, c.party = .anonymous n →
      c.id = n ∧ c.isUpgrade = false ∧ c.target = .exclusive)
    (hheld : s'.assertionFailed = false) : Inv s' where
  agrees := by rwa [State.recorded_writers htxn hn hw]
  call_id c hc := by
    by_cases hp : c.party = .anonymous n
    · rw [(hself c hc hp).1]
      exact hnlt
    · exact Nat.lt_of_lt_of_le (hi.call_id c ((hother c hp).mp hc)) hnext
  writer_id k hk := by
    by_cases he : k = n
    · exact he ▸ hnlt
    · exact Nat.lt_of_lt_of_le (hi.writer_id k ((hw k he).mp hk)) hnext
  txn_call c hc u hu := by
    have hp : c.party ≠ .anonymous n := by simp [hu]
    rw [htxn]
    exact hi.txn_call c ((hother c hp).mp hc) u hu
  anonymous_call c hc k hk := by
    by_cases he : k = n
    · subst he
      exact hself c hc hk
    · have hp : c.party ≠ .anonymous n := by
        rw [hk]
        exact fun h => he (Party.anonymous.inj h)
      exact hi.anonymous_call c ((hother c hp).mp hc) k hk
  txn u y hy := by
    rw [htxn] at hy
    refine (hi.txn u y hy).of_waits (fun hr ha => ?_) id id rfl rfl rfl
    obtain ⟨c, hc, hp⟩ := (hi.txn u y hy).waits hr ha
    exact ⟨c, (hother c (by simp [hp])).mpr hc, hp⟩
  held := hheld

/-! ## What the invariant says about calls -/

theorem no_call_of_absent (hi : Inv s) (ht : s.txn t = none) : ∀ c ∈ s.calls, c.party ≠ .txn t := by
  intro c hc hp
  obtain ⟨y, hy, -⟩ := hi.txn_call c hc t hp
  rw [ht] at hy
  cases hy

theorem fresh_id (hi : Inv s) : ∀ c ∈ s.calls, c.id ≠ s.nextId :=
  fun c hc => Nat.ne_of_lt (hi.call_id c hc)

theorem fresh_anonymous (hi : Inv s) : ∀ c ∈ s.calls, c.party ≠ .anonymous s.nextId := by
  intro c hc hp
  have h := (hi.anonymous_call c hc _ hp).1
  exact hi.fresh_id c hc h

theorem fresh_writer (hi : Inv s) : s.nextId ∉ s.writers :=
  fun h => Nat.ne_of_lt (hi.writer_id _ h) rfl

theorem recorded_fresh (hi : Inv s) : s.recorded (.anonymous s.nextId) = none := by
  simp [State.recorded, hi.fresh_writer]

/-- A registered transaction without a suspended call has its mode on record. -/
theorem recorded_of_idle (hi : Inv s) (hx : s.txn t = some x) (hreg : x.registered = true)
    (hno : ∀ c ∈ s.calls, c.party ≠ .txn t) : s.recorded (.txn t) = some x.mode := by
  have hacq : x.acquired = true := by
    by_contra ha
    obtain ⟨c, hc, hp⟩ := (hi.txn t x hx).waits hreg (by simpa using ha)
    exact hno c hc hp
  rw [State.recorded_txn hx]
  simp [Transaction.recorded, hreg, hacq]

/-! ## One step

The arguments are those of the source's operation; each proof names the lemma of the
lock that covers it. -/

theorem initial_none : Inv (State.initial none) where
  agrees := by
    have h : (State.initial none).recorded = fun _ => none := by
      funext p
      cases p <;> simp [State.recorded, State.initial]
    rw [h]
    exact Agrees.free
  call_id := by simp [State.initial]
  writer_id := by simp [State.initial]
  txn_call := by simp [State.initial]
  anonymous_call := by simp [State.initial]
  txn := by simp [State.initial]
  held := rfl

theorem initial (recovered : Option (Nat × Bool)) : Inv (State.initial recovered) := by
  match recovered with
  | none => exact initial_none
  | some (rootId, prepared) =>
    obtain ⟨-, hag⟩ := initial_none.agrees.tryAcquire (p := .txn 0) (m := .exclusive)
      (r := ((State.initial (some (rootId, prepared))).lock, true)) (fun c hc => by cases hc) rfl rfl
    exact initial_none.set (t := 0) rfl rfl (Nat.le_refl _) rfl hag (fun c _ => Iff.rfl)
      (fun c hc => by cases hc) (.fresh (fun _ ha => by cases ha) rfl rfl) rfl

/-- A call is suspended: the lock has its waiter. -/
theorem suspend (hi : Inv s) {l : Lock TxnId} {m : Mode} {up : Bool}
    (hno : ∀ c ∈ s.calls, c.party ≠ .txn t)
    (hagrees : Agrees l (⟨s.nextId, .txn t, m, up⟩ :: s.calls)
      (Function.update s.recorded (.txn t) x.recorded))
    (hawaits : x.Awaits ⟨s.nextId, .txn t, m, up⟩)
    (hx : x.Ok t (⟨s.nextId, .txn t, m, up⟩ :: s.calls))
    (htxn : s'.txn = Function.update s.txn t (some x)) (hlock : s'.lock = l)
    (hcalls : s'.calls = ⟨s.nextId, .txn t, m, up⟩ :: s.calls) (hw : s'.writers = s.writers)
    (hnext : s'.nextId = s.nextId + 1) (hheld : s'.assertionFailed = s.assertionFailed) :
    Inv s' := by
  refine hi.set htxn hw (by omega) rfl ?_ ?_ ?_ (hcalls ▸ hx) (hheld.trans hi.held)
  · rw [hlock, hcalls]
    exact hagrees
  · intro c hp
    rw [hcalls, List.mem_cons]
    refine ⟨fun hc => hc.resolve_left ?_, Or.inr⟩
    rintro rfl
    exact hp rfl
  · intro c hc hp
    rw [hcalls, List.mem_cons] at hc
    rcases hc with rfl | hc
    · exact ⟨by rw [hnext]; exact Nat.lt_succ_self _, hawaits⟩
    · exact absurd hp (hno c hc)

theorem join (hi : Inv s) {rootId : Nat} {mode : Mode} {rd : Bool}
    (h : s.join t rootId mode rd = some s') : Inv s' := by
  unfold State.join at h
  split at h
  · cases h
  next hg =>
    have hfree : s.txn t = none := by
      cases hx : s.txn t with
      | none => rfl
      | some y => exact absurd (Or.inl (by simp [hx])) hg
    have hno := hi.no_call_of_absent hfree
    have hnone : s.recorded (.txn t) = none := by simp [State.recorded, hfree]
    dsimp only at h
    split at h
    next l hl =>
      cases h
      obtain ⟨-, hag⟩ := hi.agrees.tryAcquire (p := .txn t) hno hnone hl
      refine hi.set (Function.update_idem _ _ _) rfl (Nat.le_refl _) rfl hag (fun c _ => Iff.rfl)
        ?_ (.fresh (fun _ ha => by cases ha) rfl rfl) hi.held
      exact fun c hc hp => absurd hp (hno c hc)
    next l hl =>
      obtain ⟨hheld, -⟩ := hi.agrees.tryAcquire (p := .txn t) hno hnone hl
      cases hheld
    next =>
      cases h
      have hag := hi.agrees.enqueue (p := .txn t) (m := mode) hno hnone hi.fresh_id
      rw [← Function.update_eq_self (Party.txn t) s.recorded, hnone] at hag
      refine hi.suspend
        (x := ⟨rootId, mode, rd, false, false, true, false, .waiting, [], []⟩) hno hag
        ⟨rfl, rfl, rfl, rfl⟩ (.fresh ?_ rfl rfl) rfl rfl rfl rfl rfl rfl
      exact fun _ _ => ⟨_, List.mem_cons_self .., rfl⟩

theorem callOf_eq {id : Nat} {c : Call TxnId} (h : s.callOf id = some c) :
    c ∈ s.calls ∧ c.id = id := by
  refine ⟨List.mem_of_find?_eq_some h, ?_⟩
  have := List.find?_some h
  simpa using this

theorem resume (hi : Inv s) {id : Nat} (h : s.resume id = some s') : Inv s' := by
  unfold State.resume at h
  split at h
  · cases h
  next c hcall =>
    obtain ⟨hc, rfl⟩ := callOf_eq hcall
    split at h
    next hd =>
      have hag := hi.agrees.comeBack hc hd
      have hdrop := hi.agrees.mem_dropCall_iff hc
      dsimp only at h
      split at h
      next n hp =>
        cases h
        obtain ⟨hid, -, htarget⟩ := hi.anonymous_call c hc n hp
        rw [hp, htarget] at hag
        refine hi.set_writer (n := n) rfl (if_pos (List.mem_cons_self ..)) ?_ ?_ (Nat.le_refl _) hag
          ?_ ?_ hi.held
        · intro k hk
          simp [hk]
        · rw [← hid]
          exact hi.call_id c hc
        · intro c' hp'
          rw [hdrop, hp]
          exact and_iff_left hp'
        · intro c' hc' hp'
          rw [hdrop, hp] at hc'
          exact absurd hp' hc'.2
      next u hp =>
        obtain ⟨y, hy, hreg, haw⟩ := hi.txn_call c hc u hp
        have hok := hi.txn u y hy
        have hcalls : ∀ c', c'.party ≠ .txn u → (c' ∈ dropCall c.id s.calls ↔ c' ∈ s.calls) := by
          intro c' hp'
          rw [hdrop, hp]
          exact and_iff_left hp'
        have hnone : ∀ c' ∈ dropCall c.id s.calls, c'.party ≠ .txn u := by
          intro c' hc'
          rw [hdrop, hp] at hc'
          exact hc'.2
        rw [hy] at h
        dsimp only at h
        split at h
        next hup =>
          cases h
          rw [if_pos hup] at haw
          obtain ⟨hacq, -, htarget⟩ := haw
          rw [hp, htarget] at hag
          refine hi.set rfl rfl (Nat.le_refl _) ?_ hag hcalls ?_ ?_ hi.held
          · simp [Transaction.recorded, hreg, hacq]
          · exact fun c' hc' hp' => absurd hp' (hnone c' hc')
          · refine hok.of_waits (fun _ ha => ?_) id (fun _ => rfl) rfl rfl rfl
            exact absurd (hacq.symm.trans ha) (by simp)
        next hup =>
          cases h
          rw [if_neg hup] at haw
          obtain ⟨hacq, -, htarget⟩ := haw
          rw [hp, htarget] at hag
          refine hi.set rfl rfl (Nat.le_refl _) ?_ hag hcalls ?_ ?_ hi.held
          · simp [Transaction.recorded, hreg]
          · exact fun c' hc' hp' => absurd hp' (hnone c' hc')
          · exact hok.of_waits (fun _ ha => by cases ha) (fun _ => hacq) id rfl rfl rfl
    · cases h

theorem giveUp (hi : Inv s) {id : Nat} (h : s.giveUp id = some s') : Inv s' := by
  unfold State.giveUp at h
  split at h
  · cases h
  next c hcall =>
    obtain ⟨hc, rfl⟩ := callOf_eq hcall
    obtain ⟨hheld, hag⟩ := hi.agrees.giveUp hc
    have hdrop := hi.agrees.mem_dropCall_iff hc
    have hassert : (s.assertionFailed || !(s.lock.giveUp c.id c.isUpgrade c.target
        c.party.transaction).2) = false := by simp [hi.held, hheld]
    dsimp only at h
    split at h
    next n hp =>
      cases h
      have hself : s.recorded (.anonymous n) =
          if n ∈ s.writers then some Mode.exclusive else none := rfl
      refine hi.set_writer (n := n) rfl hself.symm (fun _ _ => Iff.rfl) ?_ (Nat.le_refl _) ?_ ?_ ?_
        hassert
      · rw [← (hi.anonymous_call c hc n hp).1]
        exact hi.call_id c hc
      · rw [Function.update_eq_self]
        exact hag
      · intro c' hp'
        show c' ∈ dropCall c.id s.calls ↔ _
        rw [hdrop, hp]
        exact and_iff_left hp'
      · intro c' hc' hp'
        have hc' : c' ∈ dropCall c.id s.calls := hc'
        rw [hdrop, hp] at hc'
        exact absurd hp' hc'.2
    next u hp =>
      obtain ⟨y, hy, hreg, haw⟩ := hi.txn_call c hc u hp
      have hok := hi.txn u y hy
      have hcalls : ∀ c', c'.party ≠ .txn u → (c' ∈ dropCall c.id s.calls ↔ c' ∈ s.calls) := by
        intro c' hp'
        rw [hdrop, hp]
        exact and_iff_left hp'
      have hnone : ∀ c' ∈ dropCall c.id s.calls, c'.party ≠ .txn u := by
        intro c' hc'
        rw [hdrop, hp] at hc'
        exact hc'.2
      rw [← Function.update_eq_self (Party.txn u) s.recorded, State.recorded_txn hy] at hag
      have hy' : (({ s with calls := dropCall c.id s.calls } : State).afterOp
          (s.lock.giveUp c.id c.isUpgrade c.target c.party.transaction)).txn u = some y := hy
      rw [hy'] at h
      dsimp only at h
      split at h
      next hup =>
        cases h
        rw [if_pos hup] at haw
        obtain ⟨hacq, -, -⟩ := haw
        refine hi.set (t := u) (x := y) ?_ rfl (Nat.le_refl _) rfl hag hcalls ?_ ?_ hassert
        · rw [← hy, Function.update_eq_self]
          rfl
        · exact fun c' hc' hp' => absurd hp' (hnone c' hc')
        · refine hok.of_waits (fun _ ha => ?_) id id rfl rfl rfl
          exact absurd (hacq.symm.trans ha) (by simp)
      next hup =>
        cases h
        rw [if_neg hup] at haw
        obtain ⟨hacq, -, -⟩ := haw
        refine hi.set rfl rfl (Nat.le_refl _) ?_ hag hcalls ?_ ?_ hassert
        · simp [Transaction.recorded, hacq]
        · exact fun c' hc' hp' => absurd hp' (hnone c' hc')
        · exact hok.of_waits (fun hr => by cases hr) id id rfl rfl rfl

/-- Only how far the join is and the database move. -/
theorem set_join (hi : Inv s) (hx : s.txn t = some x) {j : JoinStatus} {d : Option Nat} {b : Bool}
    (hstored : x.join = .storing) :
    Inv (({ s with database := d } : State).update t { x with stored := b, join := j }) := by
  refine hi.set_same hx rfl rfl rfl rfl rfl rfl ?_
    (fun h => h.of_waits h.waits id id rfl rfl rfl) rfl
  rintro c - - ⟨hreg, haw⟩
  refine ⟨hreg, ?_⟩
  split at haw
  next hup => simpa [hup] using haw
  next hup => exact absurd (hstored.symm.trans haw.2.1) (by simp)

theorem store (hi : Inv s) {outcome : StoreOutcome} (h : s.store t outcome = some s') :
    Inv s' := by
  unfold State.store at h
  split at h
  · cases h
  next x hx =>
    split at h
    · cases h
    next hj =>
      have hstored := not_not.mp hj
      dsimp only at h
      split at h
      · split at h
        · cases h
          exact hi.set_join hx hstored
        · cases h
          exact hi.set_join hx hstored (d := s.database) (b := x.stored)
      · cases h
        exact hi.set_join hx hstored (b := x.stored)

theorem upgrade (hi : Inv s) {underLock : Bool} (hreg : s.isRegistered t = true)
    (h : s.upgrade t underLock = some s') : Inv s' := by
  unfold State.upgrade at h
  split at h
  · cases h
  next x hx =>
    rw [State.isRegistered_iff hx] at hreg
    split at h
    · cases h
    next hg =>
      push Not at hg
      obtain ⟨hacq, hmode, -⟩ := hg
      have hacq : x.acquired = true := by simpa using hacq
      by_cases hbusy : ∃ c ∈ s.calls, c.party = .txn t
      · -- a call of the transaction is suspended, and it can only be another upgrade
        obtain ⟨c, hc, hp⟩ := hbusy
        obtain ⟨y, hy, -, haw⟩ := hi.txn_call c hc t hp
        rw [hx] at hy
        cases hy
        have hup : c.isUpgrade = true := by
          by_contra hup
          rw [if_neg hup] at haw
          exact absurd (hacq.symm.trans haw.1) (by simp)
        have hraised := hi.agrees.upgrade_busy (p := .txn t) (w := s.nextId) hc hup
        have hraised : s.lock.upgrade s.nextId (some t) = .raised s.lock := hraised
        rw [hraised] at h
        cases h
        exact hi
      · push Not at hbusy
        have hrec : s.recorded (.txn t) = some .shared := by
          rw [State.recorded_txn hx]
          simp [Transaction.recorded, hreg, hacq, hmode]
        have hstart := hi.agrees.upgrade (p := .txn t) hbusy hrec hi.fresh_id
        simp only [Party.transaction] at hstart
        have hok := hi.txn t x hx
        cases hu : s.lock.upgrade s.nextId (some t) with
        | upgraded l =>
          rw [hu] at h hstart
          cases h
          refine hi.set_fields hx rfl rfl rfl rfl ?_ hstart ?_ ?_ hi.held
          · simp [Transaction.recorded, hreg, hacq]
          · exact fun c hc hp => absurd hp (hbusy c hc)
          · exact fun hok => hok.of_waits hok.waits id (fun _ => rfl) rfl rfl rfl
        | waiting l =>
          rw [hu] at h hstart
          cases h
          have hxrec : x.recorded = some .shared := (State.recorded_txn hx).symm.trans hrec
          refine hi.suspend (x := x) hbusy ?_ ?_ (hok.of_waits ?_ id id rfl rfl rfl) ?_
            rfl rfl rfl rfl rfl
          · rw [hxrec, ← hrec, Function.update_eq_self]
            exact hstart
          · exact ⟨hreg, hacq, hmode, rfl⟩
          · exact fun _ ha => absurd (hacq.symm.trans ha) (by simp)
          · rw [← hx, Function.update_eq_self]
            rfl
        | raised l =>
          rw [hu] at h hstart
          cases h
          cases hstart
          exact hi

theorem push_snapshots {P : Snapshot → Prop} {ps : List Snapshot} {q : Snapshot} {b : Prop}
    [Decidable b] (hps : ∀ p ∈ ps, P p) (hq : P q) :
    ∀ p ∈ (if b then ps ++ [q] else ps), P p := by
  intro p hp
  split at hp
  · rcases List.mem_append.mp hp with hp | hp
    · exact hps p hp
    · rw [List.mem_singleton] at hp
      exact hp ▸ hq
  · exact hps p hp

theorem claim (hi : Inv s) {ids : List Nat} (h : s.claim t ids = some s') : Inv s' := by
  unfold State.claim at h
  split at h
  · cases h
  next x hx =>
    split at h
    · cases h
    next hg =>
      push Not at hg
      obtain ⟨hacq, hroot, -⟩ := hg
      have hacq : x.acquired = true := by simpa using hacq
      split at h
      · cases h
        exact hi
      · cases h
        refine hi.set_same hx rfl rfl rfl rfl rfl rfl (fun _ _ _ haw => haw) ?_ rfl
        intro hok
        refine ⟨hok.waits, ?_, fun _ => hroot, ?_, ?_, ?_, ?_⟩
        · exact fun ha => absurd (hacq.symm.trans ha) (by simp)
        · refine push_snapshots hok.snapshot_root ?_
          exact hok.root
        · refine push_snapshots hok.snapshot ?_
          intro hm
          dsimp only at hm
          split at hm
          · cases hm
          · exact hm
        · dsimp only
          split
          · refine List.pairwise_append.mpr ⟨hok.order, List.pairwise_singleton _ _, ?_⟩
            intro p hp q hq
            rw [List.mem_singleton] at hq
            subst hq
            have howned : x.ownerIds ≠ [] := by
              intro he
              rw [hok.first he] at hp
              cases hp
            refine ⟨fun hm => ?_, howned⟩
            dsimp only
            rw [if_neg howned]
            exact hok.snapshot p hp hm
          · exact hok.order
        · intro he
          dsimp only at he
          rw [he] at hroot
          cases hroot

/-- The snapshot that a nested transaction goes back to, and the older ones. -/
theorem snapshots_split {ps : List Snapshot} {f : Snapshot → Bool} {q : Snapshot}
    (h : ps[(ps.takeWhile f).length]? = some q) :
    ∃ newer, ps = ps.takeWhile f ++ q :: newer := by
  induction ps with
  | nil => cases h
  | cons p ps ih =>
    rw [List.takeWhile_cons] at h ⊢
    split at h
    next hf =>
      obtain ⟨newer, he⟩ := ih (by simpa using h)
      exact ⟨newer, by rw [if_pos hf, List.cons_append, ← he]⟩
    next hf =>
      cases h
      exact ⟨ps, by rw [if_neg hf, List.nil_append]⟩

/-- A rollback to a snapshot. -/
theorem rollback_ok {older newer : List Snapshot} {q : Snapshot} (hok : x.Ok t s.calls)
    (hacq : x.acquired = true) (hsplit : x.snapshots = older ++ q :: newer) :
    ({ x with ownerIds := q.ownerIds, mode := q.mode, snapshots := older } : Transaction).Ok t
      s.calls := by
  have hq : q ∈ x.snapshots := by simp [hsplit]
  have holder : ∀ p ∈ older, p ∈ x.snapshots := fun p hp => by simp [hsplit, hp]
  have hpair := hok.order
  rw [hsplit, List.pairwise_append] at hpair
  obtain ⟨hord, -, hbefore⟩ := hpair
  refine ⟨hok.waits, ?_, hok.snapshot_root q hq, ?_, ?_, hord, ?_⟩
  · exact fun ha => absurd (hacq.symm.trans ha) (by simp)
  · exact fun p hp => hok.snapshot_root p (holder p hp)
  · exact fun p hp => (hbefore p hp q (List.mem_cons_self ..)).1
  · intro he
    rw [List.eq_nil_iff_forall_not_mem]
    exact fun p hp => (hbefore p hp q (List.mem_cons_self ..)).2 he

/-- Ownership goes back to the parent. -/
theorem relinquished_ok {older newer ps : List Snapshot} {q : Snapshot} {transactionId : Nat}
    (hok : x.Ok t s.calls) (hacq : x.acquired = true)
    (hsplit : x.snapshots = older ++ q :: newer) (hps : ps = older ∨ ps = x.snapshots)
    (hroot : transactionId ≠ x.rootId) (howner : transactionId ∈ x.ownerIds) :
    ({ x with
        ownerIds := x.ownerIds.takeWhile fun i => decide (i ≠ transactionId)
        snapshots := ps } : Transaction).Ok t s.calls := by
  have hsub : ps.Sublist x.snapshots := by
    rcases hps with rfl | rfl
    · rw [hsplit]
      exact List.sublist_append_left _ _
    · exact List.Sublist.refl _
  have hne : x.ownerIds ≠ [] := List.ne_nil_of_mem howner
  have hhead := hok.root hne
  cases hids : x.ownerIds with
  | nil => exact absurd hids hne
  | cons r ids =>
    rw [hids] at hhead
    have hr : r = x.rootId := by simpa using hhead
    have hr' : r ≠ transactionId := fun he => hroot (he.symm.trans hr)
    refine ⟨hok.waits, ?_, ?_, ?_, ?_, ?_, ?_⟩
    · exact fun ha => absurd (hacq.symm.trans ha) (by simp)
    · intro _
      rw [← hr]
      simp [hr']
    · exact fun p hp => hok.snapshot_root p (hsub.subset hp)
    · exact fun p hp => hok.snapshot p (hsub.subset hp)
    · exact hok.order.sublist hsub
    · intro he
      simp [hr'] at he

theorem relinquish (hi : Inv s) {transactionId : Nat} {aborted rpc : Bool}
    (hq : aborted = true → rpc = false → s.isRegistered t = true)
    (h : s.relinquish t transactionId aborted rpc = some s') : Inv s' := by
  unfold State.relinquish at h
  split at h
  · cases h
  next x hx =>
    have hok := hi.txn t x hx
    split at h
    · cases h
    next hroot =>
      split at h
      · cases h
        exact hi
      next hg =>
        push Not at hg
        obtain ⟨hrpc, howner⟩ := hg
        have hacq : x.acquired = true := by
          by_contra ha
          rw [hok.unowned (by simpa using ha)] at howner
          cases howner
        dsimp only at h
        split at h
        · cases h
          exact hi
        next q hsnap =>
          obtain ⟨newer, hsplit⟩ := snapshots_split hsnap
          split at h
          next habort =>
            have hreg : x.registered = true := by
              cases hr : rpc with
              | true => simpa using hrpc hr
              | false => exact (State.isRegistered_iff hx).mp (hq habort hr)
            have hback := rollback_ok hok hacq hsplit
            split at h
            next hdown =>
              cases h
              have hrec : s.recorded (.txn t) = some .exclusive := by
                rw [State.recorded_txn hx]
                simp [Transaction.recorded, hreg, hacq, hdown.1]
              obtain ⟨hheld, hag⟩ := hi.agrees.downgrade hrec
              refine hi.set_fields hx rfl rfl rfl rfl ?_ hag ?_ (fun _ => hback) ?_
              · simp [Transaction.recorded, hreg, hacq, hdown.2]
              · rintro c - - ⟨-, haw⟩
                split at haw
                · exact absurd (hdown.1.symm.trans haw.2.1) (by simp)
                · exact absurd (hacq.symm.trans haw.1) (by simp)
              · have hheld : (s.lock.downgrade (some t)).2 = true := hheld
                simp [State.afterOp, State.update, hi.held, hheld]
            next hdown =>
              cases h
              -- the mode goes back to itself: a snapshot is never more exclusive than it
              have hmode : q.mode = x.mode := by
                cases hm : x.mode with
                | exclusive =>
                  cases hm' : q.mode with
                  | exclusive => rfl
                  | shared => exact absurd ⟨hm, hm'⟩ hdown
                | shared =>
                  cases hm' : q.mode with
                  | shared => rfl
                  | exclusive =>
                    have hmem : q ∈ x.snapshots := by
                      rw [hsplit]
                      simp
                    exact absurd (hm.symm.trans (hok.snapshot q hmem hm')) (by simp)
              refine hi.set_same hx rfl rfl rfl rfl rfl ?_ ?_ (fun _ => hback) rfl
              · simp [Transaction.recorded, hmode]
              · rintro c - - ⟨hr, haw⟩
                refine ⟨hr, ?_⟩
                dsimp only
                rw [hmode]
                exact haw
          next =>
            cases h
            refine hi.set_same hx rfl rfl rfl rfl rfl rfl (fun _ _ _ haw => haw) (fun _ => ?_) rfl
            refine relinquished_ok hok hacq hsplit ?_ hroot howner
            split
            · exact Or.inl rfl
            · exact Or.inr rfl

/-- Only the database and the mark move. -/
theorem set_prepared (hi : Inv s) (hx : s.txn t = some x) {d : Option Nat} :
    Inv (({ s with database := d } : State).update t { x with prepared := true }) :=
  hi.set_same hx rfl rfl rfl rfl rfl rfl (fun _ _ _ haw => haw)
    (fun h => h.of_waits h.waits id id rfl rfl rfl) rfl

theorem prepare (hi : Inv s) (h : s.prepare t = some s') : Inv s' := by
  unfold State.prepare at h
  split at h
  · cases h
  next x hx =>
    split at h
    · cases h
    · split at h
      · split at h
        · cases h
          exact hi.set_prepared hx
        · cases h
          exact hi
      · split at h
        · cases h
          exact hi
        · cases h
          exact hi.set_prepared hx (d := s.database)

/-- Completing a registered transaction without a suspended call. -/
theorem complete (hi : Inv s) {how : End} (hidle : s.idle t = true)
    (h : s.complete t how = some s') : Inv s' := by
  unfold State.complete at h
  split at h
  · cases h
  next x hx =>
    split at h
    · cases h
    next hg =>
      push Not at hg
      have hreg : x.registered = true := by simpa using hg.1
      have hno := State.idle_iff.mp hidle
      have hok := hi.txn t x hx
      have hrec := hi.recorded_of_idle hx hreg hno
      cases h
      obtain ⟨hheld, hag⟩ := hi.agrees.release hno hrec
      refine hi.set_fields hx rfl rfl rfl rfl ?_ hag ?_ ?_ ?_
      · simp [Transaction.recorded]
      · exact fun c hc hp => absurd hp (hno c hc)
      · exact fun hok => hok.of_waits (fun hr => by cases hr) id id rfl rfl rfl
      · have hheld : (s.lock.release x.mode (some t)).2 = true := hheld
        simp [State.afterOp, State.update, hi.held, hheld]

theorem acquire (hi : Inv s) (h : s.acquire = some s') : Inv s' := by
  unfold State.acquire at h
  split at h
  next l hl =>
    cases h
    obtain ⟨-, hag⟩ := hi.agrees.tryAcquire hi.fresh_anonymous hi.recorded_fresh hl
    refine hi.set_writer (n := s.nextId) rfl (if_pos (List.mem_cons_self ..)) ?_
      (Nat.lt_succ_self _) (Nat.le_succ _) hag (fun _ _ => Iff.rfl) ?_ hi.held
    · intro k hk
      simp [hk]
    · exact fun c hc hp => absurd hp (hi.fresh_anonymous c hc)
  next l hl =>
    obtain ⟨hheld, -⟩ := hi.agrees.tryAcquire hi.fresh_anonymous hi.recorded_fresh hl
    cases hheld
  next =>
    cases h
    have hag := hi.agrees.enqueue (m := .exclusive) hi.fresh_anonymous hi.recorded_fresh
      hi.fresh_id
    rw [← Function.update_eq_self (Party.anonymous s.nextId) s.recorded] at hag
    refine hi.set_writer (n := s.nextId) rfl rfl (fun _ _ => Iff.rfl)
      (Nat.lt_succ_self _) (Nat.le_succ _) hag ?_ ?_ hi.held
    · intro c hp
      show c ∈ _ :: s.calls ↔ _
      rw [List.mem_cons]
      refine ⟨fun hc => hc.resolve_left ?_, Or.inr⟩
      rintro rfl
      exact hp rfl
    · intro c hc hp
      have hc : c ∈ ⟨s.nextId, .anonymous s.nextId, .exclusive, false⟩ :: s.calls := hc
      rcases List.mem_cons.mp hc with rfl | hc
      · exact ⟨rfl, rfl, rfl⟩
      · exact absurd hp (hi.fresh_anonymous c hc)

theorem release (hi : Inv s) {id : Nat} (h : s.release id = some s') : Inv s' := by
  unfold State.release at h
  split at h
  next hw =>
    cases h
    have hrec : s.recorded (.anonymous id) = some .exclusive := by simp [State.recorded, hw]
    have hno : ∀ c ∈ s.calls, c.party ≠ .anonymous id := by
      intro c hc hp
      have hbefore := hi.agrees.before hc
      rw [hp, hrec, (hi.anonymous_call c hc id hp).2.1] at hbefore
      cases hbefore
    obtain ⟨hheld, hag⟩ := hi.agrees.release hno hrec
    refine hi.set_writer (n := id) rfl ?_ ?_ (hi.writer_id id hw) (Nat.le_refl _) hag
      (fun _ _ => Iff.rfl) ?_ ?_
    · simp [State.afterOp]
    · intro k hk
      simp [State.afterOp, hk]
    · exact fun c hc hp => absurd hp (hno c hc)
    · have hheld : (s.lock.releaseExclusive none).2 = true := hheld
      simp [State.afterOp, hi.held, hheld]
  · cases h

/-- Every quiet step preserves the invariant. -/
theorem step {a : Action} (hi : Inv s) (hq : s.Quiet a) (h : s.step a = some s') : Inv s' := by
  cases a with
  | join t rootId mode rd => exact hi.join h
  | resume id => exact hi.resume h
  | giveUp id => exact hi.giveUp h
  | store t outcome => exact hi.store h
  | upgrade t underLock => exact hi.upgrade hq h
  | claim t ids => exact hi.claim h
  | relinquish t id aborted rpc => exact hi.relinquish hq h
  | prepare t => exact hi.prepare h
  | complete t how => exact hi.complete hq h
  | acquire => exact hi.acquire h
  | release id => exact hi.release h

end Inv

/-- The invariant holds along every quiet run. -/
theorem quiet_inv {recovered : Option (Nat × Bool)} {s : State}
    (h : Reach State.step State.Quiet (State.initial recovered) s) : Inv s :=
  h.invariant Inv (Inv.initial recovered) fun _ _ _ hi hq hs => hi.step hq hs

/-! ## What a participant can rely on -/

/-- The bookkeeping of one transaction agrees with the lock, and completing it gives
back its hold and nobody else's. -/
structure State.Bookkept (s : State) (t : TxnId) (x : Transaction) : Prop where
  /-- between calls, the lock has the transaction in its recorded mode -/
  hold : s.idle t = true → s.lock.holdOf t = some x.mode
  /-- a suspended call is ahead of the record by its own grant only -/
  suspended : ∀ c ∈ s.calls, c.party = .txn t → s.lock.holdOf t =
    if c.id ∈ s.lock.done then some c.target else if c.isUpgrade then some x.mode else none
  /-- it can be completed -/
  enabled : s.idle t = true → x.join ≠ .storing → ∀ how, State.canEnd x how = true →
    ∃ s', s.step (.complete t how) = some s'
  /-- and no assertion fails then -/
  completes : s.idle t = true → ∀ how s', s.step (.complete t how) = some s' →
    s'.assertionFailed = false ∧ s'.lock.holdOf t = none ∧ s'.isRegistered t = false ∧
    ∀ u m, u ≠ t → s.lock.holdOf u = some m →
      s'.lock.holdOf u = some m ∨
        m = .shared ∧ (∃ c ∈ s.calls, c.party = .txn u ∧ c.isUpgrade = true) ∧
          s'.lock.holdOf u = some .exclusive

/-- Along a quiet run no assertion of the lock fails and every live participant
transaction is kept in the mode it has recorded. -/
theorem quiet_bookkept {recovered : Option (Nat × Bool)} {s : State}
    (h : Reach State.step State.Quiet (State.initial recovered) s) :
    s.assertionFailed = false ∧
      ∀ t x, s.txn t = some x → x.registered = true → s.Bookkept t x := by
  have hi := quiet_inv h
  refine ⟨hi.held, fun t x hx hreg => ⟨fun hidle => ?_, ?_, ?_, ?_⟩⟩
  · have hno := State.idle_iff.mp hidle
    rw [hi.agrees.holdOf_eq hno, hi.recorded_of_idle hx hreg hno]
  · intro c hc hp
    rw [hi.agrees.holdOf_suspended hc hp]
    have hbefore := hi.agrees.before hc
    obtain ⟨y, hy, -, haw⟩ := hi.txn_call c hc t hp
    rw [hx] at hy
    cases hy
    rw [hp] at hbefore
    rw [hbefore]
    split at haw
    next hup => simp [hup, haw.2.1]
    next hup => simp [hup]
  · intro hidle hjoin how hend
    have hfree : s.lockFree t = true := by
      simp only [State.lockFree, List.all_eq_true, decide_eq_true_eq]
      exact fun c hc hp => absurd hp (State.idle_iff.mp hidle c hc)
    exact State.complete_enabled hx hreg hjoin hfree hend
  · intro hidle how s' hs
    have hno := State.idle_iff.mp hidle
    have hrec := hi.recorded_of_idle hx hreg hno
    have hi' : Inv s' := hi.complete hidle hs
    simp only [State.step, State.complete, hx] at hs
    split at hs
    · cases hs
    next =>
      cases hs
      refine ⟨hi'.held, ?_, ?_, ?_⟩
      · rw [hi'.agrees.holdOf_eq hno]
        simp [State.recorded, State.afterOp, State.update, Transaction.recorded]
      · simp [State.isRegistered, State.afterOp, State.update]
      · exact fun u m hne hu => hi.agrees.release_keeps hno hrec hne hu

/-- Two readers join, the first one turns writer and waits for the second to finish. -/
def handOver : List Action :=
  [.join 1 10 .shared true, .join 2 20 .shared true, .upgrade 1 false, .complete 2 .readOnly]

/-- Once the writer came back it is kept exclusively and can be completed. -/
theorem handOver_bookkept :
    ∃ x, (last State.step (State.initial none) (handOver ++ [.resume 0])).txn 1 = some x ∧
      x.mode = .exclusive ∧
      (last State.step (State.initial none) (handOver ++ [.resume 0])).Bookkept 1 x := by
  have hreach : Reach State.step State.Quiet (State.initial none)
      (last State.step (State.initial none) (handOver ++ [.resume 0])) :=
    reach_last _ .init (by decide +kernel)
  refine ⟨⟨10, .exclusive, true, false, false, true, true, .joined, [], []⟩, ?_, rfl, ?_⟩
  · decide +kernel
  · exact (quiet_bookkept hreach).2 1 _ (by decide +kernel) rfl

/-- Aborted before it came back, it gives back a shared hold that the lock no longer
has: the assertion fails, and the exclusive hold of a transaction that is gone stays. -/
theorem upgrade_lost :
    Reach State.step (fun _ _ => True) (State.initial none)
        (last State.step (State.initial none) (handOver ++ [.complete 1 .abort])) ∧
      (last State.step (State.initial none) handOver).lock.holdOf 1 = some .exclusive ∧
      ((last State.step (State.initial none) handOver).txn 1).map (·.mode) = some .shared ∧
      (last State.step (State.initial none) (handOver ++ [.complete 1 .abort])).assertionFailed = true ∧
      (last State.step (State.initial none) (handOver ++ [.complete 1 .abort])).isRegistered 1 = false ∧
      (last State.step (State.initial none) (handOver ++ [.complete 1 .abort])).lock.holdOf 1 =
        some .exclusive := by
  refine ⟨reach_last _ .init (by decide +kernel), ?_⟩
  decide +kernel

end Reboot.Txn
