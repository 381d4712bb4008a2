import Reboot.Txn.Bookkeeping

/-!
# Joining a transaction on a state

`_transaction_participant_start` registers the transaction, takes the lock and, without
restart detection, has the database store the participant. A failure to take the lock
cleans up after itself. A failure to store does not: the call raises while the
transaction stays registered and keeps its hold. And the database has at most one open
transaction for a state, where the lock lets in any number that share it.

`Clear` excludes the steps that lead there: a transaction without restart detection that
gets the lock while the database has that of another root open or about to be stored, a
prepare that begins one while that of another root is about to be stored, and a store whose
answer is lost.
`clear_joins` says that joins then either succeed or leave nothing behind;
`second_reader_stuck` is a run of two readers of which the second one is left stuck.
-/

namespace Reboot.Txn

open Reboot.Lib

/-! ## Which steps are clear -/

namespace State

/-- Whoever is being stored belongs to the root transaction. -/
def StoringFor (s : State) (rootId : Nat) : Prop :=
  ∀ t x, s.txn t = some x → x.join = .storing → x.rootId = rootId

/-- The database has no transaction for the state but that of the root, and will not get
another one. -/
def Admits (s : State) (rootId : Nat) : Prop :=
  s.lookupOrBegin rootId = true ∧ s.StoringFor rootId

/-- The transaction whose join a suspended call is. -/
def joiner (s : State) (id : Nat) : Option Transaction :=
  match s.callOf id with
  | some ⟨_, .txn t, _, false⟩ => s.txn t
  | _ => none

/-- Whoever is stored finds the database open to it, from the moment it gets the lock until
it is stored, and hears back. -/
def Clear (s : State) (a : Action) : Prop :=
  s.Quiet a ∧
    match a with
    | .join t rootId mode rd =>
      rd = false → (s.lock.tryAcquire mode (some t)).isSome = true → s.Admits rootId
    | .resume id =>
      ∀ x, s.joiner id = some x → x.usingRestartDetection = false → s.Admits x.rootId
    | .store _ outcome => outcome = .handled
    | .prepare t =>
      ∀ x, s.txn t = some x → x.usingRestartDetection = true →
        s.lookupOrBegin x.rootId = true → s.StoringFor x.rootId
    | _ => True

end State

/-! ## The invariant -/

/-- How far a join is, and what it has by then. -/
def Transaction.JoinOk (x : Transaction) : Prop :=
  match x.join with
  | .waiting => x.acquired = false
  | .raised => x.acquired = false ∧ x.registered = false
  | _ => x.acquired = true

/-- Every join is as far as it should be, and those that are being stored belong to one root
transaction, for which the database has room. -/
structure JoinInv (s : State) : Prop where
  inv : Inv s
  join : ∀ t x, s.txn t = some x → x.JoinOk
  room : ∀ t x, s.txn t = some x → x.join = .storing → s.lookupOrBegin x.rootId = true
  roots : ∀ t x u y, s.txn t = some x → s.txn u = some y → x.join = .storing →
    y.join = .storing → y.rootId = x.rootId

namespace JoinInv

variable {s s' : State} {t : TxnId} {x y : Transaction}

theorem initial (recovered : Option (Nat × Bool)) : JoinInv (State.initial recovered) := by
  have hstart : ∀ t x, (State.initial recovered).txn t = some x →
      x.join = .joined ∧ x.acquired = true := by
    intro t x hx
    match recovered with
    | none => cases hx
    | some (rootId, prepared) =>
      by_cases ht : t = 0
      · subst ht
        simp only [State.initial, Function.update_self] at hx
        cases hx
        exact ⟨rfl, rfl⟩
      · simp [State.initial, Function.update_of_ne ht] at hx
  have hno : ∀ t x, (State.initial recovered).txn t = some x → x.join ≠ .storing := by
    intro t x hx hj
    rw [(hstart t x hx).1] at hj
    cases hj
  refine ⟨Inv.initial recovered, fun t x hx => ?_, ?_, ?_⟩
  · unfold Transaction.JoinOk
    rw [(hstart t x hx).1]
    exact (hstart t x hx).2
  · exact fun t x hx hj => absurd hj (hno t x hx)
  · exact fun t x u y hx _ hj => absurd hj (hno t x hx)

/-- No transaction moves. -/
theorem keep (hj : JoinInv s) (hi : Inv s') (htxn : s'.txn = s.txn)
    (hdb : s'.database = s.database) : JoinInv s' := by
  refine ⟨hi, ?_, ?_, ?_⟩
  · rw [htxn]
    exact hj.join
  · rw [htxn]
    intro t x hx hst
    have := hj.room t x hx hst
    simpa [State.lookupOrBegin, hdb] using this
  · rw [htxn]
    exact hj.roots

/-- One transaction moves and is not about to be stored afterwards, unless it was and
nothing else changed. -/
theorem move (hj : JoinInv s) (hi : Inv s')
    (htxn : s'.txn = Function.update s.txn t (some y)) (hok : y.JoinOk)
    (hst : y.join = .storing → ∃ x, s.txn t = some x ∧ x.join = .storing ∧ x.rootId = y.rootId)
    (hdb : s'.database = s.database ∨ s'.database = none) : JoinInv s' := by
  have hback : ∀ u z, s'.txn u = some z → z.join = .storing →
      ∃ z', s.txn u = some z' ∧ z'.join = .storing ∧ z'.rootId = z.rootId := by
    intro u z hz hzst
    rw [htxn] at hz
    by_cases hu : u = t
    · subst hu
      rw [Function.update_self] at hz
      cases hz
      exact hst hzst
    · rw [Function.update_of_ne hu] at hz
      exact ⟨z, hz, hzst, rfl⟩
  refine ⟨hi, ?_, ?_, ?_⟩
  · intro u z hz
    rw [htxn] at hz
    by_cases hu : u = t
    · subst hu
      rw [Function.update_self] at hz
      cases hz
      exact hok
    · rw [Function.update_of_ne hu] at hz
      exact hj.join u z hz
  · intro u z hz hzst
    obtain ⟨z', hz', hzst', hr⟩ := hback u z hz hzst
    have hroom := hj.room u z' hz' hzst'
    rcases hdb with hdb | hdb
    · rw [hr] at hroom
      simpa [State.lookupOrBegin, hdb] using hroom
    · simp [State.lookupOrBegin, hdb]
  · intro u z v w hz hw hzst hwst
    obtain ⟨z', hz', hzst', hr⟩ := hback u z hz hzst
    obtain ⟨w', hw', hwst', hr'⟩ := hback v w hw hwst
    rw [← hr, ← hr']
    exact hj.roots u z' v w' hz' hw' hzst' hwst'

/-- One transaction moves while the database is open to its root, the only one of which
others are being stored. -/
theorem move_same_root (hj : JoinInv s) (hi : Inv s')
    (htxn : s'.txn = Function.update s.txn t (some y)) (hok : y.JoinOk)
    (hroom : s'.lookupOrBegin y.rootId = true)
    (hothers : ∀ u z, u ≠ t → s.txn u = some z → z.join = .storing → z.rootId = y.rootId) :
    JoinInv s' := by
  have hroot : ∀ u z, s'.txn u = some z → z.join = .storing → z.rootId = y.rootId := by
    intro u z hz hst
    rw [htxn] at hz
    by_cases hu : u = t
    · subst hu
      rw [Function.update_self] at hz
      cases hz
      rfl
    · rw [Function.update_of_ne hu] at hz
      exact hothers u z hu hz hst
  refine ⟨hi, ?_, ?_, ?_⟩
  · intro u z hz
    rw [htxn] at hz
    by_cases hu : u = t
    · subst hu
      rw [Function.update_self] at hz
      cases hz
      exact hok
    · rw [Function.update_of_ne hu] at hz
      exact hj.join u z hz
  · intro u z hz hst
    rw [hroot u z hz hst]
    exact hroom
  · intro u z v w hz hw hzst hwst
    rw [hroot u z hz hzst, hroot v w hw hwst]

/-- The fields of a transaction that say how far its join is stay. -/
theorem fields (hj : JoinInv s) (hi : Inv s') (hx : s.txn t = some x)
    (htxn : s'.txn = Function.update s.txn t (some y)) (hroot : y.rootId = x.rootId)
    (hjoin : y.join = x.join) (hok : y.JoinOk)
    (hdb : s'.database = s.database ∨ s'.database = none) : JoinInv s' :=
  hj.move hi htxn hok (fun hst => ⟨x, hx, hjoin ▸ hst, hroot.symm⟩) hdb

theorem joined (hj : JoinInv s) {rootId : Nat} {mode : Mode} {rd : Bool}
    (hclear : s.Clear (.join t rootId mode rd)) (h : s.step (.join t rootId mode rd) = some s') :
    JoinInv s' := by
  have hi' := hj.inv.step hclear.1 h
  have hadmits := hclear.2
  simp only [State.step, State.join] at h
  split at h
  · cases h
  · split at h
    next l hl =>
      cases h
      cases rd with
      | true => exact hj.move hi' (Function.update_idem _ _ _) rfl (fun hst => by cases hst) (.inl rfl)
      | false =>
        have hl : s.lock.tryAcquire mode (some t) = some (l, true) := hl
        obtain ⟨hroom, hstoring⟩ := hadmits rfl (by rw [hl]; rfl)
        exact hj.move_same_root hi' (Function.update_idem _ _ _) rfl hroom
          fun u z _ => hstoring u z
    next l hl =>
      cases h
      exact hj.move hi' (Function.update_idem _ _ _) ⟨rfl, rfl⟩ (fun hst => by cases hst) (.inl rfl)
    next =>
      cases h
      exact hj.move hi' rfl rfl (fun hst => by cases hst) (.inl rfl)

theorem resumed (hj : JoinInv s) {id : Nat} (hclear : s.Clear (.resume id))
    (h : s.step (.resume id) = some s') : JoinInv s' := by
  have hi' := hj.inv.step hclear.1 h
  have hadmits := hclear.2
  simp only [State.step, State.resume] at h
  split at h
  · cases h
  next c hcall =>
    obtain ⟨hc, rfl⟩ := Inv.callOf_eq hcall
    split at h
    · split at h
      next n hp =>
        cases h
        exact hj.keep hi' rfl rfl
      next t hp =>
        obtain ⟨x, hx, -, haw⟩ := hj.inv.txn_call c hc t hp
        rw [hx] at h
        dsimp only at h
        split at h
        next hup =>
          cases h
          exact hj.fields hi' hx rfl rfl rfl (hj.join t x hx) (.inl rfl)
        next hup =>
          cases h
          have hjoiner : s.joiner c.id = some x := by
            obtain ⟨id, p, m, up⟩ := c
            dsimp only at hp hup hcall ⊢
            subst hp
            rw [Bool.not_eq_true] at hup
            subst hup
            simp only [State.joiner, hcall]
            exact hx
          cases hrd : x.usingRestartDetection with
          | true =>
            refine hj.move hi' rfl ?_ ?_ (.inl rfl)
            · simp [Transaction.JoinOk, hrd]
            · simp [hrd]
          | false =>
            obtain ⟨hroom, hstoring⟩ := hadmits x hjoiner hrd
            refine hj.move_same_root hi' rfl ?_ hroom fun u z _ => hstoring u z
            simp [Transaction.JoinOk, hrd]
    · cases h

theorem gaveUp (hj : JoinInv s) {id : Nat} (hclear : s.Clear (.giveUp id))
    (h : s.step (.giveUp id) = some s') : JoinInv s' := by
  have hi' := hj.inv.step hclear.1 h
  simp only [State.step, State.giveUp] at h
  split at h
  · cases h
  next c hcall =>
    obtain ⟨hc, rfl⟩ := Inv.callOf_eq hcall
    split at h
    · cases h
      exact hj.keep hi' rfl rfl
    next t hp =>
      obtain ⟨x, hx, -, haw⟩ := hj.inv.txn_call c hc t hp
      have hx' : (({ s with calls := dropCall c.id s.calls } : State).afterOp
          (s.lock.giveUp c.id c.isUpgrade c.target c.party.transaction)).txn t = some x := hx
      rw [hx'] at h
      dsimp only at h
      split at h
      · cases h
        exact hj.keep hi' rfl rfl
      next hup =>
        cases h
        rw [if_neg hup] at haw
        exact hj.move hi' rfl ⟨haw.1, rfl⟩ (fun hst => by cases hst) (.inl rfl)

/-- The database has room, so the participant is stored. -/
theorem store_eq (hj : JoinInv s) (hx : s.txn t = some x) (hst : x.join = .storing) :
    s.step (.store t .handled) = some (({ s with database := some x.rootId } : State).update t
      { x with stored := true, join := .joined }) := by
  simp [State.step, State.store, hx, hst, hj.room t x hx hst]

theorem stored (hj : JoinInv s) {outcome : StoreOutcome} (hclear : s.Clear (.store t outcome))
    (h : s.step (.store t outcome) = some s') : JoinInv s' := by
  have hi' := hj.inv.step hclear.1 h
  obtain rfl : outcome = .handled := hclear.2
  cases hx : s.txn t with
  | none => simp [State.step, State.store, hx] at h
  | some x =>
    by_cases hst : x.join = .storing
    · rw [hj.store_eq hx hst] at h
      cases h
      have hacq : x.acquired = true := by
        have := hj.join t x hx
        simpa [Transaction.JoinOk, hst] using this
      refine hj.move_same_root hi' rfl hacq ?_ fun u z _ hz hzst => hj.roots t x u z hx hz hst hzst
      simp [State.lookupOrBegin, State.update]
    · simp [State.step, State.store, hx, hst] at h

theorem upgraded (hj : JoinInv s) {underLock : Bool} (hclear : s.Clear (.upgrade t underLock))
    (h : s.step (.upgrade t underLock) = some s') : JoinInv s' := by
  have hi' := hj.inv.step hclear.1 h
  simp only [State.step, State.upgrade] at h
  split at h
  · cases h
  next x hx =>
    split at h
    · cases h
    · split at h
      · cases h
        exact hj.fields hi' hx rfl rfl rfl (hj.join t x hx) (.inl rfl)
      · cases h
        exact hj.keep hi' rfl rfl
      · cases h
        exact hj.keep hi' rfl rfl

theorem claimed (hj : JoinInv s) {ids : List Nat} (hclear : s.Clear (.claim t ids))
    (h : s.step (.claim t ids) = some s') : JoinInv s' := by
  have hi' := hj.inv.step hclear.1 h
  simp only [State.step, State.claim] at h
  split at h
  · cases h
  next x hx =>
    split at h
    · cases h
    · split at h
      · cases h
        exact hj
      · cases h
        exact hj.fields hi' hx rfl rfl rfl (hj.join t x hx) (.inl rfl)

theorem relinquished (hj : JoinInv s) {id : Nat} {aborted rpc : Bool}
    (hclear : s.Clear (.relinquish t id aborted rpc))
    (h : s.step (.relinquish t id aborted rpc) = some s') : JoinInv s' := by
  have hi' := hj.inv.step hclear.1 h
  simp only [State.step, State.relinquish] at h
  split at h
  · cases h
  next x hx =>
    have hok := hj.join t x hx
    split at h
    · cases h
    · split at h
      · cases h
        exact hj
      · split at h
        · cases h
          exact hj
        · split at h
          · split at h
            · cases h
              exact hj.fields hi' hx rfl rfl rfl hok (.inl rfl)
            · cases h
              exact hj.fields hi' hx rfl rfl rfl hok (.inl rfl)
          · cases h
            exact hj.fields hi' hx rfl rfl rfl hok (.inl rfl)

theorem prepared (hj : JoinInv s) (hclear : s.Clear (.prepare t))
    (h : s.step (.prepare t) = some s') : JoinInv s' := by
  have hi' := hj.inv.step hclear.1 h
  have hstoring := hclear.2
  simp only [State.step, State.prepare] at h
  split at h
  · cases h
  next x hx =>
    have hok := hj.join t x hx
    split at h
    · cases h
    · split at h
      next hrd =>
        split at h
        next hroom =>
          cases h
          refine hj.move_same_root hi' rfl hok ?_ fun u z _ => hstoring x hx hrd hroom u z
          simp [State.lookupOrBegin, State.update]
        · cases h
          exact hj
      · split at h
        · cases h
          exact hj
        · cases h
          exact hj.fields hi' hx rfl rfl rfl hok (.inl rfl)

theorem completed (hj : JoinInv s) {how : End} (hclear : s.Clear (.complete t how))
    (h : s.step (.complete t how) = some s') : JoinInv s' := by
  have hi' := hj.inv.step hclear.1 h
  simp only [State.step, State.complete] at h
  split at h
  · cases h
  next x hx =>
    split at h
    · cases h
    next hg =>
      push Not at hg
      have hok := hj.join t x hx
      cases h
      refine hj.fields hi' hx rfl rfl rfl ?_ ?_
      · unfold Transaction.JoinOk at hok ⊢
        dsimp only
        split at hok
        · exact hok
        · exact absurd hok.2 hg.1
        · exact hok
      · show s.databaseAfter x how = s.database ∨ s.databaseAfter x how = none
        cases how with
        | commit => exact .inr rfl
        | abort =>
          dsimp only [State.databaseAfter]
          split
          · exact .inr rfl
          · exact .inl rfl
        | readOnly => exact .inl rfl

/-- Every clear step preserves the invariant. -/
theorem step {a : Action} (hj : JoinInv s) (hclear : s.Clear a) (h : s.step a = some s') :
    JoinInv s' := by
  have hi' := hj.inv.step hclear.1 h
  cases a with
  | join t rootId mode rd => exact hj.joined hclear h
  | resume id => exact hj.resumed hclear h
  | giveUp id => exact hj.gaveUp hclear h
  | store t outcome => exact hj.stored hclear h
  | upgrade t underLock => exact hj.upgraded hclear h
  | claim t ids => exact hj.claimed hclear h
  | relinquish t id aborted rpc => exact hj.relinquished hclear h
  | prepare t => exact hj.prepared hclear h
  | complete t how => exact hj.completed hclear h
  | acquire =>
    simp only [State.step, State.acquire] at h
    split at h
    · cases h
      exact hj.keep hi' rfl rfl
    · cases h
      exact hj.keep hi' rfl rfl
    · cases h
      exact hj.keep hi' rfl rfl
  | release id =>
    simp only [State.step, State.release] at h
    split at h
    · cases h
      exact hj.keep hi' rfl rfl
    · cases h

end JoinInv

/-- The invariant holds along every clear run. -/
theorem clear_inv {recovered : Option (Nat × Bool)} {s : State}
    (h : Reach State.step State.Clear (State.initial recovered) s) : JoinInv s :=
  h.invariant JoinInv (JoinInv.initial recovered) fun _ _ _ hj hc hs => hj.step hc hs

/-! ## What becomes of a join -/

/-- The transaction is a participant, or its own next clear step makes it one. -/
def State.Joins (s : State) (t : TxnId) : Prop :=
  (∃ x, s.txn t = some x ∧ x.join = .joined ∧ x.registered = true) ∨
    ∃ s', s.Clear (.store t .handled) ∧ s.step (.store t .handled) = some s' ∧
      ∃ x, s'.txn t = some x ∧ x.join = .joined ∧ x.registered = true

/-- A transaction that is not registered holds nothing. -/
theorem JoinInv.holdOf_eq_none {s : State} (hj : JoinInv s) {t : TxnId} {x : Transaction}
    (hx : s.txn t = some x) (hreg : x.registered = false) : s.lock.holdOf t = none := by
  have hno : ∀ c ∈ s.calls, c.party ≠ .txn t := by
    intro c hc hp
    obtain ⟨y, hy, hreg', -⟩ := hj.inv.txn_call c hc t hp
    rw [hx] at hy
    cases hy
    exact absurd (hreg'.symm.trans hreg) (by simp)
  rw [hj.inv.agrees.holdOf_eq hno, State.recorded_txn hx]
  simp [Transaction.recorded, hreg]

/-- Whoever got the lock and has it joins. -/
theorem JoinInv.joins {s : State} (hj : JoinInv s) {t : TxnId} {x : Transaction}
    (hx : s.txn t = some x) (hacq : x.acquired = true) (hhold : s.lock.holdOf t ≠ none) :
    s.Joins t := by
  have hreg : x.registered = true := by
    by_contra hreg
    exact hhold (hj.holdOf_eq_none hx (by simpa using hreg))
  have hok := hj.join t x hx
  unfold Transaction.JoinOk at hok
  cases hst : x.join with
  | waiting =>
    rw [hst] at hok
    exact absurd (hacq.symm.trans hok) (by simp)
  | raised =>
    rw [hst] at hok
    exact absurd (hacq.symm.trans hok.1) (by simp)
  | joined => exact .inl ⟨x, hx, hst, hreg⟩
  | storing =>
    refine .inr ⟨_, ⟨trivial, rfl⟩, hj.store_eq hx hst,
      { x with stored := true, join := .joined }, ?_, rfl, hreg⟩
    simp [State.update]

/-- Along a clear run a join that raised left nothing behind, and all transactions that
share the lock can join. -/
theorem clear_joins {recovered : Option (Nat × Bool)} {s : State}
    (h : Reach State.step State.Clear (State.initial recovered) s) :
    (∀ t x, s.txn t = some x → x.join = .raised →
      x.registered = false ∧ s.lock.holdOf t = none) ∧
    ∀ t u x y, t ≠ u → s.txn t = some x → s.txn u = some y → x.acquired = true →
      y.acquired = true → s.lock.holdOf t = some .shared → s.lock.holdOf u = some .shared →
      s.Joins t ∧ s.Joins u := by
  have hj := clear_inv h
  refine ⟨fun t x hx hr => ?_, ?_⟩
  · have hok := hj.join t x hx
    unfold Transaction.JoinOk at hok
    rw [hr] at hok
    exact ⟨hok.2, hj.holdOf_eq_none hx hok.2⟩
  · intro t u x y _ hx hy hacqx hacqy hholdx hholdy
    exact ⟨hj.joins hx hacqx (by simp [hholdx]), hj.joins hy hacqy (by simp [hholdy])⟩

/-- A reader that is stored and one with restart detection share the state. -/
def twoReaders : List Action := [.join 1 10 .shared false, .join 2 20 .shared true]

/-- Both of them join. -/
theorem twoReaders_join :
    (last State.step (State.initial none) twoReaders).Joins 1 ∧
      (last State.step (State.initial none) twoReaders).Joins 2 := by
  have hfirst : (State.initial none).Clear (.join 1 10 .shared false) := by
    refine ⟨trivial, fun _ _ => ⟨by decide, ?_⟩⟩
    intro t x hx
    cases hx
  have hreach : Reach State.step State.Clear (State.initial none)
      (last State.step (State.initial none) twoReaders) :=
    reach_last twoReaders .init ⟨hfirst, ⟨trivial, fun hrd => by cases hrd⟩, trivial⟩
  exact (clear_joins hreach).2 1 2 ⟨10, .shared, false, false, false, true, true, .storing, [], []⟩
    ⟨20, .shared, true, false, false, true, true, .joined, [], []⟩ (by decide) rfl rfl rfl rfl
    (by decide +kernel) (by decide +kernel)

/-- Two readers that both have to be stored share the state. -/
def storedReaders : List Action :=
  [.join 1 10 .shared false, .store 1 .handled, .join 2 20 .shared false, .store 2 .handled]

/-- The database refuses the second one. Its call raises, and it stays registered and in
the lock. -/
theorem second_reader_stuck :
    Reach State.step (fun _ _ => True) (State.initial none)
        (last State.step (State.initial none) storedReaders) ∧
      ((last State.step (State.initial none) storedReaders).txn 2).map (·.join) = some .raised ∧
      (last State.step (State.initial none) storedReaders).isRegistered 2 = true ∧
      (last State.step (State.initial none) storedReaders).lock.holdOf 2 = some .shared := by
  refine ⟨reach_last _ .init (by decide +kernel), ?_⟩
  decide +kernel

end Reboot.Txn
