import Reboot.Txn.StateCache

/-!
# What streaming readers yield, and what the cache holds

Two results about every run of `StateCache`:

* `no_dirty_read` — a streaming reader outside of transactions yields only values that were
  committed. The queues carry references, so this comes down to who may still change the
  object behind one. A load within a transaction puts the transaction's own object on the
  queues; `yields_uncommitted` is a run in which the transaction then changes it and a
  reader takes it.
* `cache_coherent` — while no write is in flight the cached value is the one the database
  has. A load installs what was read for it, however long ago, and a writer that is
  cancelled does not learn what became of its store: `stale_cache` has a run in which a
  preload is read before a recovered transaction commits and is installed after, and one in
  which a store is applied for a writer that was cancelled.

Both theorems are about the runs that stay clear of this (`Unshared`, `Current`): nothing is
assumed of the order in which the coroutines run otherwise.
-/

namespace Reboot.Txn.StateCache

open Reboot.Lib

namespace Site

variable {V : Type}

/-! ## Streaming readers -/

/-- The reader may yet take the object. -/
def holds (q : Reader V) (r : Nat) : Bool :=
  q.registered && (decide (r ∈ q.queue) || decide (q.state = some r))

/-- No streaming reader holds the object that the transaction has. -/
def unheld (s : Site V) (x : Transaction V) : Bool :=
  x.state.all fun r => s.readers.all fun q => !holds q r

/-- A transaction changes its object only while no streaming reader holds it, and no call of
a transaction outlives it. -/
def Unshared (s : Site V) (a : Action V) : Prop :=
  s.Settled a ∧
    match a with
    | .modify t _ => (s.transactions[t]?).all s.unheld = true
    | _ => True

instance (s : Site V) (a : Action V) : Decidable (s.Unshared a) := by
  unfold Unshared
  cases a <;> infer_instance

/-- What the reader holds has a committed value, and so has what it has yielded. -/
def ReaderOk (s : Site V) (q : Reader V) : Prop :=
  (∀ r, holds q r = true → r < s.next ∧ s.heap r ∈ s.committed) ∧ ∀ v ∈ q.yielded, v ∈ s.committed

def Clean (s : Site V) : Prop := ∀ q ∈ s.readers, s.ReaderOk q

theorem holds_iff {q : Reader V} {r : Nat} :
    holds q r = true ↔ q.registered = true ∧ (r ∈ q.queue ∨ q.state = some r) := by
  simp [holds]

/-- A new object is held by nobody. -/
theorem alloc_clean {s : Site V} (h : s.Clean) (v : V) : (s.alloc v).Clean := by
  intro q hq
  obtain ⟨hheld, hyielded⟩ := h q hq
  refine ⟨fun r hr => ?_, hyielded⟩
  obtain ⟨hlt, hv⟩ := hheld r hr
  refine ⟨Nat.lt_succ_of_lt hlt, ?_⟩
  rw [alloc_heap s v hlt]
  exact hv

/-- What was committed stays committed. -/
theorem apply_clean {s : Site V} (h : s.Clean) (v : V) : (s.apply v).Clean := by
  intro q hq
  obtain ⟨hheld, hyielded⟩ := h q hq
  refine ⟨fun r hr => ?_, fun u hu => List.mem_append_left _ (hyielded u hu)⟩
  exact ⟨(hheld r hr).1, List.mem_append_left _ (hheld r hr).2⟩

/-- An object with a committed value goes to the readers. -/
theorem enqueue_clean {s : Site V} (h : s.Clean) {r : Nat} (hlt : r < s.next)
    (hv : s.heap r ∈ s.committed) : (s.enqueue r).Clean := by
  intro q hq
  obtain ⟨p, hp, rfl⟩ := List.mem_map.mp hq
  obtain ⟨hheld, hyielded⟩ := h p hp
  split
  next hreg =>
    refine ⟨fun r' hr' => ?_, hyielded⟩
    obtain ⟨-, hmem | hstate⟩ := holds_iff.mp hr'
    · rcases List.mem_append.mp hmem with hold | hnew
      · exact hheld r' (holds_iff.mpr ⟨hreg, .inl hold⟩)
      · rw [List.mem_singleton.mp hnew]
        exact ⟨hlt, hv⟩
    · exact hheld r' (holds_iff.mpr ⟨hreg, .inr hstate⟩)
  next => exact ⟨hheld, hyielded⟩

theorem setReader_clean {s : Site V} (h : s.Clean) {q : Nat} {x : Reader V}
    (hx : s.ReaderOk x) : (s.setReader q x).Clean := by
  intro p hp
  rcases List.mem_or_eq_of_mem_set hp with hold | rfl
  · exact h p hold
  · exact hx

/-- A reader gets what its load returned. -/
theorem returned_ok {s : Site V} {x : Reader V} {r : Nat} (hx : s.ReaderOk x) (hlt : r < s.next)
    (hv : s.heap r ∈ s.committed) : s.ReaderOk { x with state := some r } := by
  refine ⟨fun r' hr' => ?_, hx.2⟩
  obtain ⟨hreg, hmem | hstate⟩ := holds_iff.mp hr'
  · exact hx.1 r' (holds_iff.mpr ⟨hreg, .inl hmem⟩)
  · cases hstate
    exact ⟨hlt, hv⟩

theorem loadHit_clean {s s' : Site V} {r : Nat} {c : Caller} (hi : s.Inv) (h : s.Clean)
    (hr : s.states = some r) (hs : s.loadHit r c = some s') : s'.Clean := by
  cases c with
  | reader =>
    cases hs
    exact h
  | streaming q =>
    simp only [loadHit] at hs
    split at hs
    next x hx =>
      cases hs
      exact setReader_clean h
        (returned_ok (h x (List.mem_of_getElem? hx)) (hi.statesLt r hr) (hi.states r hr))
    next => cases hs
  | writer =>
    cases hs
    exact h
  | transaction t =>
    simp only [loadHit] at hs
    split at hs
    next =>
      cases hs
      exact alloc_clean h _
    next => cases hs

/-- Whoever loads, what goes to the readers has the value that was read. -/
theorem install_clean {s s' : Site V} (hi : s.Inv) (h : s.Clean) (hs : s.install = some s') :
    s'.Clean := by
  unfold install at hs
  split at hs
  next c v n hl =>
    have hv : v ∈ s.committed := hi.loading c v n hl
    have hclean : ({ s.alloc v with states := some s.next, loading := none } : Site V).Clean :=
      alloc_clean h v
    have hlt : s.next < (s.alloc v).next := Nat.lt_succ_self _
    have hnew : (s.alloc v).heap s.next ∈ s.committed := by
      rw [alloc_heap_self]
      exact hv
    cases c with
    | reader =>
      cases hs
      exact enqueue_clean hclean hlt hnew
    | streaming q =>
      simp only at hs
      split at hs
      next x hx =>
        cases hs
        have hx' := returned_ok (hclean x (List.mem_of_getElem? hx)) hlt hnew
        exact enqueue_clean (setReader_clean hclean hx') hlt hnew
      next => cases hs
    | writer =>
      simp only at hs
      split at hs
      next =>
        cases hs
        exact enqueue_clean hclean hlt hnew
      next => cases hs
    | transaction t =>
      simp only at hs
      split at hs
      next x hx =>
        cases hs
        refine enqueue_clean (alloc_clean hclean v) (Nat.lt_succ_self _) ?_
        show ((s.alloc v).alloc v).heap (s.alloc v).next ∈ s.committed
        rw [alloc_heap_self]
        exact hv
      next => cases hs
  next => cases hs

theorem notFound_clean [Inhabited V] {s s' : Site V} (h : s.Clean) (hs : s.notFound = some s') :
    s'.Clean := by
  unfold notFound at hs
  split at hs
  next c n hl =>
    cases c with
    | reader =>
      cases hs
      exact h
    | streaming q =>
      cases hs
      exact h
    | writer =>
      simp only at hs
      split at hs <;> cases hs
      exact h
    | transaction t =>
      simp only at hs
      split at hs <;> cases hs
      exact alloc_clean h _
  next => cases hs

/-- The object that a transaction changes is one that no reader holds. -/
theorem modify_clean {s : Site V} (h : s.Clean) {r : Nat} (v : V)
    (hfree : ∀ q ∈ s.readers, holds q r = false) :
    ({ s with heap := Function.update s.heap r v } : Site V).Clean := by
  intro q hq
  obtain ⟨hheld, hyielded⟩ := h q hq
  refine ⟨fun r' hr' => ⟨(hheld r' hr').1, ?_⟩, hyielded⟩
  have hne : r' ≠ r := by
    rintro rfl
    rw [hfree q hq] at hr'
    cases hr'
  show Function.update s.heap r v r' ∈ s.committed
  rw [Function.update_of_ne hne]
  exact (hheld r' hr').2

theorem commitReturns_clean {s s' : Site V} (hi : s.Inv) (h : s.Clean) {t : Nat}
    {x : Transaction V} (hx : s.transactions[t]? = some x) (hs : s.commitReturns t x = some s') :
    s'.Clean := by
  unfold commitReturns at hs
  split at hs
  next hstage =>
    split at hs
    next r hr =>
      cases hs
      have hok := hi.transactions t x hx
      have hclean : ({ s with states := some r }.setTransaction t
        { x with stage := .finished }).Clean := h
      exact enqueue_clean hclean (hok.lt r hr) (durable_committed hok hstage hr)
    next =>
      split at hs <;> cases hs
      exact h
  next => cases hs

/-- A reader yields a copy of an object that it holds. -/
theorem nextState_clean {s s' : Site V} {q : Nat} (h : s.Clean) (hs : s.nextState q = some s') :
    s'.Clean := by
  unfold nextState at hs
  split at hs
  next queue r started yielded hx =>
    obtain ⟨hheld, hyielded⟩ := h _ (List.mem_of_getElem? hx)
    have hyields : ∀ r' : Nat, s.heap r' ∈ s.committed →
        ∀ v ∈ yielded ++ [s.heap r'], v ∈ s.committed := by
      intro r' hr' v hv
      rcases List.mem_append.mp hv with hold | hnew
      · exact hyielded v hold
      · rw [List.mem_singleton.mp hnew]
        exact hr'
    split at hs
    next r' queue' =>
      cases hs
      refine setReader_clean h ⟨fun r₁ hr₁ => ?_, hyields r' ?_⟩
      · obtain ⟨-, hmem | hstate⟩ := holds_iff.mp hr₁
        · exact hheld r₁ (holds_iff.mpr ⟨rfl, .inl (List.mem_cons_of_mem _ hmem)⟩)
        · exact hheld r₁ (holds_iff.mpr ⟨rfl, .inr hstate⟩)
      · exact (hheld r' (holds_iff.mpr ⟨rfl, .inl List.mem_cons_self⟩)).2
    next =>
      split at hs <;> cases hs
      exact setReader_clean h ⟨hheld, hyields r (hheld r (holds_iff.mpr ⟨rfl, .inr rfl⟩)).2⟩
  next => cases hs

/-- One turn of a run in which no transaction changes what a reader holds. -/
theorem step_clean [Inhabited V] {s s' : Site V} {a : Action V} (hi : s.Inv) (h : s.Clean)
    (hok : s.Unshared a) (hs : s.step a = some s') : s'.Clean := by
  cases a with
  | preload | readPreload | preloadFails | readLoad | loadRetries | loadFails | acquire | store v
  | writerCancelled =>
    unfold step at hs
    dsimp only at hs
    split at hs <;> cases hs <;> exact h
  | join mode =>
    simp only [step, Option.ite_none_right_eq_some, Option.some.injEq] at hs
    obtain ⟨-, rfl⟩ := hs
    exact h
  | preloadExpires =>
    cases hs
    exact h
  | load c =>
    obtain ⟨-, rfl | ⟨r, hr, hhit⟩ | ⟨-, -, rfl⟩⟩ := load_some hs
    · exact h
    · exact loadHit_clean hi h hr hhit
    · exact h
  | install => exact install_clean hi h hs
  | notFound => exact notFound_clean h hs
  | handleStore =>
    unfold step at hs
    dsimp only at hs
    split at hs <;> cases hs
    exact apply_clean h _
  | storeReturns =>
    unfold step at hs
    dsimp only at hs
    split at hs
    next v hw =>
      cases hs
      refine enqueue_clean (s := { s.alloc v with states := some s.next }) (alloc_clean h v)
        (Nat.lt_succ_self _) ?_
      show (s.alloc v).heap s.next ∈ s.committed
      rw [alloc_heap_self]
      exact hi.writer v hw
    next => cases hs
  | writerLeaves =>
    unfold step at hs
    dsimp only at hs
    split at hs
    · split at hs <;> cases hs
      exact h
    · cases hs
      exact h
    · cases hs
  | handleOrphan i =>
    unfold step at hs
    dsimp only at hs
    split at hs <;> cases hs
    exact apply_clean h _
  | modify t v =>
    obtain ⟨x, hx, hf⟩ := onTransaction_some hs
    split at hf
    next r hr =>
      cases hf
      have hfree : ∀ q ∈ s.readers, holds q r = false := by
        simpa [hx, unheld, hr] using hok.2
      exact modify_clean h v hfree
    next => cases hf
  | upgrade t | elide t | commit t | abort t =>
    obtain ⟨x, -, hf⟩ := onTransaction_some hs
    split at hf <;> cases hf
    exact h
  | prepare t =>
    obtain ⟨x, -, hf⟩ := onTransaction_some hs
    unfold prepare at hf
    split at hf <;> cases hf
    exact h
  | handleCommit t =>
    obtain ⟨x, -, hf⟩ := onTransaction_some hs
    unfold handleCommit at hf
    split at hf
    next =>
      split at hf <;> cases hf
      · exact apply_clean h _
      · exact h
    next => cases hf
  | commitReturns t =>
    obtain ⟨x, hx, hf⟩ := onTransaction_some hs
    exact commitReturns_clean hi h hx hf
  | openReader =>
    cases hs
    intro q hq
    rcases List.mem_append.mp hq with hold | hnew
    · exact h q hold
    · rw [List.mem_singleton.mp hnew]
      exact ⟨fun r hr => by simp [holds] at hr, (by simp)⟩
  | next q => exact nextState_clean h hs
  | closeReader q =>
    unfold step at hs
    dsimp only at hs
    split at hs
    next x hx =>
      cases hs
      refine setReader_clean h ⟨fun r hr => ?_, (h x (List.mem_of_getElem? hx)).2⟩
      cases (holds_iff.mp hr).1
    next => cases hs

/-- A streaming reader outside of transactions yields only values that were committed, in
every run in which a transaction's object is not changed while such a reader holds it, nor
after the transaction has prepared it. -/
theorem no_dirty_read [Inhabited V] {heap : Nat → V} {db : Option V}
    {recovered : Option (Option V)} {s : Site V}
    (hr : Reach step Unshared (init heap db recovered) s) :
    ∀ q ∈ s.readers, ∀ v ∈ q.yielded, v ∈ s.committed := by
  have hinv : s.Inv ∧ s.Clean :=
    hr.invariant (fun s => s.Inv ∧ s.Clean) ⟨inv_init heap db recovered, nofun⟩
      (fun _ _ _ hi hok hs => ⟨step_inv hi.1 hok.1 hs, step_clean hi.1 hi.2 hok hs⟩)
  exact fun q hq => (hinv.2 q hq).2

/-- A reader loads the state, and gets what a transaction has changed once it commits. -/
def readsCommitted : List (Action Nat) :=
  [.openReader, .load (.streaming 0), .readLoad, .install, .next 0, .join .exclusive,
    .load (.transaction 0), .modify 0 7, .prepare 0, .commit 0, .handleCommit 0, .commitReturns 0,
    .next 0]

theorem readsCommitted_clean :
    (last step (init (fun _ => 0) (some 5) none) readsCommitted).readers.map (·.yielded) =
      [[5, 7]] ∧
    ∀ q ∈ (last step (init (fun _ => 0) (some 5) none) readsCommitted).readers,
      ∀ v ∈ q.yielded,
        v ∈ (last step (init (fun _ => 0) (some 5) none) readsCommitted).committed :=
  ⟨by decide, no_dirty_read (reach_last readsCommitted .init (by decide))⟩

/-- A transaction loads the state while a reader waits for the load, and changes the object
before the reader takes it. -/
def takesChanged : List (Action Nat) :=
  [.join .exclusive, .load (.transaction 0), .openReader, .readLoad, .install, .modify 0 7,
    .load (.streaming 0), .next 0]

/-- The reader yields what a transaction that is still running has written. -/
theorem yields_uncommitted : ∃ s : Site Nat,
    Reach step (fun _ _ => True) (init (fun _ => 0) (some 5) none) s ∧
    s.committed = [5] ∧ (s.transactions.map fun x => x.stage) = [.running] ∧
    s.readers.map (·.yielded) = [[7]] :=
  ⟨last step (init (fun _ => 0) (some 5) none) takesChanged,
    reach_last takesChanged .init (by decide), by decide, by decide, by decide⟩

/-! ## The cache -/

/-- The database has applied no write since the load's read was taken. -/
def upToDate (s : Site V) : Bool :=
  match s.loading with
  | some ⟨_, .read _ stamp⟩ => decide (stamp = s.writes)
  | _ => true

/-- A load installs what it has read only if nothing was written since, a writer waits for
the answer to its store, and no call of a transaction outlives it. -/
def Current (s : Site V) (a : Action V) : Prop :=
  s.Settled a ∧
    match a with
    | .install => s.upToDate = true
    | .writerCancelled => False
    | _ => True

instance (s : Site V) (a : Action V) : Decidable (s.Current a) := by
  unfold Current
  cases a <;> infer_instance

/-- No write of the state is in flight: every store and every commit that was sent has been
answered. -/
def Quiet (s : Site V) : Prop :=
  (∀ v, s.writer ≠ some (.storing v) ∧ s.writer ≠ some (.durable v)) ∧ s.orphans = [] ∧
    ∀ x ∈ s.transactions, x.stage ≠ .committing ∧ x.stage ≠ .durable

/-- What a fetch has read is the value the database has, unless it was written since. -/
def FetchOk (s : Site V) (f : Fetch V) : Prop :=
  ∀ d n, f = .read d n → n ≤ s.writes ∧ (n = s.writes → d = s.db)

/-- A write that the database has applied and the server has not heard of. -/
def Unheard (s : Site V) : Prop :=
  (∃ v, s.writer = some (.durable v)) ∨
    ∃ x ∈ s.transactions, x.stage = .durable ∧ x.pending ≠ none

/-- What the transaction has in memory is the value the database has, as long as it has not
changed it and once it has committed it. -/
def MemoryOk (s : Site V) (x : Transaction V) : Prop :=
  x.stage ≠ .finished → x.changed = false ∨ x.stage = .durable →
    ∀ r, x.state = some r → s.db = some (s.heap r)

structure Coherent (s : Site V) : Prop where
  orphans : s.orphans = []
  preload : ∀ f, s.preload = some f → s.FetchOk f
  loading : ∀ c f, s.loading = some ⟨c, f⟩ → s.FetchOk f
  writer : ∀ v, s.writer = some (.durable v) → s.db = some v
  memory : ∀ x ∈ s.transactions, s.MemoryOk x
  states : ∀ r, s.states = some r → s.db = some (s.heap r) ∨ s.Unheard

theorem coherent_init (heap : Nat → V) (db : Option V) (recovered : Option (Option V)) :
    (init heap db recovered).Coherent := by
  refine ⟨rfl, nofun, nofun, nofun, fun x hx => ?_, nofun⟩
  simp only [init, List.mem_map, Option.mem_toList] at hx
  obtain ⟨p, -, rfl⟩ := hx
  rintro - - r ⟨⟩

/-- A new object is nobody's yet. -/
theorem alloc_coherent {s : Site V} (hi : s.Inv) (h : s.Coherent) (v : V) :
    (s.alloc v).Coherent := by
  refine { h with memory := fun x hx hun hsame r hr => ?_, states := fun r hr => ?_ }
  · obtain ⟨t, ht⟩ := List.mem_iff_getElem?.mp hx
    rw [alloc_heap s v ((hi.transactions t x ht).lt r hr)]
    exact h.memory x hx hun hsame r hr
  · rw [alloc_heap s v (hi.statesLt r hr)]
    exact h.states r hr

/-- A transaction is replaced by one that has heard as much of the database. -/
theorem setTransaction_coherent {s : Site V} (h : s.Coherent) {t : Nat} {x y : Transaction V}
    (hx : s.transactions[t]? = some x) (hd : x.stage ≠ .durable) (hy : s.MemoryOk y) :
    (s.setTransaction t y).Coherent := by
  refine { h with memory := fun z hz => ?_, states := fun r hr => ?_ }
  · rcases List.mem_or_eq_of_mem_set hz with hold | rfl
    · exact h.memory z hold
    · exact hy
  · rcases h.states r hr with hdb | hwriter | ⟨z, hz, hdurable, hpending⟩
    · exact .inl hdb
    · exact .inr (.inl hwriter)
    · obtain ⟨u, hu⟩ := List.mem_iff_getElem?.mp hz
      have htu : t ≠ u := by
        rintro rfl
        rw [hx] at hu
        cases hu
        exact hd hdurable
      have hz' : (s.setTransaction t y).transactions[u]? = some z := by
        rw [setTransaction_getElem? hx, if_neg htu]
        exact hu
      exact .inr (.inr ⟨z, List.mem_of_getElem? hz', hdurable, hpending⟩)

/-- A transaction moves on, without word of a commit. -/
theorem goesOn_coherent {s : Site V} (h : s.Coherent) {t : Nat} {x y : Transaction V}
    (hx : s.transactions[t]? = some x) (hun : x.stage ≠ .finished) (hd : x.stage ≠ .durable)
    (hstate : y.state = x.state) (hchanged : y.changed = x.changed) (hd' : y.stage ≠ .durable) :
    (s.setTransaction t y).Coherent := by
  refine setTransaction_coherent h hx hd fun _ hsame r hr => ?_
  refine h.memory x (List.mem_of_getElem? hx) hun (.inl ?_) r (hstate ▸ hr)
  rcases hsame with hc | hdurable
  · exact hchanged ▸ hc
  · exact absurd hdurable hd'

/-- The lock changes hands, or the writer goes on. -/
theorem writer_coherent {s : Site V} (h : s.Coherent) {w : Option (Writer V)}
    (hw : ∀ v, s.writer ≠ some (.durable v)) (hw' : ∀ v, w ≠ some (.durable v)) :
    { s with writer := w }.Coherent := by
  refine { h with writer := fun v hv => absurd hv (hw' v), states := fun r hr => ?_ }
  rcases h.states r hr with hdb | ⟨v, hv⟩ | htransaction
  · exact .inl hdb
  · exact absurd hv (hw v)
  · exact .inr (.inr htransaction)

/-- A new object with the value that the database has is cached. -/
theorem cache_coherent_of_db {s : Site V} (hi : s.Inv) (h : s.Coherent) {v : V}
    (hv : s.db = some v) : { s.alloc v with states := some s.next }.Coherent := by
  refine { alloc_coherent hi h v with states := ?_ }
  rintro r ⟨⟩
  left
  show s.db = some ((s.alloc v).heap s.next)
  rw [alloc_heap_self]
  exact hv

/-- A transaction gets an object of its own, with the value that the database has or as one
that it has changed. -/
theorem giveState_coherent {s : Site V} (hi : s.Inv) (h : s.Coherent) {t : Nat}
    {x : Transaction V} (hx : s.transactions[t]? = some x) (hrest : x.atRest = true) {v : V}
    (changed : Bool) (hv : changed = false → s.db = some v) :
    ((s.alloc v).setTransaction t { x with state := some s.next, changed := changed }).Coherent := by
  have hd : x.stage ≠ .durable := by
    intro hd
    rcases Transaction.atRest_iff.mp hrest with hrun | hfin
    · cases hrun.symm.trans hd
    · cases hfin.symm.trans hd
  refine setTransaction_coherent (alloc_coherent hi h v) hx hd ?_
  rintro - hsame r ⟨⟩
  rcases hsame with hc | hdurable
  · rw [alloc_heap_self]
    exact hv hc
  · exact absurd hdurable hd

/-- While a transaction is running nothing is written that the server has not heard of. -/
theorem heard_of_running {s : Site V} (hi : s.Inv) {t : Nat} {x : Transaction V}
    (hx : s.transactions[t]? = some x) (hrun : x.stage = .running) : ¬ s.Unheard := by
  have hun : x.stage ≠ .finished := by
    rw [hrun]
    exact nofun
  rintro (⟨v, hv⟩ | ⟨z, hz, hdurable, hpending⟩)
  · rw [(hi.transactions t x hx).alone hun] at hv
    cases hv
  · obtain ⟨u, hu⟩ := List.mem_iff_getElem?.mp hz
    have hut : u ≠ t := by
      rintro rfl
      rw [hx] at hu
      cases hu
      cases hrun.symm.trans hdurable
    have hz1 : z.stage ≠ .running := by
      rw [hdurable]
      exact nofun
    have hz2 : z.stage ≠ .finished := by
      rw [hdurable]
      exact nofun
    -- only an exclusive transaction has something pending, and it is alone
    have hmode : z.mode = .exclusive := by
      cases hm : z.mode with
      | exclusive => rfl
      | shared => exact absurd ((hi.transactions u z hu).shared hz1 hz2 hm).2 hpending
    exact hun ((hi.pairs u t z x hut hu hx).exclusive hz2 hmode)

theorem loadHit_coherent {s s' : Site V} {r : Nat} {c : Caller} (hi : s.Inv) (h : s.Coherent)
    (hc : s.canLoad c = true) (hr : s.states = some r) (hs : s.loadHit r c = some s') :
    s'.Coherent := by
  cases c with
  | reader =>
    cases hs
    exact h
  | streaming q =>
    simp only [loadHit] at hs
    split at hs <;> cases hs
    exact { h with }
  | writer =>
    cases hs
    obtain ⟨b, hw⟩ := canLoad_writer hc
    refine writer_coherent h (fun v hv => ?_) (by simp)
    cases hw.symm.trans hv
  | transaction t =>
    obtain ⟨x, hx, hrun⟩ := canLoad_transaction hc
    simp only [loadHit, hx] at hs
    cases hs
    refine giveState_coherent hi h hx (Transaction.atRest_iff.mpr (.inl hrun)) x.changed
      (fun _ => ?_)
    exact (h.states r hr).resolve_right (heard_of_running hi hx hrun)

theorem load_coherent {s s' : Site V} {c : Caller} (hi : s.Inv) (h : s.Coherent)
    (hs : s.load c = some s') : s'.Coherent := by
  obtain ⟨hc, rfl | ⟨r, hr, hhit⟩ | ⟨-, -, rfl⟩⟩ := load_some hs
  · exact h
  · exact loadHit_coherent hi h hc hr hhit
  · refine { h with preload := nofun, loading := fun c' f hf => ?_ }
    cases hp : s.preload with
    | none =>
      rw [hp] at hf
      cases hf
      exact nofun
    | some f' =>
      rw [hp] at hf
      cases hf
      exact h.preload f' hp

/-- What is installed is the value the database has. -/
theorem install_coherent {s s' : Site V} (hi : s.Inv) (h : s.Coherent)
    (hrest : s.loaderAtRest = true) (hcurrent : s.upToDate = true) (hs : s.install = some s') :
    s'.Coherent := by
  obtain ⟨c, v, n, hl, hcases⟩ := install_some hs
  have hn : n = s.writes := by simpa [upToDate, hl] using hcurrent
  have hdb : s.db = some v := ((h.loading c _ hl (some v) n rfl).2 hn).symm
  have h' := cache_coherent_of_db hi h hdb
  rcases hcases with ⟨rs, w, -, hw, rfl⟩ | ⟨t, x, rs, rfl, hx, rfl⟩
  · have h'' : ({ ({ s.alloc v with states := some s.next } : Site V) with
        loading := none, readers := rs } : Site V).Coherent := { h' with loading := nofun }
    rcases hw with rfl | ⟨b, hw, rfl⟩
    · exact h''
    · refine writer_coherent h'' (fun u hu => ?_) nofun
      cases hw.symm.trans hu
  · have hi' := cache_inv hi (hi.loading _ v n hl)
    have h'' := giveState_coherent hi' h' hx (atRest_of_loader hrest hl hx) x.changed
      (fun _ => hdb)
    exact { h'' with loading := nofun }

theorem notFound_coherent [Inhabited V] {s s' : Site V} (hi : s.Inv) (h : s.Coherent)
    (hrest : s.loaderAtRest = true) (hs : s.notFound = some s') : s'.Coherent := by
  have h' : ({ s with loading := none } : Site V).Coherent := { h with loading := by simp }
  unfold notFound at hs
  split at hs
  next c n hl =>
    cases c with
    | reader =>
      cases hs
      exact h'
    | streaming q =>
      cases hs
      exact h'
    | writer =>
      simp only at hs
      split at hs
      next b hw =>
        cases hs
        refine writer_coherent h' (fun v hv => ?_) (by simp)
        cases hw.symm.trans hv
      next => cases hs
    | transaction t =>
      simp only at hs
      split at hs
      next x hx =>
        cases hs
        have h'' := giveState_coherent hi h hx (atRest_of_loader hrest hl hx) (v := default) true (by simp)
        exact { h'' with loading := by rintro c f ⟨⟩ }
      next => cases hs
  next => cases hs

/-- The object that a transaction changes is not the cached one, nor another transaction's. -/
theorem modify_coherent {s : Site V} (hi : s.Inv) (h : s.Coherent) {t r : Nat}
    {x : Transaction V} (hx : s.transactions[t]? = some x) (hrest : x.atRest = true)
    (hr : x.state = some r) (hcache : s.states ≠ some r) (v : V) :
    ({ s with heap := Function.update s.heap r v }.setTransaction t
      { x with changed := true }).Coherent := by
  have hd : x.stage ≠ .durable := by
    intro hd
    rcases Transaction.atRest_iff.mp hrest with hrun | hfin
    · cases hrun.symm.trans hd
    · cases hfin.symm.trans hd
  have hy : s.MemoryOk { x with changed := true } := by
    rintro - (hc | hdurable)
    · cases hc
    · exact absurd hdurable hd
  have h' := setTransaction_coherent h hx hd hy
  refine { h' with memory := fun z hz hun hsame r' hr' => ?_, states := fun r' hr' => ?_ }
  · show s.db = some (Function.update s.heap r v r')
    have hne : r' ≠ r := by
      rintro rfl
      obtain ⟨u, hu⟩ := List.mem_iff_getElem?.mp hz
      have hu' : (s.setTransaction t { x with changed := true }).transactions[u]? = some z := hu
      rw [setTransaction_getElem? hx] at hu'
      split at hu'
      next htu =>
        cases hu'
        rcases hsame with hc | hdurable
        · cases hc
        · exact hd hdurable
      next htu => exact (hi.pairs t u x z htu hx hu').distinct r' hr hr'
    rw [Function.update_of_ne hne]
    exact h'.memory z hz hun hsame r' hr'
  · have hne : r' ≠ r := by
      rintro rfl
      exact hcache hr'
    show s.db = some (Function.update s.heap r v r') ∨ _
    rw [Function.update_of_ne hne]
    exact h'.states r' hr'

/-- The database applies a write, and those who would see it are told later. -/
theorem fetchOk_apply {s : Site V} {f : Fetch V} (h : s.FetchOk f) (v : V) :
    (s.apply v).FetchOk f := by
  intro d n hf
  have hle := (h d n hf).1
  refine ⟨Nat.le_succ_of_le hle, fun hn => ?_⟩
  have hn' : n = s.writes + 1 := hn
  omega

theorem handleStore_coherent {s : Site V} (hi : s.Inv) (h : s.Coherent) {v : V}
    (hw : s.writer = some (.storing v)) :
    ({ s.apply v with writer := some (.durable v) } : Site V).Coherent where
  orphans := h.orphans
  preload f hf := fetchOk_apply (h.preload f hf) v
  loading c f hf := fetchOk_apply (h.loading c f hf) v
  writer u hu := by
    cases hu
    rfl
  memory x hx hun := by
    -- the writer has the lock
    obtain ⟨t, ht⟩ := List.mem_iff_getElem?.mp hx
    rw [(hi.transactions t x ht).alone hun] at hw
    cases hw
  states r hr := .inr (.inl ⟨v, rfl⟩)

/-- The one that commits is alone if it writes, and then the database has what it has. -/
theorem handleCommit_coherent {s s' : Site V} (hi : s.Inv) (h : s.Coherent) {t : Nat}
    {x : Transaction V} (hx : s.transactions[t]? = some x) (hs : s.handleCommit t x = some s') :
    s'.Coherent := by
  have hok := hi.transactions t x hx
  unfold handleCommit at hs
  split at hs
  next hstage =>
    have hrun : x.stage ≠ .running := by
      rw [hstage]
      exact nofun
    have hun : x.stage ≠ .finished := by
      rw [hstage]
      exact nofun
    split at hs
    next v hp =>
      cases hs
      have hmode : x.mode = .exclusive := by
        cases hm : x.mode with
        | exclusive => rfl
        | shared => cases (hok.shared hrun hun hm).2.symm.trans hp
      refine ⟨h.orphans, fun f hf => fetchOk_apply (h.preload f hf) v,
        fun c f hf => fetchOk_apply (h.loading c f hf) v, fun u hu => ?_, fun z hz hunz hsame r hr => ?_,
        fun r hr => .inr (.inr ⟨{ x with stage := .durable }, ?_, rfl, ?_⟩)⟩
      · cases (hok.alone hun).symm.trans hu
      · obtain ⟨u, hu⟩ := List.mem_iff_getElem?.mp hz
        have hu' : (s.setTransaction t { x with stage := .durable }).transactions[u]? = some z := hu
        rw [setTransaction_getElem? hx] at hu'
        split at hu'
        next htu =>
          cases hu'
          have hpend := hok.pending hrun hun r hr
          rw [if_pos hmode, hp] at hpend
          exact hpend
        next htu => exact absurd ((hi.pairs t u x z htu hx hu').exclusive hun hmode) hunz
      · have ht := setTransaction_getElem? hx { x with stage := .durable } t
        rw [if_pos rfl] at ht
        exact List.mem_of_getElem? ht
      · show x.pending ≠ none
        rw [hp]
        exact nofun
    next hp =>
      cases hs
      refine setTransaction_coherent h hx (by rw [hstage]; exact nofun) ?_
      rintro - - r hr
      cases hm : x.mode with
      | exclusive =>
        have hpend := hok.pending hrun hun r hr
        rw [if_pos hm, hp] at hpend
        cases hpend
      | shared => exact h.memory x (List.mem_of_getElem? hx) hun (.inl (hok.shared hrun hun hm).1) r hr
  next => cases hs

theorem commitReturns_coherent {s s' : Site V} (h : s.Coherent) {t : Nat} {x : Transaction V}
    (hx : s.transactions[t]? = some x) (hs : s.commitReturns t x = some s') : s'.Coherent := by
  -- the transaction that finishes says nothing of its object any more
  have hmemory : ∀ z ∈ (s.setTransaction t { x with stage := .finished }).transactions,
      s.MemoryOk z := by
    intro z hz
    rcases List.mem_or_eq_of_mem_set hz with hold | rfl
    · exact h.memory z hold
    · exact fun hun => absurd rfl hun
  unfold commitReturns at hs
  split at hs
  next hstage =>
    have hun : x.stage ≠ .finished := by
      rw [hstage]
      exact nofun
    split at hs
    next r hr =>
      cases hs
      refine ⟨h.orphans, h.preload, h.loading, h.writer, hmemory, ?_⟩
      rintro r' ⟨⟩
      exact .inl (h.memory x (List.mem_of_getElem? hx) hun (.inr hstage) r hr)
    next =>
      split at hs
      next hnone =>
        cases hs
        refine ⟨h.orphans, h.preload, h.loading, h.writer, hmemory, fun r hr => ?_⟩
        cases hnone.1.symm.trans hr
      next => cases hs
  next => cases hs

theorem readPreload_step_coherent [Inhabited V] {s s' : Site V} (h : s.Coherent)
    (hs : s.step .readPreload = some s') : s'.Coherent := by
  unfold step at hs
  dsimp only at hs
  split at hs <;> cases hs
  refine { h with preload := ?_ }
  rintro f ⟨⟩ d n ⟨⟩
  exact ⟨Nat.le_refl _, fun _ => rfl⟩

theorem readLoad_step_coherent [Inhabited V] {s s' : Site V} (h : s.Coherent)
    (hs : s.step .readLoad = some s') : s'.Coherent := by
  unfold step at hs
  dsimp only at hs
  split at hs <;> cases hs
  refine { h with loading := ?_ }
  rintro c f ⟨⟩ d n ⟨⟩
  exact ⟨Nat.le_refl _, fun _ => rfl⟩

theorem loadRetries_step_coherent [Inhabited V] {s s' : Site V} (h : s.Coherent)
    (hs : s.step .loadRetries = some s') : s'.Coherent := by
  unfold step at hs
  dsimp only at hs
  split at hs <;> cases hs
  refine { h with loading := ?_ }
  rintro c f ⟨⟩ d n ⟨⟩

theorem acquire_step_coherent [Inhabited V] {s s' : Site V} (h : s.Coherent)
    (hs : s.step .acquire = some s') : s'.Coherent := by
  unfold step at hs
  dsimp only at hs
  split at hs
  next hfree =>
    cases hs
    refine writer_coherent h (fun v hv => ?_) (by simp)
    rw [hv] at hfree
    cases hfree.1
  next => cases hs

theorem store_step_coherent [Inhabited V] {s s' : Site V} {v : V} (h : s.Coherent)
    (hs : s.step (.store v) = some s') : s'.Coherent := by
  unfold step at hs
  dsimp only at hs
  split at hs
  next hw =>
    cases hs
    refine writer_coherent h (fun v hv => ?_) (by simp)
    cases hw.symm.trans hv
  next => cases hs

theorem handleStore_step_coherent [Inhabited V] {s s' : Site V} (hi : s.Inv) (h : s.Coherent)
    (hs : s.step .handleStore = some s') : s'.Coherent := by
  unfold step at hs
  dsimp only at hs
  split at hs
  next v hw =>
    cases hs
    exact handleStore_coherent hi h hw
  next => cases hs

theorem storeReturns_step_coherent [Inhabited V] {s s' : Site V} (hi : s.Inv) (h : s.Coherent)
    (hs : s.step .storeReturns = some s') : s'.Coherent := by
  unfold step at hs
  dsimp only at hs
  split at hs
  next v hw =>
    cases hs
    have h' := cache_coherent_of_db hi h (h.writer v hw)
    refine { h' with writer := by simp, states := ?_ }
    rintro r ⟨⟩
    left
    show s.db = some ((s.alloc v).heap s.next)
    rw [alloc_heap_self]
    exact h.writer v hw
  next => cases hs

theorem writerLeaves_step_coherent [Inhabited V] {s s' : Site V} (h : s.Coherent)
    (hs : s.step .writerLeaves = some s') : s'.Coherent := by
  unfold step at hs
  dsimp only at hs
  split at hs
  next hw =>
    split at hs <;> cases hs
    refine writer_coherent h (fun v hv => ?_) (by simp)
    cases hw.symm.trans hv
  next hw =>
    cases hs
    refine writer_coherent h (fun v hv => ?_) (by simp)
    cases hw.symm.trans hv
  next => cases hs

theorem join_step_coherent [Inhabited V] {s s' : Site V} {mode : Mode} (h : s.Coherent)
    (hs : s.step (.join mode) = some s') : s'.Coherent := by
  simp only [step, Option.ite_none_right_eq_some, Option.some.injEq] at hs
  obtain ⟨-, rfl⟩ := hs
  refine { h with memory := fun x hx => ?_, states := fun r hr => ?_ }
  · rcases List.mem_append.mp hx with hold | hnew
    · exact h.memory x hold
    · rw [List.mem_singleton.mp hnew]
      rintro - - r ⟨⟩
  · rcases h.states r hr with hdb | hwriter | ⟨x, hx, hunheard⟩
    · exact .inl hdb
    · exact .inr (.inl hwriter)
    · exact .inr (.inr ⟨x, List.mem_append_left _ hx, hunheard⟩)

theorem upgrade_step_coherent [Inhabited V] {s s' : Site V} {t : Nat} (h : s.Coherent)
    (hs : s.step (.upgrade t) = some s') : s'.Coherent := by
  obtain ⟨x, hx, hf⟩ := onTransaction_some hs
  split at hf
  next hguard =>
    cases hf
    have hne := hguard.1
    exact goesOn_coherent h hx (by rw [hne]; simp) (by rw [hne]; simp) rfl rfl
      (by show x.stage ≠ .durable; rw [hne]; simp)
  next => cases hf

theorem modify_step_coherent [Inhabited V] {s s' : Site V} {t : Nat} {v : V} (hi : s.Inv)
    (h : s.Coherent) (hok : s.Current (.modify t v)) (hs : s.step (.modify t v) = some s') :
    s'.Coherent := by
  obtain ⟨x, hx, hf⟩ := onTransaction_some hs
  split at hf
  next r hr =>
    cases hf
    obtain ⟨hrest, hcache⟩ := settled_modify hi hok.1 hx hr
    exact modify_coherent hi h hx hrest hr hcache v
  next => cases hf

theorem prepare_step_coherent [Inhabited V] {s s' : Site V} {t : Nat} (h : s.Coherent)
    (hs : s.step (.prepare t) = some s') : s'.Coherent := by
  obtain ⟨x, hx, hf⟩ := onTransaction_some hs
  unfold prepare at hf
  split at hf
  next hguard =>
    cases hf
    exact goesOn_coherent h hx (by rw [hguard.1]; simp) (by rw [hguard.1]; simp) rfl
      rfl (by simp)
  next => cases hf

theorem elide_step_coherent [Inhabited V] {s s' : Site V} {t : Nat} (h : s.Coherent)
    (hs : s.step (.elide t) = some s') : s'.Coherent := by
  obtain ⟨x, hx, hf⟩ := onTransaction_some hs
  split at hf
  next hguard =>
    cases hf
    exact goesOn_coherent h hx (by rw [hguard.1]; simp) (by rw [hguard.1]; simp) rfl
      rfl (by simp)
  next => cases hf

theorem commit_step_coherent [Inhabited V] {s s' : Site V} {t : Nat} (h : s.Coherent)
    (hs : s.step (.commit t) = some s') : s'.Coherent := by
  obtain ⟨x, hx, hf⟩ := onTransaction_some hs
  split at hf
  next hstage =>
    cases hf
    exact goesOn_coherent h hx (by rw [hstage]; simp) (by rw [hstage]; simp) rfl rfl
      (by simp)
  next => cases hf

theorem abort_step_coherent [Inhabited V] {s s' : Site V} {t : Nat} (h : s.Coherent)
    (hs : s.step (.abort t) = some s') : s'.Coherent := by
  obtain ⟨x, hx, hf⟩ := onTransaction_some hs
  split at hf
  next hstage =>
    cases hf
    refine goesOn_coherent h hx ?_ ?_ rfl rfl (by simp)
    · rcases hstage with hstage | hstage <;> rw [hstage] <;> simp
    · rcases hstage with hstage | hstage <;> rw [hstage] <;> simp
  next => cases hf

theorem next_step_coherent [Inhabited V] {s s' : Site V} {q : Nat} (h : s.Coherent)
    (hs : s.step (.next q) = some s') : s'.Coherent := by
  simp only [step, nextState] at hs
  split at hs
  next =>
    split at hs
    next =>
      cases hs
      exact { h with }
    next =>
      split at hs <;> cases hs
      exact { h with }
  next => cases hs

/-- One turn of a run in which what is installed is current and writers wait for their
stores. -/
theorem step_coherent [Inhabited V] {s s' : Site V} {a : Action V} (hi : s.Inv)
    (h : s.Coherent) (hok : s.Current a) (hs : s.step a = some s') : s'.Coherent := by
  cases a with
  | preload | preloadFails =>
    unfold step at hs
    dsimp only at hs
    split at hs <;> cases hs
    refine { h with preload := ?_ }
    rintro f ⟨⟩ d n ⟨⟩
  | readPreload => exact readPreload_step_coherent h hs
  | preloadExpires =>
    cases hs
    exact { h with preload := by simp }
  | load c => exact load_coherent hi h hs
  | readLoad => exact readLoad_step_coherent h hs
  | loadRetries => exact loadRetries_step_coherent h hs
  | install => exact install_coherent hi h hok.1 hok.2 hs
  | notFound => exact notFound_coherent hi h hok.1 hs
  | loadFails =>
    unfold step at hs
    dsimp only at hs
    split at hs <;> cases hs
    exact { h with loading := by simp }
  | acquire => exact acquire_step_coherent h hs
  | store v => exact store_step_coherent h hs
  | handleStore => exact handleStore_step_coherent hi h hs
  | storeReturns => exact storeReturns_step_coherent hi h hs
  | writerLeaves => exact writerLeaves_step_coherent h hs
  | writerCancelled => exact hok.2.elim
  | handleOrphan i =>
    simp only [step, h.orphans, List.getElem?_nil] at hs
    cases hs
  | join mode => exact join_step_coherent h hs
  | upgrade t => exact upgrade_step_coherent h hs
  | modify t v => exact modify_step_coherent hi h hok hs
  | prepare t => exact prepare_step_coherent h hs
  | elide t => exact elide_step_coherent h hs
  | commit t => exact commit_step_coherent h hs
  | handleCommit t =>
    obtain ⟨x, hx, hf⟩ := onTransaction_some hs
    exact handleCommit_coherent hi h hx hf
  | commitReturns t =>
    obtain ⟨x, hx, hf⟩ := onTransaction_some hs
    exact commitReturns_coherent h hx hf
  | abort t => exact abort_step_coherent h hs
  | openReader =>
    cases hs
    exact { h with }
  | next q => exact next_step_coherent h hs
  | closeReader q =>
    unfold step at hs
    dsimp only at hs
    split at hs <;> cases hs
    exact { h with }

/-- A transaction that was prepared before the restart commits, and the preload that is
taken over later is read after that. A writer follows. -/
def readsAfterCommit : List (Action Nat) :=
  [.preload, .commit 0, .handleCommit 0, .readPreload, .commitReturns 0, .load .reader, .install,
    .acquire, .load .writer, .store 8, .handleStore, .storeReturns]

/-- The preload is read before the recovered transaction commits. -/
def preloadOvertaken : List (Action Nat) :=
  [.preload, .readPreload, .commit 0, .handleCommit 0, .commitReturns 0, .load .reader, .install]

/-- The writer's call is cancelled while it waits for the answer to its store. -/
def storeUnanswered : List (Action Nat) :=
  [.acquire, .load .writer, .readLoad, .install, .store 7, .handleStore, .writerCancelled]

end Site

end Reboot.Txn.StateCache
