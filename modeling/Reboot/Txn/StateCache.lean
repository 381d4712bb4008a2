import Mathlib.Logic.Function.Basic
import Reboot.Lib.Run
import Reboot.Txn.Lock

/-!
# The cached state, its readers and its writers

What `SidecarStateManager` does with the value of one state: `preload`, `_load`, `_store`,
`streaming_reader_idempotency_key` and `transaction_participant_commit`
(`reboot/aio/state_managers.py`). States are objects. A transaction changes its own
object in place, the cache and the queues of streaming readers hold references, and a
reader copies what it takes at the moment it takes it. So the model has references: an
object is an index into `heap`.

`CacheCoherence` asks two things of every run: what streaming readers yield was committed,
and what is cached is what the database has. Both rest on the invariant proved here, `Inv`:
an object that a transaction may still change is referenced by nobody else, and what is
cached, read or durable was committed.

Mirroring notes:
- A step is what happens between two suspensions; `read…` and `handle…` are the moments
  the database takes a read or applies a write.
- A preload that `_load` takes over and a request of its own are both a `Fetch`. `stamp`
  counts the writes the database had applied when the read was taken.
- `_load` outside of a transaction waits for a prepared exclusive transaction; here it
  starts when there is none. Calls that find a load under way wait and start over.
- A store whose coroutine is cancelled may still be applied: `orphans`.
- A commit whose answer is lost is retried and refused: the transaction stays `durable`.
- The lock is the rule it enforces: shared holders coexist, an exclusive one is alone.
- Not here: nested rollback (`NestedRollback`), tasks, idempotent mutations, readers
  within a transaction.
-/

namespace Reboot.Txn.StateCache

open Reboot.Lib

/-- How far a transaction is. -/
inductive Stage
  | running
  | prepared
  /-- the commit has been sent to the database -/
  | committing
  /-- the database has committed, and the server has not heard of it -/
  | durable
  | finished
  deriving DecidableEq

/-- A participant. -/
structure Transaction (V : Type) where
  mode : Mode
  /-- `transaction.state`, a reference -/
  state : Option Nat
  /-- the object differs from what was loaded, or is new -/
  changed : Bool
  stage : Stage
  /-- the state that the prepared transaction has in the database, if it writes one -/
  pending : Option V
  deriving DecidableEq

/-- The transaction is not on its way from `Prepare` to the end of its commit. -/
def Transaction.atRest {V : Type} (x : Transaction V) : Bool :=
  decide (x.stage = .running ∨ x.stage = .finished)

theorem Transaction.atRest_iff {V : Type} {x : Transaction V} :
    x.atRest = true ↔ x.stage = .running ∨ x.stage = .finished :=
  decide_eq_true_iff

/-- A streaming reader outside of transactions. -/
structure Reader (V : Type) where
  /-- its queue is in `_streaming_readers` -/
  registered : Bool
  queue : List Nat
  /-- what `_load` returned -/
  state : Option Nat
  started : Bool
  yielded : List V
  deriving DecidableEq

/-- A read of the database. -/
inductive Fetch (V : Type)
  | sent
  | read (data : Option V) (stamp : Nat)
  | failed
  deriving DecidableEq

/-- Who calls `_load`. -/
inductive Caller
  | reader
  | streaming (q : Nat)
  | writer
  | transaction (t : Nat)
  deriving DecidableEq

/-- The load that is under way, `_loads`. -/
structure Load (V : Type) where
  caller : Caller
  fetch : Fetch V
  deriving DecidableEq

/-- A writer outside of transactions, while it has the lock. -/
inductive Writer (V : Type)
  | running (loaded : Bool)
  | storing (value : V)
  /-- the database has stored, and the server has not heard of it -/
  | durable (value : V)
  deriving DecidableEq

/-- A server and its database, as far as the value of one state goes. -/
structure Site (V : Type) where
  heap : Nat → V
  next : Nat
  db : Option V
  /-- every value the database ever had -/
  committed : List V
  /-- how many writes the database has applied -/
  writes : Nat
  /-- `_states` -/
  states : Option Nat
  /-- `_state_preloads` -/
  preload : Option (Fetch V)
  loading : Option (Load V)
  writer : Option (Writer V)
  orphans : List V
  transactions : List (Transaction V)
  readers : List (Reader V)

/-- What can happen next. -/
inductive Action (V : Type)
  | preload
  | readPreload
  | preloadFails
  /-- nobody came for it in time -/
  | preloadExpires
  | load (c : Caller)
  | readLoad
  /-- the preload failed, the database is asked -/
  | loadRetries
  /-- the load has found a state and was authorized -/
  | install
  /-- the load has found nothing -/
  | notFound
  /-- the load raises or is cancelled -/
  | loadFails
  | acquire
  | store (v : V)
  | handleStore
  | storeReturns
  /-- the writer returns without a store, or its store is refused -/
  | writerLeaves
  /-- the writer is cancelled while it waits for its store -/
  | writerCancelled
  | handleOrphan (i : Nat)
  | join (mode : Mode)
  | upgrade (t : Nat)
  /-- a method of the transaction changes the state in place, or its store copies to it -/
  | modify (t : Nat) (v : V)
  | prepare (t : Nat)
  /-- prepare and commit of a read-only participant, in memory -/
  | elide (t : Nat)
  | commit (t : Nat)
  | handleCommit (t : Nat)
  | commitReturns (t : Nat)
  | abort (t : Nat)
  | openReader
  | next (q : Nat)
  | closeReader (q : Nat)
  deriving DecidableEq

namespace Site

variable {V : Type}

/-- After a restart: nothing is cached, and a transaction that was prepared is back, without
its state. -/
def init (heap : Nat → V) (db : Option V) (recovered : Option (Option V)) : Site V where
  heap := heap
  next := 0
  db := db
  committed := db.toList
  writes := 0
  states := none
  preload := none
  loading := none
  writer := none
  orphans := []
  transactions := recovered.toList.map fun pending => ⟨.exclusive, none, true, .prepared, pending⟩
  readers := []

/-- The transactions that hold the lock. -/
def holders (s : Site V) : List (Transaction V) :=
  s.transactions.filter fun x => decide (x.stage ≠ .finished)

/-- No other transaction holds the lock. -/
def othersFinished (s : Site V) (t : Nat) : Bool :=
  (List.range s.transactions.length).all fun u =>
    u == t || (s.transactions[u]?).all fun x => decide (x.stage = .finished)

/-- A new object. -/
def alloc (s : Site V) (v : V) : Site V :=
  { s with heap := Function.update s.heap s.next v, next := s.next + 1 }

def setTransaction (s : Site V) (t : Nat) (x : Transaction V) : Site V :=
  { s with transactions := s.transactions.set t x }

def setReader (s : Site V) (q : Nat) (x : Reader V) : Site V :=
  { s with readers := s.readers.set q x }

/-- Put a reference on the queues of `_streaming_readers`. -/
def enqueue (s : Site V) (r : Nat) : Site V :=
  { s with readers := s.readers.map fun q =>
      if q.registered then { q with queue := q.queue ++ [r] } else q }

/-- The database applies a write. -/
def apply (s : Site V) (v : V) : Site V :=
  { s with db := some v, committed := s.committed ++ [v], writes := s.writes + 1 }

/-- `_load` outside of a transaction has to wait. -/
def mustWait (s : Site V) : Bool :=
  s.transactions.any fun x => decide (x.mode = .exclusive ∧
    (x.stage = .prepared ∨ x.stage = .committing ∨ x.stage = .durable))

/-- `_load` with the state in `_states`. -/
def loadHit (s : Site V) (r : Nat) : Caller → Option (Site V)
  | .reader => some s
  | .streaming q =>
    match s.readers[q]? with
    | some x => some (s.setReader q { x with state := some r })
    | none => none
  | .writer => some { s with writer := some (.running true) }
  | .transaction t =>
    match s.transactions[t]? with
    | some x =>
      -- a copy, so that the changes of the transaction are not seen by others
      some ((s.alloc (s.heap r)).setTransaction t { x with state := some s.next })
    | none => none

/-- Whether the caller can be in `_load` now. -/
def canLoad (s : Site V) : Caller → Bool
  | .reader => !s.mustWait
  | .streaming q => !s.mustWait && (s.readers[q]?).any fun x => x.registered && !x.started
  | .writer =>
    !s.mustWait &&
      match s.writer with
      | some (.running _) => true
      | _ => false
  | .transaction t =>
    (s.transactions[t]?).any fun x => decide (x.stage = .running)

/-- The caller is a transaction that has its state already. -/
def hasState (s : Site V) : Caller → Bool
  | .transaction t => (s.transactions[t]?).any fun x => x.state.isSome
  | _ => false

/-- `_load`. With nothing in memory, the first to come takes over the preload, or asks the
database. -/
def load (s : Site V) (c : Caller) : Option (Site V) :=
  if s.canLoad c then
    if s.hasState c then some s
    else
      match s.states, s.loading with
      | some r, _ => s.loadHit r c
      | none, none => some { s with preload := none, loading := some ⟨c, s.preload.getD .sent⟩ }
      | none, some _ => none
  else none

/-- The load returns a state: it is cached, and goes to the streaming readers. What a load
within a transaction sends them is the transaction's copy. -/
def install (s : Site V) : Option (Site V) :=
  match s.loading with
  | some ⟨c, .read (some v) _⟩ =>
    let cached := { s.alloc v with states := some s.next, loading := none }
    match c with
    | .reader => some (cached.enqueue s.next)
    | .streaming q =>
      match s.readers[q]? with
      | some x => some ((cached.setReader q { x with state := some s.next }).enqueue s.next)
      | none => none
    | .writer =>
      match s.writer with
      | some (.running _) => some { cached.enqueue s.next with writer := some (.running true) }
      | _ => none
    | .transaction t =>
      match s.transactions[t]? with
      | some x =>
        some (((cached.alloc v).setTransaction t
          { x with state := some (s.next + 1) }).enqueue (s.next + 1))
      | none => none
  | _ => none

/-- The load finds that the state was never constructed. A writer or a transaction goes on
with a new state, which is not cached. -/
def notFound [Inhabited V] (s : Site V) : Option (Site V) :=
  match s.loading with
  | some ⟨c, .read none _⟩ =>
    match c with
    | .reader => some { s with loading := none }
    | .streaming _ => some { s with loading := none }
    | .writer =>
      match s.writer with
      | some (.running _) => some { s with loading := none, writer := some (.running true) }
      | _ => none
    | .transaction t =>
      match s.transactions[t]? with
      | some x =>
        some ({ s.alloc default with loading := none }.setTransaction t
          { x with state := some s.next, changed := true })
      | none => none
  | _ => none

/-- The load that is under way is the writer's: the writer waits for it. -/
def writerLoads (s : Site V) : Bool :=
  s.loading.any fun l => decide (l.caller = .writer)

/-- Something happens to a transaction. -/
def onTransaction (s : Site V) (t : Nat) (f : Transaction V → Option (Site V)) :
    Option (Site V) :=
  match s.transactions[t]? with
  | some x => f x
  | none => none

/-- `Prepare`, answered by the database. The methods of the transaction have returned: those
that changed the state hold the lock exclusively. -/
def prepare (s : Site V) (t : Nat) (x : Transaction V) : Option (Site V) :=
  if x.stage = .running ∧ (x.changed → x.mode = .exclusive) then
    some (s.setTransaction t { x with
      stage := .prepared
      pending := if x.mode = .exclusive then x.state.map s.heap else none })
  else none

/-- The database commits: what the transaction has prepared becomes the value. -/
def handleCommit (s : Site V) (t : Nat) (x : Transaction V) : Option (Site V) :=
  if x.stage = .committing then
    match x.pending with
    | some v => some ((s.apply v).setTransaction t { x with stage := .durable })
    | none => some (s.setTransaction t { x with stage := .durable })
  else none

/-- `transaction_participant_commit`, after the database: the transaction's own object is
cached and goes to the streaming readers. -/
def commitReturns (s : Site V) (t : Nat) (x : Transaction V) : Option (Site V) :=
  if x.stage = .durable then
    match x.state with
    | some r =>
      some (({ s with states := some r }.setTransaction t { x with stage := .finished }).enqueue r)
    | none =>
      -- `assert queues is None`, `assert self._states[state_type].get(state_ref) is None`
      if s.states = none ∧ s.readers = [] then
        some (s.setTransaction t { x with stage := .finished })
      else none
  else none

/-- A streaming reader yields a copy of the next state: the loaded one first, unless its
queue has something already. -/
def nextState (s : Site V) (q : Nat) : Option (Site V) :=
  match s.readers[q]? with
  | some ⟨true, queue, some r, started, yielded⟩ =>
    match queue with
    | r' :: queue => some (s.setReader q ⟨true, queue, some r, true, yielded ++ [s.heap r']⟩)
    | [] =>
      if started then none
      else some (s.setReader q ⟨true, [], some r, true, yielded ++ [s.heap r]⟩)
  | _ => none

/-- One turn. -/
def step [Inhabited V] (s : Site V) : Action V → Option (Site V)
  | .preload =>
    if s.states = none ∧ s.loading.isNone ∧ s.preload.isNone then
      some { s with preload := some .sent }
    else none
  | .readPreload =>
    match s.preload with
    | some .sent => some { s with preload := some (.read s.db s.writes) }
    | _ => none
  | .preloadFails =>
    match s.preload with
    | some .sent => some { s with preload := some .failed }
    | _ => none
  | .preloadExpires => some { s with preload := none }
  | .load c => s.load c
  | .readLoad =>
    match s.loading with
    | some ⟨c, .sent⟩ => some { s with loading := some ⟨c, .read s.db s.writes⟩ }
    | _ => none
  | .loadRetries =>
    match s.loading with
    | some ⟨c, .failed⟩ => some { s with loading := some ⟨c, .sent⟩ }
    | _ => none
  | .install => s.install
  | .notFound => s.notFound
  | .loadFails => if s.loading.isSome then some { s with loading := none } else none
  | .acquire =>
    if s.writer.isNone ∧ s.holders.isEmpty then some { s with writer := some (.running false) }
    else none
  | .store v =>
    match s.writer with
    | some (.running true) => some { s with writer := some (.storing v) }
    | _ => none
  | .handleStore =>
    match s.writer with
    | some (.storing v) => some { s.apply v with writer := some (.durable v) }
    | _ => none
  | .storeReturns =>
    match s.writer with
    | some (.durable v) =>
      some { ({ s.alloc v with states := some s.next } : Site V).enqueue s.next with writer := none }
    | _ => none
  | .writerLeaves =>
    match s.writer with
    | some (.running _) => if s.writerLoads then none else some { s with writer := none }
    | some (.storing _) => some { s with writer := none }
    | _ => none
  | .writerCancelled =>
    match s.writer with
    | some (.storing v) => some { s with writer := none, orphans := s.orphans ++ [v] }
    | some (.durable _) => some { s with writer := none }
    | _ => none
  | .handleOrphan i =>
    match s.orphans[i]? with
    | some v => some { s.apply v with orphans := s.orphans.eraseIdx i }
    | none => none
  | .join mode =>
    if s.writer.isNone ∧
        (if mode = .shared then ∀ x ∈ s.holders, x.mode = .shared else s.holders.isEmpty) then
      some { s with transactions := s.transactions ++ [⟨mode, none, false, .running, none⟩] }
    else none
  | .upgrade t => s.onTransaction t fun x =>
    if x.stage = .running ∧ s.othersFinished t then
      some (s.setTransaction t { x with mode := .exclusive })
    else none
  | .modify t v => s.onTransaction t fun x =>
    match x.state with
    | some r =>
      some ({ s with heap := Function.update s.heap r v }.setTransaction t
        { x with changed := true })
    | none => none
  | .prepare t => s.onTransaction t fun x => s.prepare t x
  | .elide t => s.onTransaction t fun x =>
    if x.stage = .running ∧ x.mode = .shared ∧ ¬ x.changed then
      some (s.setTransaction t { x with stage := .finished })
    else none
  | .commit t => s.onTransaction t fun x =>
    if x.stage = .prepared then some (s.setTransaction t { x with stage := .committing }) else none
  | .handleCommit t => s.onTransaction t fun x => s.handleCommit t x
  | .commitReturns t => s.onTransaction t fun x => s.commitReturns t x
  | .abort t => s.onTransaction t fun x =>
    if x.stage = .running ∨ x.stage = .prepared then
      some (s.setTransaction t { x with stage := .finished })
    else none
  | .openReader => some { s with readers := s.readers ++ [⟨true, [], none, false, []⟩] }
  | .next q => s.nextState q
  | .closeReader q =>
    match s.readers[q]? with
    | some x => some (s.setReader q { x with registered := false })
    | none => none

/-! ## References and locks

An object that a transaction may still change is referenced by that transaction only: not
from the cache, nor by another transaction. This, and that what is cached was committed,
holds as long as no call of a transaction goes on with the object that the transaction has
prepared or committed.
-/

/-- The load that is under way is not one of a transaction that has prepared. -/
def loaderAtRest (s : Site V) : Bool :=
  match s.loading with
  | some ⟨.transaction t, _⟩ => (s.transactions[t]?).all Transaction.atRest
  | _ => true

/-- No call of a transaction outlives it: once the transaction has prepared its object is
neither set nor changed, nor is it changed while it is the cached one. -/
def Settled (s : Site V) : Action V → Prop
  | .modify t _ => (s.transactions[t]?).all (fun x =>
      x.atRest && decide (x.stage = .finished → x.state ≠ s.states)) = true
  | .install => s.loaderAtRest = true
  | .notFound => s.loaderAtRest = true
  | _ => True

instance (s : Site V) : (a : Action V) → Decidable (s.Settled a)
  | .modify _ _ => inferInstanceAs (Decidable (_ = true))
  | .install | .notFound => inferInstanceAs (Decidable (_ = true))
  | .preload | .readPreload | .preloadFails | .preloadExpires | .load _ | .readLoad | .loadRetries
  | .loadFails | .acquire | .store _ | .handleStore | .storeReturns | .writerLeaves
  | .writerCancelled | .handleOrphan _ | .join _ | .upgrade _ | .prepare _ | .elide _ | .commit _
  | .handleCommit _ | .commitReturns _ | .abort _ | .openReader | .next _ | .closeReader _ =>
    inferInstanceAs (Decidable True)

/-- What holds of every transaction. -/
structure TransactionOk (s : Site V) (x : Transaction V) : Prop where
  lt : ∀ r, x.state = some r → r < s.next
  /-- the cache has another object -/
  apart : x.stage ≠ .finished → ∀ r, x.state = some r → s.states ≠ some r
  alone : x.stage ≠ .finished → s.writer = none
  /-- what is prepared is what is in memory -/
  pending : x.stage ≠ .running → x.stage ≠ .finished → ∀ r, x.state = some r →
    x.pending = if x.mode = .exclusive then some (s.heap r) else none
  shared : x.stage ≠ .running → x.stage ≠ .finished → x.mode = .shared →
    x.changed = false ∧ x.pending = none
  unchanged : x.stage ≠ .finished → x.changed = false → ∀ r, x.state = some r →
    s.heap r ∈ s.committed
  durable : x.stage = .durable → ∀ v, x.pending = some v → v ∈ s.committed

/-- What holds of every two transactions. -/
structure PairOk (x y : Transaction V) : Prop where
  distinct : ∀ r, x.state = some r → y.state ≠ some r
  exclusive : x.stage ≠ .finished → x.mode = .exclusive → y.stage = .finished

structure Inv (s : Site V) : Prop where
  transactions : ∀ (t : Nat) x, s.transactions[t]? = some x → s.TransactionOk x
  pairs : ∀ (t u : Nat) x y, t ≠ u → s.transactions[t]? = some x → s.transactions[u]? = some y →
    PairOk x y
  db : ∀ v, s.db = some v → v ∈ s.committed
  preload : ∀ v n, s.preload = some (.read (some v) n) → v ∈ s.committed
  loading : ∀ c v n, s.loading = some ⟨c, .read (some v) n⟩ → v ∈ s.committed
  statesLt : ∀ r, s.states = some r → r < s.next
  states : ∀ r, s.states = some r → s.heap r ∈ s.committed
  writer : ∀ v, s.writer = some (.durable v) → v ∈ s.committed

theorem onTransaction_some {s s' : Site V} {t : Nat} {f : Transaction V → Option (Site V)}
    (h : s.onTransaction t f = some s') :
    ∃ x, s.transactions[t]? = some x ∧ f x = some s' := by
  unfold onTransaction at h
  split at h
  next x hx => exact ⟨x, hx, h⟩
  next => cases h

theorem setTransaction_getElem? {s : Site V} {t : Nat} {x : Transaction V}
    (hx : s.transactions[t]? = some x) (y : Transaction V) (u : Nat) :
    (s.setTransaction t y).transactions[u]? =
      if t = u then some y else s.transactions[u]? := by
  have ht : t < s.transactions.length := (List.getElem?_eq_some_iff.mp hx).1
  simp only [setTransaction, List.getElem?_set, if_pos ht]

theorem inv_init (heap : Nat → V) (db : Option V) (recovered : Option (Option V)) :
    (init heap db recovered).Inv := by
  refine ⟨?_, ?_, ?_, ?_, ?_, ?_, ?_, ?_⟩
  · intro t x hx
    have hmem : x ∈ (init heap db recovered).transactions := List.mem_of_getElem? hx
    simp only [init, List.mem_map, Option.mem_toList] at hmem
    obtain ⟨p, -, rfl⟩ := hmem
    refine ⟨?_, ?_, ?_, ?_, ?_, ?_, ?_⟩ <;> simp [init]
  · intro t u x y htu hx hy
    have hlen : (init heap db recovered).transactions.length ≤ 1 := by
      cases recovered with
      | none => simp [init]
      | some p => simp [init]
    have ht := (List.getElem?_eq_some_iff.mp hx).1
    have hu := (List.getElem?_eq_some_iff.mp hy).1
    omega
  · intro v hv
    have hdb : db = some v := hv
    simp [init, hdb]
  · intro v n h
    cases h
  · intro c v n h
    cases h
  · intro r h
    cases h
  · intro r h
    cases h
  · intro v h
    cases h

/-- A new object leaves the old ones alone. -/
theorem alloc_heap (s : Site V) (v : V) {r : Nat} (hr : r < s.next) :
    (s.alloc v).heap r = s.heap r := by
  show Function.update s.heap s.next v r = s.heap r
  rw [Function.update_of_ne (by omega)]

theorem alloc_heap_self (s : Site V) (v : V) : (s.alloc v).heap s.next = v :=
  Function.update_self ..

theorem alloc_ok {s : Site V} {x : Transaction V} (hx : s.TransactionOk x) (v : V) :
    (s.alloc v).TransactionOk x where
  lt r hr := Nat.lt_succ_of_lt (hx.lt r hr)
  apart := hx.apart
  alone := hx.alone
  pending h1 h2 r hr := by
    rw [alloc_heap s v (hx.lt r hr)]
    exact hx.pending h1 h2 r hr
  shared := hx.shared
  unchanged h1 h2 r hr := by
    rw [alloc_heap s v (hx.lt r hr)]
    exact hx.unchanged h1 h2 r hr
  durable := hx.durable

theorem alloc_inv {s : Site V} (hi : s.Inv) (v : V) : (s.alloc v).Inv :=
  { hi with
    transactions := fun t x hx => alloc_ok (hi.transactions t x hx) v
    statesLt := fun r hr => Nat.lt_succ_of_lt (hi.statesLt r hr)
    states := fun r hr => by
      rw [alloc_heap s v (hi.statesLt r hr)]
      exact hi.states r hr }

/-- Replace a transaction by one that is fine with all others. -/
theorem setTransaction_inv {s : Site V} (hi : s.Inv) {t : Nat} {x y : Transaction V}
    (hx : s.transactions[t]? = some x) (hy : s.TransactionOk y)
    (hpair : ∀ u z, t ≠ u → s.transactions[u]? = some z → PairOk y z ∧ PairOk z y) :
    (s.setTransaction t y).Inv := by
  refine { hi with transactions := ?_, pairs := ?_ }
  · intro u z hz
    rw [setTransaction_getElem? hx] at hz
    have hok : s.TransactionOk z := by
      split at hz
      · cases hz
        exact hy
      · exact hi.transactions u z hz
    exact ⟨hok.1, hok.2, hok.3, hok.4, hok.5, hok.6, hok.7⟩
  · intro u w z z' huw hz hz'
    rw [setTransaction_getElem? hx] at hz hz'
    split at hz
    next htu =>
      cases hz
      subst htu
      rw [if_neg huw] at hz'
      exact (hpair w z' huw hz').1
    next htu =>
      split at hz'
      next htw =>
        cases hz'
        subst htw
        exact (hpair u z htu hz).2
      next => exact hi.pairs u w z z' huw hz hz'

/-- A transaction keeps its object and does not gain the lock. -/
theorem PairOk.keep {x y z : Transaction V} (h : PairOk x z ∧ PairOk z x)
    (hstate : y.state = x.state) (hmode : y.stage ≠ .finished → y.mode = .exclusive →
      x.stage ≠ .finished ∧ x.mode = .exclusive)
    (hstage : x.stage = .finished → y.stage = .finished) : PairOk y z ∧ PairOk z y := by
  refine ⟨⟨fun r hr => h.1.distinct r (hstate ▸ hr), fun h1 h2 => ?_⟩,
    ⟨fun r hr hy => h.2.distinct r hr (hstate ▸ hy), fun h1 h2 => hstage (h.2.exclusive h1 h2)⟩⟩
  obtain ⟨h3, h4⟩ := hmode h1 h2
  exact h.1.exclusive h3 h4

theorem pairs_of {s : Site V} (hi : s.Inv) {t : Nat} {x : Transaction V}
    (hx : s.transactions[t]? = some x) (u : Nat) (z : Transaction V) (htu : t ≠ u)
    (hz : s.transactions[u]? = some z) : PairOk x z ∧ PairOk z x :=
  ⟨hi.pairs t u x z htu hx hz, hi.pairs u t z x htu.symm hz hx⟩

theorem finished_of_othersFinished {s : Site V} {t u : Nat} {x : Transaction V}
    (h : s.othersFinished t = true) (htu : t ≠ u) (hx : s.transactions[u]? = some x) :
    x.stage = .finished := by
  have hu : u ∈ List.range s.transactions.length :=
    List.mem_range.mpr (List.getElem?_eq_some_iff.mp hx).1
  have h' := List.all_eq_true.mp h u hu
  simpa [hx, htu.symm] using h'

/-- Nobody holds the lock. -/
theorem finished_of_isEmpty {s : Site V} {u : Nat} {x : Transaction V}
    (h : s.holders.isEmpty = true) (hx : s.transactions[u]? = some x) : x.stage = .finished := by
  have hnil := List.filter_eq_nil_iff.mp (List.isEmpty_iff.mp h) x (List.mem_of_getElem? hx)
  simpa using hnil

/-! ## One turn keeps the references apart -/

/-- Only the reads that are under way have changed, or the streaming readers. -/
theorem Inv.of_same {s s' : Site V} (hi : s.Inv) (hheap : s'.heap = s.heap)
    (hnext : s'.next = s.next) (hdb : s'.db = s.db) (hcommitted : s'.committed = s.committed)
    (hstates : s'.states = s.states) (hwriter : s'.writer = s.writer)
    (htransactions : s'.transactions = s.transactions)
    (hpreload : ∀ v n, s'.preload = some (.read (some v) n) → v ∈ s.committed)
    (hloading : ∀ c v n, s'.loading = some ⟨c, .read (some v) n⟩ → v ∈ s.committed) : s'.Inv where
  transactions t x hx := by
    have hok := hi.transactions t x (htransactions ▸ hx)
    exact ⟨hnext ▸ hok.lt, hstates ▸ hok.apart, hwriter ▸ hok.alone, hheap ▸ hok.pending, hok.shared,
      hheap ▸ hcommitted ▸ hok.unchanged, hcommitted ▸ hok.durable⟩
  pairs := htransactions ▸ hi.pairs
  db := hdb ▸ hcommitted ▸ hi.db
  preload := hcommitted ▸ hpreload
  loading := hcommitted ▸ hloading
  statesLt := hstates ▸ hnext ▸ hi.statesLt
  states := hstates ▸ hheap ▸ hcommitted ▸ hi.states
  writer := hwriter ▸ hcommitted ▸ hi.writer

/-- The writer that has the lock goes on. -/
theorem writer_inv {s : Site V} (hi : s.Inv) {w w' : Writer V} (hw : s.writer = some w)
    (hd : ∀ v, w' = .durable v → v ∈ s.committed) : { s with writer := some w' }.Inv := by
  refine { hi with transactions := fun t x hx => ?_, writer := fun v hv => hd v (by cases hv; rfl) }
  have hx := hi.transactions t x hx
  refine { hx with alone := fun hun => ?_ }
  rw [hx.alone hun] at hw
  cases hw

/-- The writer gives the lock back. -/
theorem noWriter_inv {s : Site V} (hi : s.Inv) : { s with writer := none }.Inv := by
  refine { hi with transactions := fun t x hx => ?_, writer := fun v hv => by cases hv }
  exact { hi.transactions t x hx with alone := fun _ => rfl }

/-- A transaction gets an object of its own. -/
theorem giveState_inv {s : Site V} (hi : s.Inv) {t : Nat} {x : Transaction V}
    (hx : s.transactions[t]? = some x) (hrest : x.atRest = true) (v : V) (changed : Bool)
    (hv : changed = false → v ∈ s.committed) :
    ((s.alloc v).setTransaction t { x with state := some s.next, changed := changed }).Inv := by
  have hok := hi.transactions t x hx
  have hrest' := Transaction.atRest_iff.mp hrest
  refine setTransaction_inv (alloc_inv hi v) hx ?_ ?_
  · refine ⟨?_, ?_, hok.alone, fun h1 h2 => (hrest'.elim h1 h2).elim,
      fun h1 h2 => (hrest'.elim h1 h2).elim, ?_, ?_⟩
    · rintro r ⟨⟩
      exact Nat.lt_succ_self _
    · rintro - r ⟨⟩ hcached
      exact absurd (hi.statesLt _ hcached) (Nat.lt_irrefl _)
    · rintro - hc r ⟨⟩
      rw [alloc_heap_self]
      exact hv hc
    · intro hd
      have hd' : x.stage = .durable := hd
      rw [hd'] at hrest'
      rcases hrest' with h | h <;> cases h
  · intro u z htu hz
    have hlt := (hi.transactions u z hz).lt
    have hpair := pairs_of hi hx u z htu hz
    refine ⟨⟨?_, hpair.1.exclusive⟩, ⟨?_, hpair.2.exclusive⟩⟩
    · rintro r ⟨⟩ hzr
      exact absurd (hlt _ hzr) (Nat.lt_irrefl _)
    · rintro r hzr ⟨⟩
      exact absurd (hlt _ hzr) (Nat.lt_irrefl _)

/-- A new object with a committed value is cached. -/
theorem cache_inv {s : Site V} (hi : s.Inv) {v : V} (hv : v ∈ s.committed) :
    { s.alloc v with states := some s.next }.Inv := by
  have hi' := alloc_inv hi v
  refine { hi' with transactions := fun t x hx => ?_, statesLt := ?_, states := ?_ }
  · have hok := hi'.transactions t x hx
    refine { hok with apart := fun _ r hr hc => ?_ }
    cases hc
    exact absurd ((hi.transactions t x hx).lt _ hr) (Nat.lt_irrefl _)
  · rintro r ⟨⟩
    exact Nat.lt_succ_self _
  · rintro r ⟨⟩
    show (s.alloc v).heap s.next ∈ s.committed
    rw [alloc_heap_self]
    exact hv

/-- An object that no transaction can change any more is cached. -/
theorem cacheObject_inv {s : Site V} (hi : s.Inv) {r : Nat} (hlt : r < s.next)
    (hv : s.heap r ∈ s.committed)
    (hfree : ∀ (t : Nat) x, s.transactions[t]? = some x → x.stage ≠ .finished → x.state ≠ some r) :
    { s with states := some r }.Inv := by
  refine { hi with transactions := fun t x hx => ?_, statesLt := ?_, states := ?_ }
  · refine { hi.transactions t x hx with apart := fun hun r' hr' hc => ?_ }
    cases hc
    exact hfree t x hx hun hr'
  · rintro r' ⟨⟩
    exact hlt
  · rintro r' ⟨⟩
    exact hv

/-- The database applies a write. -/
theorem apply_inv {s : Site V} (hi : s.Inv) (v : V) : (s.apply v).Inv := by
  have hmono : ∀ u, u ∈ s.committed → u ∈ (s.apply v).committed :=
    fun u hu => List.mem_append_left _ hu
  refine ⟨fun t x hx => ?_, hi.pairs, ?_, ?_, ?_, hi.statesLt, ?_, ?_⟩
  · have hok := hi.transactions t x hx
    exact ⟨hok.lt, hok.apart, hok.alone, hok.pending, hok.shared,
      fun h1 h2 r hr => hmono _ (hok.unchanged h1 h2 r hr),
      fun h1 u hu => hmono _ (hok.durable h1 u hu)⟩
  · rintro u ⟨⟩
    exact List.mem_append_right _ (List.mem_singleton_self _)
  · exact fun u n h => hmono _ (hi.preload u n h)
  · exact fun c u n h => hmono _ (hi.loading c u n h)
  · exact fun r h => hmono _ (hi.states r h)
  · exact fun u h => hmono _ (hi.writer u h)

/-- A transaction goes on with the object it has. -/
theorem goesOn_inv {s : Site V} (hi : s.Inv) {t : Nat} {x y : Transaction V}
    (hx : s.transactions[t]? = some x) (hy : s.TransactionOk y) (hstate : y.state = x.state)
    (hmode : y.mode = x.mode) (hun : x.stage ≠ .finished) : (s.setTransaction t y).Inv := by
  refine setTransaction_inv hi hx hy fun u z htu hz => ?_
  exact PairOk.keep (pairs_of hi hx u z htu hz) hstate (fun _ h2 => ⟨hun, hmode ▸ h2⟩)
    (fun h => absurd h hun)

/-- A transaction finishes. -/
theorem finish_inv {s : Site V} (hi : s.Inv) {t : Nat} {x : Transaction V}
    (hx : s.transactions[t]? = some x) :
    (s.setTransaction t { x with stage := .finished }).Inv := by
  refine setTransaction_inv hi hx ?_ fun u z htu hz => ?_
  · exact ⟨(hi.transactions t x hx).lt, fun h => absurd rfl h, fun h => absurd rfl h,
      fun _ h => absurd rfl h, fun _ h => absurd rfl h, fun h => absurd rfl h,
      fun h => by cases h⟩
  · exact PairOk.keep (pairs_of hi hx u z htu hz) rfl (fun h => absurd rfl h) (fun _ => rfl)

/-- What a durable transaction has in memory was committed. -/
theorem durable_committed {s : Site V} {x : Transaction V} (hx : s.TransactionOk x)
    (hd : x.stage = .durable) {r : Nat} (hr : x.state = some r) : s.heap r ∈ s.committed := by
  have hrun : x.stage ≠ .running := by rw [hd]; exact fun h => by cases h
  have hfin : x.stage ≠ .finished := by rw [hd]; exact fun h => by cases h
  cases hmode : x.mode with
  | exclusive =>
    have hp := hx.pending hrun hfin r hr
    rw [if_pos hmode] at hp
    exact hx.durable hd _ hp
  | shared => exact hx.unchanged hfin (hx.shared hrun hfin hmode).1 r hr

theorem canLoad_writer {s : Site V} (h : s.canLoad .writer = true) :
    ∃ b, s.writer = some (.running b) := by
  simp only [canLoad, Bool.and_eq_true] at h
  cases hw : s.writer with
  | none => simp [hw] at h
  | some w =>
    cases w with
    | running b => exact ⟨b, rfl⟩
    | storing v => simp [hw] at h
    | durable v => simp [hw] at h

theorem canLoad_transaction {s : Site V} {t : Nat} (h : s.canLoad (.transaction t) = true) :
    ∃ x, s.transactions[t]? = some x ∧ x.stage = .running := by
  simp only [canLoad] at h
  cases hx : s.transactions[t]? with
  | none => simp [hx] at h
  | some x => exact ⟨x, rfl, by simpa [hx] using h⟩

/-- What `_load` does, by where it finds the state. -/
theorem load_some {s s' : Site V} {c : Caller} (h : s.load c = some s') :
    s.canLoad c = true ∧ (s' = s ∨ (∃ r, s.states = some r ∧ s.loadHit r c = some s') ∨
      s.states = none ∧ s.loading = none ∧
        s' = { s with preload := none, loading := some ⟨c, s.preload.getD .sent⟩ }) := by
  unfold load at h
  split at h
  next hc =>
    refine ⟨hc, ?_⟩
    split at h
    next =>
      cases h
      exact .inl rfl
    next =>
      split at h
      next r hr => exact .inr (.inl ⟨r, hr, h⟩)
      next hs hl =>
        cases h
        exact .inr (.inr ⟨hs, hl, rfl⟩)
      next => cases h
  next => cases h

theorem loadHit_inv {s s' : Site V} {r : Nat} {c : Caller} (hi : s.Inv) (hc : s.canLoad c = true)
    (hr : s.states = some r) (h : s.loadHit r c = some s') : s'.Inv := by
  cases c with
  | reader =>
    cases h
    exact hi
  | streaming q =>
    simp only [loadHit] at h
    split at h
    · cases h
      exact hi.of_same rfl rfl rfl rfl rfl rfl rfl hi.preload hi.loading
    · cases h
  | writer =>
    cases h
    obtain ⟨b, hw⟩ := canLoad_writer hc
    exact writer_inv hi hw (fun v hv => by cases hv)
  | transaction t =>
    obtain ⟨x, hx, hrun⟩ := canLoad_transaction hc
    simp only [loadHit, hx] at h
    cases h
    exact giveState_inv hi hx (Transaction.atRest_iff.mpr (.inl hrun)) _ x.changed
      (fun _ => hi.states r hr)

theorem load_inv {s s' : Site V} {c : Caller} (hi : s.Inv) (h : s.load c = some s') : s'.Inv := by
  obtain ⟨hc, rfl | ⟨r, hr, hhit⟩ | ⟨-, -, rfl⟩⟩ := load_some h
  · exact hi
  · exact loadHit_inv hi hc hr hhit
  · refine hi.of_same rfl rfl rfl rfl rfl rfl rfl (fun v n h => by cases h) (fun c' v n h => ?_)
    cases hp : s.preload with
    | none =>
      rw [hp] at h
      cases h
    | some f =>
      rw [hp] at h
      cases h
      exact hi.preload v n hp

/-- The load returns what it has read, to whoever asked. -/
theorem install_some {s s' : Site V} (h : s.install = some s') :
    ∃ c v n, s.loading = some ⟨c, .read (some v) n⟩ ∧
      ((∃ rs w, (∀ t, c ≠ .transaction t) ∧
        (w = s.writer ∨ ∃ b, s.writer = some (.running b) ∧ w = some (.running true)) ∧
        s' = { ({ s.alloc v with states := some s.next } : Site V) with
          loading := none, readers := rs, writer := w }) ∨
      ∃ t x rs, c = .transaction t ∧ s.transactions[t]? = some x ∧
        s' = { (({ s.alloc v with states := some s.next } : Site V).alloc v).setTransaction t
          { x with state := some (s.next + 1) } with loading := none, readers := rs }) := by
  unfold install at h
  split at h
  next c v n hl =>
    refine ⟨c, v, n, hl, ?_⟩
    cases c with
    | reader =>
      cases h
      exact .inl ⟨_, s.writer, nofun, .inl rfl, rfl⟩
    | streaming q =>
      simp only at h
      split at h
      next x hx =>
        cases h
        exact .inl ⟨_, s.writer, nofun, .inl rfl, rfl⟩
      next => cases h
    | writer =>
      simp only at h
      split at h
      next b hw =>
        cases h
        exact .inl ⟨_, _, nofun, .inr ⟨b, hw, rfl⟩, rfl⟩
      next => cases h
    | transaction t =>
      simp only at h
      split at h
      next x hx =>
        cases h
        exact .inr ⟨t, x, _, rfl, hx, rfl⟩
      next => cases h
  next => cases h

theorem atRest_of_loader {s : Site V} {t : Nat} {f : Fetch V} {x : Transaction V}
    (h : s.loaderAtRest = true) (hl : s.loading = some ⟨.transaction t, f⟩)
    (hx : s.transactions[t]? = some x) : x.atRest = true := by
  simpa [loaderAtRest, hl, hx] using h

theorem install_inv {s s' : Site V} (hi : s.Inv) (hok : s.loaderAtRest = true)
    (h : s.install = some s') : s'.Inv := by
  obtain ⟨c, v, n, hl, ⟨rs, w, -, hw, rfl⟩ | ⟨t, x, rs, rfl, hx, rfl⟩⟩ := install_some h
  · have hi' := cache_inv hi (hi.loading c v n hl)
    have hi'' : ({ ({ s.alloc v with states := some s.next } : Site V) with
        loading := none, readers := rs } : Site V).Inv :=
      hi'.of_same rfl rfl rfl rfl rfl rfl rfl hi'.preload (fun c v n h => by cases h)
    rcases hw with rfl | ⟨b, hw, rfl⟩
    · exact hi''
    · exact writer_inv hi'' hw (fun v h => by cases h)
  · have hi' := giveState_inv (cache_inv hi (hi.loading _ v n hl)) hx (atRest_of_loader hok hl hx) v
      x.changed (fun _ => hi.loading _ v n hl)
    exact hi'.of_same rfl rfl rfl rfl rfl rfl rfl hi'.preload (fun c v n h => by cases h)

theorem notFound_inv [Inhabited V] {s s' : Site V} (hi : s.Inv) (hok : s.loaderAtRest = true)
    (h : s.notFound = some s') : s'.Inv := by
  have hi' : ({ s with loading := none } : Site V).Inv :=
    hi.of_same rfl rfl rfl rfl rfl rfl rfl hi.preload (fun c v n h => by cases h)
  unfold notFound at h
  split at h
  next c n hl =>
    cases c with
    | reader =>
      cases h
      exact hi'
    | streaming q =>
      cases h
      exact hi'
    | writer =>
      simp only at h
      split at h
      next b hw =>
        cases h
        exact writer_inv hi' hw (fun v h => by cases h)
      next => cases h
    | transaction t =>
      simp only at h
      split at h
      next x hx =>
        cases h
        exact giveState_inv hi' hx (atRest_of_loader hok hl hx) default true (fun h => by cases h)
      next => cases h
  next => cases h

/-- What a transaction that is at rest changes is referenced by nobody else. -/
theorem modify_inv {s : Site V} (hi : s.Inv) {t r : Nat} {x : Transaction V}
    (hx : s.transactions[t]? = some x) (hrest : x.atRest = true) (hr : x.state = some r)
    (hcache : s.states ≠ some r) (v : V) :
    ({ s with heap := Function.update s.heap r v }.setTransaction t
      { x with changed := true }).Inv := by
  have hok := hi.transactions t x hx
  have hrest' := Transaction.atRest_iff.mp hrest
  have hchanged : s.TransactionOk { x with changed := true } :=
    ⟨hok.lt, hok.apart, hok.alone, fun h1 h2 => (hrest'.elim h1 h2).elim,
      fun h1 h2 => (hrest'.elim h1 h2).elim, nofun, hok.durable⟩
  have hother : ∀ (u : Nat) z r', t ≠ u → s.transactions[u]? = some z → z.state = some r' → r' ≠ r := by
    rintro u z r' htu hz hzr rfl
    exact (hi.pairs t u x z htu hx hz).distinct r' hr hzr
  refine ⟨fun u z hz => ?_, fun u w z z' huw hz hz' => ?_, hi.db, hi.preload, hi.loading,
    hi.statesLt, fun r' hr' => ?_, hi.writer⟩
  · have hz' : (s.setTransaction t { x with changed := true }).transactions[u]? = some z := hz
    rw [setTransaction_getElem? hx] at hz'
    split at hz'
    next htu =>
      cases hz'
      exact ⟨hchanged.lt, hchanged.apart, hchanged.alone, fun h1 h2 => (hrest'.elim h1 h2).elim,
        hchanged.shared, nofun, hchanged.durable⟩
    next htu =>
      have hzok := hi.transactions u z hz'
      refine ⟨hzok.lt, hzok.apart, hzok.alone, fun h1 h2 r' hr' => ?_, hzok.shared,
        fun h1 h2 r' hr' => ?_, hzok.durable⟩
      · rw [hzok.pending h1 h2 r' hr']
        show (if z.mode = .exclusive then some (s.heap r') else none) =
          if z.mode = .exclusive then some (Function.update s.heap r v r') else none
        rw [Function.update_of_ne (hother u z r' htu hz' hr')]
      · show Function.update s.heap r v r' ∈ s.committed
        rw [Function.update_of_ne (hother u z r' htu hz' hr')]
        exact hzok.unchanged h1 h2 r' hr'
  · have hpairs := (setTransaction_inv hi hx hchanged fun u z htu hz =>
      PairOk.keep (pairs_of hi hx u z htu hz) rfl (fun h1 h2 => ⟨h1, h2⟩) (fun h => h)).pairs
    exact hpairs u w z z' huw hz hz'
  · show Function.update s.heap r v r' ∈ s.committed
    rw [Function.update_of_ne (by rintro rfl; exact hcache hr')]
    exact hi.states r' hr'

theorem settled_modify {s : Site V} (hi : s.Inv) {t r : Nat} {v : V} {x : Transaction V}
    (hok : s.Settled (.modify t v)) (hx : s.transactions[t]? = some x) (hr : x.state = some r) :
    x.atRest = true ∧ s.states ≠ some r := by
  simp only [Settled, hx, Option.all_some, Bool.and_eq_true, decide_eq_true_eq] at hok
  refine ⟨hok.1, fun hcache => ?_⟩
  by_cases hfin : x.stage = .finished
  · exact hok.2 hfin (hr.trans hcache.symm)
  · exact (hi.transactions t x hx).apart hfin r hr hcache

theorem prepare_inv {s s' : Site V} (hi : s.Inv) {t : Nat} {x : Transaction V}
    (hx : s.transactions[t]? = some x) (h : s.prepare t x = some s') : s'.Inv := by
  unfold prepare at h
  split at h
  next hguard =>
    obtain ⟨hrun, hchanged⟩ := hguard
    cases h
    have hok := hi.transactions t x hx
    have hun : x.stage ≠ .finished := by rw [hrun]; exact fun h => by cases h
    refine goesOn_inv hi hx ⟨hok.lt, fun _ => hok.apart hun, fun _ => hok.alone hun, ?_, ?_,
      fun _ => hok.unchanged hun, fun h => by cases h⟩ rfl rfl hun
    · intro _ _ r hr
      have hr' : x.state = some r := hr
      simp [hr']
    · intro _ _ hmode
      have hmode' : x.mode = .shared := hmode
      refine ⟨?_, by simp [hmode']⟩
      by_contra hc
      have hex := hchanged (by simpa using hc)
      rw [hmode'] at hex
      cases hex
  next => cases h

/-- A transaction moves on to another stage past prepare. -/
theorem stage_inv {s : Site V} (hi : s.Inv) {t : Nat} {x : Transaction V}
    (hx : s.transactions[t]? = some x) (hrun : x.stage ≠ .running) (hun : x.stage ≠ .finished)
    {stage : Stage} (hd : stage = .durable → ∀ v, x.pending = some v → v ∈ s.committed) :
    (s.setTransaction t { x with stage := stage }).Inv := by
  have hok := hi.transactions t x hx
  exact goesOn_inv hi hx ⟨hok.lt, fun _ => hok.apart hun, fun _ => hok.alone hun,
    fun _ _ => hok.pending hrun hun, fun _ _ => hok.shared hrun hun, fun _ => hok.unchanged hun,
    hd⟩ rfl rfl hun

theorem handleCommit_inv {s s' : Site V} (hi : s.Inv) {t : Nat} {x : Transaction V}
    (hx : s.transactions[t]? = some x) (h : s.handleCommit t x = some s') : s'.Inv := by
  unfold handleCommit at h
  split at h
  next hstage =>
    have hrun : x.stage ≠ .running := by rw [hstage]; exact fun h => by cases h
    have hun : x.stage ≠ .finished := by rw [hstage]; exact fun h => by cases h
    split at h
    next v hp =>
      cases h
      refine stage_inv (apply_inv hi v) hx hrun hun (fun _ u hu => ?_)
      rw [hp] at hu
      cases hu
      exact List.mem_append_right _ (List.mem_singleton_self _)
    next hp =>
      cases h
      refine stage_inv hi hx hrun hun (fun _ u hu => ?_)
      rw [hp] at hu
      cases hu
  next => cases h

theorem commitReturns_inv {s s' : Site V} (hi : s.Inv) {t : Nat} {x : Transaction V}
    (hx : s.transactions[t]? = some x) (h : s.commitReturns t x = some s') : s'.Inv := by
  have hfin := finish_inv hi hx
  unfold commitReturns at h
  split at h
  next hstage =>
    split at h
    next r hr =>
      cases h
      have hok := hi.transactions t x hx
      have hi' := cacheObject_inv hfin (hok.lt r hr) (durable_committed hok hstage hr)
        (fun u z hz hun hzr => ?_)
      · exact hi'.of_same rfl rfl rfl rfl rfl rfl rfl hi'.preload hi'.loading
      · rw [setTransaction_getElem? hx] at hz
        split at hz
        next =>
          cases hz
          exact hun rfl
        next htu => exact (hi.pairs t u x z htu hx hz).distinct r hr hzr
    next =>
      split at h
      next =>
        cases h
        exact hfin
      next => cases h
  next => cases h

theorem join_inv {s : Site V} (hi : s.Inv) {mode : Mode} (hwriter : s.writer = none)
    (hshared : mode = .shared → ∀ x ∈ s.holders, x.mode = .shared)
    (hexclusive : mode = .exclusive → s.holders.isEmpty = true) :
    ({ s with transactions := s.transactions ++ [⟨mode, none, false, .running, none⟩] } :
      Site V).Inv := by
  -- an index of the longer list is an old one, or the new transaction's
  have hget : ∀ (t : Nat) x,
      (s.transactions ++ [⟨mode, none, false, .running, none⟩])[t]? = some x →
      s.transactions[t]? = some x ∨
        t = s.transactions.length ∧ x = ⟨mode, none, false, .running, none⟩ := by
    intro t x hx
    rw [List.getElem?_append] at hx
    split at hx
    next => exact .inl hx
    next hge =>
      right
      obtain ⟨hlt, hget⟩ := List.getElem?_eq_some_iff.mp hx
      simp only [List.length_singleton] at hlt
      refine ⟨by omega, ?_⟩
      rw [← hget]
      simp
  have hmode : ∀ (u : Nat) z, s.transactions[u]? = some z → z.stage ≠ .finished →
      z.mode = .exclusive → False := by
    intro u z hz hun hex
    cases mode with
    | shared =>
      have hmem : z ∈ s.holders :=
        List.mem_filter.mpr ⟨List.mem_of_getElem? hz, by simpa using hun⟩
      rw [hshared rfl z hmem] at hex
      cases hex
    | exclusive => exact hun (finished_of_isEmpty (hexclusive rfl) hz)
  refine ⟨fun t x hx => ?_, fun t u x y htu hx hy => ?_, hi.db, hi.preload, hi.loading, hi.statesLt,
    hi.states, hi.writer⟩
  · rcases hget t x hx with hold | ⟨-, rfl⟩
    · have hok := hi.transactions t x hold
      exact ⟨hok.lt, hok.apart, hok.alone, hok.pending, hok.shared, hok.unchanged, hok.durable⟩
    · exact ⟨nofun, nofun, fun _ => hwriter, fun h => absurd rfl h, fun h => absurd rfl h,
        nofun, nofun⟩
  · rcases hget t x hx with hx' | ⟨ht, rfl⟩
    · rcases hget u y hy with hy' | ⟨-, rfl⟩
      · exact hi.pairs t u x y htu hx' hy'
      · exact ⟨nofun, fun h1 h2 => (hmode t x hx' h1 h2).elim⟩
    · rcases hget u y hy with hy' | ⟨hu, rfl⟩
      · refine ⟨nofun, fun _ hex => ?_⟩
        exact finished_of_isEmpty (hexclusive hex) hy'
      · exact absurd (ht.trans hu.symm) htu

theorem readPreload_step_inv [Inhabited V] {s s' : Site V} (hi : s.Inv)
    (hs : s.step .readPreload = some s') : s'.Inv := by
  unfold step at hs
  dsimp only at hs
  split at hs <;> cases hs
  refine hi.of_same rfl rfl rfl rfl rfl rfl rfl (fun v n h => hi.db v ?_) hi.loading
  simp only [Option.some.injEq, Fetch.read.injEq] at h
  exact h.1

theorem readLoad_step_inv [Inhabited V] {s s' : Site V} (hi : s.Inv)
    (hs : s.step .readLoad = some s') : s'.Inv := by
  unfold step at hs
  dsimp only at hs
  split at hs <;> cases hs
  refine hi.of_same rfl rfl rfl rfl rfl rfl rfl hi.preload (fun c v n h => hi.db v ?_)
  simp only [Option.some.injEq, Load.mk.injEq, Fetch.read.injEq] at h
  exact h.2.1

theorem acquire_step_inv [Inhabited V] {s s' : Site V} (hi : s.Inv)
    (hs : s.step .acquire = some s') : s'.Inv := by
  unfold step at hs
  dsimp only at hs
  split at hs
  next hfree =>
    cases hs
    refine { hi with transactions := fun t x hx => ?_, writer := fun v h => (by cases h) }
    have hfin := finished_of_isEmpty hfree.2 hx
    exact { hi.transactions t x hx with alone := fun h => absurd hfin h }
  next => cases hs

theorem store_step_inv [Inhabited V] {s s' : Site V} {v : V} (hi : s.Inv)
    (hs : s.step (.store v) = some s') : s'.Inv := by
  unfold step at hs
  dsimp only at hs
  split at hs
  next hw =>
    cases hs
    exact writer_inv hi hw (fun v h => by cases h)
  next => cases hs

theorem handleStore_step_inv [Inhabited V] {s s' : Site V} (hi : s.Inv)
    (hs : s.step .handleStore = some s') : s'.Inv := by
  unfold step at hs
  dsimp only at hs
  split at hs
  next v hw =>
    cases hs
    refine writer_inv (apply_inv hi v) hw (fun u h => ?_)
    cases h
    exact List.mem_append_right _ (List.mem_singleton_self _)
  next => cases hs

theorem storeReturns_step_inv [Inhabited V] {s s' : Site V} (hi : s.Inv)
    (hs : s.step .storeReturns = some s') : s'.Inv := by
  unfold step at hs
  dsimp only at hs
  split at hs
  next v hw =>
    cases hs
    have hi' := cache_inv hi (hi.writer v hw)
    exact noWriter_inv (hi'.of_same rfl rfl rfl rfl rfl rfl rfl hi'.preload hi'.loading)
  next => cases hs

theorem writerLeaves_step_inv [Inhabited V] {s s' : Site V} (hi : s.Inv)
    (hs : s.step .writerLeaves = some s') : s'.Inv := by
  unfold step at hs
  dsimp only at hs
  split at hs
  · split at hs <;> cases hs
    exact noWriter_inv hi
  · cases hs
    exact noWriter_inv hi
  · cases hs

theorem writerCancelled_step_inv [Inhabited V] {s s' : Site V} (hi : s.Inv)
    (hs : s.step .writerCancelled = some s') : s'.Inv := by
  unfold step at hs
  dsimp only at hs
  split at hs <;> cases hs
  · have hi' := noWriter_inv hi
    exact hi'.of_same rfl rfl rfl rfl rfl rfl rfl hi'.preload hi'.loading
  · exact noWriter_inv hi

theorem handleOrphan_step_inv [Inhabited V] {s s' : Site V} {i : Nat} (hi : s.Inv)
    (hs : s.step (.handleOrphan i) = some s') : s'.Inv := by
  unfold step at hs
  dsimp only at hs
  split at hs
  next v hv =>
    cases hs
    have hi' := apply_inv hi v
    exact hi'.of_same rfl rfl rfl rfl rfl rfl rfl hi'.preload hi'.loading
  next => cases hs

theorem join_step_inv [Inhabited V] {s s' : Site V} {mode : Mode} (hi : s.Inv)
    (hs : s.step (.join mode) = some s') : s'.Inv := by
  simp only [step, Option.ite_none_right_eq_some, Option.some.injEq] at hs
  obtain ⟨⟨hwriter, hmode⟩, rfl⟩ := hs
  refine join_inv hi (Option.isNone_iff_eq_none.mp hwriter) (fun h => ?_) (fun h => ?_)
  · rwa [if_pos h] at hmode
  · rwa [if_neg (by rw [h]; exact fun h => by cases h)] at hmode

theorem upgrade_step_inv [Inhabited V] {s s' : Site V} {t : Nat} (hi : s.Inv)
    (hs : s.step (.upgrade t) = some s') : s'.Inv := by
  obtain ⟨x, hx, hf⟩ := onTransaction_some hs
  split at hf
  next hguard =>
    cases hf
    have hx' := hi.transactions t x hx
    refine setTransaction_inv hi hx ⟨hx'.lt, hx'.apart, hx'.alone, fun h => absurd hguard.1 h,
      fun h => absurd hguard.1 h, hx'.unchanged, hx'.durable⟩ (fun u z htu hz => ?_)
    have hfin := finished_of_othersFinished hguard.2 htu hz
    have hpair := pairs_of hi hx u z htu hz
    exact ⟨⟨hpair.1.distinct, fun _ _ => hfin⟩, ⟨hpair.2.distinct, fun h => absurd hfin h⟩⟩
  next => cases hf

theorem modify_step_inv [Inhabited V] {s s' : Site V} {t : Nat} {v : V} (hi : s.Inv)
    (hok : s.Settled (.modify t v)) (hs : s.step (.modify t v) = some s') : s'.Inv := by
  obtain ⟨x, hx, hf⟩ := onTransaction_some hs
  split at hf
  next r hr =>
    cases hf
    obtain ⟨hrest, hcache⟩ := settled_modify hi hok hx hr
    exact modify_inv hi hx hrest hr hcache v
  next => cases hf

theorem commit_step_inv [Inhabited V] {s s' : Site V} {t : Nat} (hi : s.Inv)
    (hs : s.step (.commit t) = some s') : s'.Inv := by
  obtain ⟨x, hx, hf⟩ := onTransaction_some hs
  split at hf
  next hstage =>
    cases hf
    refine stage_inv hi hx ?_ ?_ (fun h => by cases h)
    · rw [hstage]
      exact fun h => by cases h
    · rw [hstage]
      exact fun h => by cases h
  next => cases hf

theorem next_step_inv [Inhabited V] {s s' : Site V} {q : Nat} (hi : s.Inv)
    (hs : s.step (.next q) = some s') : s'.Inv := by
  simp only [step, nextState] at hs
  split at hs
  next =>
    split at hs
    next =>
      cases hs
      exact hi.of_same rfl rfl rfl rfl rfl rfl rfl hi.preload hi.loading
    next =>
      split at hs <;> cases hs
      exact hi.of_same rfl rfl rfl rfl rfl rfl rfl hi.preload hi.loading
  next => cases hs

theorem step_inv [Inhabited V] {s s' : Site V} {a : Action V} (hi : s.Inv) (hok : s.Settled a)
    (hs : s.step a = some s') : s'.Inv := by
  cases a with
  | preload =>
    unfold step at hs
    dsimp only at hs
    split at hs <;> cases hs
    exact hi.of_same rfl rfl rfl rfl rfl rfl rfl (fun v n h => by cases h) hi.loading
  | readPreload => exact readPreload_step_inv hi hs
  | preloadFails =>
    unfold step at hs
    dsimp only at hs
    split at hs <;> cases hs
    exact hi.of_same rfl rfl rfl rfl rfl rfl rfl (fun v n h => by cases h) hi.loading
  | preloadExpires =>
    cases hs
    exact hi.of_same rfl rfl rfl rfl rfl rfl rfl (fun v n h => by cases h) hi.loading
  | load c => exact load_inv hi hs
  | readLoad => exact readLoad_step_inv hi hs
  | loadRetries =>
    unfold step at hs
    dsimp only at hs
    split at hs <;> cases hs
    exact hi.of_same rfl rfl rfl rfl rfl rfl rfl hi.preload (fun c v n h => by cases h)
  | install => exact install_inv hi hok hs
  | notFound => exact notFound_inv hi hok hs
  | loadFails =>
    unfold step at hs
    dsimp only at hs
    split at hs <;> cases hs
    exact hi.of_same rfl rfl rfl rfl rfl rfl rfl hi.preload (fun c v n h => by cases h)
  | acquire => exact acquire_step_inv hi hs
  | store v => exact store_step_inv hi hs
  | handleStore => exact handleStore_step_inv hi hs
  | storeReturns => exact storeReturns_step_inv hi hs
  | writerLeaves => exact writerLeaves_step_inv hi hs
  | writerCancelled => exact writerCancelled_step_inv hi hs
  | handleOrphan i => exact handleOrphan_step_inv hi hs
  | join mode => exact join_step_inv hi hs
  | upgrade t => exact upgrade_step_inv hi hs
  | modify t v => exact modify_step_inv hi hok hs
  | prepare t =>
    obtain ⟨x, hx, hf⟩ := onTransaction_some hs
    exact prepare_inv hi hx hf
  | elide t =>
    obtain ⟨x, hx, hf⟩ := onTransaction_some hs
    split at hf <;> cases hf
    exact finish_inv hi hx
  | commit t => exact commit_step_inv hi hs
  | handleCommit t =>
    obtain ⟨x, hx, hf⟩ := onTransaction_some hs
    exact handleCommit_inv hi hx hf
  | commitReturns t =>
    obtain ⟨x, hx, hf⟩ := onTransaction_some hs
    exact commitReturns_inv hi hx hf
  | abort t =>
    obtain ⟨x, hx, hf⟩ := onTransaction_some hs
    split at hf <;> cases hf
    exact finish_inv hi hx
  | openReader =>
    cases hs
    exact hi.of_same rfl rfl rfl rfl rfl rfl rfl hi.preload hi.loading
  | next q => exact next_step_inv hi hs
  | closeReader q =>
    unfold step at hs
    dsimp only at hs
    split at hs <;> cases hs
    exact hi.of_same rfl rfl rfl rfl rfl rfl rfl hi.preload hi.loading

end Site

end Reboot.Txn.StateCache
