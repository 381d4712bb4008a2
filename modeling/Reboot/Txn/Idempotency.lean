import Mathlib.Logic.Function.Basic
import Reboot.Lib.Run

/-!
# One execution per idempotency key

The requests that carry one idempotency key, for one method of one state and in one workflow
scope, from the check for an earlier mutation to the store. The model follows the generated
`_{Method}` (`reboot/templates/reboot.py.j2`) and `check_for_idempotent_mutation`,
`IdempotentMutations`, `preload`, `writer`, `_store`, `Prepare`,
`transaction_participant_commit`, `transaction_participant_abort` and `_rollback`
(`reboot/aio/state_managers.py`).

The check comes before the state's lock, and nothing is checked again under it. It looks in
the bloom filter, then in the database, then in the mutations of the request's own
transaction. Only a transaction that is not nested first looks for a transaction in flight
that carries the key, and waits for one such; between that and its look into the filter it
awaits again.

`careful_once`: the effects of at most one request are stored, and all that return return
its response, as long as

* a check that finds nothing does so while no other request with the key is past its own
  check and unfinished (in the request's own transaction: has not completed);
* no request is cancelled while it waits for the database's answer to its store: the store
  may be handled, but the filter does not learn of it;
* the state's mutations are not read for the filter while a transaction recovered after a
  restart holds one with the key: its commit does not update a filter that is not there yet;
* nobody takes a response from a nested transaction that may still be rolled back, but that
  transaction's own calls.

`writers_race` is two writers that both find nothing.

Mirroring notes:
- A run starts with the server, which may have restarted: a mutation may be stored already,
  or a prepared transaction that made one may have been recovered (`Start`).
- A filter that has the key sends the check to the database. So does one that only seems to
  have it (`collides`).
- The loads that `preload` and the check itself start are one action, `readLoad`; its result
  is installed by a check. A workflow's own mutations are read the same way.
- A response of a call within a transaction only counts if that transaction is not aborted,
  and if no nested transaction around the call was rolled back.
- The other calls of a transaction are over when its coordinator prepares it.
-/

namespace Reboot.Txn.Idempotency

open Reboot.Lib

/-! ## The server -/

inductive Stage (R : Type)
  /-- not sent yet -/
  | idle
  | arrived
  /-- awaits a transaction in flight -/
  | waiting (t : Nat)
  /-- has looked for transactions in flight -/
  | scanned
  /-- an earlier mutation was found -/
  | found (response : R)
  /-- neither the filter nor the database has the key -/
  | missed
  /-- the check returned `None` -/
  | proceeding
  /-- a writer has the lock, a transaction is a participant -/
  | running
  /-- the store is with the database -/
  | storing (response : R)
  /-- the database has handled it -/
  | handled (response : R)
  /-- a transaction's method is done, the transaction is not -/
  | completed (response : R)
  | returned (response : R)
  | failed
  deriving DecidableEq

namespace Stage

variable {R : Type}

/-- The check found nothing, and the request is not done. -/
def pastCheck : Stage R → Bool
  | .missed | .proceeding | .running | .storing _ | .handled _ => true
  | _ => false

/-- The method is about to be executed, or is being executed. -/
def executing : Stage R → Bool
  | .proceeding | .running => true
  | _ => false

/-- The request waits for the database's answer to its store. -/
def atDatabase : Stage R → Bool
  | .storing _ | .handled _ => true
  | _ => false

def inFlight : Stage R → Bool
  | .idle | .completed _ | .returned _ | .failed => false
  | _ => true

end Stage

structure Request (R : Type) where
  /-- the transaction it is in -/
  root : Option Nat
  /-- a transaction method that is not nested -/
  isRoot : Bool
  /-- the nested transactions it is in, innermost first -/
  path : List Nat
  stage : Stage R
  /-- one of those was rolled back -/
  undone : Bool
  deriving DecidableEq

/-- A `Transaction`, at this state. -/
structure Participant (R : Type) where
  /-- its `idempotency_key` is the key -/
  ownKey : Bool
  /-- what `idempotent_mutations` has for the key -/
  mutation : Option R
  /-- the nested transactions that own the state, with whether there was a mutation before -/
  snapshots : List (Nat × Bool)
  locked : Bool
  prepared : Bool
  /-- the database has handled the commit -/
  committing : Bool
  /-- by `from_sidecar` -/
  recovered : Bool
  deriving DecidableEq

structure Server (R : Type) where
  requests : Nat → Request R
  next : Nat
  /-- the keys of `_participant_transactions` -/
  participants : List Nat
  txn : Nat → Participant R
  /-- the coordinator's decision -/
  outcome : Nat → Option Bool
  /-- the writer that holds the lock -/
  writer : Option Nat
  /-- stores the database has not handled yet -/
  stores : List (Nat × R)
  /-- responses that are stored, with their effects -/
  stored : List R
  /-- whether the filter has the key, once there is one -/
  filter : Option Bool
  /-- what was read for the filter -/
  load : Option Bool

/-- What the server finds when it starts. -/
inductive Start (R : Type)
  | empty
  | stored (response : R)
  | prepared (t : Nat) (response : R)
  deriving DecidableEq

inductive Kind
  | writer
  /-- a writer or a nested transaction, within a transaction -/
  | call (t : Nat) (path : List Nat)
  | transaction (t : Nat)
  deriving DecidableEq

inductive Action (R : Type)
  | arrive (kind : Kind)
  | scan (r : Nat)
  | wake (r : Nat)
  | readLoad
  | install (r : Nat)
  | lookup (r : Nat) (collides : Bool)
  | conclude (r : Nat)
  /-- a writer gets the lock -/
  | acquire (r : Nat)
  /-- a call gets to the transaction it is in -/
  | join (r : Nat)
  /-- which gets the lock -/
  | lock (t : Nat)
  | store (r : Nat) (response : R)
  | handle (r : Nat) (response : R)
  /-- the database answers with an error -/
  | refuse (r : Nat) (response : R)
  | record (r : Nat)
  | complete (r : Nat) (response : R)
  | reply (r : Nat)
  /-- an error, or a cancellation -/
  | fail (r : Nat)
  | claim (t n : Nat)
  | relinquish (t n : Nat) (aborted : Bool)
  | prepare (t : Nat)
  | decide (t : Nat) (commit : Bool)
  | databaseCommit (t : Nat)
  | commit (t : Nat)
  | abort (t : Nat)
  deriving DecidableEq

namespace Server

variable {R : Type}

def joined (ownKey : Bool) : Participant R where
  ownKey := ownKey
  mutation := none
  snapshots := []
  locked := false
  prepared := false
  committing := false
  recovered := false

/-- `Transaction.from_sidecar`, for a prepared transaction. -/
def fromSidecar (response : R) : Participant R where
  ownKey := false
  mutation := some response
  snapshots := []
  locked := true
  prepared := true
  committing := false
  recovered := true

def start (st : Start R) : Server R where
  requests := fun _ => ⟨none, false, [], .idle, false⟩
  next := 0
  participants := match st with
    | .prepared t _ => [t]
    | _ => []
  txn := match st with
    | .prepared _ x => fun _ => fromSidecar x
    | _ => fun _ => joined false
  outcome := fun _ => none
  writer := none
  stores := []
  stored := match st with
    | .stored x => [x]
    | _ => []
  filter := none
  load := none

def setStage (s : Server R) (r : Nat) (stage : Stage R) : Server R :=
  { s with requests := Function.update s.requests r { s.requests r with stage := stage } }

def setTxn (s : Server R) (t : Nat) (p : Participant R) : Server R :=
  { s with txn := Function.update s.txn t p }

/-- The lock is released when a writer is done with it. -/
def release (s : Server R) (r : Nat) : Server R :=
  { s with writer := if s.writer = some r then none else s.writer }

/-- No request of the transaction is under way. -/
def quiet (s : Server R) (t : Nat) : Prop :=
  ∀ r < s.next, (s.requests r).root = some t → (s.requests r).stage.inFlight = false

instance (s : Server R) (t : Nat) : Decidable (s.quiet t) := Nat.decidableBallLT _ _

def arrive (s : Server R) (kind : Kind) : Option (Server R) :=
  let add (root : Option Nat) (isRoot : Bool) (path : List Nat) : Option (Server R) :=
    some { s with
      requests := Function.update s.requests s.next ⟨root, isRoot, path, .arrived, false⟩
      next := s.next + 1 }
  match kind with
  | .writer => add none false []
  | .call t path =>
    if s.outcome t = none ∧ ¬ (t ∈ s.participants ∧ (s.txn t).prepared) then
      add (some t) false path
    else none
  | .transaction t =>
    -- its id is new
    if s.outcome t = none ∧ t ∉ s.participants ∧
        ∀ r < s.next, (s.requests r).root ≠ some t then
      add (some t) true []
    else none

/-- A transaction in flight that carries the key. -/
def matching (s : Server R) : Option Nat :=
  s.participants.find? fun t => (s.txn t).ownKey || (s.txn t).mutation.isSome

def scan (s : Server R) (r : Nat) : Option (Server R) :=
  match (s.requests r).stage with
  | .arrived =>
    match (if (s.requests r).isRoot then s.matching else none) with
    | some t => some (s.setStage r (.waiting t))
    | none => some (s.setStage r .scanned)
  | _ => none

def wake (s : Server R) (r : Nat) : Option (Server R) :=
  match (s.requests r).stage with
  | .waiting t => if t ∈ s.participants then none else some (s.setStage r .scanned)
  | _ => none

/-- `IdempotentMutations.get`. -/
def get (s : Server R) (has collides : Bool) : Option R :=
  if has || collides then s.stored.head? else none

def lookup (s : Server R) (r : Nat) (collides : Bool) : Option (Server R) :=
  match (s.requests r).stage, s.filter with
  | .scanned, some has =>
    match s.get has collides with
    | some x => some (s.setStage r (.found x))
    | none => some (s.setStage r .missed)
  | _, _ => none

/-- What the request's own transaction has for the key. -/
def ownMutation (s : Server R) (r : Nat) : Option R :=
  match (s.requests r).root with
  | some t => if t ∈ s.participants then (s.txn t).mutation else none
  | none => none

def conclude (s : Server R) (r : Nat) : Option (Server R) :=
  match (s.requests r).stage with
  | .found x => some (s.setStage r (.returned x))
  | .missed =>
    match s.ownMutation r with
    | some x => some (s.setStage r (.returned x))
    | none => some (s.setStage r .proceeding)
  | _ => none

def acquire (s : Server R) (r : Nat) : Option (Server R) :=
  match (s.requests r).root, (s.requests r).stage with
  | none, .proceeding =>
    if s.writer = none ∧ ∀ t ∈ s.participants, (s.txn t).locked = false then
      some { s.setStage r .running with writer := some r }
    else none
  | _, _ => none

def join (s : Server R) (r : Nat) : Option (Server R) :=
  match (s.requests r).root, (s.requests r).stage with
  | some t, .proceeding =>
    let s' := s.setStage r .running
    some (if t ∈ s.participants then s'
      else { s'.setTxn t (joined (s.requests r).isRoot) with participants := t :: s.participants })
  | _, _ => none

def lock (s : Server R) (t : Nat) : Option (Server R) :=
  if t ∈ s.participants ∧ s.writer = none then
    some (s.setTxn t { s.txn t with locked := true })
  else none

def store (s : Server R) (r : Nat) (x : R) : Option (Server R) :=
  match (s.requests r).root, (s.requests r).stage with
  | none, .running => some { s.setStage r (.storing x) with stores := (r, x) :: s.stores }
  | _, _ => none

def handle [DecidableEq R] (s : Server R) (r : Nat) (x : R) : Option (Server R) :=
  if (r, x) ∈ s.stores then
    -- the request may have been cancelled in the meantime
    let s' := if (s.requests r).stage = .storing x then s.setStage r (.handled x) else s
    some { s' with stores := s.stores.erase (r, x), stored := x :: s.stored }
  else none

def refuse [DecidableEq R] (s : Server R) (r : Nat) (x : R) : Option (Server R) :=
  if (r, x) ∈ s.stores then
    let s' := if (s.requests r).stage = .storing x then (s.setStage r .failed).release r else s
    some { s' with stores := s.stores.erase (r, x) }
  else none

def record (s : Server R) (r : Nat) : Option (Server R) :=
  match (s.requests r).stage with
  | .handled x =>
    some { (s.setStage r (.returned x)).release r with filter := s.filter.map fun _ => true }
  | _ => none

/-- Within a transaction the effects, and the mutation with them, are kept with it. The nested
transactions around the call own the state by then. -/
def complete (s : Server R) (r : Nat) (x : R) : Option (Server R) :=
  match (s.requests r).root, (s.requests r).stage with
  | some t, .running =>
    if t ∈ s.participants ∧ (s.txn t).locked ∧
        (s.txn t).snapshots.map Prod.fst = (s.requests r).path then
      let stage := if (s.requests r).isRoot then .completed x else .returned x
      some ((s.setStage r stage).setTxn t { s.txn t with mutation := some x })
    else none
  | _, _ => none

/-- A transaction returns once it is decided. -/
def reply (s : Server R) (r : Nat) : Option (Server R) :=
  match (s.requests r).root, (s.requests r).stage with
  | some t, .completed x =>
    if s.outcome t = some true then some (s.setStage r (.returned x)) else none
  | _, _ => none

def fail (s : Server R) (r : Nat) : Option (Server R) :=
  match (s.requests r).stage with
  | .idle | .returned _ | .failed => none
  | _ => some ((s.setStage r .failed).release r)

def claim (s : Server R) (t n : Nat) : Option (Server R) :=
  if t ∈ s.participants ∧ (s.txn t).prepared = false then
    some (s.setTxn t { s.txn t with
      snapshots := (n, (s.txn t).mutation.isSome) :: (s.txn t).snapshots })
  else none

/-- The calls of a nested transaction are undone with it. -/
def undo (s : Server R) (t n : Nat) : Server R :=
  { s with
    requests := fun r =>
      if (s.requests r).root = some t ∧ n ∈ (s.requests r).path then
        { s.requests r with
          undone := true
          stage := if (s.requests r).stage.inFlight then .failed else (s.requests r).stage }
      else s.requests r }

def relinquish (s : Server R) (t n : Nat) (aborted : Bool) : Option (Server R) :=
  if t ∈ s.participants then
    match (s.txn t).snapshots with
    | (m, had) :: snapshots =>
      if m = n then
        if aborted then
          some ((s.undo t n).setTxn t { s.txn t with
            mutation := if had then (s.txn t).mutation else none
            snapshots := snapshots })
        else some (s.setTxn t { s.txn t with snapshots := snapshots })
      else none
    | [] => none
  else none

def prepare (s : Server R) (t : Nat) : Option (Server R) :=
  if t ∈ s.participants ∧ (s.txn t).snapshots = [] ∧ s.quiet t then
    some (s.setTxn t { s.txn t with prepared := true })
  else none

def decided (s : Server R) (t : Nat) (commit : Bool) : Option (Server R) :=
  if s.outcome t = none ∧
      (commit → s.quiet t ∧ (t ∈ s.participants → (s.txn t).prepared)) then
    some { s with outcome := Function.update s.outcome t (some commit) }
  else none

def databaseCommit (s : Server R) (t : Nat) : Option (Server R) :=
  if t ∈ s.participants ∧ s.outcome t = some true ∧ (s.txn t).prepared ∧
      (s.txn t).committing = false then
    some { s.setTxn t { s.txn t with committing := true } with
      stored := (s.txn t).mutation.toList ++ s.stored }
  else none

def commit (s : Server R) (t : Nat) : Option (Server R) :=
  if t ∈ s.participants ∧ (s.txn t).committing then
    some { s with
      filter := if (s.txn t).mutation.isSome then s.filter.map fun _ => true else s.filter
      participants := s.participants.filter (· ≠ t) }
  else none

def abort (s : Server R) (t : Nat) : Option (Server R) :=
  if t ∈ s.participants ∧ s.outcome t = some false then
    some { s with participants := s.participants.filter (· ≠ t) }
  else none

def step [DecidableEq R] (s : Server R) : Action R → Option (Server R)
  | .arrive kind => s.arrive kind
  | .scan r => s.scan r
  | .wake r => s.wake r
  | .readLoad =>
    if s.filter = none then some { s with load := some (!s.stored.isEmpty) } else none
  | .install r =>
    match (s.requests r).stage, s.filter, s.load with
    | .scanned, none, some has => some { s with filter := some has, load := none }
    | _, _, _ => none
  | .lookup r collides => s.lookup r collides
  | .conclude r => s.conclude r
  | .acquire r => s.acquire r
  | .join r => s.join r
  | .lock t => s.lock t
  | .store r x => s.store r x
  | .handle r x => s.handle r x
  | .refuse r x => s.refuse r x
  | .record r => s.record r
  | .complete r x => s.complete r x
  | .reply r => s.reply r
  | .fail r => s.fail r
  | .claim t n => s.claim t n
  | .relinquish t n aborted => s.relinquish t n aborted
  | .prepare t => s.prepare t
  | .decide t c => s.decided t c
  | .databaseCommit t => s.databaseCommit t
  | .commit t => s.commit t
  | .abort t => s.abort t

/-- No other request with the key is past its check and unfinished; in the request's own
transaction one may have completed. -/
def NoneUnfinished (s : Server R) (r : Nat) : Prop :=
  (∀ r' < s.next, r' ≠ r → (s.requests r').stage.pastCheck = false) ∧
    ∀ t ∈ s.participants, (s.txn t).mutation.isSome = true → (s.requests r).root = some t

instance (s : Server R) (r : Nat) : Decidable (s.NoneUnfinished r) :=
  inferInstanceAs (Decidable (_ ∧ _))

/-- A check that finds nothing is the only one of its kind; a request waits for the answer to
its store; no filter is read next to a recovered transaction that has the key; and nobody but
its own calls relies on a nested transaction. -/
def Careful (s : Server R) : Action R → Prop
  | .lookup r collides =>
    ∀ has ∈ s.filter, s.get has collides = none → s.NoneUnfinished r
  | .fail r => (s.requests r).stage.atDatabase = false
  | .readLoad => ∀ t ∈ s.participants, (s.txn t).recovered = true → (s.txn t).mutation = none
  | .conclude r =>
    ∀ t ∈ s.participants, (s.requests r).root = some t → (s.txn t).mutation.isSome = true →
      ∀ snapshot ∈ (s.txn t).snapshots, snapshot.2 = true ∨ snapshot.1 ∈ (s.requests r).path
  | _ => True

/-! ## What is promised -/

/-- The request's response counts. -/
def Counts (s : Server R) (q : Request R) : Prop :=
  q.undone = false ∧ ∀ t, q.root = some t → s.outcome t ≠ some false

/-- Its transaction, if it is in one, is over at this state. -/
def Final (s : Server R) (q : Request R) : Prop :=
  q.undone = false ∧ ∀ t, q.root = some t → s.outcome t = some true ∧ t ∉ s.participants

/-- The effects of at most one request are stored, and all that return return its response. -/
structure OneExecution (s : Server R) : Prop where
  once : s.stored.length ≤ 1
  same : ∀ r x, (s.requests r).stage = .returned x → s.Counts (s.requests r) →
    ∀ y ∈ s.stored, y = x
  kept : ∀ r x, (s.requests r).stage = .returned x → s.Final (s.requests r) → x ∈ s.stored

instance [DecidableEq R] (s : Server R) (a : Action R) : Decidable (s.Careful a) := by
  cases a <;> unfold Careful <;> infer_instance

end Server

open Server

variable {R : Type} {s s' : Server R}

/-! ## The invariant -/

/-- What a request returned is stored, or its transaction has it and nothing but what undoes
the request takes it away. -/
def Placed (s : Server R) (q : Request R) (x : R) : Prop :=
  s.stored = [x] ∨ ∃ t ∈ s.participants, q.root = some t ∧ (s.txn t).mutation = some x ∧
    ∀ snapshot ∈ (s.txn t).snapshots, snapshot.2 = true ∨ snapshot.1 ∈ q.path

/-- What holds of each request. -/
structure RequestOk (s : Server R) (q : Request R) : Prop where
  loaded : q.stage.pastCheck = true → s.filter.isSome = true
  holder : q.stage.pastCheck = true →
    ∀ t ∈ s.participants, (s.txn t).mutation.isSome = true → q.root = some t
  unstored : q.stage.pastCheck = true → s.stored ≠ [] → ∃ x, q.stage = .handled x
  alone : q.stage.atDatabase = true → q.root = none
  handled : ∀ x, q.stage = .handled x → s.stored = [x]
  found : ∀ x, q.stage = .found x → s.stored = [x]
  first : q.stage.executing = true →
    ∀ t ∈ s.participants, q.root = some t → (s.txn t).mutation = none
  early : q.stage.inFlight = true → ∀ t, q.root = some t →
    s.outcome t ≠ some true ∧ (t ∈ s.participants → (s.txn t).prepared = false)
  placed : ∀ x, q.stage = .returned x ∨ q.stage = .completed x → s.Counts q → Placed s q x

/-- What holds of each transaction at the state. -/
structure ParticipantOk (s : Server R) (t : Nat) (p : Participant R) : Prop where
  loaded : p.mutation.isSome = true → p.recovered = false → s.filter.isSome = true
  unloaded : p.mutation.isSome = true → p.recovered = true → s.filter = none ∧ s.load = none
  unstored : p.mutation.isSome = true → s.stored ≠ [] → p.committing = true
  committing : p.committing = true →
    s.outcome t = some true ∧ ∀ x, p.mutation = some x → s.stored = [x]
  decided : s.outcome t = some true → p.prepared = true
  final : p.recovered = true → p.prepared = true
  unowned : p.prepared = true → p.snapshots = []

structure Inv (s : Server R) : Prop where
  fresh : ∀ r, s.next ≤ r → (s.requests r).stage = .idle
  requests : ∀ r, RequestOk s (s.requests r)
  participants : ∀ t ∈ s.participants, ParticipantOk s t (s.txn t)
  single : ∀ r r', (s.requests r).stage.pastCheck = true →
    (s.requests r').stage.pastCheck = true → r = r'
  holders : ∀ t ∈ s.participants, ∀ t' ∈ s.participants, (s.txn t).mutation.isSome = true →
    (s.txn t').mutation.isSome = true → t = t'
  stores : s.stores = [] ∨ ∃ r x, s.stores = [(r, x)] ∧ (s.requests r).stage = .storing x
  once : s.stored.length ≤ 1
  filter : s.filter = some false → s.stored ≠ [] →
    (∃ r x, (s.requests r).stage = .handled x) ∨
      ∃ t ∈ s.participants, (s.txn t).committing = true ∧ (s.txn t).mutation.isSome = true
  load : s.load = some false → s.filter = none → s.stored = []

theorem setStage_self (s : Server R) (r : Nat) (st : Stage R) :
    (s.setStage r st).requests r = { s.requests r with stage := st } :=
  Function.update_self _ _ _

theorem setStage_ne (s : Server R) {r r' : Nat} (st : Stage R) (h : r' ≠ r) :
    (s.setStage r st).requests r' = s.requests r' :=
  Function.update_of_ne h _ _

theorem setTxn_self (s : Server R) (t : Nat) (p : Participant R) : (s.setTxn t p).txn t = p :=
  Function.update_self _ _ _

theorem setTxn_ne (s : Server R) {t t' : Nat} (p : Participant R) (h : t' ≠ t) :
    (s.setTxn t p).txn t' = s.txn t' :=
  Function.update_of_ne h _ _

theorem Stage.inFlight_of_pastCheck {st : Stage R} (h : st.pastCheck = true) :
    st.inFlight = true := by
  cases st <;> first | rfl | cases h

theorem Stage.pastCheck_of_executing {st : Stage R} (h : st.executing = true) :
    st.pastCheck = true := by
  cases st <;> first | rfl | cases h

/-- A stage in which nothing has been found out about the key yet, or that failed. -/
theorem RequestOk.of_plain {q : Request R} {st : Stage R} (hq : RequestOk s q)
    (hst : st = .scanned ∨ st = .failed ∨ ∃ t, st = .waiting t)
    (hflight : st.inFlight = true → q.stage.inFlight = true) :
    RequestOk s { q with stage := st } where
  loaded h := by rcases hst with rfl | rfl | ⟨t, rfl⟩ <;> cases h
  holder h := by rcases hst with rfl | rfl | ⟨t, rfl⟩ <;> cases h
  unstored h := by rcases hst with rfl | rfl | ⟨t, rfl⟩ <;> cases h
  alone h := by rcases hst with rfl | rfl | ⟨t, rfl⟩ <;> cases h
  handled x h := by rcases hst with rfl | rfl | ⟨t, rfl⟩ <;> cases h
  found x h := by rcases hst with rfl | rfl | ⟨t, rfl⟩ <;> cases h
  first h := by rcases hst with rfl | rfl | ⟨t, rfl⟩ <;> cases h
  early h := hq.early (hflight h)
  placed x h := by rcases hst with rfl | rfl | ⟨t, rfl⟩ <;> rcases h with h | h <;> cases h

/-- A request that has its response. -/
theorem RequestOk.of_done {q : Request R} {st : Stage R} {x : R}
    (hst : st = .returned x ∨ st = .completed x) (hplaced : s.Counts q → Placed s q x) :
    RequestOk s { q with stage := st } where
  loaded h := by rcases hst with rfl | rfl <;> cases h
  holder h := by rcases hst with rfl | rfl <;> cases h
  unstored h := by rcases hst with rfl | rfl <;> cases h
  alone h := by rcases hst with rfl | rfl <;> cases h
  handled _ h := by rcases hst with rfl | rfl <;> cases h
  found _ h := by rcases hst with rfl | rfl <;> cases h
  first h := by rcases hst with rfl | rfl <;> cases h
  early h := by rcases hst with rfl | rfl <;> cases h
  placed y h := by
    have hxy : x = y := by
      rcases hst with rfl | rfl <;> rcases h with h | h <;> cases h <;> rfl
    rw [← hxy]
    exact hplaced

/-- A transaction changes at the state. What its requests rely on has to be kept. -/
theorem RequestOk.setTxn {q : Request R} {t : Nat} {p : Participant R} (hq : RequestOk s q)
    (hdom : p.mutation.isSome = true → (s.txn t).mutation.isSome = true)
    (hprep : q.stage.inFlight = true → q.root = some t → t ∈ s.participants → p.prepared = false)
    (hplaced : ∀ x, q.root = some t → s.Counts q → (s.txn t).mutation = some x →
      (∀ snapshot ∈ (s.txn t).snapshots, snapshot.2 = true ∨ snapshot.1 ∈ q.path) →
      p.mutation = some x ∧ ∀ snapshot ∈ p.snapshots, snapshot.2 = true ∨ snapshot.1 ∈ q.path) :
    RequestOk (s.setTxn t p) q where
  loaded := hq.loaded
  holder := by
    intro hpast t' ht' hm
    by_cases htt : t' = t
    · subst htt
      rw [setTxn_self] at hm
      exact hq.holder hpast t' ht' (hdom hm)
    · rw [setTxn_ne s p htt] at hm
      exact hq.holder hpast t' ht' hm
  unstored := hq.unstored
  alone := hq.alone
  handled := hq.handled
  found := hq.found
  first := by
    intro hex t' ht' hroot
    have hnone := hq.first hex t' ht' hroot
    by_cases htt : t' = t
    · subst htt
      rw [setTxn_self]
      by_contra hne
      have := hdom (Option.isSome_iff_ne_none.mpr hne)
      simp [hnone] at this
    · rw [setTxn_ne s p htt]
      exact hnone
  early := by
    intro hfl t' hroot
    refine ⟨(hq.early hfl t' hroot).1, fun ht' => ?_⟩
    by_cases htt : t' = t
    · subst htt
      rw [setTxn_self]
      exact hprep hfl hroot ht'
    · rw [setTxn_ne s p htt]
      exact (hq.early hfl t' hroot).2 ht'
  placed := by
    intro x hst hcounts
    rcases hq.placed x hst hcounts with hstored | ⟨t', ht', hroot, hm, hcov⟩
    · exact .inl hstored
    · refine .inr ⟨t', ht', hroot, ?_⟩
      by_cases htt : t' = t
      · subst htt
        rw [setTxn_self]
        exact hplaced x hroot hcounts hm hcov
      · rw [setTxn_ne s p htt]
        exact ⟨hm, hcov⟩

namespace Inv

theorem start (st : Start R) : Inv (Server.start st) where
  fresh := fun _ _ => rfl
  requests := fun r =>
    { loaded := fun h => by cases h
      holder := fun h => by cases h
      unstored := fun h => by cases h
      alone := fun h => by cases h
      handled := fun _ h => by cases h
      found := fun _ h => by cases h
      first := fun h => by cases h
      early := fun h => by cases h
      placed := fun _ h => by rcases h with h | h <;> cases h }
  participants := by
    intro t ht
    cases st with
    | empty | stored x => cases ht
    | prepared t' x =>
      exact
        { loaded := fun _ h => by cases h
          unloaded := fun _ _ => ⟨rfl, rfl⟩
          unstored := fun _ h => absurd rfl h
          committing := fun h => by cases h
          decided := fun _ => rfl
          final := fun _ => rfl
          unowned := fun _ => rfl }
  single := fun _ _ h => by cases h
  holders := by
    intro t ht t' ht' _ _
    cases st with
    | empty | stored x => cases ht
    | prepared t'' x =>
      rw [List.mem_singleton.mp ht, List.mem_singleton.mp ht']
  stores := .inl rfl
  once := by cases st <;> simp [Server.start]
  filter := fun h => by cases h
  load := fun h => by cases h

/-- A request gets to another stage. It leaves neither a store nor a filter that misses it. -/
theorem moveStage (hi : Inv s) {r : Nat} {st : Stage R} (hr : (s.requests r).stage ≠ .idle)
    (hstore : ∀ x, (s.requests r).stage = .storing x → s.stores = [])
    (hfilter : ∀ x, (s.requests r).stage = .handled x → s.filter ≠ some false)
    (hq : RequestOk s { s.requests r with stage := st })
    (hsingle : st.pastCheck = true → (s.requests r).stage.pastCheck = false →
      ∀ r' < s.next, r' ≠ r → (s.requests r').stage.pastCheck = false) :
    Inv (s.setStage r st) := by
  have hne : ∀ {r'}, r' ≠ r → (s.setStage r st).requests r' = s.requests r' :=
    fun h => setStage_ne s st h
  have hlt : r < s.next := by
    by_contra hge
    exact hr (hi.fresh r (Nat.le_of_not_lt hge))
  have hother : st.pastCheck = true → ∀ r', r' ≠ r → (s.requests r').stage.pastCheck = false := by
    intro hst r' hr'
    by_contra hpast
    have hpast : (s.requests r').stage.pastCheck = true := by simpa using hpast
    by_cases hold : (s.requests r).stage.pastCheck = true
    · exact hr' (hi.single r' r hpast hold)
    · have hlt' : r' < s.next := by
        by_contra hge
        rw [hi.fresh r' (Nat.le_of_not_lt hge)] at hpast
        cases hpast
      rw [hsingle hst (by simpa using hold) r' hlt' hr'] at hpast
      cases hpast
  exact
    { fresh := by
        intro r' hr'
        rw [hne (by have : s.next ≤ r' := hr'; omega)]
        exact hi.fresh r' hr'
      requests := by
        intro r'
        by_cases hrr : r' = r
        · subst hrr
          rw [setStage_self]
          exact { hq with }
        · rw [hne hrr]
          exact { hi.requests r' with }
      participants := fun t ht => { hi.participants t ht with }
      single := by
        intro r₁ r₂ h₁ h₂
        by_cases hr₁ : r₁ = r
        · by_cases hr₂ : r₂ = r
          · rw [hr₁, hr₂]
          · subst hr₁
            rw [setStage_self] at h₁
            rw [hne hr₂, hother h₁ r₂ hr₂] at h₂
            cases h₂
        · rw [hne hr₁] at h₁
          by_cases hr₂ : r₂ = r
          · subst hr₂
            rw [setStage_self] at h₂
            rw [hother h₂ r₁ hr₁] at h₁
            cases h₁
          · rw [hne hr₂] at h₂
            exact hi.single r₁ r₂ h₁ h₂
      holders := hi.holders
      stores := by
        rcases hi.stores with h | ⟨r', x, h, hst⟩
        · exact .inl h
        · refine .inr ⟨r', x, h, ?_⟩
          rw [hne]
          · exact hst
          · rintro rfl
            simp [hstore x hst] at h
      once := hi.once
      filter := by
        intro hf hs
        rcases hi.filter hf hs with ⟨r', x, hst⟩ | h
        · refine .inl ⟨r', x, ?_⟩
          rw [hne]
          · exact hst
          · rintro rfl
            exact hfilter x hst hf
        · exact .inr h
      load := hi.load }

theorem setStage (hi : Inv s) {r : Nat} {st : Stage R} (hr : (s.requests r).stage ≠ .idle)
    (hdb : (s.requests r).stage.atDatabase = false)
    (hq : RequestOk s { s.requests r with stage := st })
    (hsingle : st.pastCheck = true → (s.requests r).stage.pastCheck = false →
      ∀ r' < s.next, r' ≠ r → (s.requests r').stage.pastCheck = false) :
    Inv (s.setStage r st) := by
  refine hi.moveStage hr (fun x hx => ?_) (fun x hx => ?_) hq hsingle
  · simp [hx, Stage.atDatabase] at hdb
  · simp [hx, Stage.atDatabase] at hdb

theorem release (hi : Inv s) (r : Nat) : Inv (s.release r) :=
  { hi with
    requests := fun r' => { hi.requests r' with }
    participants := fun t ht => { hi.participants t ht with } }

theorem arrive (hi : Inv s) {kind : Kind} (h : s.arrive kind = some s') : Inv s' := by
  -- whatever arrives is in no transaction that is past its calls
  have hadd : ∀ (root : Option Nat) (isRoot : Bool) (path : List Nat),
      (∀ t, root = some t →
        s.outcome t ≠ some true ∧ (t ∈ s.participants → (s.txn t).prepared = false)) →
      Inv { s with
        requests := Function.update s.requests s.next ⟨root, isRoot, path, .arrived, false⟩
        next := s.next + 1 } := by
    intro root isRoot path hroot
    have hne : ∀ {r : Nat}, r ≠ s.next →
        Function.update s.requests s.next ⟨root, isRoot, path, .arrived, false⟩ r =
          s.requests r := fun h => Function.update_of_ne h _ _
    have hold : ∀ {r : Nat}, (s.requests r).stage ≠ .idle → r ≠ s.next := by
      rintro r hr rfl
      exact hr (hi.fresh _ (Nat.le_refl _))
    have hpast : ∀ {r : Nat}, (Function.update s.requests s.next
        ⟨root, isRoot, path, .arrived, false⟩ r).stage.pastCheck = true →
        (s.requests r).stage.pastCheck = true := by
      intro r hr
      by_cases hrn : r = s.next
      · subst hrn
        rw [Function.update_self] at hr
        cases hr
      · rwa [hne hrn] at hr
    exact
      { fresh := by
          intro r hr
          have hr : s.next + 1 ≤ r := hr
          show (Function.update s.requests s.next _ r).stage = _
          rw [hne (by omega)]
          exact hi.fresh r (by omega)
        requests := by
          intro r
          by_cases hrn : r = s.next
          · subst hrn
            show RequestOk _ (Function.update s.requests s.next _ s.next)
            rw [Function.update_self]
            exact
              { loaded := fun h => by cases h
                holder := fun h => by cases h
                unstored := fun h => by cases h
                alone := fun h => by cases h
                handled := fun _ h => by cases h
                found := fun _ h => by cases h
                first := fun h => by cases h
                early := fun _ => hroot
                placed := fun _ h => by rcases h with h | h <;> cases h }
          · show RequestOk _ (Function.update s.requests s.next _ r)
            rw [hne hrn]
            exact { hi.requests r with }
        participants := fun t ht => { hi.participants t ht with }
        single := fun r r' h h' => hi.single r r' (hpast h) (hpast h')
        holders := hi.holders
        stores := by
          rcases hi.stores with h | ⟨r, x, h, hst⟩
          · exact .inl h
          · refine .inr ⟨r, x, h, ?_⟩
            show (Function.update s.requests s.next _ r).stage = _
            rw [hne (hold (by simp [hst]))]
            exact hst
        once := hi.once
        filter := by
          intro hf hs
          rcases hi.filter hf hs with ⟨r, x, hst⟩ | h
          · refine .inl ⟨r, x, ?_⟩
            show (Function.update s.requests s.next _ r).stage = _
            rw [hne (hold (by simp [hst]))]
            exact hst
          · exact .inr h
        load := hi.load }
  unfold Server.arrive at h
  cases kind with
  | writer =>
    cases h
    exact hadd none false [] fun _ h => by cases h
  | call t path =>
    dsimp only at h
    split at h
    next hg =>
      cases h
      refine hadd (some t) false path ?_
      rintro t' ⟨⟩
      exact ⟨by simp [hg.1], fun ht => by simpa using fun hp => hg.2 ⟨ht, hp⟩⟩
    · cases h
  | transaction t =>
    dsimp only at h
    split at h
    next hg =>
      cases h
      refine hadd (some t) true [] ?_
      rintro t' ⟨⟩
      exact ⟨by simp [hg.1], fun ht => absurd ht hg.2.1⟩
    · cases h

theorem scan (hi : Inv s) {r : Nat} (h : s.scan r = some s') : Inv s' := by
  unfold Server.scan at h
  split at h
  next hst =>
    have hr : (s.requests r).stage ≠ .idle := by simp [hst]
    have hdb : (s.requests r).stage.atDatabase = false := by simp [hst, Stage.atDatabase]
    have hfl : (s.requests r).stage.inFlight = true := by simp [hst, Stage.inFlight]
    split at h
    next t _ =>
      cases h
      exact hi.setStage hr hdb ((hi.requests r).of_plain (.inr (.inr ⟨t, rfl⟩)) fun _ => hfl)
        fun h => by cases h
    next =>
      cases h
      exact hi.setStage hr hdb ((hi.requests r).of_plain (.inl rfl) fun _ => hfl)
        fun h => by cases h
  · cases h

theorem wake (hi : Inv s) {r : Nat} (h : s.wake r = some s') : Inv s' := by
  unfold Server.wake at h
  split at h
  next t hst =>
    split at h
    · cases h
    · cases h
      exact hi.setStage (by simp [hst]) (by simp [hst, Stage.atDatabase])
        ((hi.requests r).of_plain (.inl rfl) fun _ => by simp [hst, Stage.inFlight])
        fun h => by cases h
  · cases h

theorem readLoad (hi : Inv s)
    (hrec : ∀ t ∈ s.participants, (s.txn t).recovered = true → (s.txn t).mutation = none) :
    Inv { s with load := some (!s.stored.isEmpty) } :=
  { hi with
    requests := fun r => { hi.requests r with }
    participants := fun t ht =>
      { hi.participants t ht with
        unloaded := fun hm hr => by simp [hrec t ht hr] at hm }
    load := by
      intro h _
      simpa using h }

theorem install (hi : Inv s) {has : Bool} (hf : s.filter = none) (hl : s.load = some has) :
    Inv { s with filter := some has, load := none } :=
  { hi with
    requests := fun r => { hi.requests r with loaded := fun _ => rfl }
    participants := fun t ht =>
      { hi.participants t ht with
        loaded := fun _ _ => rfl
        unloaded := fun hm hr => by
          have := ((hi.participants t ht).unloaded hm hr).2
          simp [hl] at this }
    filter := by
      rintro ⟨⟩ hs
      exact absurd (hi.load hl hf) hs
    load := fun h => by cases h }

/-- A check that finds nothing, with nobody else past theirs. -/
theorem missed (hi : Inv s) {r : Nat} {has collides : Bool}
    (hst : (s.requests r).stage = .scanned) (hf : s.filter = some has)
    (hget : s.get has collides = none) (hno : s.NoneUnfinished r) :
    Inv (s.setStage r .missed) := by
  have hq := hi.requests r
  have hearly := hq.early (by simp [hst, Stage.inFlight])
  have hempty : s.stored = [] := by
    by_contra hne
    unfold Server.get at hget
    split at hget
    · exact hne (by simpa using hget)
    next hb =>
      -- the filter is behind only while somebody is unfinished
      have hhas : has = false := by
        cases has with
        | false => rfl
        | true => simp at hb
      rcases hi.filter (by rw [hf, hhas]) hne with ⟨r', x, hr'⟩ | ⟨t, ht, hc, hm⟩
      · have hlt : r' < s.next := by
          by_contra hge
          simp [hi.fresh r' (Nat.le_of_not_lt hge)] at hr'
        have hrr : r' ≠ r := by
          rintro rfl
          simp [hst] at hr'
        have := hno.1 r' hlt hrr
        simp [hr', Stage.pastCheck] at this
      · have hroot := hno.2 t ht hm
        exact (hearly t hroot).1 ((hi.participants t ht).committing hc).1
  refine hi.setStage (by simp [hst]) (by simp [hst, Stage.atDatabase]) ?_ fun _ _ => hno.1
  exact
    { hq with
      loaded := fun _ => by simp [hf]
      holder := fun _ => hno.2
      unstored := fun _ hne => absurd hempty hne
      alone := fun h => by cases h
      handled := fun _ h => by cases h
      found := fun _ h => by cases h
      first := fun h => by cases h
      early := fun _ => hearly
      placed := fun _ h => by rcases h with h | h <;> cases h }

theorem stored_eq (hi : Inv s) {x : R} (h : x ∈ s.stored) : s.stored = [x] := by
  have hlen := hi.once
  cases hs : s.stored with
  | nil => simp [hs] at h
  | cons y ys =>
    rw [hs, List.length_cons] at hlen
    have hys : ys = [] := List.eq_nil_of_length_eq_zero (by omega)
    rw [hs, hys] at h
    rw [hys, List.mem_singleton.mp h]

theorem lookup (hi : Inv s) {r : Nat} {collides : Bool}
    (hok : ∀ has ∈ s.filter, s.get has collides = none → s.NoneUnfinished r)
    (h : s.lookup r collides = some s') : Inv s' := by
  unfold Server.lookup at h
  split at h
  next has hst hf =>
    split at h
    next x hget =>
      cases h
      have hq := hi.requests r
      have hstored : s.stored = [x] := by
        unfold Server.get at hget
        split at hget
        · exact hi.stored_eq (List.mem_of_head? hget)
        · cases hget
      refine hi.setStage (by simp [hst]) (by simp [hst, Stage.atDatabase]) ?_ fun h => by cases h
      exact
        { loaded := fun h => by cases h
          holder := fun h => by cases h
          unstored := fun h => by cases h
          alone := fun h => by cases h
          handled := fun _ h => by cases h
          found := by
            rintro y ⟨⟩
            exact hstored
          first := fun h => by cases h
          early := fun _ => hq.early (by simp [hst, Stage.inFlight])
          placed := fun _ h => by rcases h with h | h <;> cases h }
    next hget =>
      cases h
      exact hi.missed hst hf hget (hok has (by simp [hf]) hget)
  · cases h

/-- A request returns what it found. -/
theorem returned (hi : Inv s) {r : Nat} {x : R} (hr : (s.requests r).stage ≠ .idle)
    (hdb : (s.requests r).stage.atDatabase = false)
    (hplaced : s.Counts (s.requests r) → Placed s (s.requests r) x) :
    Inv (s.setStage r (.returned x)) :=
  hi.setStage hr hdb (.of_done (.inl rfl) hplaced) fun h => by cases h

theorem conclude (hi : Inv s) {r : Nat}
    (hok : ∀ t ∈ s.participants, (s.requests r).root = some t →
      (s.txn t).mutation.isSome = true → ∀ snapshot ∈ (s.txn t).snapshots,
        snapshot.2 = true ∨ snapshot.1 ∈ (s.requests r).path)
    (h : s.conclude r = some s') : Inv s' := by
  have hq := hi.requests r
  unfold Server.conclude at h
  split at h
  next x hst =>
    cases h
    exact hi.returned (by simp [hst]) (by simp [hst, Stage.atDatabase])
      fun _ => .inl (hq.found x hst)
  next hst =>
    have hr : (s.requests r).stage ≠ .idle := by simp [hst]
    have hdb : (s.requests r).stage.atDatabase = false := by simp [hst, Stage.atDatabase]
    split at h
    next x hown =>
      cases h
      refine hi.returned hr hdb fun _ => ?_
      unfold Server.ownMutation at hown
      split at hown
      next t hroot =>
        split at hown
        next ht => exact .inr ⟨t, ht, hroot, hown, hok t ht hroot (by simp [hown])⟩
        · cases hown
      · cases hown
    next hown =>
      cases h
      have hpast : (s.requests r).stage.pastCheck = true := by simp [hst, Stage.pastCheck]
      refine hi.setStage hr hdb ?_ fun _ hp => by simp [hpast] at hp
      exact
        { loaded := fun _ => hq.loaded hpast
          holder := fun _ => hq.holder hpast
          unstored := by
            intro _ hne
            obtain ⟨x, hx⟩ := hq.unstored hpast hne
            simp [hst] at hx
          alone := fun h => by cases h
          handled := fun _ h => by cases h
          found := fun _ h => by cases h
          first := by
            intro _ t ht hroot
            have hroot : (s.requests r).root = some t := hroot
            simpa [Server.ownMutation, hroot, ht] using hown
          early := fun _ => hq.early (Stage.inFlight_of_pastCheck hpast)
          placed := fun _ h => by rcases h with h | h <;> cases h }
  · cases h

/-- A request goes on to execute its method. -/
theorem run (hi : Inv s) {r : Nat} (hst : (s.requests r).stage = .proceeding) :
    Inv (s.setStage r .running) := by
  have hq := hi.requests r
  have hex : (s.requests r).stage.executing = true := by simp [hst, Stage.executing]
  have hpast := Stage.pastCheck_of_executing hex
  refine hi.setStage (by simp [hst]) (by simp [hst, Stage.atDatabase]) ?_
    fun _ hp => by simp [hpast] at hp
  exact
    { loaded := fun _ => hq.loaded hpast
      holder := fun _ => hq.holder hpast
      unstored := by
        intro _ hne
        obtain ⟨x, hx⟩ := hq.unstored hpast hne
        simp [hst] at hx
      alone := fun h => by cases h
      handled := fun _ h => by cases h
      found := fun _ h => by cases h
      first := fun _ => hq.first hex
      early := fun _ => hq.early (Stage.inFlight_of_pastCheck hpast)
      placed := fun _ h => by rcases h with h | h <;> cases h }

theorem acquire (hi : Inv s) {r : Nat} (h : s.acquire r = some s') : Inv s' := by
  unfold Server.acquire at h
  split at h
  next hroot hst =>
    split at h
    · cases h
      have hi' := hi.run hst
      exact { hi' with
        requests := fun r' => { hi'.requests r' with }
        participants := fun t ht => { hi'.participants t ht with } }
    · cases h
  · cases h

/-- A transaction joins, with nothing done yet. -/
theorem register (hi : Inv s) {t : Nat} {ownKey : Bool} (ht : t ∉ s.participants)
    (hout : s.outcome t ≠ some true) :
    Inv { s.setTxn t (joined ownKey) with participants := t :: s.participants } := by
  -- the transactions with a mutation are those that had one
  have hold : ∀ {t'}, t' ∈ t :: s.participants →
      ((s.setTxn t (joined ownKey)).txn t').mutation.isSome = true →
      t' ∈ s.participants ∧ t' ≠ t := by
    intro t' ht' hm
    rcases List.mem_cons.mp ht' with rfl | ht'
    · rw [setTxn_self] at hm
      cases hm
    · exact ⟨ht', fun h => ht (h ▸ ht')⟩
  have hne : ∀ {t'}, t' ∈ s.participants → (s.setTxn t (joined ownKey)).txn t' = s.txn t' :=
    fun ht' => setTxn_ne s _ fun h => ht (h ▸ ht')
  exact
    { fresh := hi.fresh
      requests := by
        intro r
        have hq := hi.requests r
        exact { hq with
          holder := by
            intro hpast t' ht' hm
            obtain ⟨ht', htt⟩ := hold ht' hm
            have hm : ((s.setTxn t (joined ownKey)).txn t').mutation.isSome = true := hm
            rw [hne ht'] at hm
            exact hq.holder hpast t' ht' hm
          first := by
            intro hex t' ht' hroot
            rcases List.mem_cons.mp ht' with rfl | ht'
            · show ((s.setTxn t' (joined ownKey)).txn t').mutation = none
              rw [setTxn_self]
              rfl
            · show ((s.setTxn t (joined ownKey)).txn t').mutation = none
              rw [hne ht']
              exact hq.first hex t' ht' hroot
          early := by
            intro hfl t' hroot
            refine ⟨(hq.early hfl t' hroot).1, fun ht' => ?_⟩
            rcases List.mem_cons.mp ht' with rfl | ht'
            · show ((s.setTxn t' (joined ownKey)).txn t').prepared = false
              rw [setTxn_self]
              rfl
            · show ((s.setTxn t (joined ownKey)).txn t').prepared = false
              rw [hne ht']
              exact (hq.early hfl t' hroot).2 ht'
          placed := by
            intro x hx hc
            rcases hq.placed x hx hc with h | ⟨t', ht', hroot, hm⟩
            · exact .inl h
            · refine .inr ⟨t', List.mem_cons_of_mem _ ht', hroot, ?_⟩
              show ((s.setTxn t (joined ownKey)).txn t').mutation = some x ∧
                ∀ snapshot ∈ ((s.setTxn t (joined ownKey)).txn t').snapshots, _
              rw [hne ht']
              exact hm }
      participants := by
        intro t' ht'
        rcases List.mem_cons.mp ht' with rfl | ht'
        · show ParticipantOk _ t' ((s.setTxn t' (joined ownKey)).txn t')
          rw [setTxn_self]
          exact
            { loaded := fun h => by cases h
              unloaded := fun h => by cases h
              unstored := fun h => by cases h
              committing := fun h => by cases h
              decided := fun h => absurd h hout
              final := fun h => by cases h
              unowned := fun h => by cases h }
        · show ParticipantOk _ t' ((s.setTxn t (joined ownKey)).txn t')
          rw [hne ht']
          exact { hi.participants t' ht' with }
      single := hi.single
      holders := by
        intro t₁ h₁ t₂ h₂ hm₁ hm₂
        obtain ⟨h₁, -⟩ := hold h₁ hm₁
        obtain ⟨h₂, -⟩ := hold h₂ hm₂
        have hm₁ : ((s.setTxn t (joined ownKey)).txn t₁).mutation.isSome = true := hm₁
        have hm₂ : ((s.setTxn t (joined ownKey)).txn t₂).mutation.isSome = true := hm₂
        rw [hne h₁] at hm₁
        rw [hne h₂] at hm₂
        exact hi.holders t₁ h₁ t₂ h₂ hm₁ hm₂
      stores := hi.stores
      once := hi.once
      filter := by
        intro hf hs
        rcases hi.filter hf hs with h | ⟨t', ht', h⟩
        · exact .inl h
        · refine .inr ⟨t', List.mem_cons_of_mem _ ht', ?_⟩
          show ((s.setTxn t (joined ownKey)).txn t').committing = true ∧
            ((s.setTxn t (joined ownKey)).txn t').mutation.isSome = true
          rw [hne ht']
          exact h
      load := hi.load }

theorem join (hi : Inv s) {r : Nat} (h : s.join r = some s') : Inv s' := by
  unfold Server.join at h
  split at h
  next t hroot hst =>
    dsimp only at h
    cases h
    have hi' := hi.run hst
    split
    · exact hi'
    next ht =>
      have hout := ((hi.requests r).early (by simp [hst, Stage.inFlight]) t hroot).1
      exact hi'.register ht hout
  · cases h

/-- A transaction changes at the state. -/
theorem setTxn (hi : Inv s) {t : Nat} {p : Participant R}
    (hreq : ∀ r, RequestOk (s.setTxn t p) (s.requests r)) (hp : ParticipantOk s t p)
    (hdom : p.mutation.isSome = true → (s.txn t).mutation.isSome = true)
    (hcom : (s.txn t).committing = true → (s.txn t).mutation.isSome = true →
      p.committing = true ∧ p.mutation.isSome = true) : Inv (s.setTxn t p) := by
  have hm : ∀ {t'}, ((s.setTxn t p).txn t').mutation.isSome = true →
      (s.txn t').mutation.isSome = true := by
    intro t' h
    by_cases htt : t' = t
    · subst htt
      rw [setTxn_self] at h
      exact hdom h
    · rwa [setTxn_ne s p htt] at h
  exact
    { fresh := hi.fresh
      requests := hreq
      participants := by
        intro t' ht'
        by_cases htt : t' = t
        · subst htt
          rw [setTxn_self]
          exact { hp with }
        · rw [setTxn_ne s p htt]
          exact { hi.participants t' ht' with }
      single := hi.single
      holders := fun t₁ h₁ t₂ h₂ hm₁ hm₂ => hi.holders t₁ h₁ t₂ h₂ (hm hm₁) (hm hm₂)
      stores := hi.stores
      once := hi.once
      filter := by
        intro hf hs
        rcases hi.filter hf hs with h | ⟨t', ht', hc, hm'⟩
        · exact .inl h
        · refine .inr ⟨t', ht', ?_⟩
          by_cases htt : t' = t
          · subst htt
            rw [setTxn_self]
            exact hcom hc hm'
          · rw [setTxn_ne s p htt]
            exact ⟨hc, hm'⟩
      load := hi.load }

theorem lock (hi : Inv s) {t : Nat} (h : s.lock t = some s') : Inv s' := by
  unfold Server.lock at h
  split at h
  next hg =>
    cases h
    refine hi.setTxn (fun r => (hi.requests r).setTxn id ?_ ?_) { hi.participants t hg.1 with }
      id fun hc hm => ⟨hc, hm⟩
    · exact fun hfl hroot ht => ((hi.requests r).early hfl t hroot).2 ht
    · exact fun x _ _ hm hcov => ⟨hm, hcov⟩
  · cases h

theorem stores_nil (hi : Inv s) {r : Nat} (hex : (s.requests r).stage.executing = true) :
    s.stores = [] := by
  rcases hi.stores with h | ⟨r', x, -, hst⟩
  · exact h
  · have := hi.single r r' (Stage.pastCheck_of_executing hex) (by simp [hst, Stage.pastCheck])
    subst this
    simp [hst, Stage.executing] at hex

theorem store (hi : Inv s) {r : Nat} {x : R} (h : s.store r x = some s') : Inv s' := by
  unfold Server.store at h
  split at h
  next hroot hst =>
    cases h
    have hq := hi.requests r
    have hex : (s.requests r).stage.executing = true := by simp [hst, Stage.executing]
    have hpast := Stage.pastCheck_of_executing hex
    have hnil := hi.stores_nil hex
    have hi' : Inv (s.setStage r (.storing x)) := by
      refine hi.setStage (by simp [hst]) (by simp [hst, Stage.atDatabase]) ?_
        fun _ hp => by simp [hpast] at hp
      exact
        { loaded := fun _ => hq.loaded hpast
          holder := fun _ => hq.holder hpast
          unstored := by
            intro _ hne
            obtain ⟨y, hy⟩ := hq.unstored hpast hne
            simp [hst] at hy
          alone := fun _ => hroot
          handled := fun _ h => by cases h
          found := fun _ h => by cases h
          first := fun h => by cases h
          early := fun _ => hq.early (Stage.inFlight_of_pastCheck hpast)
          placed := fun _ h => by rcases h with h | h <;> cases h }
    exact { hi' with
      requests := fun r' => { hi'.requests r' with }
      participants := fun t ht => { hi'.participants t ht with }
      stores := .inr ⟨r, x, by rw [hnil], by
        show ((s.setStage r (.storing x)).requests r).stage = _
        rw [setStage_self]⟩ }
  · cases h

/-- Nothing was returned yet, nor is anything about to be stored, where only this request is
past its check, and in no transaction that has a mutation. -/
theorem not_placed (hi : Inv s) {r : Nat} (hpast : (s.requests r).stage.pastCheck = true)
    (hempty : s.stored = []) (hown : ∀ t ∈ s.participants, (s.requests r).root = some t →
      (s.txn t).mutation = none) (q : Request R) (x : R) : ¬ Placed s q x := by
  rintro (h | ⟨t, ht, -, hm, -⟩)
  · simp [hempty] at h
  · have hroot := (hi.requests r).holder hpast t ht (by simp [hm])
    simp [hown t ht hroot] at hm

theorem handle [DecidableEq R] (hi : Inv s) {r : Nat} {x : R} (h : s.handle r x = some s') :
    Inv s' := by
  unfold Server.handle at h
  split at h
  next hmem =>
    rcases hi.stores with hs | ⟨r', x', hs, hst⟩
    · simp [hs] at hmem
    · have hrx : r = r' ∧ x = x' := by simpa [hs] using hmem
      obtain ⟨rfl, rfl⟩ := hrx
      have hq := hi.requests r
      have hpast : (s.requests r).stage.pastCheck = true := by simp [hst, Stage.pastCheck]
      have hroot := hq.alone (by simp [hst, Stage.atDatabase])
      have hempty : s.stored = [] := by
        by_contra hne
        obtain ⟨y, hy⟩ := hq.unstored hpast hne
        simp [hst] at hy
      have hnone : ∀ t ∈ s.participants, (s.txn t).mutation.isSome = true → False := by
        intro t ht hm
        have := hq.holder hpast t ht hm
        simp [hroot] at this
      have hnp := hi.not_placed hpast hempty fun t _ ht => by simp [hroot] at ht
      rw [if_pos hst, hs, hempty] at h
      cases h
      have hne : ∀ {r'}, r' ≠ r → (s.setStage r (.handled x)).requests r' = s.requests r' :=
        fun h => setStage_ne s _ h
      have hself : (s.setStage r (.handled x)).requests r =
          { s.requests r with stage := .handled x } := setStage_self _ _ _
      have hpast' : ∀ {r'}, ((s.setStage r (.handled x)).requests r').stage.pastCheck = true →
          r' = r := by
        intro r' hr'
        by_contra hrr
        rw [hne hrr] at hr'
        exact hrr (hi.single r' r hr' hpast)
      exact
        { fresh := by
            intro r' hr'
            have hrr : r' ≠ r := by
              rintro rfl
              simp [hi.fresh r' hr'] at hst
            show ((s.setStage r (.handled x)).requests r').stage = .idle
            rw [hne hrr]
            exact hi.fresh r' hr'
          requests := by
            intro r'
            show RequestOk _ ((s.setStage r (.handled x)).requests r')
            by_cases hrr : r' = r
            · subst hrr
              rw [hself]
              exact
                { loaded := fun _ => hq.loaded hpast
                  holder := fun _ => hq.holder hpast
                  unstored := fun _ _ => ⟨x, rfl⟩
                  alone := fun _ => hroot
                  handled := by
                    rintro y ⟨⟩
                    rfl
                  found := fun _ h => by cases h
                  first := fun h => by cases h
                  early := fun _ => hq.early (Stage.inFlight_of_pastCheck hpast)
                  placed := fun _ h => by rcases h with h | h <;> cases h }
            · rw [hne hrr]
              have hq' := hi.requests r'
              have hnot : (s.requests r').stage.pastCheck = true → False := fun h =>
                hrr (hi.single r' r h hpast)
              exact
                { hq' with
                  unstored := fun h => (hnot h).elim
                  handled := fun y hy => (hnot (by simp [hy, Stage.pastCheck])).elim
                  found := fun y hy => by simpa [hempty] using hq'.found y hy
                  placed := fun y hy hc => (hnp _ y (hq'.placed y hy hc)).elim }
          participants := by
            intro t ht
            have hp := hi.participants t ht
            exact
              { hp with
                unstored := fun hm => (hnone t ht hm).elim
                committing := fun hc => ⟨(hp.committing hc).1, fun y hy =>
                  (hnone t ht (Option.isSome_iff_exists.mpr ⟨y, hy⟩)).elim⟩ }
          single := fun r₁ r₂ h₁ h₂ => (hpast' h₁).trans (hpast' h₂).symm
          holders := hi.holders
          stores := .inl (by simp)
          once := Nat.le_refl 1
          filter := fun _ _ => .inl ⟨r, x, by
            show ((s.setStage r (.handled x)).requests r).stage = _
            rw [hself]⟩
          load := by
            intro _ hf
            have := hq.loaded hpast
            have hf : s.filter = none := hf
            simp [hf] at this }
  · cases h

theorem refuse [DecidableEq R] (hi : Inv s) {r : Nat} {x : R} (h : s.refuse r x = some s') :
    Inv s' := by
  unfold Server.refuse at h
  split at h
  next hmem =>
    rcases hi.stores with hs | ⟨r', x', hs, hst⟩
    · simp [hs] at hmem
    · have hrx : r = r' ∧ x = x' := by simpa [hs] using hmem
      obtain ⟨rfl, rfl⟩ := hrx
      have hi₁ : Inv { s with stores := [] } :=
        { hi with
          requests := fun r' => { hi.requests r' with }
          participants := fun t ht => { hi.participants t ht with }
          stores := .inl rfl }
      have hi₂ : Inv (Server.setStage { s with stores := [] } r .failed) :=
        hi₁.moveStage (by simp [hst]) (fun _ _ => rfl) (fun y hy => by simp [hst] at hy)
          ((hi₁.requests r).of_plain (.inr (.inl rfl)) fun h => by cases h) fun h => by cases h
      have hi₃ := hi₂.release r
      rw [if_pos hst, hs] at h
      cases h
      have hstores : [(r, x)].erase (r, x) = [] := by simp
      rw [hstores]
      exact { hi₃ with
        requests := fun r' => { hi₃.requests r' with }
        participants := fun t ht => { hi₃.participants t ht with } }
  · cases h

theorem record (hi : Inv s) {r : Nat} (h : s.record r = some s') : Inv s' := by
  unfold Server.record at h
  split at h
  next x hst =>
    cases h
    have hi₁ : Inv { s with filter := s.filter.map fun _ => true } :=
      { hi with
        requests := fun r' =>
          { hi.requests r' with loaded := fun hp => by simpa using (hi.requests r').loaded hp }
        participants := fun t ht =>
          { hi.participants t ht with
            loaded := fun hm hr => by simpa using (hi.participants t ht).loaded hm hr
            unloaded := fun hm hr => by simpa using (hi.participants t ht).unloaded hm hr }
        filter := fun hf => by simp at hf
        load := fun hl hf => hi.load hl (by simpa using hf) }
    have hstored := (hi.requests r).handled x hst
    have hi₂ : Inv (Server.setStage { s with filter := s.filter.map fun _ => true } r
        (.returned x)) := by
      refine hi₁.moveStage (by simp [hst]) (fun y hy => ?_) (fun _ _ => by simp)
        (.of_done (.inl rfl) fun _ => .inl hstored) fun h => by cases h
      have hy : (s.requests r).stage = .storing y := hy
      simp [hst] at hy
    have hi₃ := hi₂.release r
    exact { hi₃ with
      requests := fun r' => { hi₃.requests r' with }
      participants := fun t ht => { hi₃.participants t ht with } }
  · cases h

theorem complete (hi : Inv s) {r : Nat} {x : R} (h : s.complete r x = some s') : Inv s' := by
  unfold Server.complete at h
  split at h
  next t hroot hst =>
    split at h
    next hg =>
      obtain ⟨ht, -, hpath⟩ := hg
      cases h
      have hq := hi.requests r
      have hex : (s.requests r).stage.executing = true := by simp [hst, Stage.executing]
      have hpast := Stage.pastCheck_of_executing hex
      have hnil := hi.stores_nil hex
      have hempty : s.stored = [] := by
        by_contra hne
        obtain ⟨y, hy⟩ := hq.unstored hpast hne
        simp [hst] at hy
      -- no transaction has a mutation
      have hnone : ∀ t' ∈ s.participants, (s.txn t').mutation = none := by
        intro t' ht'
        by_contra hne
        have hroot' := hq.holder hpast t' ht' (Option.isSome_iff_ne_none.mpr hne)
        exact hne (hq.first hex t' ht' hroot')
      have hnp := hi.not_placed hpast hempty fun t' ht' _ => hnone t' ht'
      have hother : ∀ {r'}, r' ≠ r → (s.requests r').stage.pastCheck = false := by
        intro r' hrr
        by_contra hp
        exact hrr (hi.single r' r (by simpa using hp) hpast)
      obtain ⟨hout, hprep⟩ := hq.early (Stage.inFlight_of_pastCheck hpast) t hroot
      have hp := hi.participants t ht
      generalize hstage : (if (s.requests r).isRoot = true then Stage.completed x
        else Stage.returned x) = stage
      have hdone : stage = .returned x ∨ stage = .completed x := by
        rw [← hstage]
        split
        · exact .inr rfl
        · exact .inl rfl
      have hnotpast : stage.pastCheck = false := by rcases hdone with rfl | rfl <;> rfl
      have hne : ∀ {r'}, r' ≠ r → (s.setStage r stage).requests r' = s.requests r' :=
        fun h => setStage_ne s _ h
      have hself : (s.setStage r stage).requests r = { s.requests r with stage := stage } :=
        setStage_self _ _ _
      have hpast' : ∀ {r'}, ((s.setStage r stage).requests r').stage.pastCheck = true →
          False := by
        intro r' hr'
        by_cases hrr : r' = r
        · subst hrr
          rw [hself, hnotpast] at hr'
          cases hr'
        · rw [hne hrr, hother hrr] at hr'
          cases hr'
      have htne : ∀ {t'}, t' ≠ t → ((s.setStage r stage).setTxn t
          { s.txn t with mutation := some x }).txn t' = s.txn t' := fun h => setTxn_ne _ _ h
      have htself : ((s.setStage r stage).setTxn t { s.txn t with mutation := some x }).txn t =
          { s.txn t with mutation := some x } := setTxn_self _ _ _
      have hm : ∀ {t'}, t' ∈ s.participants → (((s.setStage r stage).setTxn t
          { s.txn t with mutation := some x }).txn t').mutation.isSome = true → t' = t := by
        intro t' ht' hm
        by_contra htt
        rw [htne htt, hnone t' ht'] at hm
        cases hm
      exact
        { fresh := by
            intro r' hr'
            have hrr : r' ≠ r := by
              rintro rfl
              simp [hi.fresh r' hr'] at hst
            show ((s.setStage r stage).requests r').stage = .idle
            rw [hne hrr]
            exact hi.fresh r' hr'
          requests := by
            intro r'
            show RequestOk _ ((s.setStage r stage).requests r')
            by_cases hrr : r' = r
            · subst hrr
              rw [hself]
              refine .of_done hdone fun _ => .inr ⟨t, ht, hroot, ?_⟩
              rw [htself]
              refine ⟨rfl, fun snapshot hsn => .inr ?_⟩
              rw [← hpath]
              exact List.mem_map_of_mem hsn
            · rw [hne hrr]
              have hq' := hi.requests r'
              have hnot := hother hrr
              exact
                { loaded := fun h => by simp [hnot] at h
                  holder := fun h => by simp [hnot] at h
                  unstored := fun h => by simp [hnot] at h
                  alone := hq'.alone
                  handled := hq'.handled
                  found := hq'.found
                  first := fun h => by simp [Stage.pastCheck_of_executing h] at hnot
                  early := by
                    intro hfl t' hroot'
                    refine ⟨(hq'.early hfl t' hroot').1, fun ht' => ?_⟩
                    by_cases htt : t' = t
                    · subst htt
                      rw [htself]
                      exact hprep ht
                    · rw [htne htt]
                      exact (hq'.early hfl t' hroot').2 ht'
                  placed := fun y hy hc => (hnp _ y (hq'.placed y hy hc)).elim }
          participants := by
            intro t' ht'
            by_cases htt : t' = t
            · subst htt
              rw [htself]
              exact
                { loaded := fun _ _ => hq.loaded hpast
                  unloaded := fun _ hr => by
                    have := hp.final hr
                    simp [hprep ht] at this
                  unstored := fun _ hne => absurd hempty hne
                  committing := fun hc => absurd (hp.committing hc).1 hout
                  decided := hp.decided
                  final := hp.final
                  unowned := hp.unowned }
            · rw [htne htt]
              exact { hi.participants t' ht' with }
          single := fun _ _ h => (hpast' h).elim
          holders := fun t₁ h₁ t₂ h₂ hm₁ hm₂ => (hm h₁ hm₁).trans (hm h₂ hm₂).symm
          stores := .inl hnil
          once := hi.once
          filter := fun _ hne => absurd hempty hne
          load := hi.load }
    · cases h
  · cases h

theorem reply (hi : Inv s) {r : Nat} (h : s.reply r = some s') : Inv s' := by
  unfold Server.reply at h
  split at h
  next t x hroot hst =>
    split at h
    · cases h
      exact hi.returned (by simp [hst]) (by simp [hst, Stage.atDatabase])
        ((hi.requests r).placed x (.inr hst))
    · cases h
  · cases h

theorem fail (hi : Inv s) {r : Nat} (hok : (s.requests r).stage.atDatabase = false)
    (h : s.fail r = some s') : Inv s' := by
  have hr : (s.requests r).stage ≠ .idle := by
    intro hst
    simp [Server.fail, hst] at h
  have hi' : Inv (s.setStage r .failed) :=
    hi.setStage hr hok ((hi.requests r).of_plain (.inr (.inl rfl)) fun h => by cases h)
      fun h => by cases h
  unfold Server.fail at h
  split at h
  · cases h
  · cases h
  · cases h
  · cases h
    exact hi'.release r

theorem claim (hi : Inv s) {t n : Nat} (h : s.claim t n = some s') : Inv s' := by
  unfold Server.claim at h
  split at h
  next hg =>
    cases h
    refine hi.setTxn (fun r => (hi.requests r).setTxn id ?_ ?_)
      { hi.participants t hg.1 with unowned := fun hp => by simp [hg.2] at hp }
      id fun hc hm => ⟨hc, hm⟩
    · exact fun hfl hroot ht => ((hi.requests r).early hfl t hroot).2 ht
    · intro x _ _ hm hcov
      refine ⟨hm, fun snapshot hsn => ?_⟩
      rcases List.mem_cons.mp hsn with rfl | hsn
      · -- the mutation was there before
        exact .inl (by simp [hm])
      · exact hcov snapshot hsn
  · cases h

theorem undo (hi : Inv s) (t n : Nat) : Inv (s.undo t n) := by
  have hreq : ∀ r, ((s.undo t n).requests r = s.requests r) ∨
      (s.requests r).root = some t ∧ (s.undo t n).requests r =
        { s.requests r with
          undone := true
          stage := if (s.requests r).stage.inFlight then .failed else (s.requests r).stage } := by
    intro r
    by_cases hr : (s.requests r).root = some t ∧ n ∈ (s.requests r).path
    · exact .inr ⟨hr.1, if_pos hr⟩
    · exact .inl (if_neg hr)
  have hstage : ∀ r, ((s.undo t n).requests r).stage = (s.requests r).stage ∨
      ((s.undo t n).requests r).stage = .failed := by
    intro r
    rcases hreq r with h | ⟨-, h⟩
    · exact .inl (by rw [h])
    · rw [h]
      dsimp only
      split
      · exact .inr rfl
      · exact .inl rfl
  have hpast : ∀ {r}, ((s.undo t n).requests r).stage.pastCheck = true →
      (s.requests r).stage.pastCheck = true := by
    intro r hr
    rcases hstage r with h | h
    · rwa [h] at hr
    · rw [h] at hr
      cases hr
  -- a request that has a store with the database is in no transaction
  have hdb : ∀ {r}, (s.requests r).stage.atDatabase = true →
      (s.undo t n).requests r = s.requests r := by
    intro r hr
    rcases hreq r with h | ⟨hroot, -⟩
    · exact h
    · simp [(hi.requests r).alone hr] at hroot
  exact
    { fresh := by
        intro r hr
        rcases hreq r with h | ⟨-, h⟩
        · rw [h]
          exact hi.fresh r hr
        · rw [h]
          simp [hi.fresh r hr, Stage.inFlight]
      requests := by
        intro r
        have hq := hi.requests r
        rcases hreq r with h | ⟨hroot, h⟩
        · rw [h]
          exact { hq with }
        · rw [h]
          have hcounts : ∀ st, ¬ (s.undo t n).Counts
              { s.requests r with undone := true, stage := st } := fun _ hc => by cases hc.1
          by_cases hfl : (s.requests r).stage.inFlight = true
          · rw [if_pos hfl]
            exact
              { loaded := fun h => by cases h
                holder := fun h => by cases h
                unstored := fun h => by cases h
                alone := fun h => by cases h
                handled := fun _ h => by cases h
                found := fun _ h => by cases h
                first := fun h => by cases h
                early := fun h => by cases h
                placed := fun _ _ hc => absurd hc (hcounts _) }
          · rw [if_neg hfl]
            exact { hq with placed := fun _ _ hc => absurd hc (hcounts _) }
      participants := fun t' ht' => { hi.participants t' ht' with }
      single := fun r r' h h' => hi.single r r' (hpast h) (hpast h')
      holders := hi.holders
      stores := by
        rcases hi.stores with h | ⟨r, x, h, hst⟩
        · exact .inl h
        · refine .inr ⟨r, x, h, ?_⟩
          rw [hdb (by simp [hst, Stage.atDatabase])]
          exact hst
      once := hi.once
      filter := by
        intro hf hs
        rcases hi.filter hf hs with ⟨r, x, hst⟩ | h
        · refine .inl ⟨r, x, ?_⟩
          rw [hdb (by simp [hst, Stage.atDatabase])]
          exact hst
        · exact .inr h
      load := hi.load }

theorem relinquish (hi : Inv s) {t n : Nat} {aborted : Bool}
    (h : s.relinquish t n aborted = some s') : Inv s' := by
  unfold Server.relinquish at h
  split at h
  next ht =>
    split at h
    next m had snapshots hsn =>
      split at h
      next hmn =>
        subst hmn
        have hp := hi.participants t ht
        have hprep : (s.txn t).prepared ≠ true := fun h => by simp [hp.unowned h] at hsn
        split at h
        next =>
          cases h
          have hi₁ := hi.undo t m
          have hp₁ : ParticipantOk (s.undo t m) t (s.txn t) := { hp with }
          have hmut : (if had = true then (s.txn t).mutation else none).isSome = true →
              (s.txn t).mutation.isSome = true := by
            intro h
            split at h
            · exact h
            · cases h
          have hval : ∀ x, (if had = true then (s.txn t).mutation else none) = some x →
              (s.txn t).mutation = some x := by
            intro x h
            split at h
            · exact h
            · cases h
          refine hi₁.setTxn (fun r => (hi₁.requests r).setTxn hmut ?_ ?_) ?_ hmut ?_
          · exact fun hfl hroot ht => ((hi₁.requests r).early hfl t hroot).2 ht
          · intro x hroot hcounts hm hcov
            have hcov : ∀ snapshot ∈ (s.txn t).snapshots,
                snapshot.2 = true ∨ snapshot.1 ∈ ((s.undo t m).requests r).path := hcov
            rw [hsn] at hcov
            -- the call is not one of those that are undone, so the mutation is older
            have hhad : had = true := by
              rcases hcov (m, had) (List.mem_cons_self ..) with h | h
              · exact h
              · exfalso
                have hund := hcounts.1
                by_cases hr : (s.requests r).root = some t ∧ m ∈ (s.requests r).path
                · simp [Server.undo, hr] at hund
                · have heq : (s.undo t m).requests r = s.requests r := if_neg hr
                  rw [heq] at h hroot
                  exact hr ⟨hroot, h⟩
            exact ⟨by rw [if_pos hhad]; exact hm, fun snapshot h =>
              hcov snapshot (List.mem_cons_of_mem _ h)⟩
          · exact
              { loaded := fun h => hp₁.loaded (hmut h)
                unloaded := fun h => hp₁.unloaded (hmut h)
                unstored := fun h => hp₁.unstored (hmut h)
                committing := fun hc => ⟨(hp₁.committing hc).1, fun x hx =>
                  (hp₁.committing hc).2 x (hval x hx)⟩
                decided := hp₁.decided
                final := hp₁.final
                unowned := fun h => absurd h hprep }
          · exact fun hc _ => absurd (hp.decided (hp.committing hc).1) hprep
        · cases h
          refine hi.setTxn (fun r => (hi.requests r).setTxn id ?_ ?_)
            { hp with unowned := fun h => absurd h hprep } id fun hc hm => ⟨hc, hm⟩
          · exact fun hfl hroot ht => ((hi.requests r).early hfl t hroot).2 ht
          · intro x _ _ hm hcov
            rw [hsn] at hcov
            exact ⟨hm, fun snapshot h => hcov snapshot (List.mem_cons_of_mem _ h)⟩
      · cases h
    · cases h
  · cases h

theorem not_inFlight (hi : Inv s) {t r : Nat} (hquiet : s.quiet t)
    (hroot : (s.requests r).root = some t) : (s.requests r).stage.inFlight = false := by
  by_cases hlt : r < s.next
  · exact hquiet r hlt hroot
  · simp [hi.fresh r (Nat.le_of_not_lt hlt), Stage.inFlight]

theorem prepare (hi : Inv s) {t : Nat} (h : s.prepare t = some s') : Inv s' := by
  unfold Server.prepare at h
  split at h
  next hg =>
    cases h
    refine hi.setTxn (fun r => (hi.requests r).setTxn id ?_ ?_)
      { hi.participants t hg.1 with
        decided := fun _ => rfl
        final := fun _ => rfl
        unowned := fun _ => hg.2.1 } id fun hc hm => ⟨hc, hm⟩
    · intro hfl hroot _
      simp [hi.not_inFlight hg.2.2 hroot] at hfl
    · exact fun x _ _ hm hcov => ⟨hm, hcov⟩
  · cases h

theorem decided (hi : Inv s) {t : Nat} {c : Bool} (h : s.decided t c = some s') : Inv s' := by
  unfold Server.decided at h
  split at h
  next hg =>
    obtain ⟨hnone, hc⟩ := hg
    cases h
    have hself : Function.update s.outcome t (some c) t = some c := Function.update_self _ _ _
    have hne : ∀ {t'}, t' ≠ t → Function.update s.outcome t (some c) t' = s.outcome t' :=
      fun h => Function.update_of_ne h _ _
    have hcounts : ∀ {q : Request R},
        Server.Counts { s with outcome := Function.update s.outcome t (some c) } q →
          s.Counts q := by
      intro q hq
      refine ⟨hq.1, fun t' hroot => ?_⟩
      have : Function.update s.outcome t (some c) t' ≠ some false := hq.2 t' hroot
      by_cases htt : t' = t
      · rw [htt, hnone]
        simp
      · rwa [hne htt] at this
    exact { hi with
      requests := by
        intro r
        have hq := hi.requests r
        exact { hq with
          early := by
            intro hfl t' hroot
            refine ⟨?_, (hq.early hfl t' hroot).2⟩
            show Function.update s.outcome t (some c) t' ≠ some true
            by_cases htt : t' = t
            · subst htt
              rw [hself]
              rintro ⟨⟩
              have := hi.not_inFlight (hc rfl).1 hroot
              simp [this] at hfl
            · rw [hne htt]
              exact (hq.early hfl t' hroot).1
          placed := fun x hx hc => hq.placed x hx (hcounts hc) }
      participants := by
        intro t' ht'
        have hp := hi.participants t' ht'
        exact { hp with
          committing := by
            intro hcom
            refine ⟨?_, (hp.committing hcom).2⟩
            show Function.update s.outcome t (some c) t' = some true
            by_cases htt : t' = t
            · rw [htt] at hp
              have := (hp.committing (htt ▸ hcom)).1
              simp [hnone] at this
            · rw [hne htt]
              exact (hp.committing hcom).1
          decided := by
            intro hout
            have hout : Function.update s.outcome t (some c) t' = some true := hout
            by_cases htt : t' = t
            · subst htt
              rw [hself] at hout
              injection hout with hout
              exact (hc hout).2 ht'
            · rw [hne htt] at hout
              exact hp.decided hout } }
  · cases h

theorem databaseCommit (hi : Inv s) {t : Nat} (h : s.databaseCommit t = some s') : Inv s' := by
  unfold Server.databaseCommit at h
  split at h
  next hg =>
    obtain ⟨ht, hout, hprep, hnc⟩ := hg
    have hp := hi.participants t ht
    cases h
    cases hm : (s.txn t).mutation with
    | none =>
      have hi' : Inv (s.setTxn t { s.txn t with committing := true }) := by
        refine hi.setTxn (fun r => (hi.requests r).setTxn id ?_ ?_)
          { hp with
            unstored := fun _ _ => rfl
            committing := fun _ => ⟨hout, fun x hx => by simp [hm] at hx⟩ }
          id fun _ hm => ⟨rfl, hm⟩
        · exact fun hfl hroot ht => ((hi.requests r).early hfl t hroot).2 ht
        · exact fun x _ _ hm hcov => ⟨hm, hcov⟩
      exact { hi' with
        requests := fun r => { hi'.requests r with }
        participants := fun t' ht' => { hi'.participants t' ht' with } }
    | some x =>
      have hempty : s.stored = [] := by
        by_contra hne
        have := hp.unstored (by simp [hm]) hne
        simp [hnc] at this
      have hnotpast : ∀ {r}, (s.requests r).stage.pastCheck = true → False := by
        intro r hpast
        have hroot := (hi.requests r).holder hpast t ht (by simp [hm])
        exact ((hi.requests r).early (Stage.inFlight_of_pastCheck hpast) t hroot).1 hout
      have honly : ∀ t' ∈ s.participants, (s.txn t').mutation.isSome = true → t' = t :=
        fun t' ht' hm' => hi.holders t' ht' t ht hm' (by simp [hm])
      have hself : (s.setTxn t { s.txn t with committing := true }).txn t =
          { s.txn t with committing := true } := setTxn_self _ _ _
      have hne : ∀ {t'}, t' ≠ t →
          (s.setTxn t { s.txn t with committing := true }).txn t' = s.txn t' :=
        fun h => setTxn_ne _ _ h
      have hsome : ∀ {t'}, ((s.setTxn t { s.txn t with committing := true }).txn t').mutation =
          (s.txn t').mutation := by
        intro t'
        by_cases htt : t' = t
        · subst htt
          rw [hself]
        · rw [hne htt]
      rw [hempty]
      exact
        { fresh := hi.fresh
          requests := by
            intro r
            have hq := hi.requests r
            exact
              { loaded := hq.loaded
                holder := fun h => (hnotpast h).elim
                unstored := fun h => (hnotpast h).elim
                alone := hq.alone
                handled := fun y hy => (hnotpast (r := r) (by
                  have hy : (s.requests r).stage = .handled y := hy
                  simp [hy, Stage.pastCheck])).elim
                found := fun y hy => by simpa [hempty] using hq.found y hy
                first := fun h => (hnotpast (Stage.pastCheck_of_executing h)).elim
                early := by
                  intro hfl t' hroot
                  refine ⟨(hq.early hfl t' hroot).1, fun ht' => ?_⟩
                  by_cases htt : t' = t
                  · subst htt
                    exact absurd hout (hq.early hfl t' hroot).1
                  · show ((s.setTxn t _).txn t').prepared = false
                    rw [hne htt]
                    exact (hq.early hfl t' hroot).2 ht'
                placed := by
                  intro y hy hc
                  rcases hq.placed y hy hc with hst | ⟨t', ht', -, hm', -⟩
                  · simp [hempty] at hst
                  · have htt := honly t' ht' (by simp [hm'])
                    subst htt
                    have hxy : y = x := by simpa [hm'] using hm
                    exact .inl (by simp [hxy]) }
          participants := by
            intro t' ht'
            show ParticipantOk _ t' ((s.setTxn t _).txn t')
            by_cases htt : t' = t
            · subst htt
              rw [hself]
              exact { hp with
                unstored := fun _ _ => rfl
                committing := fun _ => ⟨hout, fun y hy => by
                  have hy : (s.txn t').mutation = some y := hy
                  have hxy : y = x := by simpa [hy] using hm
                  simp [hxy]⟩ }
            · rw [hne htt]
              have hp' := hi.participants t' ht'
              exact { hp' with
                unstored := fun h => absurd (honly t' ht' h) htt
                committing := fun hc => ⟨(hp'.committing hc).1, fun y hy =>
                  absurd (honly t' ht' (Option.isSome_iff_exists.mpr ⟨y, hy⟩)) htt⟩ }
          single := hi.single
          holders := by
            intro t₁ h₁ t₂ h₂ hm₁ hm₂
            have hm₁ : ((s.setTxn t _).txn t₁).mutation.isSome = true := hm₁
            have hm₂ : ((s.setTxn t _).txn t₂).mutation.isSome = true := hm₂
            rw [hsome] at hm₁ hm₂
            exact hi.holders t₁ h₁ t₂ h₂ hm₁ hm₂
          stores := hi.stores
          once := by simp
          filter := by
            intro _ _
            refine .inr ⟨t, ht, ?_⟩
            show ((s.setTxn t _).txn t).committing = true ∧
              ((s.setTxn t _).txn t).mutation.isSome = true
            rw [hself]
            exact ⟨rfl, by simp [hm]⟩
          load := by
            intro hl hf
            have hl : s.load = some false := hl
            have hf : s.filter = none := hf
            -- the transaction ran here, or nothing was read since it was recovered
            cases hr : (s.txn t).recovered with
            | false =>
              have := hp.loaded (by simp [hm]) hr
              simp [hf] at this
            | true =>
              have := (hp.unloaded (by simp [hm]) hr).2
              simp [hl] at this }
  · cases h

/-- A transaction is over at the state: what it had is stored, or does not count. -/
theorem unregister (hi : Inv s) {t : Nat} {f : Option Bool} (hsome : f.isSome = s.filter.isSome)
    (hlow : f = some false → s.filter = some false)
    (hgone : ∀ x, (s.txn t).mutation = some x → s.stored = [x] ∨ s.outcome t = some false)
    (hwit : (s.txn t).committing = true → (s.txn t).mutation.isSome = true → f ≠ some false) :
    Inv { s with filter := f, participants := s.participants.filter (· ≠ t) } := by
  have hmem : ∀ {t'}, t' ∈ s.participants.filter (· ≠ t) → t' ∈ s.participants :=
    fun h => (List.mem_filter.mp h).1
  have hnone : s.filter = none → f = none := fun h => by simpa [h] using hsome
  exact
    { fresh := hi.fresh
      requests := by
        intro r
        have hq := hi.requests r
        exact { hq with
          loaded := fun hp => hsome.trans (hq.loaded hp)
          holder := fun hp t' ht' => hq.holder hp t' (hmem ht')
          first := fun hex t' ht' => hq.first hex t' (hmem ht')
          early := fun hfl t' hroot => (hq.early hfl t' hroot).imp_right fun h ht' =>
            h (hmem ht')
          placed := by
            intro x hx hc
            rcases hq.placed x hx hc with h | ⟨t', ht', hroot, hm, hcov⟩
            · exact .inl h
            · by_cases htt : t' = t
              · subst htt
                rcases hgone x hm with h | h
                · exact .inl h
                · exact absurd h (hc.2 t' hroot)
              · exact .inr ⟨t', List.mem_filter.mpr ⟨ht', by simpa using htt⟩, hroot, hm, hcov⟩ }
      participants := by
        intro t' ht'
        have hp := hi.participants t' (hmem ht')
        exact { hp with
          loaded := fun hm hr => hsome.trans (hp.loaded hm hr)
          unloaded := fun hm hr => (hp.unloaded hm hr).imp_left hnone }
      single := hi.single
      holders := fun t₁ h₁ t₂ h₂ => hi.holders t₁ (hmem h₁) t₂ (hmem h₂)
      stores := hi.stores
      once := hi.once
      filter := by
        intro hf hs
        rcases hi.filter (hlow hf) hs with h | ⟨t', ht', hc, hm⟩
        · exact .inl h
        · have htt : t' ≠ t := by
            rintro rfl
            exact hwit hc hm hf
          exact .inr ⟨t', List.mem_filter.mpr ⟨ht', by simpa using htt⟩, hc, hm⟩
      load := by
        intro hl hf
        refine hi.load hl ?_
        have hf : f = none := hf
        rw [hf] at hsome
        simpa using hsome.symm }

theorem commit (hi : Inv s) {t : Nat} (h : s.commit t = some s') : Inv s' := by
  unfold Server.commit at h
  split at h
  next hg =>
    cases h
    have hp := hi.participants t hg.1
    refine hi.unregister ?_ ?_ (fun x hx => .inl ((hp.committing hg.2).2 x hx)) ?_
    · split
      · simp
      · rfl
    · intro hf
      split at hf
      · simp at hf
      · exact hf
    · intro _ hm hf
      rw [if_pos hm] at hf
      simp at hf
  · cases h

theorem abort (hi : Inv s) {t : Nat} (h : s.abort t = some s') : Inv s' := by
  unfold Server.abort at h
  split at h
  next hg =>
    cases h
    have hp := hi.participants t hg.1
    refine hi.unregister rfl id (fun _ _ => .inr hg.2) fun hc _ _ => ?_
    have := (hp.committing hc).1
    simp [hg.2] at this
  · cases h

theorem step [DecidableEq R] {a : Action R} (hi : Inv s) (hok : s.Careful a)
    (h : s.step a = some s') : Inv s' := by
  cases a with
  | arrive kind => exact hi.arrive h
  | scan r => exact hi.scan h
  | wake r => exact hi.wake h
  | readLoad =>
    simp only [Server.step, Option.ite_none_right_eq_some, Option.some.injEq] at h
    rw [← h.2]
    exact hi.readLoad hok
  | install r =>
    simp only [Server.step] at h
    split at h
    next has _ hf hl =>
      cases h
      exact hi.install hf hl
    · cases h
  | lookup r collides => exact hi.lookup hok h
  | conclude r => exact hi.conclude hok h
  | acquire r => exact hi.acquire h
  | join r => exact hi.join h
  | lock t => exact hi.lock h
  | store r x => exact hi.store h
  | handle r x => exact hi.handle h
  | refuse r x => exact hi.refuse h
  | record r => exact hi.record h
  | complete r x => exact hi.complete h
  | reply r => exact hi.reply h
  | fail r => exact hi.fail hok h
  | claim t n => exact hi.claim h
  | relinquish t n aborted => exact hi.relinquish h
  | prepare t => exact hi.prepare h
  | decide t c => exact hi.decided h
  | databaseCommit t => exact hi.databaseCommit h
  | commit t => exact hi.commit h
  | abort t => exact hi.abort h

theorem oneExecution (hi : Inv s) : s.OneExecution where
  once := hi.once
  same := by
    intro r x hst hc y hy
    have hstored := hi.stored_eq hy
    rcases (hi.requests r).placed x (.inl hst) hc with h | ⟨t, ht, -, hm, -⟩
    · simpa [hstored] using h
    · -- its transaction is being committed
      have hp := hi.participants t ht
      have hcom := hp.unstored (by simp [hm]) (by simp [hstored])
      simpa [hstored] using (hp.committing hcom).2 x hm
  kept := by
    intro r x hst hf
    have hc : s.Counts (s.requests r) := ⟨hf.1, fun t hroot => by simp [(hf.2 t hroot).1]⟩
    rcases (hi.requests r).placed x (.inl hst) hc with h | ⟨t, ht, hroot, -⟩
    · simp [h]
    · exact absurd ht (hf.2 t hroot).2

end Inv

/-- The invariant holds along every careful run. -/
theorem careful_inv [DecidableEq R] {st : Start R}
    (h : Reach Server.step Server.Careful (Server.start st) s) : Inv s :=
  h.invariant Inv (Inv.start st) fun _ _ _ hi hok hs => hi.step hok hs

/-! ## One execution -/

/-- A writer runs, and its retry after it. -/
def retried : List (Action Nat) :=
  [.arrive .writer, .scan 0, .readLoad, .install 0, .lookup 0 false, .conclude 0, .acquire 0,
    .store 0 7, .handle 0 7, .record 0, .arrive .writer, .scan 1, .lookup 1 false, .conclude 1]

/-- A writer and its retry, both checked before either has the lock. -/
def race : List (Action Nat) :=
  [.arrive .writer, .arrive .writer, .scan 0, .scan 1, .readLoad, .install 0, .lookup 0 false,
    .lookup 1 false, .conclude 0, .conclude 1, .acquire 0, .store 0 7, .handle 0 7, .record 0,
    .acquire 1, .store 1 8, .handle 1 8, .record 1]

end Reboot.Txn.Idempotency
