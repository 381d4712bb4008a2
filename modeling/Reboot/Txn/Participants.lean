import Reboot.Lib.Run
import Reboot.Txn.LockUse

/-!
# The participants of one state

What a server keeps for one state: its `Lock`, the transactions registered in
`_participant_transactions`, the calls suspended in the lock and, in the database, the
one transaction that can be open for the state. The model follows
`_transaction_participant_start`, `_upgrade_lock`, `claim_ownership`,
`relinquish_ownership`, `_complete_participant_transaction` and the users of the lock
outside transactions (`reboot/aio/state_managers.py`), and
`DatabaseService::LookupOrBeginTransaction` (`reboot/server/database.cc`).

A step is what one coroutine does between two suspensions. The scheduler, deadlines,
cancellation, deadlock victims and lost requests are in the choice of the next action.

Mirroring notes:
- A transaction is an object; its identity is a `TxnId` and its root id a field. The
  object outlives its registration: a call that got hold of it earlier can still upgrade
  or roll back after the transaction completed, and does so here as well.
- `_participant_transactions[type][ref]` is a dict by root id: `participants` are its
  values, and `registered` says that the object is one of them.
- `complete` is the end of Commit, of Abort, of a watch that learned of either, and of a
  read-only Prepare. All of them run it under `transaction.lock`, as do the upgrade in
  the `complete` callback of a transaction method (`underLock`) and the store at join.
- The database keeps one open transaction for a state and knows it by its root id.
- State, tasks, idempotent mutations and streaming readers do not touch the lock and
  are left out.
-/

namespace Reboot.Txn

open Reboot.Lib

/-- A `StateManager.Transaction` object. -/
abbrev TxnId := Nat

/-- `Transaction.Snapshot`, as far as ownership and lock go. -/
structure Snapshot where
  transactionIds : List Nat
  ownerIds : List Nat
  mode : Mode
  deriving DecidableEq

/-- How far `_transaction_participant_start` is. -/
inductive JoinStatus
  /-- in `acquire_shared` or `acquire_exclusive` -/
  | waiting
  /-- in `transaction_participant_store` -/
  | storing
  | joined
  | raised
  deriving DecidableEq

/-- The fields of a transaction. -/
structure Transaction where
  rootId : Nat
  mode : Mode
  usingRestartDetection : Bool
  stored : Bool
  prepared : Bool
  registered : Bool
  /-- `acquired_lock` has a result -/
  acquired : Bool
  join : JoinStatus
  ownerIds : List Nat
  snapshots : List Snapshot
  deriving DecidableEq

/-- The hold that a transaction believes to have. -/
def Transaction.recorded (x : Transaction) : Option Mode :=
  if x.registered ∧ x.acquired then some x.mode else none

/-- A server, as far as one state goes. -/
structure State where
  lock : Lock TxnId
  txn : TxnId → Option Transaction
  participants : List TxnId
  calls : List (Call TxnId)
  /-- the suspended calls that hold `transaction.lock` -/
  underLock : List Nat
  /-- the callers outside any transaction that hold the lock -/
  writers : List Nat
  /-- the root id of the transaction open in the database -/
  database : Option Nat
  nextId : Nat
  /-- an assertion of the lock failed while a hold was given back -/
  assertionFailed : Bool

/-- Before the first request: the transaction that recovery found for the state, with its
root id and whether it is prepared, is registered and holds the lock. -/
def State.initial : Option (Nat × Bool) → State
  | none => ⟨Lock.free, fun _ => none, [], [], [], [], none, 0, false⟩
  | some (rootId, prepared) =>
    { lock := { (Lock.free : Lock TxnId) with exclusive := true, exclusiveHolder := some 0 }
      txn := Function.update (fun _ => none) 0
        (some ⟨rootId, .exclusive, false, true, prepared, true, true, .joined, [], []⟩)
      participants := [0]
      calls := []
      underLock := []
      writers := []
      database := some rootId
      nextId := 0
      assertionFailed := false }

/-- What becomes of the request to store a participant. -/
inductive StoreOutcome
  /-- the database handles it and the server hears back -/
  | handled
  /-- the call is cancelled or the request fails, before or after it was handled -/
  | lost (handled : Bool)
  deriving DecidableEq

/-- What completes a participant. -/
inductive End
  /-- `transaction_participant_commit` -/
  | commit
  /-- `transaction_participant_abort` -/
  | abort
  /-- `transaction_participant_prepare` of a participant without effects -/
  | readOnly
  deriving DecidableEq

inductive Action
  /-- `_transaction_participant_start` -/
  | join (t : TxnId) (rootId : Nat) (mode : Mode) (usingRestartDetection : Bool)
  /-- a granted call comes back from `Lock._wait` -/
  | resume (id : Nat)
  /-- a call leaves `Lock._wait` with an exception -/
  | giveUp (id : Nat)
  /-- `transaction_participant_store` at join -/
  | store (t : TxnId) (outcome : StoreOutcome)
  /-- `_upgrade_lock` -/
  | upgrade (t : TxnId) (underLock : Bool)
  /-- `claim_ownership` once the state is claimable -/
  | claim (t : TxnId) (transactionIds : List Nat)
  /-- `relinquish_ownership`, by its RPC or by the nested transaction itself -/
  | relinquish (t : TxnId) (transactionId : Nat) (aborted : Bool) (rpc : Bool)
  /-- `transaction_participant_prepare` in the database -/
  | prepare (t : TxnId)
  /-- `_complete_participant_transaction` -/
  | complete (t : TxnId) (how : End)
  /-- a writer, a task or a workflow outside transactions asks for the lock -/
  | acquire
  /-- it is done -/
  | release (id : Nat)
  deriving DecidableEq

namespace State

/-- Write back the fields of a transaction. -/
def update (s : State) (t : TxnId) (x : Transaction) : State :=
  { s with txn := Function.update s.txn t (some x) }

/-- `_lookup_participant_transaction`. -/
def lookup (s : State) (rootId : Nat) : Option TxnId :=
  s.participants.find? fun t => (s.txn t).any fun x => decide (x.rootId = rootId)

/-- The hold that each party believes to have. -/
def recorded (s : State) : Party TxnId → Option Mode
  | .txn t => (s.txn t).bind Transaction.recorded
  | .anonymous n => if n ∈ s.writers then some .exclusive else none

/-- The lock was acquired; without restart detection the participant is stored next. -/
def afterAcquire (s : State) (t : TxnId) (x : Transaction) : State :=
  s.update t { x with
    acquired := true
    join := if x.usingRestartDetection then .joined else .storing }

/-- The `except` branch of `_transaction_participant_start`. -/
def joinFailed (s : State) (t : TxnId) (x : Transaction) : State :=
  ({ s with participants := s.participants.erase t } : State).update t
    { x with registered := false, join := .raised }

/-- `LookupOrBeginTransaction`: whether the database has or begins the transaction. -/
def lookupOrBegin (s : State) (rootId : Nat) : Bool :=
  decide (s.database = none ∨ s.database = some rootId)

/-- Suspend a call in `Lock._wait`; `l` is the lock with its waiter. -/
def suspend (s : State) (l : Lock TxnId) (party : Party TxnId) (target : Mode)
    (isUpgrade : Bool) : State :=
  { s with
    lock := l
    calls := ⟨s.nextId, party, target, isUpgrade⟩ :: s.calls
    nextId := s.nextId + 1 }

/-- A hold was given back, or a waiter left the queue. -/
def afterOp (s : State) (r : Op TxnId) : State :=
  { s with lock := r.1, assertionFailed := s.assertionFailed || !r.2 }

/-- `_transaction_participant_start`, up to its first suspension. -/
def join (s : State) (t : TxnId) (rootId : Nat) (mode : Mode) (usingRestartDetection : Bool) :
    Option State :=
  if (s.txn t).isSome ∨ s.lookup rootId ≠ none then none
  else
    let x : Transaction :=
      ⟨rootId, mode, usingRestartDetection, false, false, true, false, .waiting, [], []⟩
    let s := ({ s with participants := t :: s.participants } : State).update t x
    match s.lock.tryAcquire mode (some t) with
    | some (l, true) => some (({ s with lock := l } : State).afterAcquire t x)
    | some (l, false) => some (({ s with lock := l } : State).joinFailed t x)
    | none => some (s.suspend (s.lock.enqueue s.nextId mode (some t)) (.txn t) mode false)

/-- The suspended call that waits under an id. -/
def callOf (s : State) (id : Nat) : Option (Call TxnId) :=
  s.calls.find? fun c => decide (c.id = id)

/-- A granted call goes on. -/
def resume (s : State) (id : Nat) : Option State :=
  match s.callOf id with
  | none => none
  | some c =>
    if id ∈ s.lock.done then
      let s := { s with lock := s.lock.comeBack id, calls := dropCall id s.calls }
      match c.party with
      | .anonymous n => some { s with writers := n :: s.writers }
      | .txn t =>
        match s.txn t with
        | none => none
        | some x =>
          if c.isUpgrade then some (s.update t { x with mode := .exclusive })
          else some (s.afterAcquire t x)
    else none

/-- The exception leaves `Lock._wait`. An upgrade leaves the transaction as it was. -/
def giveUp (s : State) (id : Nat) : Option State :=
  match s.callOf id with
  | none => none
  | some c =>
    let s := ({ s with calls := dropCall id s.calls } : State).afterOp
      (s.lock.giveUp id c.isUpgrade c.target c.party.transaction)
    match c.party with
    | .anonymous _ => some s
    | .txn t =>
      match s.txn t with
      | none => none
      | some x => if c.isUpgrade then some s else some (s.joinFailed t x)

/-- `transaction_participant_store`; nothing is cleaned up when it raises. -/
def store (s : State) (t : TxnId) (outcome : StoreOutcome) : Option State :=
  match s.txn t with
  | none => none
  | some x =>
    if x.join ≠ .storing then none
    else
      let begun := if s.lookupOrBegin x.rootId then some x.rootId else s.database
      match outcome with
      | .handled =>
        if s.lookupOrBegin x.rootId then
          some (({ s with database := begun } : State).update t
            { x with stored := true, join := .joined })
        else some (s.update t { x with join := .raised })
      | .lost handled =>
        some (({ s with database := if handled then begun else s.database } : State).update t
          { x with join := .raised })

/-- No suspended call of the transaction holds `transaction.lock`. -/
def lockFree (s : State) (t : TxnId) : Bool :=
  s.calls.all fun c => decide (c.party = .txn t → c.id ∉ s.underLock)

/-- `_upgrade_lock`, up to its first suspension. -/
def upgrade (s : State) (t : TxnId) (underLock : Bool) : Option State :=
  match s.txn t with
  | none => none
  | some x =>
    if x.acquired = false ∨ x.mode ≠ .shared ∨ (underLock ∧ s.lockFree t = false) then none
    else match s.lock.upgrade s.nextId (some t) with
      | .upgraded l => some (({ s with lock := l } : State).update t { x with mode := .exclusive })
      | .raised l => some { s with lock := l }
      | .waiting l =>
        let s' := s.suspend l (.txn t) .exclusive true
        some { s' with underLock := if underLock then s.nextId :: s.underLock else s.underLock }

/-- `claim_ownership` when `is_claimable_by` holds; a context's first id is the root. -/
def claim (s : State) (t : TxnId) (transactionIds : List Nat) : Option State :=
  match s.txn t with
  | none => none
  | some x =>
    if x.acquired = false ∨ transactionIds.head? ≠ some x.rootId ∨
        transactionIds.take x.ownerIds.length ≠ x.ownerIds then none
    else if x.ownerIds = transactionIds then some s
    else
      let snapshot : Snapshot :=
        ⟨transactionIds, x.ownerIds, if x.ownerIds = [] then .shared else x.mode⟩
      some (s.update t { x with
        ownerIds := transactionIds
        snapshots := if transactionIds.length > 1 then x.snapshots ++ [snapshot]
          else x.snapshots })

/-- Whether a snapshot that commits may be dropped: `transactionId` is an outermost
nested transaction, or its parent has an older snapshot. -/
def dropOnCommit (transactionId : Nat) (snapshot : Snapshot) (older : List Snapshot) : Bool :=
  let depth := snapshot.transactionIds.idxOf transactionId
  decide (depth = 1) ||
    match snapshot.transactionIds[depth - 1]? with
    | none => false
    | some parent => older.any fun o => decide (parent ∈ o.transactionIds)

/-- `relinquish_ownership`; only a nested transaction relinquishes. -/
def relinquish (s : State) (t : TxnId) (transactionId : Nat) (aborted rpc : Bool) :
    Option State :=
  match s.txn t with
  | none => none
  | some x =>
    if transactionId = x.rootId then none
    else if (rpc ∧ x.registered = false) ∨ transactionId ∉ x.ownerIds then some s
    else
      let older := x.snapshots.takeWhile fun p => decide (transactionId ∉ p.transactionIds)
      match x.snapshots[older.length]? with
      -- "Snapshot missing when nested transaction is still owner"
      | none => some s
      | some snapshot =>
        if aborted then
          let x' := { x with
            ownerIds := snapshot.ownerIds
            mode := snapshot.mode
            snapshots := older }
          if x.mode = .exclusive ∧ snapshot.mode = .shared then
            some ((s.update t x').afterOp (s.lock.downgrade (some t)))
          else some (s.update t x')
        else
          some (s.update t { x with
            ownerIds := x.ownerIds.takeWhile fun i => decide (i ≠ transactionId)
            snapshots := if dropOnCommit transactionId snapshot older then older
              else x.snapshots })

/-- The prepare in the database. With restart detection it begins the transaction there,
without it the one that is open is prepared. -/
def prepare (s : State) (t : TxnId) : Option State :=
  match s.txn t with
  | none => none
  | some x =>
    if x.registered = false ∨ x.prepared ∨ x.join = .storing ∨ s.lockFree t = false then none
    else if x.usingRestartDetection then
      if s.lookupOrBegin x.rootId then
        some (({ s with database := some x.rootId } : State).update t { x with prepared := true })
      else some s
    else if s.database = none then some s
    else some (s.update t { x with prepared := true })

/-- Whether a participant can end so. -/
def canEnd (x : Transaction) : End → Bool
  | .commit => x.prepared
  | .abort => true
  | .readOnly => decide (x.mode = .shared) && x.usingRestartDetection && !x.prepared

/-- The transaction that is open in the database afterwards; the database goes by the
state and not by the transaction. -/
def databaseAfter (s : State) (x : Transaction) : End → Option Nat
  | .commit => none
  | .abort => if x.stored ∨ x.usingRestartDetection then none else s.database
  | .readOnly => s.database

/-- `_complete_participant_transaction`, under `transaction.lock`. -/
def complete (s : State) (t : TxnId) (how : End) : Option State :=
  match s.txn t with
  | none => none
  | some x =>
    if x.registered = false ∨ x.join = .storing ∨ s.lockFree t = false ∨
        canEnd x how = false then none
    else
      some ((({ s with
        participants := s.participants.erase t
        database := s.databaseAfter x how } : State).update t
          { x with registered := false }).afterOp (s.lock.release x.mode (some t)))

/-- A caller outside transactions asks for the lock. -/
def acquire (s : State) : Option State :=
  match s.lock.tryAcquire .exclusive none with
  | some (l, true) =>
    some { s with lock := l, writers := s.nextId :: s.writers, nextId := s.nextId + 1 }
  | some (l, false) => some { s with lock := l }
  | none =>
    some (s.suspend (s.lock.enqueue s.nextId .exclusive none) (.anonymous s.nextId)
      .exclusive false)

/-- It gives the lock back. -/
def release (s : State) (id : Nat) : Option State :=
  if id ∈ s.writers then
    some (({ s with writers := s.writers.filter fun n => decide (n ≠ id) } : State).afterOp
      (s.lock.releaseExclusive none))
  else none

/-- One coroutine runs to its next suspension. -/
def step (s : State) : Action → Option State
  | .join t rootId mode rd => s.join t rootId mode rd
  | .resume id => s.resume id
  | .giveUp id => s.giveUp id
  | .store t outcome => s.store t outcome
  | .upgrade t underLock => s.upgrade t underLock
  | .claim t ids => s.claim t ids
  | .relinquish t id aborted rpc => s.relinquish t id aborted rpc
  | .prepare t => s.prepare t
  | .complete t how => s.complete t how
  | .acquire => s.acquire
  | .release id => s.release id

end State

end Reboot.Txn
