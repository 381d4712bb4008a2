import Reboot.Lib.Run
import Reboot.Txn.NestedRollback

/-!
# The calls of one root transaction

The calls that one root transaction makes, on any number of states: readers, writers and
nested transactions, concurrently and to any depth. Each call joins the participant of
its state, claims ownership, upgrades the lock if it has to, runs, stores its effects and
reports its participants to its caller in the trailing metadata. The model follows
`transactionally`, `ownership`, `writer`, `transaction`, `_upgrade_lock`, `_load`,
`_store`, `RelinquishOwnership`, `transaction_participant_prepare` and
`_transaction_coordinator_complete` (`reboot/aio/state_managers.py`), `Participants`
(`reboot/aio/contexts.py`) and `_call_transactionally` (`reboot/aio/stubs.py`).

A step is what one coroutine does between two suspensions. Which call goes on, when a
lock is granted, what a method writes or raises and which message arrives are in the
choice of the next action. Snapshots, ownership and rollback are those of
`NestedRollback`.

Mirroring notes:
- A call has a number, and the id of a transaction is the number of its call; the root
  is call 0. `transactionIds` is the `transaction_ids` of the call's context.
- `outstandingRpcs` lists the calls that the source counts in `outstanding_rpcs`.
- The contents of a state are tagged with the call that wrote them, so that one can say
  whose they are. What was loaded from the database has no tag.
- A transaction method has the live state in its hands and changes it in place
  (`mutate`); the only effect it hands to `complete` is that state.
- Task ids are fresh, as uuids are.
- Deadlines, deadlocks, lost connections and failing databases are errors that a call
  may end with at any time. A call whose caller gave up goes on by itself (`lose`).
- What the lock does for transactions of other roots is in `Bookkeeping`: here it
  grants an acquire or an upgrade at some point.
- After `commit` nothing happens any more. The other half of the two phases is in
  `TwoPhase`.
-/

namespace Reboot.Txn.CallTree

open Reboot.Lib Reboot.Txn.Nested

/-! ## Participants -/

/-- `Participants`, for each of its two dicts the states in it. -/
structure Participants (σ : Type) where
  shouldCommit : List σ
  readOnly : List σ
  deriving DecidableEq

namespace Participants

variable {σ : Type} [DecidableEq σ]

/-- `Participants()`. -/
def empty : Participants σ := ⟨[], []⟩

/-- `add`: not read-only wins. -/
def add (p : Participants σ) (x : σ) (readOnly : Bool) : Participants σ :=
  if readOnly then
    if x ∈ p.shouldCommit then p else { p with readOnly := p.readOnly.insert x }
  else
    { shouldCommit := p.shouldCommit.insert x
      readOnly := p.readOnly.filter fun y => decide (y ≠ x) }

/-- `union`. -/
def union (p q : Participants σ) : Participants σ :=
  q.readOnly.foldl (fun r x => r.add x true) (q.shouldCommit.foldl (fun r x => r.add x false) p)

/-- `retain_as_read_only`. -/
def retainAsReadOnly (p : Participants σ) : Participants σ where
  shouldCommit := []
  readOnly := p.shouldCommit.foldl (fun l x => l.insert x) p.readOnly

/-- `should_prepare`. -/
def shouldPrepare (p : Participants σ) : List σ := p.shouldCommit ++ p.readOnly

theorem mem_add {p : Participants σ} {x y : σ} {readOnly : Bool} :
    y ∈ (p.add x readOnly).shouldCommit ↔
      y ∈ p.shouldCommit ∨ (y = x ∧ readOnly = false) := by
  unfold add
  cases readOnly with
  | true =>
    simp only [if_true]
    split <;> simp
  | false => simp [List.mem_insert_iff, or_comm]

theorem mem_foldl_add {l : List σ} {readOnly : Bool} {p : Participants σ} {y : σ} :
    y ∈ (l.foldl (fun r x => r.add x readOnly) p).shouldCommit ↔
      y ∈ p.shouldCommit ∨ (y ∈ l ∧ readOnly = false) := by
  induction l generalizing p with
  | nil => simp
  | cons x l ih =>
    rw [List.foldl_cons, ih, mem_add, List.mem_cons]
    grind

/-- What is to commit on either side is to commit. -/
theorem mem_union {p q : Participants σ} {y : σ} :
    y ∈ (p.union q).shouldCommit ↔ y ∈ p.shouldCommit ∨ y ∈ q.shouldCommit := by
  rw [union, mem_foldl_add, mem_foldl_add]
  simp

end Participants

/-! ## Methods, effects and calls -/

/-- What kind of context a method gets; a transaction may be declared exclusive. -/
inductive Kind
  | reader
  | writer
  | transaction (exclusive : Bool)
  deriving DecidableEq

def Kind.isTransaction : Kind → Bool
  | .transaction _ => true
  | _ => false

/-- A method of a state, and the idempotency key of the call. -/
structure Method (σ κ : Type) where
  kind : Kind
  ref : σ
  idempotencyKey : Option κ
  deriving DecidableEq

/-- `Effects`. -/
structure Effects (κ V M : Type) where
  state : Option V
  tasks : List (κ × M)
  colocatedUpserts : List (κ × M)
  response : M
  deriving DecidableEq

/-- `requires_exclusive`. -/
def Effects.requiresExclusive {κ V M : Type} [DecidableEq V] (e : Effects κ V M)
    (initialState : Option V) : Bool :=
  if e.tasks.length > 0 then true
  else if e.colocatedUpserts.length > 0 then true
  else match e.state with
    | none => false
    | some v =>
      match initialState with
      | none => true
      | some b => decide (b ≠ v)

/-- How the method ended: returned, raised an error the caller may catch, or anything
else (`is_from_backend_and_recoverable`). -/
inductive Outcome
  | ok
  | recoverable
  | unrecoverable
  deriving DecidableEq

/-- How far a call is. -/
inductive Phase (κ V M : Type)
  /-- before its entry in `context.participants` -/
  | starting
  /-- in `claim_ownership` -/
  | claiming
  /-- a nested transaction that waits for `_call_count == 0` -/
  | draining
  /-- in `_upgrade_lock`; a transaction method on completion with its effects -/
  | upgrading (effects : Option (Effects κ V M))
  /-- in `_load` -/
  | loading
  /-- in the body of the method -/
  | running
  /-- `complete` has returned -/
  | completed
  /-- `_transaction_coordinator_complete` of the root -/
  | coordinating
  | returned (outcome : Outcome)
  deriving DecidableEq

/-- The context is within the `try` of `transactionally`. -/
def Phase.entered {κ V M : Type} : Phase κ V M → Bool
  | .upgrading _ | .loading | .running | .completed => true
  | _ => false

/-- A call and its context. -/
structure Call (σ κ V M : Type) where
  method : Method σ κ
  caller : Option Nat
  transactionIds : List Nat
  phase : Phase κ V M
  constructor : Bool
  /-- the state as loaded, `initial_state_bytes` -/
  initialState : Option V
  participants : Participants σ
  outstandingRpcs : List Nat
  /-- `transaction_unrecoverable_abort is not None` -/
  unrecoverableAbort : Bool
  deriving DecidableEq

variable {σ κ V M : Type}

namespace Call

/-- A call that has just been made. -/
def new (method : Method σ κ) (caller : Option Nat) (transactionIds : List Nat) :
    Call σ κ V M :=
  ⟨method, caller, transactionIds, .starting, false, none, ⟨[], []⟩, [], false⟩

/-- `context.nested`, of a transaction. -/
def nested (k : Call σ κ V M) : Bool := k.method.kind.isTransaction && k.caller.isSome

/-- The phase after ownership of the state is had (and, for a nested transaction, the
other calls are gone): who needs the lock exclusive upgrades it. -/
def enter (k : Call σ κ V M) (mode : Mode) : Phase κ V M :=
  match k.method.kind, mode with
  | .writer, .shared => .upgrading none
  | .transaction true, .shared => .upgrading none
  | _, _ => .loading

end Call

/-! ## Participants of a state -/

/-- What the database has of a transaction: the columns of a prepared or open one. -/
structure Stored (κ V M : Type) where
  state : Option (Option Nat × V)
  tasks : List (κ × Nat × M)
  idempotentMutations : List (κ × Nat × M)
  colocated : List (κ × Nat × M)
  deriving DecidableEq

/-- The `StateManager.Transaction` of the root on one state. -/
structure Site (κ V M : Type) where
  transaction : Participant Nat κ (Option Nat × V) (Nat × M)
  acquired : Bool
  callCount : Nat
  unrecoverableAbort : Bool
  /-- the open transaction in the database, if there is no restart detection -/
  database : Stored κ V M
  deriving DecidableEq

namespace Site

/-- `Transaction.from_context`. -/
def fromContext (mode : Mode) : Site κ V M where
  transaction := ⟨{ Contents.unused with mode := mode }, [], mode⟩
  acquired := false
  callCount := 0
  unrecoverableAbort := false
  database := ⟨none, [], [], []⟩

/-- The lock mode of the transaction. -/
def mode (x : Site κ V M) : Mode := x.transaction.contents.mode

/-- `owner_ids`. -/
def ownerIds (x : Site κ V M) : List Nat := x.transaction.contents.ownerIds

/-- Change what is in memory. -/
def withContents (x : Site κ V M) (c : Contents Nat κ (Option Nat × V) (Nat × M)) :
    Site κ V M :=
  { x with transaction := { x.transaction with contents := c } }

/-- The lock is granted in exclusive mode. -/
def upgraded (x : Site κ V M) : Site κ V M :=
  { x with transaction := { x.transaction with
    contents := { x.transaction.contents with mode := .exclusive }
    lock := .exclusive } }

end Site

/-- What the model leaves open: where restart detection is used, what is stored before
the transaction, and the state of a type that is not constructed. -/
structure Env (σ V : Type) where
  usingRestartDetection : σ → Bool
  stored : σ → Option V
  fresh : V

/-- A `RelinquishOwnershipRequest` and the state it is sent to. -/
structure Relinquish (σ : Type) where
  ref : σ
  transactionId : Nat
  aborted : Bool
  deriving DecidableEq

/-- A root transaction: the participants of its states, its calls and the messages of
its nested transactions. -/
structure System (σ κ V M : Type) where
  site : σ → Option (Site κ V M)
  call : Nat → Option (Call σ κ V M)
  nextId : Nat
  messages : List (Relinquish σ)
  /-- which calls stored a change, on which states -/
  changes : List (Nat × σ)
  /-- what `Prepare` wrote to the database -/
  prepared : σ → Option (Stored κ V M)
  /-- the states that `Prepare` released as read-only -/
  released : σ → Bool
  committed : Bool

inductive Action (σ κ V M : Type)
  /-- the body of a method makes a call -/
  | call (caller : Nat) (method : Method σ κ)
  /-- `_transaction_participant_start` by the first call on a state -/
  | start (c : Nat)
  /-- the lock is acquired -/
  | acquire (x : σ)
  /-- acquiring it failed -/
  | refuse (x : σ)
  /-- `context.participants.add` in `transactionally` -/
  | join (c : Nat)
  /-- `claim_ownership` once the state is claimable, up to the next suspension -/
  | claim (c : Nat)
  /-- `_call_count == 0` for a nested transaction -/
  | drain (c : Nat)
  /-- the lock is granted to an upgrade -/
  | upgrade (c : Nat)
  /-- `_load` -/
  | load (c : Nat)
  /-- a transaction method changes its state -/
  | mutate (c : Nat) (value : V)
  /-- the `complete` callback -/
  | complete (c : Nat) (effects : Effects κ V M)
  /-- the method is over and `transactionally` is left -/
  | finish (c : Nat) (outcome : Outcome)
  /-- the caller's stub has the answer and its trailing metadata -/
  | reply (c : Nat)
  /-- the caller's stub fails or is cancelled -/
  | lose (c : Nat)
  /-- a `RelinquishOwnership` is handled, perhaps once more -/
  | relinquish (message : Relinquish σ)
  /-- `Prepare` -/
  | prepare (x : σ)
  /-- the root has committed -/
  | commit
  deriving DecidableEq

variable [DecidableEq σ] [DecidableEq κ] [DecidableEq V] [DecidableEq M]

namespace System

/-- The root's call and nothing else. -/
def initial (method : Method σ κ) : System σ κ V M where
  site := fun _ => none
  call := Function.update (fun _ => none) 0 (some (Call.new method none [0]))
  nextId := 1
  messages := []
  changes := []
  prepared := fun _ => none
  released := fun _ => false
  committed := false

/-- Write back a call. -/
def putCall (s : System σ κ V M) (c : Nat) (k : Call σ κ V M) : System σ κ V M :=
  { s with call := Function.update s.call c (some k) }

/-- Write back a participant. -/
def putSite (s : System σ κ V M) (x : σ) (i : Site κ V M) : System σ κ V M :=
  { s with site := Function.update s.site x (some i) }

/-- The `transaction_ids` of a call: a transaction has an id of its own. -/
def idsFor (s : System σ κ V M) (k : Call σ κ V M) (method : Method σ κ) : List Nat :=
  if method.kind.isTransaction then k.transactionIds ++ [s.nextId] else k.transactionIds

/-- With one more call, made by `p`. -/
def madeCall (s : System σ κ V M) (p : Nat) (k : Call σ κ V M) (method : Method σ κ) :
    System σ κ V M :=
  { (s.putCall p { k with outstandingRpcs := s.nextId :: k.outstandingRpcs }).putCall s.nextId
      (Call.new method (some p) (s.idsFor k method)) with
    nextId := s.nextId + 1 }

/-- The method of a running call makes a call. -/
def makeCall (s : System σ κ V M) (p : Nat) (method : Method σ κ) : Option (System σ κ V M) :=
  match s.call p with
  | none => none
  | some k => if k.phase = .running then some (s.madeCall p k method) else none

/-- The mode in which a first call joins. -/
def modeOf (method : Method σ κ) : Mode :=
  match method.kind with
  | .writer | .transaction true => .exclusive
  | _ => if method.idempotencyKey.isSome then .exclusive else .shared

def start (s : System σ κ V M) (c : Nat) : Option (System σ κ V M) :=
  match s.call c with
  | none => none
  | some k =>
    if k.phase = .starting ∧ s.site k.method.ref = none then
      some (s.putSite k.method.ref (Site.fromContext (modeOf k.method)))
    else none

def acquire (s : System σ κ V M) (x : σ) : Option (System σ κ V M) :=
  match s.site x with
  | none => none
  | some i => if i.acquired then none else some (s.putSite x { i with acquired := true })

def refuse (s : System σ κ V M) (x : σ) : Option (System σ κ V M) :=
  match s.site x with
  | none => none
  | some i =>
    if i.acquired then none else some { s with site := Function.update s.site x none }

variable (env : Env σ V)

/-- The participant of the state that a call is about. -/
def lookup (s : System σ κ V M) (c : Nat) : Option (Call σ κ V M × Site κ V M) :=
  match s.call c with
  | none => none
  | some k =>
    match s.site k.method.ref with
    | none => none
    | some i => some (k, i)

/-- The entry of a call is read-only iff it sees no effect so far. -/
def join (s : System σ κ V M) (c : Nat) : Option (System σ κ V M) :=
  match s.lookup c with
  | none => none
  | some (k, i) =>
    if k.phase = .starting ∧ i.acquired ∧ i.unrecoverableAbort = false then
      let readOnly := decide (i.mode = .shared ∧ k.method.idempotencyKey = none ∧
        env.usingRestartDetection k.method.ref = true)
      some (s.putCall c { k with
        phase := .claiming
        participants := k.participants.add k.method.ref readOnly })
    else none

/-- A nested transaction goes on to wait for the calls under way. -/
def claim (s : System σ κ V M) (c : Nat) : Option (System σ κ V M) :=
  match s.lookup c with
  | none => none
  | some (k, i) =>
    if k.phase = .claiming then
      match claimOwnership i.transaction k.transactionIds with
      | none => none
      | some t =>
        let count := if k.method.kind.isTransaction then i.callCount else i.callCount + 1
        let phase := if k.nested then .draining else k.enter i.mode
        some ((s.putSite k.method.ref { i with transaction := t, callCount := count }).putCall c
          { k with phase := phase })
    else none

def drain (s : System σ κ V M) (c : Nat) : Option (System σ κ V M) :=
  match s.lookup c with
  | none => none
  | some (k, i) =>
    if k.nested ∧ k.phase = .draining ∧ i.callCount = 0 then
      some (s.putCall c { k with phase := k.enter i.mode })
    else none

/-- The first load of a state, or what the transaction already has. A reader does not
construct. -/
def load (s : System σ κ V M) (c : Nat) : Option (System σ κ V M) :=
  match s.lookup c with
  | none => none
  | some (k, i) =>
    if k.phase = .loading then
      match i.transaction.contents.state with
      | some (_, v) => some (s.putCall c { k with phase := .running, initialState := some v })
      | none =>
        match env.stored k.method.ref with
        | some v =>
          some ((s.putSite k.method.ref
            (i.withContents { i.transaction.contents with state := some (none, v) })).putCall c
            { k with phase := .running, initialState := some v })
        | none =>
          if k.method.kind = .reader then none
          else
            some ((s.putSite k.method.ref
              (i.withContents { i.transaction.contents with
                state := some (some c, env.fresh) })).putCall c
              { k with phase := .running, initialState := some env.fresh, constructor := true })
    else none

def mutate (s : System σ κ V M) (c : Nat) (value : V) : Option (System σ κ V M) :=
  match s.lookup c with
  | none => none
  | some (k, i) =>
    if k.phase = .running ∧ k.method.kind.isTransaction ∧
        i.transaction.contents.state.isSome then
      some (s.putSite k.method.ref
        (i.withContents { i.transaction.contents with state := some (some c, value) }))
    else none

end System

/-! ## Storing effects -/

/-- Tag what a call writes. -/
def tagged (c : Nat) (l : List (κ × M)) : List (κ × Nat × M) := l.map fun e => (e.1, c, e.2)

/-- The idempotent mutation of a call. -/
def mutationOf (c : Nat) (k : Call σ κ V M) (e : Effects κ V M) : List (κ × Nat × M) :=
  match k.method.idempotencyKey with
  | none => []
  | some key => [(key, c, e.response)]

/-- What the store leaves in memory. A transaction method has changed the state itself. -/
def memoryWrites (c : Nat) (k : Call σ κ V M) (e : Effects κ V M) :
    Writes κ (Option Nat × V) (Nat × M) where
  state := if k.method.kind.isTransaction then none else e.state.map fun v => (some c, v)
  tasks := tagged c e.tasks
  idempotentMutations := mutationOf c k e

/-- What the store adds to the transaction in the database. -/
def Stored.write (d : Stored κ V M) (c : Nat) (k : Call σ κ V M) (e : Effects κ V M) :
    Stored κ V M where
  state := (e.state.map fun v => (some c, v)).or d.state
  tasks := d.tasks ++ tagged c e.tasks
  idempotentMutations := (mutationOf c k e).foldl putKey d.idempotentMutations
  colocated := (tagged c e.colocatedUpserts).foldl putKey d.colocated

/-- The effects change the state, schedule a task or insert an entry, or the call
constructed the state. -/
def Call.changes (k : Call σ κ V M) (e : Effects κ V M) : Prop :=
  0 < e.tasks.length ∨ 0 < e.colocatedUpserts.length ∨
    (e.state ≠ none ∧ e.state ≠ k.initialState) ∨ k.constructor = true

instance (k : Call σ κ V M) (e : Effects κ V M) : Decidable (k.changes e) :=
  inferInstanceAs (Decidable (_ ∨ _))

omit [DecidableEq σ] [DecidableEq κ] [DecidableEq M] in
/-- `requires_exclusive` sees every change of a method. -/
theorem Call.changes_iff {k : Call σ κ V M} {e : Effects κ V M} :
    k.changes e ↔ k.constructor = true ∨ e.requiresExclusive k.initialState = true := by
  unfold Call.changes Effects.requiresExclusive
  by_cases ht : 0 < e.tasks.length
  · simp [ht]
  by_cases hu : 0 < e.colocatedUpserts.length
  · simp [ht, hu]
  rw [if_neg ht, if_neg hu]
  cases e.state with
  | none => simp [ht, hu]
  | some v =>
    cases k.initialState with
    | none => simp
    | some b => simp only [ht, hu, false_or, decide_eq_true_eq]; grind

namespace System

variable (env : Env σ V)

/-- What `_store` leaves of a participant. -/
def storedSite (c : Nat) (k : Call σ κ V M) (i : Site κ V M) (e : Effects κ V M) : Site κ V M :=
  { i.withContents (i.transaction.contents.write (memoryWrites c k e)) with
    database := if env.usingRestartDetection k.method.ref then i.database
      else i.database.write c k e }

/-- After `_store` and the end of the callback. -/
def stored (s : System σ κ V M) (c : Nat) (k : Call σ κ V M) (i : Site κ V M)
    (e : Effects κ V M) : System σ κ V M :=
  { (s.putSite k.method.ref (storedSite env c k i e)).putCall c { k with phase := .completed } with
    changes := if k.changes e then (c, k.method.ref) :: s.changes else s.changes }

/-- The tasks are new, and larger than memory collections are refused for types with
restart detection. -/
def mayStore (c : Nat) (k : Call σ κ V M) (i : Site κ V M) (e : Effects κ V M) : Bool :=
  decide (((i.transaction.contents.tasks ++ tagged c e.tasks).map (·.1)).Nodup) &&
    (!env.usingRestartDetection k.method.ref || decide (e.colocatedUpserts.length = 0))

/-- `_store`. -/
def store (s : System σ κ V M) (c : Nat) (k : Call σ κ V M) (i : Site κ V M)
    (e : Effects κ V M) : Option (System σ κ V M) :=
  if mayStore env c k i e then some (s.stored env c k i e) else none

/-- Record the participant as one to commit. -/
def markCommit (k : Call σ κ V M) : Call σ κ V M :=
  { k with participants := k.participants.add k.method.ref false }

/-- `complete`. -/
def complete (s : System σ κ V M) (c : Nat) (e : Effects κ V M) : Option (System σ κ V M) :=
  match s.lookup c with
  | none => none
  | some (k, i) =>
    if k.phase = .running then
      match k.method.kind with
      | .reader => none
      | .writer => s.store env c k i e
      | .transaction _ =>
        -- the generated code passes the live state and the response
        if e.tasks.length = 0 ∧ e.colocatedUpserts.length = 0 ∧
            e.state = i.transaction.contents.state.map (·.2) then
          if k.constructor = true ∨ e.requiresExclusive k.initialState = true then
            if i.mode = .shared then some (s.putCall c { k with phase := .upgrading (some e) })
            else s.store env c (markCommit k) i e
          else s.store env c k i e
        else none
    else none

/-- `_upgrade_lock` returns. The upgrade of a transaction declared exclusive is not
recorded in `context.participants`. -/
def upgrade (s : System σ κ V M) (c : Nat) : Option (System σ κ V M) :=
  match s.lookup c with
  | none => none
  | some (k, i) =>
    match k.phase with
    | .upgrading (some e) =>
      (s.putSite k.method.ref i.upgraded).store env c (markCommit k) i.upgraded e
    | .upgrading none =>
      some ((s.putSite k.method.ref i.upgraded).putCall c
        { (if k.method.kind = .writer then markCommit k else k) with phase := .loading })
    | _ => none

/-! ## Leaving `transactionally` -/

/-- What leaves the `try` of `transactionally`, and whether the participant is marked as
one that must abort. -/
def exitOutcome (k : Call σ κ V M) : Outcome → Outcome × Bool
  | .ok =>
    if k.outstandingRpcs ≠ [] ∨ k.unrecoverableAbort = true then (.unrecoverable, true)
    else (.ok, false)
  | .recoverable =>
    if k.unrecoverableAbort = true then (.unrecoverable, true)
    -- raised by `validate_transaction_participant` in the `except` branch
    else if k.outstandingRpcs ≠ [] then (.unrecoverable, false)
    else (.recoverable, false)
  | .unrecoverable => (.unrecoverable, true)

/-- A call may return when its work is done. -/
def mayReturn (k : Call σ κ V M) : Bool :=
  match k.method.kind with
  | .reader => decide (k.phase = .running)
  | _ => decide (k.phase = .completed)

/-- The messages of a nested transaction to all its participants but itself. -/
def relinquishments (c : Nat) (k : Call σ κ V M) (aborted : Bool) : List (Relinquish σ) :=
  (k.participants.shouldPrepare.filter fun y => decide (y ≠ k.method.ref)).map fun y =>
    ⟨y, c, aborted⟩

/-- Mark the participant as one that must abort. -/
def flagged (i : Site κ V M) (flag : Bool) : Site κ V M :=
  { i with unrecoverableAbort := i.unrecoverableAbort || flag }

/-- The root goes on to the two phases, unless its participant must abort. -/
def rootPhase (i : Site κ V M) : Outcome → Phase κ V M
  | .ok => if i.unrecoverableAbort then .returned .unrecoverable else .coordinating
  | outcome => .returned outcome

/-- After a nested transaction has given its own state back. -/
def leftNested (s : System σ κ V M) (c : Nat) (k : Call σ κ V M) (i : Site κ V M)
    (outcome : Outcome) (aborted : Bool) : System σ κ V M :=
  { (s.putSite k.method.ref i).putCall c { k with
      phase := .returned outcome
      participants := if aborted then k.participants.retainAsReadOnly else k.participants } with
    messages := s.messages ++ relinquishments c k aborted }

/-- The end of `ownership` for a nested transaction. -/
def leaveNested (s : System σ κ V M) (c : Nat) (k : Call σ κ V M) (i : Site κ V M)
    (outcome : Outcome) : Option (System σ κ V M) :=
  let aborted := decide (outcome ≠ .ok)
  if i.unrecoverableAbort then
    some ((s.putSite k.method.ref i).putCall c { k with phase := .returned outcome })
  else if aborted ∧ env.usingRestartDetection k.method.ref = false then
    some ((s.putSite k.method.ref (flagged i true)).putCall c
      { k with phase := .returned .unrecoverable })
  else
    match relinquishOwnership i.transaction c aborted with
    | none => none
    | some t => some (s.leftNested c k { i with transaction := t } outcome aborted)

/-- The method is over. A root that returned goes on to the two phases. -/
def finish (s : System σ κ V M) (c : Nat) (outcome : Outcome) : Option (System σ κ V M) :=
  match s.call c with
  | none => none
  | some k =>
    if k.phase.entered then
      if outcome = .ok ∧ mayReturn k = false then none
      else
        match s.site k.method.ref with
        | none => none
        | some i =>
          let result := (exitOutcome k outcome).1
          let i := flagged i (exitOutcome k outcome).2
          if k.nested then s.leaveNested env c k i result
          else if k.method.kind.isTransaction then
            some ((s.putSite k.method.ref i).putCall c { k with phase := rootPhase i result })
          else
            some ((s.putSite k.method.ref { i with callCount := i.callCount - 1 }).putCall c
              { k with phase := .returned result })
    else
      match k.phase with
      | .starting | .claiming | .draining =>
        -- raised before the `try`
        if outcome = .ok then none
        else some (s.putCall c { k with phase := .returned outcome })
      | _ => none

/-! ## Answers, messages and the two phases -/

/-- The call that waits for the answer of `c`, with the call `c`. -/
def waitingCaller (s : System σ κ V M) (c : Nat) : Option (Nat × Call σ κ V M × Call σ κ V M) :=
  match s.call c with
  | none => none
  | some k =>
    match k.caller with
    | none => none
    | some p =>
      match s.call p with
      | none => none
      | some kp =>
        if c ∈ kp.outstandingRpcs ∧ kp.phase.entered = true then some (p, kp, k) else none

/-- The end of `_call_transactionally`. -/
def reply (s : System σ κ V M) (c : Nat) : Option (System σ κ V M) :=
  match s.waitingCaller c with
  | none => none
  | some (p, kp, k) =>
    match k.phase with
    | .returned outcome =>
      some (s.putCall p { kp with
        participants := kp.participants.union k.participants
        unrecoverableAbort := kp.unrecoverableAbort || decide (outcome = .unrecoverable)
        outstandingRpcs := kp.outstandingRpcs.filter fun d => decide (d ≠ c) })
    | _ => none

def lose (s : System σ κ V M) (c : Nat) : Option (System σ κ V M) :=
  match s.waitingCaller c with
  | none => none
  | some (p, kp, _) =>
    some (s.putCall p { kp with
      unrecoverableAbort := true
      outstandingRpcs := kp.outstandingRpcs.filter fun d => decide (d ≠ c) })

def relinquish (s : System σ κ V M) (m : Relinquish σ) : Option (System σ κ V M) :=
  if m ∈ s.messages then
    match s.site m.ref with
    | none => none
    | some i =>
      match relinquishOwnership i.transaction m.transactionId m.aborted with
      | none => none
      | some t => some (s.putSite m.ref { i with transaction := t })
  else none

/-- The root while it is the coordinator. -/
def coordinator (s : System σ κ V M) : Option (Call σ κ V M) :=
  match s.call 0 with
  | none => none
  | some k => if k.phase = .coordinating then some k else none

/-- What `transaction_participant_prepare` sends, or has sent already. -/
def Site.toPrepare (usingRestartDetection : Bool) (i : Site κ V M) : Stored κ V M :=
  if usingRestartDetection then
    { state := if i.mode = .exclusive then i.transaction.contents.state else none
      tasks := i.transaction.contents.tasks
      idempotentMutations := i.transaction.contents.idempotentMutations
      colocated := [] }
  else i.database

/-- `Prepare`, after it has waited for ownership. A participant without effects is
released. -/
def prepare (s : System σ κ V M) (x : σ) : Option (System σ κ V M) :=
  match s.coordinator with
  | none => none
  | some k =>
    match s.site x with
    | none => none
    | some i =>
      if x ∈ k.participants.shouldPrepare ∧ i.unrecoverableAbort = false ∧
          s.prepared x = none ∧ s.released x = false ∧ isClaimableBy i.ownerIds [0] then
        if i.mode = .shared ∧ i.transaction.contents.idempotentMutations = [] ∧
            env.usingRestartDetection x = true then
          some { s with released := Function.update s.released x true }
        else
          let stored := Site.toPrepare (env.usingRestartDetection x) i
          some { s with prepared := Function.update s.prepared x (some stored) }
      else none

/-- The root commits when everybody is prepared, at once if there is nobody to commit. -/
def commit (s : System σ κ V M) : Option (System σ κ V M) :=
  match s.coordinator with
  | none => none
  | some k =>
    if k.participants.shouldCommit = [] ∨ ∀ x ∈ k.participants.shouldPrepare,
        (s.prepared x).isSome = true ∨ s.released x = true then
      some { s with committed := true }
    else none

/-- One step. -/
def step (s : System σ κ V M) : Action σ κ V M → Option (System σ κ V M)
  | .call p method => s.makeCall p method
  | .start c => s.start c
  | .acquire x => s.acquire x
  | .refuse x => s.refuse x
  | .join c => s.join env c
  | .claim c => s.claim c
  | .drain c => s.drain c
  | .upgrade c => s.upgrade env c
  | .load c => s.load env c
  | .mutate c v => s.mutate c v
  | .complete c e => s.complete env c e
  | .finish c o => s.finish env c o
  | .reply c => s.reply c
  | .lose c => s.lose c
  | .relinquish m => s.relinquish m
  | .prepare x => s.prepare env x
  | .commit => s.commit

end System

end Reboot.Txn.CallTree
