import Reboot.Client.IdempotencyManager
import Reboot.Txn.Deadlock

/-!
# A call through a stub

`aio/stubs.py`: `Stub._call` decides whether a call gets an idempotency key of its own and who
makes it: an `UnaryRetriedCall`, which sends the request again while the answer is
`UNAVAILABLE`; a `NestedTransactionUnaryRetriedCall`, which sends it again when the nested
transaction it started is to be started over; or nobody, who sends it once.

Mirroring notes:

* What a server answers to one request is an `Answer`. Besides what the client sees it says
  what became of the request: whether the method ran, whether its effects were stored, which nested
  transaction it started, and what that one told its participants when it ended. A lost response is an
  answer `UNAVAILABLE` whose effects were stored.
* A call is awaited over a list of answers, the ones that came so far; the result is the list
  of all sends, and what the caller gets if it got something yet.
* Backoffs, logging, tracing and the participants that are merged into the caller's are left
  out, and of the headers only those are kept that a retry changes or a key depends on.
-/

namespace Reboot.Client

open Reboot.Lib

/-! ## Contexts -/

inductive ContextKind where
  | external
  | initializeContext
  | workflow
  | reader
  | writer
  | transaction
deriving DecidableEq

structure Context where
  kind : ContextKind
  /-- `transaction_ids`, of a context within a transaction -/
  transactionIds : Option (List Uuid)
  react : Bool
  /-- `transaction_unrecoverable_abort is not None` -/
  unrecoverableAbort : Bool
  workflowIteration : Option Nat
deriving DecidableEq

/-- `Stub._context is None`: an `ExternalContext` is no `Context`, and an `InitializeContext` is
an `ExternalContext`. -/
def Context.isExternal (c : Context) : Bool := c.kind = .external || c.kind = .initializeContext

/-- The transaction of a context that `Stub._context` holds. -/
def Context.transaction (c : Context) : Option (List Uuid) :=
  if c.isExternal then none else c.transactionIds

/-! ## Requests and answers -/

inductive MethodKind where
  | reader
  | writer
  | transaction
  | workflow
deriving DecidableEq

structure Metadata where
  custom : List (Str × Str)
  idempotencyKey : Option Uuid
  workflowIteration : Option Nat
  transactionRetryAge : Option Uuid
deriving DecidableEq

/-- The error details that a stub looks into. -/
inductive Detail where
  | none
  /-- a declared error, or another that only a backend raises -/
  | backend
  | transactionShouldRetry (retryAge : Option Uuid)
  | nestedTransactionShouldRetry (transactionId : Uuid)
deriving DecidableEq

structure Failure where
  unavailable : Bool
  detail : Detail
deriving DecidableEq

/-- `Aborted.is_from_backend` -/
def Failure.fromBackend (f : Failure) : Bool := f.detail ≠ .none

structure Answer (P : Type) where
  result : Except Failure P
  /-- the method ran: a nested transaction may die waiting for its own state, before it does -/
  ran : Bool
  effect : Bool
  ran_of_effect : effect = true → ran = true
  started : Option Uuid
  /-- the `aborted` of the nested transaction's `RelinquishOwnership` -/
  relinquished : Option Bool

structure Send (P : Type) where
  metadata : Metadata
  answer : Answer P

/-- What an awaited call came to: its sends so far, and its outcome if it has one. -/
structure Awaited (P : Type) where
  sends : List (Send P)
  outcome : Option (Except Failure P)

variable {P : Type}

/-- The nested transaction the send belonged to has been rolled back, unless it never ran. -/
def Send.rolledBack (s : Send P) : Bool :=
  s.answer.started.isSome && (s.answer.relinquished = some true || !s.answer.ran)

/-- What the send did is there to stay. -/
def Send.lasting (s : Send P) : Bool := s.answer.effect && !s.rolledBack

/-! ## The loops -/

def Awaited.after (send : Send P) (rest : Awaited P) : Awaited P :=
  { rest with sends := send :: rest.sends }

/-- The call as `stub_method` makes it. -/
def plainCall (metadata : Metadata) : List (Answer P) → Awaited P
  | [] => ⟨[], none⟩
  | a :: _ => ⟨[⟨metadata, a⟩], some a.result⟩

/-- `_metadata_with_retry_age` -/
def Metadata.withRetryAge (m : Metadata) (retryAge : Option Uuid) : Metadata :=
  if m.transactionRetryAge.isSome then m else { m with transactionRetryAge := retryAge }

/-- The age that the call's first attempt was told, if this failure is the first to tell. -/
def learnRetryAge (retryAge : Option Uuid) (f : Failure) : Option Uuid :=
  match retryAge, f.detail with
  | none, .transactionShouldRetry age => age
  | retryAge, _ => retryAge

/-- `UnaryRetriedCall._call_with_retries` -/
def unaryRetriedCall : Metadata → Option Uuid → List (Answer P) → Awaited P
  | _, _, [] => ⟨[], none⟩
  | metadata, retryAge, a :: answers =>
    match a.result with
    | .ok _ => ⟨[⟨metadata, a⟩], some a.result⟩
    | .error f =>
      if f.unavailable then
        let retryAge := learnRetryAge retryAge f
        (unaryRetriedCall (metadata.withRetryAge retryAge) retryAge answers).after ⟨metadata, a⟩
      else ⟨[⟨metadata, a⟩], some a.result⟩

/-- `NestedTransactionUnaryRetriedCall._call_with_retries` -/
def nestedTransactionUnaryRetriedCall (transactionIds : List Uuid) (metadata : Metadata) :
    List (Answer P) → Awaited P
  | [] => ⟨[], none⟩
  | a :: answers =>
    match a.result with
    | .ok _ => ⟨[⟨metadata, a⟩], some a.result⟩
    | .error f =>
      match f.detail with
      | .nestedTransactionShouldRetry transactionId =>
        if transactionId ∈ transactionIds then ⟨[⟨metadata, a⟩], some a.result⟩
        else
          (nestedTransactionUnaryRetriedCall transactionIds metadata answers).after
            ⟨metadata, a⟩
      | _ => ⟨[⟨metadata, a⟩], some a.result⟩

/-! ## `Stub._call` -/

/-- A method as a stub calls it. -/
structure Method where
  kind : MethodKind
  clientStreaming : Bool
  serverStreaming : Bool
deriving DecidableEq

def Method.unary (m : Method) : Bool := !m.clientStreaming && !m.serverStreaming

def Method.reader (m : Method) : Bool := m.kind = .reader

/-- `IDEMPOTENCY_KEY_HEADER` -/
def idempotencyKeyHeader : Str := "x-reboot-idempotency-key".toList

inductive CallError where
  /-- the transaction can only abort -/
  | unrecoverableAbort
  /-- `Do not set '{IDEMPOTENCY_KEY_HEADER}' metadata yourself` -/
  | keyInMetadata
  /-- the assertion that calls of a workflow have a key -/
  | keyMissing
deriving DecidableEq

/-- The key a call goes out with: an external context makes one up if there is none. -/
def callKey (c : Context) (method : Method) (expiring : Uuid) (idempotencyKey : Option Uuid) :
    Option Uuid :=
  if !method.reader && c.isExternal && idempotencyKey.isNone then
    -- an `InitializeContext` leaves it to the handler around `initialize` to try again
    if c.kind = .initializeContext then none else some expiring
  else idempotencyKey

/-- `_should_call_retry_unavailable`: retries are made at the root of the calls, which is where
the stub has no context. -/
def shouldCallRetryUnavailable (c : Context) (method : Method) : Bool :=
  if method.serverStreaming then false
  else if method.clientStreaming then false
  else c.isExternal

/-- `_call`, and the `await` of what it yields. A reactive reader is called through `React`,
which is not modelled here and sends nothing through the stub. -/
def call (c : Context) (method : Method) (expiring : Uuid) (custom : List (Str × Str))
    (idempotencyKey : Option Uuid) (perIteration always : Bool) (answers : List (Answer P)) :
    Except CallError (Awaited P) :=
  if c.transaction.isSome && c.unrecoverableAbort then .error .unrecoverableAbort
  else if custom.any (fun header => header.1 = idempotencyKeyHeader) then .error .keyInMetadata
  else
    let key := callKey c method expiring idempotencyKey
    if c.kind = .workflow && !(method.reader || key.isSome || always) then .error .keyMissing
    else
      let metadata : Metadata :=
        { custom, idempotencyKey := key, transactionRetryAge := none
          workflowIteration :=
            if c.kind = .workflow && perIteration then c.workflowIteration else none }
      if !c.isExternal && c.react && method.unary && method.reader then .ok ⟨[], none⟩
      else
        match c.transaction with
        | some transactionIds =>
          if method.unary then
            .ok (nestedTransactionUnaryRetriedCall transactionIds metadata answers)
          else .ok (plainCall metadata answers)
        | none =>
          if shouldCallRetryUnavailable c method then
            .ok (unaryRetriedCall metadata none answers)
          else .ok (plainCall metadata answers)

/-! ## A generated method of a stub -/

inductive MutationOutcome (R P : Type) where
  | refused (e : IdempotencyError R)
  | notMade (e : CallError)
  | made (outcome : Option (Except Failure P))

/-- What becomes of one awaited mutation: the manager afterwards, the sends and the outcome. -/
structure Mutation (R P : Type) where
  manager : Manager R
  sends : List (Send P)
  outcome : MutationOutcome R P

/-- A writer, transaction or workflow method of a generated stub: `_call` within
`idempotently`. -/
def mutate {R : Type} [DecidableEq R] (c : Context) (m : Manager R) (env : Env) (rpc : Rpc R)
    (method : Method) (idempotency : Option Idempotency) (answers : List (Answer P)) :
    Mutation R P :=
  match m.idempotently env rpc idempotency with
  | (m, .error e) => ⟨m, [], .refused e⟩
  | (m, .ok key) =>
    let perIteration := idempotency.elim false Idempotency.perIteration
    let always := idempotency.elim false Idempotency.always
    match call c method env.expiring rpc.metadata key perIteration always answers with
    | .error e => ⟨m.failed rpc false, [], .notMade e⟩
    | .ok awaited =>
      match awaited.outcome with
      | some (.error f) => ⟨m.failed rpc f.fromBackend, awaited.sends, .made awaited.outcome⟩
      | _ => ⟨m, awaited.sends, .made awaited.outcome⟩

/-! ## What a server answers within a transaction -/

/-- How a nested transaction is left (`ownership` and `transactionally`): what is raised
further, and what its participants are told. -/
def leaveNested (unrecoverableAbort usingRestartDetection : Bool) (raised : Option Failure) :
    Option Failure × Option Bool :=
  match raised with
  | none => (none, some false)
  | some f =>
    -- the abort that dooms the transaction is raised instead
    if unrecoverableAbort then (some ⟨false, .none⟩, none)
    else if !usingRestartDetection then (some ⟨false, .none⟩, none)
    else (some f, some true)

/-- A method that runs with `transactionIds` ends with `NestedTransactionShouldRetry` for `id`.
The readers and writers it calls run with the same ids, so what they raise is the first rule's. -/
inductive Raises : List Uuid → Uuid → Prop
  /-- it waited for a state too long, or somebody it called with the same ids did -/
  | waiting {transactionIds ownerIds : List Uuid} {id : Uuid}
      (h : Txn.presumedDeadlockedNestedTransaction transactionIds ownerIds = some (some id)) :
      Raises transactionIds id
  /-- a nested transaction `n` that it called raised it, and the stub did not send again -/
  | nested {transactionIds : List Uuid} {id n : Uuid} (h : Raises (transactionIds ++ [n]) id)
      (hmem : id ∈ transactionIds) : Raises transactionIds id

/-- The answer names `id` as the nested transaction to start over. -/
def Answer.Names (a : Answer P) (id : Uuid) : Prop :=
  ∃ f, a.result = .error f ∧ f.detail = .nestedTransactionShouldRetry id

/-- `claim_ownership` raises: the nested transaction did not get its own state, and has nothing to
relinquish. -/
def DiesWaiting (transactionIds : List Uuid) (id : Uuid) (a : Answer P) : Prop :=
  a.ran = false ∧ a.relinquished = none ∧
    ∃ ownerIds, Txn.presumedDeadlockedNestedTransaction transactionIds ownerIds = some (some id)

/-- What can be answered to a request of a context with `transactionIds`: everything, except that
`NestedTransactionShouldRetry` is raised where and as the servers raise it. -/
def Served (transactionIds : List Uuid) (method : Method) (a : Answer P) : Prop :=
  ∀ id, a.Names id →
    if method.kind = .transaction then
      ∃ n, a.started = some n ∧ (DiesWaiting (transactionIds ++ [n]) id a ∨
        ∃ unrecoverableAbort usingRestartDetection raised,
          Raises (transactionIds ++ [n]) id ∧
            leaveNested unrecoverableAbort usingRestartDetection (some raised) =
              (some ⟨raised.unavailable, .nestedTransactionShouldRetry id⟩, a.relinquished))
    else Raises transactionIds id

/-- The answers that can come to the calls of a context. -/
def Possible (c : Context) (method : Method) (answers : List (Answer P)) : Prop :=
  ∀ transactionIds ∈ c.transaction, ∀ a ∈ answers, Served transactionIds method a

end Reboot.Client
