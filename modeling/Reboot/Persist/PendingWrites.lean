import Mathlib.Logic.Function.Basic
import Reboot.Names
import Reboot.Persist.MutationKeys

/-!
# What a failing Store leaves behind

`Store` (`reboot/server/database.cc`) applies the upserts of a request one after another, and the
comments of `Apply` say why it stops at the first error: "Since the goal is to make all these
updates atomically we must fail if we run into any errors."

Outside of a transaction the updates go into a `WriteBatch` of the call, and a call that fails
throws it away. Inside a transaction they go into the RocksDB
transaction that is open for the state, and what was put there before the error stays there, to
be committed by a later prepare. The same holds of the record that the state takes part in the
transaction: it is stored before the transaction is begun, and stays if that fails.

Mirroring notes:
- The bodies of the loops of `Apply` are lists of steps, and `runSteps` runs them up to the first
  that fails. A `std::string` is a list of characters, one for each byte.
- `Rocks` is RocksDB during the call: which of its operations fail, and how. A `Put` or `Delete`
  that fails adds nothing to the transaction or batch.
- `SerializeToString` and `ShortDebugString` are parameters (`Protobuf`), as is
  `UUID::fromBytes(..)->toString()`. A task and a mutation have the fields that keys are made of;
  what else is in them is their `payload`.
- A failed `CHECK`, an empty `transaction_ids`, and a handle that is used though there is none end
  the process (`Ending.crashed`).
- What is committed is the list of batches; the upserts that are pending are in their order.
-/

namespace Reboot.Persist.Pending

open Reboot.Lib

/-! ## Messages -/

/-- `Actor`. -/
structure Actor where
  stateType : Str
  stateRef : Str
  state : Option Str
  deriving DecidableEq

/-- `Task`. -/
structure Task where
  stateType : Str
  taskId : TaskId
  status : TaskStatus
  payload : Str
  deriving DecidableEq

/-- `ColocatedUpsert`; without a value the key is deleted. -/
structure ColocatedUpsert where
  stateType : Str
  key : Str
  value : Option Str
  deriving DecidableEq

/-- `IdempotentMutation`. -/
structure IdempotentMutation where
  stateType : Str
  id : MutationId
  payload : Str
  deriving DecidableEq

/-- `Transaction`; the ids from the root on. -/
structure Transaction where
  stateType : Str
  stateRef : Str
  transactionIds : List Str
  payload : Str
  deriving DecidableEq

/-- `StoreRequest`. -/
structure StoreRequest where
  actorUpserts : List Actor
  taskUpserts : List Task
  colocatedUpserts : List ColocatedUpsert
  transaction : Option Transaction
  idempotentMutation : Option IdempotentMutation
  ensureStateTypesCreated : List Str
  deriving DecidableEq

/-- `SerializeToString`, and `ShortDebugString` of a task. -/
structure Protobuf where
  task : Task → Option Str
  taskDebugString : Task → Str
  idempotentMutation : IdempotentMutation → Option Str
  transaction : Transaction → Option Str

/-! ## The database -/

/-- A `Put`, or without a value a `Delete`. -/
structure Write where
  columnFamily : Str
  key : Str
  value : Option Str
  deriving DecidableEq

/-- A `rocksdb::Transaction` that is open. -/
structure RocksTransaction where
  name : Str
  writes : List Write
  deriving DecidableEq

/-- The names of the column families, the transactions that are open by state ref, the stored
participant records by key, and what was committed. -/
structure Database where
  columnFamilies : List Str
  txns : Str → Option RocksTransaction
  participants : Str → Option Str
  committed : List (List Write)

/-- RocksDB during a call: the error of each of its operations, if it fails. The writes to a batch
or transaction are numbered. -/
structure Rocks where
  createColumnFamily : Str → Option Str
  write : Nat → Option Str
  putParticipant : Option Str
  beginTransaction : Bool
  setName : Option Str
  writeBatch : Option Str

/-- How a call ends. -/
inductive Ending
  | ok
  | failed (message : Str)
  | crashed
  deriving DecidableEq

/-! ## Apply -/

/-- The elementary steps of the loops of `Apply`. -/
inductive Step
  /-- `LookupOrCreateColumnFamilyHandle`, with its error handed on -/
  | lookupOrCreate (stateType : Str)
  /-- the same, with the handle used whether there is one or not -/
  | lookupOrCreateUnchecked (stateType : Str)
  /-- `batch.Put` or `batch.Delete` -/
  | write (w : Write)
  | fail (message : Str)
  | crash
  deriving DecidableEq

def actorSteps (actor : Actor) : List Step :=
  match actor.state with
  | none => [.fail ("Actor '".toList ++ actor.stateRef ++ "' missing state to store".toList)]
  | some state =>
    [.lookupOrCreate actor.stateType,
      .write ⟨actor.stateType, makeActorStateKey actor.stateRef, some state⟩]

def colocatedSteps (cup : ColocatedUpsert) : List Step :=
  [.lookupOrCreateUnchecked cup.stateType,
    .write ⟨cup.stateType, makeActorStateKey cup.key, cup.value⟩]

section

variable (uuidToString : Str → Except Str Str) (pb : Protobuf)

def taskSteps (task : Task) : List Step :=
  .lookupOrCreate task.stateType ::
    if task.status = .unknown then [.crash]
    else match pb.task task with
      | none => [.fail ("Failed to serialize task: ".toList ++ pb.taskDebugString task)]
      | some serializedTask =>
        .write ⟨task.stateType, makeTaskKey task.status task.taskId, some serializedTask⟩ ::
          if task.status = .completed then
            [.write ⟨task.stateType, makeTaskKey .pending task.taskId, none⟩]
          else []

def mutationSteps (mutation : IdempotentMutation) : List Step :=
  .lookupOrCreate mutation.stateType ::
    match mutation.id.rocksKey uuidToString with
    | .error .checkFailed => [.crash]
    | .error (.unexpected error) => [.fail error]
    | .ok key =>
      match pb.idempotentMutation mutation with
      | none => [.fail "Failed to serialize 'IdempotentMutation'".toList]
      | some bytes => [.write ⟨mutation.stateType, key, some bytes⟩]

/-- The steps of `Apply`. -/
def applySteps (request : StoreRequest) : List Step :=
  request.actorUpserts.flatMap actorSteps ++
    request.taskUpserts.flatMap (taskSteps pb) ++
    request.colocatedUpserts.flatMap colocatedSteps ++
    request.idempotentMutation.toList.flatMap (mutationSteps uuidToString pb) ++
    request.ensureStateTypesCreated.map Step.lookupOrCreate

end

/-- What a run of steps leaves: the column families, and the batch or transaction it wrote to. -/
structure Applied where
  columnFamilies : List Str
  writes : List Write
  ending : Ending

/-- `LookupOrCreateColumnFamilyHandle`: the column families, or the error. -/
def lookupOrCreateColumnFamilyHandle (rocks : Rocks) (columnFamilies : List Str)
    (stateType : Str) : Except Str (List Str) :=
  if stateType ∈ columnFamilies then .ok columnFamilies
  else match rocks.createColumnFamily stateType with
    | some status => .error ("Failed to create column family for state type '".toList ++ stateType
        ++ "': ".toList ++ status)
    | none => .ok (columnFamilies ++ [stateType])

/-- The steps up to the first that fails; `n` writes were made before. -/
def runSteps (rocks : Rocks) : List Step → Nat → List Str → List Write → Applied
  | [], _, columnFamilies, writes => ⟨columnFamilies, writes, .ok⟩
  | .lookupOrCreate stateType :: rest, n, columnFamilies, writes =>
    match lookupOrCreateColumnFamilyHandle rocks columnFamilies stateType with
    | .error error => ⟨columnFamilies, writes, .failed error⟩
    | .ok columnFamilies' => runSteps rocks rest n columnFamilies' writes
  | .lookupOrCreateUnchecked stateType :: rest, n, columnFamilies, writes =>
    match lookupOrCreateColumnFamilyHandle rocks columnFamilies stateType with
    | .error _ => ⟨columnFamilies, writes, .crashed⟩
    | .ok columnFamilies' => runSteps rocks rest n columnFamilies' writes
  | .write w :: rest, n, columnFamilies, writes =>
    match rocks.write n with
    | some status => ⟨columnFamilies, writes, .failed status⟩
    | none => runSteps rocks rest (n + 1) columnFamilies (writes ++ [w])
  | .fail message :: _, _, columnFamilies, writes => ⟨columnFamilies, writes, .failed message⟩
  | .crash :: _, _, columnFamilies, writes => ⟨columnFamilies, writes, .crashed⟩

/-! ## Validation -/

/-- `CheckAllUpsertsForSameActor` for upserts in a row, from the first actor that was seen: the
first actor seen after them, or nothing if one of them is for another. -/
def checkAllUpsertsForSameActor : Option (Str × Str) → List (Str × Str) →
    Option (Option (Str × Str))
  | seen, [] => some seen
  | none, a :: rest => checkAllUpsertsForSameActor (some a) rest
  | some first, a :: rest =>
    if first = a then checkAllUpsertsForSameActor (some first) rest else none

/-- `ValidateTransactionalStore`: the error, if there is one. -/
def validateTransactionalStore (request : StoreRequest) : Option Str :=
  match checkAllUpsertsForSameActor none
      (request.actorUpserts.map fun a => (a.stateType, a.stateRef)) with
  | none =>
    some "All actor upserts within a transaction must be for the same actor".toList
  | some seen =>
    match checkAllUpsertsForSameActor seen
        (request.taskUpserts.map fun t => (t.stateType, t.taskId.stateRef)) with
    | none => some "All task upserts within a transaction must be for the same actor".toList
    | some _ => none

/-- `ValidateNonTransactionalStore`, with `HasTransaction`. -/
def validateNonTransactionalStore (db : Database) (request : StoreRequest) : Option Str :=
  if (request.actorUpserts.any fun a => (db.txns a.stateRef).isSome) ||
      request.taskUpserts.any fun t => (db.txns t.taskId.stateRef).isSome then
    some "Attempt to store outside of a transaction while there is an ongoing transaction".toList
  else none

/-! ## Transactions -/

/-- `MakeTransactionName`. -/
def makeTransactionName (stateRef transactionId : Str) : Str :=
  stateRef ++ ':' :: transactionId

/-- `MakeTransactionParticipantKey`. -/
def makeTransactionParticipantKey (stateType stateRef : Str) : Str :=
  "transaction-participant:".toList ++ stateType ++ ':' :: stateRef

/-- `TransactionIdFromBytes`. -/
def transactionIdFromBytes (bytes : Str) : Except Str Str :=
  if bytes.length ≠ 16 then
    .error ("Invalid transaction ID: expected 16 bytes, got ".toList ++
      Nat.toDigits 10 bytes.length)
  else
    let hex := bytes.flatMap hexByte
    .ok (hex.take 8 ++ '-' :: (hex.drop 8).take 4 ++ '-' :: (hex.drop 12).take 4 ++
      '-' :: (hex.drop 16).take 4 ++ '-' :: hex.drop 20)

/-- `GetTransactionId`: what stands behind the last colon of a name. -/
def getTransactionId (name : Str) : Str :=
  (name.reverse.takeWhile fun c => decide (c ≠ ':')).reverse

section

variable (pb : Protobuf) (rocks : Rocks)

/-- `LookupOrBeginTransaction`, with the participant stored: the database, and the transaction or
how the call ends. -/
def lookupOrBeginTransaction (db : Database) (transaction : Transaction) :
    Database × Except Ending RocksTransaction :=
  match transaction.transactionIds with
  | [] => (db, .error .crashed)
  | bytes :: _ =>
    match transactionIdFromBytes bytes with
    | .error error =>
      (db, .error (.failed ("Failed to lookup or begin transaction for state type '".toList ++
        transaction.stateType ++ "' actor '".toList ++ transaction.stateRef ++ "': ".toList ++
        error)))
    | .ok transactionId =>
      let name := makeTransactionName transaction.stateRef transactionId
      let failedToBegin := "Failed to begin transaction '".toList ++ transactionId
      match db.txns transaction.stateRef with
      | some txn =>
        if txn.name = name then (db, .ok txn)
        else (db, .error (.failed (failedToBegin ++ "' for state type '".toList ++
          transaction.stateType ++ "' actor '".toList ++ transaction.stateRef ++
          "' as transaction '".toList ++ getTransactionId txn.name ++
          "' has already begun".toList)))
      | none =>
        match pb.transaction transaction with
        | none => (db, .error (.failed (failedToBegin ++ "': Failed to serialize".toList)))
        | some data =>
          match rocks.putParticipant with
          | some status => (db, .error (.failed (failedToBegin ++ "': ".toList ++ status)))
          | none =>
            -- persisted before the transaction is begun, and not taken back if that fails
            let key := makeTransactionParticipantKey transaction.stateType transaction.stateRef
            let db' := { db with participants := Function.update db.participants key (some data) }
            if rocks.beginTransaction then
              match rocks.setName with
              | some status => (db', .error (.failed (failedToBegin ++ "': ".toList ++ status)))
              | none =>
                let txn := RocksTransaction.mk name []
                ({ db' with txns := Function.update db.txns transaction.stateRef (some txn) },
                  .ok txn)
            else
              (db', .error (.failed (failedToBegin ++ "': Unknown rocksdb failure".toList)))

/-! ## Store -/

variable (uuidToString : Str → Except Str Str)

/-- An error with the text in front that the caller puts there. -/
def Ending.prepend (text : String) : Ending → Ending
  | .failed error => .failed (text.toList ++ error)
  | ending => ending

/-- `Store`. -/
def store (db : Database) (request : StoreRequest) : Database × Ending :=
  let steps := applySteps uuidToString pb request
  match request.transaction with
  | some transaction =>
    match validateTransactionalStore request with
    | some error => (db, .failed ("Failed to store: ".toList ++ error))
    | none =>
      match lookupOrBeginTransaction pb rocks db transaction with
      | (db', .error ending) => (db', ending.prepend "Failed to store: ")
      | (db', .ok txn) =>
        let applied := runSteps rocks steps 0 db'.columnFamilies txn.writes
        ({ db' with
            columnFamilies := applied.columnFamilies
            txns := Function.update db'.txns transaction.stateRef
              (some { txn with writes := applied.writes }) },
          applied.ending.prepend "Failed to update batch: ")
  | none =>
    match validateNonTransactionalStore db request with
    | some error => (db, .failed ("Failed to store: ".toList ++ error))
    | none =>
      let applied := runSteps rocks steps 0 db.columnFamilies []
      let db' := { db with columnFamilies := applied.columnFamilies }
      match applied.ending with
      | .ok =>
        match rocks.writeBatch with
        | none => ({ db' with committed := db.committed ++ [applied.writes] }, .ok)
        | some status => (db', .failed ("Failed to store: ".toList ++ status))
      | ending => (db', ending.prepend "Failed to update batch: ")

end

/-! ## Outside of a transaction -/

section

variable {uuidToString : Str → Except Str Str} {pb : Protobuf} {rocks : Rocks}

/-! ## What a run of steps has written -/

/-- A step that neither fails nor writes. -/
def Step.Passes (rocks : Rocks) (columnFamilies : List Str) : Step → Prop
  | .lookupOrCreate t | .lookupOrCreateUnchecked t =>
    t ∈ columnFamilies ∨ rocks.createColumnFamily t = none
  | _ => False

/-- The first write is reached, and succeeds. -/
def Writes (rocks : Rocks) (columnFamilies : List Str) (steps : List Step) : Prop :=
  ∃ front w rest, steps = front ++ .write w :: rest ∧
    (∀ step ∈ front, step.Passes rocks columnFamilies) ∧ rocks.write 0 = none

theorem lookupOrCreate_ok_iff {columnFamilies columnFamilies' : List Str} {t : Str}
    (h : lookupOrCreateColumnFamilyHandle rocks columnFamilies t = .ok columnFamilies') :
    (t ∈ columnFamilies ∨ rocks.createColumnFamily t = none) ∧
      ∀ step : Step, step.Passes rocks columnFamilies' ↔ step.Passes rocks columnFamilies := by
  unfold lookupOrCreateColumnFamilyHandle at h
  split at h
  next hmem =>
    cases h
    exact ⟨.inl hmem, fun _ => Iff.rfl⟩
  next =>
    split at h
    next => cases h
    next hcreate =>
      cases h
      refine ⟨.inr hcreate, fun step => ?_⟩
      -- a family that was created could be created
      have hiff : ∀ t', t' ∈ columnFamilies ++ [t] ∨ rocks.createColumnFamily t' = none ↔
          t' ∈ columnFamilies ∨ rocks.createColumnFamily t' = none := by
        intro t'
        rw [List.mem_append, List.mem_singleton]
        constructor
        · rintro ((hmem | rfl) | hnone)
          · exact .inl hmem
          · exact .inr hcreate
          · exact .inr hnone
        · rintro (hmem | hnone)
          · exact .inl (.inl hmem)
          · exact .inr hnone
      cases step with
      | lookupOrCreate t' => exact hiff t'
      | lookupOrCreateUnchecked t' => exact hiff t'
      | write w => exact Iff.rfl
      | fail message => exact Iff.rfl
      | crash => exact Iff.rfl

theorem lookupOrCreate_error {columnFamilies : List Str} {t error : Str}
    (h : lookupOrCreateColumnFamilyHandle rocks columnFamilies t = .error error) :
    ¬ (t ∈ columnFamilies ∨ rocks.createColumnFamily t = none) := by
  unfold lookupOrCreateColumnFamilyHandle at h
  split at h
  next => cases h
  next hmem =>
    split at h
    next status hcreate =>
      rintro (hin | hnone)
      · exact hmem hin
      · rw [hnone] at hcreate
        cases hcreate
    next => cases h

/-- A step in front that does not write decides whether the write behind it is reached. -/
theorem writes_cons_iff {columnFamilies : List Str} {rest : List Step} (step : Step)
    (hstep : ∀ w, step ≠ .write w) :
    Writes rocks columnFamilies (step :: rest) ↔
      step.Passes rocks columnFamilies ∧ Writes rocks columnFamilies rest := by
  constructor
  · rintro ⟨front, w, rest', heq, hpass, hwrite⟩
    cases front with
    | nil =>
      cases heq
      exact absurd rfl (hstep w)
    | cons step' front =>
      cases heq
      rw [List.forall_mem_cons] at hpass
      exact ⟨hpass.1, front, w, rest', rfl, hpass.2, hwrite⟩
  · rintro ⟨hpasses, front, w, rest', rfl, hpass, hwrite⟩
    exact ⟨step :: front, w, rest', rfl, List.forall_mem_cons.mpr ⟨hpasses, hpass⟩, hwrite⟩

theorem writes_congr {cf cf' : List Str} {steps : List Step}
    (h : ∀ step : Step, step.Passes rocks cf' ↔ step.Passes rocks cf) :
    Writes rocks cf' steps ↔ Writes rocks cf steps := by
  unfold Writes
  simp only [h]

/-- Writes are only ever added. -/
theorem length_runSteps_ge : ∀ (steps : List Step) (n : Nat) (columnFamilies : List Str)
    (writes : List Write),
    writes.length ≤ (runSteps rocks steps n columnFamilies writes).writes.length
  | [], _, _, _ => Nat.le_refl _
  | .lookupOrCreate t :: rest, n, columnFamilies, writes => by
    rw [runSteps]
    split
    next => exact Nat.le_refl _
    next cf' _ => exact length_runSteps_ge rest n cf' writes
  | .lookupOrCreateUnchecked t :: rest, n, columnFamilies, writes => by
    rw [runSteps]
    split
    next => exact Nat.le_refl _
    next cf' _ => exact length_runSteps_ge rest n cf' writes
  | .write w :: rest, n, columnFamilies, writes => by
    rw [runSteps]
    split
    next => exact Nat.le_refl _
    next =>
      have hrest := length_runSteps_ge rest (n + 1) columnFamilies (writes ++ [w])
      rw [List.length_append, List.length_singleton] at hrest
      exact Nat.le_of_succ_le hrest
  | .fail _ :: _, _, _, _ => Nat.le_refl _
  | .crash :: _, _, _, _ => Nat.le_refl _

/-- A run leaves its batch or transaction as it was exactly if it makes no write. -/
theorem runSteps_writes_eq_iff (writes : List Write) : ∀ (steps : List Step)
    (columnFamilies : List Str),
    (runSteps rocks steps 0 columnFamilies writes).writes = writes ↔
      ¬ Writes rocks columnFamilies steps
  | [], columnFamilies => by
    refine iff_of_true rfl ?_
    rintro ⟨front, w, rest, heq, -⟩
    exact List.cons_ne_nil _ _ (List.append_eq_nil_iff.mp heq.symm).2
  | .lookupOrCreate t :: rest, columnFamilies => by
    rw [runSteps, writes_cons_iff (.lookupOrCreate t) nofun]
    split
    next error herror => exact iff_of_true rfl fun h => lookupOrCreate_error herror h.1
    next cf' hok =>
      obtain ⟨hpasses, hcongr⟩ := lookupOrCreate_ok_iff hok
      rw [runSteps_writes_eq_iff writes rest cf', writes_congr hcongr]
      exact not_congr ⟨fun h => ⟨hpasses, h⟩, fun h => h.2⟩
  | .lookupOrCreateUnchecked t :: rest, columnFamilies => by
    rw [runSteps, writes_cons_iff (.lookupOrCreateUnchecked t) nofun]
    split
    next error herror => exact iff_of_true rfl fun h => lookupOrCreate_error herror h.1
    next cf' hok =>
      obtain ⟨hpasses, hcongr⟩ := lookupOrCreate_ok_iff hok
      rw [runSteps_writes_eq_iff writes rest cf', writes_congr hcongr]
      exact not_congr ⟨fun h => ⟨hpasses, h⟩, fun h => h.2⟩
  | .write w :: rest, columnFamilies => by
    rw [runSteps]
    split
    next status hstatus =>
      refine iff_of_true rfl ?_
      rintro ⟨-, -, -, -, -, hwrite⟩
      rw [hwrite] at hstatus
      cases hstatus
    next hwrite =>
      refine iff_of_false (fun heq => ?_) (not_not.mpr ⟨[], w, rest, rfl, nofun, hwrite⟩)
      have hlen := @length_runSteps_ge rocks rest 1 columnFamilies (writes ++ [w])
      rw [heq, List.length_append, List.length_singleton] at hlen
      omega
  | .fail message :: rest, columnFamilies => by
    rw [writes_cons_iff (.fail message) nofun]
    exact iff_of_true rfl fun h => h.1
  | .crash :: rest, columnFamilies => by
    rw [writes_cons_iff .crash nofun]
    exact iff_of_true rfl fun h => h.1

/-! ## What looking up or beginning a transaction does -/

/-- The id of the root transaction, if it is one. -/
def rootId (transaction : Transaction) : Option Str :=
  transaction.transactionIds.head?.bind fun bytes => (transactionIdFromBytes bytes).toOption

/-- The key of the participant record of a transaction. -/
def participantKey (transaction : Transaction) : Str :=
  makeTransactionParticipantKey transaction.stateType transaction.stateRef

/-- The transaction is open already. -/
def IsOpen (db : Database) (transaction : Transaction) : Prop :=
  ∃ id txn, rootId transaction = some id ∧ db.txns transaction.stateRef = some txn ∧
    txn.name = makeTransactionName transaction.stateRef id

/-- The record of the participant gets stored. -/
structure Records (pb : Protobuf) (rocks : Rocks) (db : Database) (transaction : Transaction)
    (data : Str) : Prop where
  absent : db.txns transaction.stateRef = none
  root : (rootId transaction).isSome
  serialized : pb.transaction transaction = some data
  put : rocks.putParticipant = none

/-- RocksDB begins a transaction and lets it be named. -/
def Begins (rocks : Rocks) : Prop := rocks.beginTransaction = true ∧ rocks.setName = none

/-- Looking up or beginning a transaction ends in one of four ways. -/
theorem lookupOrBegin_cases (db : Database) (transaction : Transaction) :
    (∃ txn, db.txns transaction.stateRef = some txn ∧ IsOpen db transaction ∧
      lookupOrBeginTransaction pb rocks db transaction = (db, .ok txn)) ∨
    (∃ id data, rootId transaction = some id ∧ Records pb rocks db transaction data ∧
      Begins rocks ∧
      lookupOrBeginTransaction pb rocks db transaction =
        ({ db with
            txns := Function.update db.txns transaction.stateRef
              (some ⟨makeTransactionName transaction.stateRef id, []⟩)
            participants := Function.update db.participants (participantKey transaction)
              (some data) },
          .ok ⟨makeTransactionName transaction.stateRef id, []⟩)) ∨
    (∃ data ending, Records pb rocks db transaction data ∧ ¬ Begins rocks ∧
      lookupOrBeginTransaction pb rocks db transaction =
        ({ db with
            participants := Function.update db.participants (participantKey transaction)
              (some data) },
          .error ending)) ∨
    (∃ ending, ¬ IsOpen db transaction ∧ (∀ data, ¬ Records pb rocks db transaction data) ∧
      lookupOrBeginTransaction pb rocks db transaction = (db, .error ending)) := by
  unfold lookupOrBeginTransaction
  cases hids : transaction.transactionIds with
  | nil =>
    have hroot : rootId transaction = none := by rw [rootId, hids]; rfl
    refine .inr (.inr (.inr ⟨_, ?_, ?_, rfl⟩))
    · rintro ⟨id, txn, hid, -⟩
      rw [hroot] at hid
      cases hid
    · intro data hrecords
      have hsome := hrecords.root
      rw [hroot] at hsome
      cases hsome
  | cons bytes ids =>
    have hroot : rootId transaction = (transactionIdFromBytes bytes).toOption := by
      rw [rootId, hids]
      rfl
    dsimp only
    cases hid : transactionIdFromBytes bytes with
    | error error =>
      rw [hid] at hroot
      refine .inr (.inr (.inr ⟨_, ?_, ?_, rfl⟩))
      · rintro ⟨id, txn, hid, -⟩
        rw [hroot] at hid
        cases hid
      · intro data hrecords
        have hsome := hrecords.root
        rw [hroot] at hsome
        cases hsome
    | ok id =>
      rw [hid] at hroot
      have hroot : rootId transaction = some id := hroot
      dsimp only
      cases htxn : db.txns transaction.stateRef with
      | some txn =>
        dsimp only
        by_cases hname : txn.name = makeTransactionName transaction.stateRef id
        · rw [if_pos hname]
          exact .inl ⟨txn, rfl, ⟨id, txn, hroot, htxn, hname⟩, rfl⟩
        · rw [if_neg hname]
          refine .inr (.inr (.inr ⟨_, ?_, ?_, rfl⟩))
          · rintro ⟨id', txn', hid', htxn', hname'⟩
            rw [hroot] at hid'
            rw [htxn] at htxn'
            cases hid'
            cases htxn'
            exact hname hname'
          · intro data hrecords
            have habsent := hrecords.absent
            rw [htxn] at habsent
            cases habsent
      | none =>
        dsimp only
        have hclosed : ¬ IsOpen db transaction := by
          rintro ⟨id', txn', -, htxn', -⟩
          rw [htxn] at htxn'
          cases htxn'
        cases hdata : pb.transaction transaction with
        | none =>
          refine .inr (.inr (.inr ⟨_, hclosed, fun data hrecords => ?_, rfl⟩))
          have hserialized := hrecords.serialized
          rw [hdata] at hserialized
          cases hserialized
        | some data =>
          dsimp only
          cases hput : rocks.putParticipant with
          | some status =>
            refine .inr (.inr (.inr ⟨_, hclosed, fun data' hrecords => ?_, rfl⟩))
            have hput' := hrecords.put
            rw [hput] at hput'
            cases hput'
          | none =>
            have hrecords : Records pb rocks db transaction data :=
              ⟨htxn, by rw [hroot]; rfl, hdata, hput⟩
            dsimp only
            by_cases hbegin : rocks.beginTransaction = true
            · rw [if_pos hbegin]
              cases hname : rocks.setName with
              | none =>
                exact .inr (.inl ⟨id, data, hroot, hrecords, ⟨hbegin, hname⟩, rfl⟩)
              | some status =>
                refine .inr (.inr (.inl ⟨data, _, hrecords, fun hbegins => ?_, rfl⟩))
                rw [Begins, hname] at hbegins
                cases hbegins.2
            · rw [if_neg hbegin]
              exact .inr (.inr (.inl ⟨data, _, hrecords, fun hbegins => hbegin hbegins.1, rfl⟩))

/-! ## Inside a transaction -/

/-- The pending writes, the open transactions and the participant records are what they were,
except that the transaction may have been begun. -/
def Undisturbed (pb : Protobuf) (db db' : Database) (transaction : Transaction) : Prop :=
  (db'.txns = db.txns ∧ db'.participants = db.participants) ∨
  ∃ id data, rootId transaction = some id ∧ db.txns transaction.stateRef = none ∧
    pb.transaction transaction = some data ∧
    db'.txns = Function.update db.txns transaction.stateRef
      (some ⟨makeTransactionName transaction.stateRef id, []⟩) ∧
    db'.participants = Function.update db.participants (participantKey transaction) (some data)

/-- The record is stored, where there was none or another, and the transaction is not begun. -/
def HalfBegun (pb : Protobuf) (rocks : Rocks) (db : Database) (transaction : Transaction) : Prop :=
  ∃ data, Records pb rocks db transaction data ∧ ¬ Begins rocks ∧
    db.participants (participantKey transaction) ≠ some data

/-- The transaction is open or begun, and the first write of the request is made. -/
def StartsWriting (uuidToString : Str → Except Str Str) (pb : Protobuf) (rocks : Rocks)
    (db : Database) (request : StoreRequest) (transaction : Transaction) : Prop :=
  (IsOpen db transaction ∨ (∃ data, Records pb rocks db transaction data) ∧ Begins rocks) ∧
    Writes rocks db.columnFamilies (applySteps uuidToString pb request)

/-- The transaction that was open is left as it was exactly if nothing was written to it. -/
theorem undisturbed_open_iff {db db' : Database} {transaction : Transaction}
    {txn : RocksTransaction} {writes : List Write}
    (hopen : db.txns transaction.stateRef = some txn)
    (htxns : db'.txns = Function.update db.txns transaction.stateRef
      (some { txn with writes := writes }))
    (hparticipants : db'.participants = db.participants) :
    Undisturbed pb db db' transaction ↔ writes = txn.writes := by
  constructor
  · rintro (⟨hsame, -⟩ | ⟨id, data, -, habsent, -⟩)
    · have hat := congrFun (htxns.symm.trans hsame) transaction.stateRef
      rw [Function.update_self, hopen] at hat
      exact congrArg RocksTransaction.writes (Option.some.inj hat)
    · rw [habsent] at hopen
      cases hopen
  · rintro rfl
    refine .inl ⟨?_, hparticipants⟩
    rw [htxns]
    exact Function.update_eq_self_iff.mpr hopen.symm

/-- A transaction that was begun is left as it was begun exactly if nothing was written to it. -/
theorem undisturbed_begun_iff {db db' : Database} {transaction : Transaction} {id data : Str}
    {writes : List Write} (hid : rootId transaction = some id)
    (hrecords : Records pb rocks db transaction data)
    (htxns : db'.txns = Function.update db.txns transaction.stateRef
      (some ⟨makeTransactionName transaction.stateRef id, writes⟩))
    (hparticipants : db'.participants =
      Function.update db.participants (participantKey transaction) (some data)) :
    Undisturbed pb db db' transaction ↔ writes = [] := by
  have hat : db'.txns transaction.stateRef =
      some ⟨makeTransactionName transaction.stateRef id, writes⟩ := by
    rw [htxns, Function.update_self]
  constructor
  · rintro (⟨hsame, -⟩ | ⟨id', data', -, -, -, htxns', -⟩)
    · rw [hsame, hrecords.absent] at hat
      cases hat
    · rw [htxns', Function.update_self] at hat
      exact (congrArg RocksTransaction.writes (Option.some.inj hat)).symm
  · rintro rfl
    exact .inr ⟨id, data, hid, hrecords.absent, hrecords.serialized, htxns, hparticipants⟩

/-- A record without its transaction is a disturbance unless it was there before. -/
theorem undisturbed_half_iff {db db' : Database} {transaction : Transaction} {data : Str}
    (hrecords : Records pb rocks db transaction data) (htxns : db'.txns = db.txns)
    (hparticipants : db'.participants =
      Function.update db.participants (participantKey transaction) (some data)) :
    Undisturbed pb db db' transaction ↔
      db.participants (participantKey transaction) = some data := by
  constructor
  · rintro (⟨-, hsame⟩ | ⟨id', data', -, -, -, htxns', -⟩)
    · have hat := congrFun (hsame.symm.trans hparticipants) (participantKey transaction)
      rwa [Function.update_self] at hat
    · have hat := congrFun (htxns.symm.trans htxns') transaction.stateRef
      rw [hrecords.absent, Function.update_self] at hat
      cases hat
  · intro hstored
    refine .inl ⟨htxns, ?_⟩
    rw [hparticipants]
    exact Function.update_eq_self_iff.mpr hstored.symm

theorem Records.unique {db : Database} {transaction : Transaction} {data data' : Str}
    (h : Records pb rocks db transaction data) (h' : Records pb rocks db transaction data') :
    data' = data :=
  Option.some.inj (h'.serialized.symm.trans h.serialized)

/-- A Store that fails in a transaction changes nothing, unless it has made its first write, or has
stored the record of a transaction that could not be begun. -/
theorem store_failed_iff (db : Database) (request : StoreRequest) (transaction : Transaction)
    (db' : Database) (message : Str) (hin : request.transaction = some transaction)
    (h : store pb rocks uuidToString db request = (db', .failed message)) :
    Undisturbed pb db db' transaction ↔
      validateTransactionalStore request ≠ none ∨
      ¬ HalfBegun pb rocks db transaction ∧
        ¬ StartsWriting uuidToString pb rocks db request transaction := by
  unfold store at h
  rw [hin] at h
  dsimp only at h
  cases hvalid : validateTransactionalStore request with
  | some error =>
    rw [hvalid] at h
    cases h
    exact iff_of_true (.inl ⟨rfl, rfl⟩) (.inl nofun)
  | none =>
    rw [hvalid] at h
    dsimp only at h
    have hnovalid : ¬ (none : Option Str) ≠ none := fun hne => hne rfl
    rw [or_iff_right hnovalid]
    unfold HalfBegun StartsWriting
    rcases @lookupOrBegin_cases pb rocks db transaction with
      ⟨txn, htxn, hopen, heq⟩ | ⟨id, data, hid, hrecords, hbegins, heq⟩ |
      ⟨data, ending, hrecords, hbegins, heq⟩ | ⟨ending, hclosed, hnorecord, heq⟩
    · -- open: the request goes on where the transaction stood
      rw [heq] at h
      have hdb := congrArg Prod.fst h
      rw [undisturbed_open_iff htxn (congrArg Database.txns hdb).symm
        (congrArg Database.participants hdb).symm, runSteps_writes_eq_iff]
      have hnohalf : ¬ ∃ data, Records pb rocks db transaction data ∧ ¬ Begins rocks ∧
          db.participants (participantKey transaction) ≠ some data := by
        rintro ⟨data, hrecords, -⟩
        have habsent := hrecords.absent
        rw [htxn] at habsent
        cases habsent
      exact ⟨fun hno => ⟨hnohalf, fun hwrites => hno hwrites.2⟩,
        fun hclean hwrites => hclean.2 ⟨.inl hopen, hwrites⟩⟩
    · rw [heq] at h
      have hdb := congrArg Prod.fst h
      have htxns := (congrArg Database.txns hdb).symm
      dsimp only at htxns
      rw [Function.update_idem] at htxns
      rw [undisturbed_begun_iff hid hrecords htxns (congrArg Database.participants hdb).symm,
        runSteps_writes_eq_iff]
      exact ⟨fun hno => ⟨fun ⟨_, _, hnot, _⟩ => hnot hbegins, fun hwrites => hno hwrites.2⟩,
        fun hclean hwrites => hclean.2 ⟨.inr ⟨⟨data, hrecords⟩, hbegins⟩, hwrites⟩⟩
    · rw [heq] at h
      have hdb := congrArg Prod.fst h
      rw [undisturbed_half_iff hrecords (congrArg Database.txns hdb).symm
        (congrArg Database.participants hdb).symm]
      have hnostart : ¬ ((IsOpen db transaction ∨
          (∃ data, Records pb rocks db transaction data) ∧ Begins rocks) ∧
          Writes rocks db.columnFamilies (applySteps uuidToString pb request)) := by
        rintro ⟨⟨-, txn, -, htxn, -⟩ | ⟨-, hbegins'⟩, -⟩
        · rw [hrecords.absent] at htxn
          cases htxn
        · exact hbegins hbegins'
      constructor
      · intro hstored
        refine ⟨?_, hnostart⟩
        rintro ⟨data', hrecords', -, hother⟩
        rw [hrecords.unique hrecords'] at hother
        exact hother hstored
      · intro hclean
        by_contra hother
        exact hclean.1 ⟨data, hrecords, hbegins, hother⟩
    · rw [heq] at h
      cases congrArg Prod.fst h
      refine iff_of_true (.inl ⟨rfl, rfl⟩) ⟨fun ⟨data, hrecords, _⟩ => hnorecord data hrecords, ?_⟩
      rintro ⟨hopen | ⟨⟨data, hrecords⟩, -⟩, -⟩
      · exact hclosed hopen
      · exact hnorecord data hrecords

end

/-! ## The attic -/

/-- A field of bytes, of less than 128 of them. -/
def bytesField (tag : Char) (bytes : Str) : Str := tag :: Char.ofNat bytes.length :: bytes

/-- Transactions as they are serialized; there are no tasks and mutations. -/
def atticProtobuf : Protobuf where
  task _ := none
  taskDebugString _ := []
  idempotentMutation _ := none
  transaction t := some (bytesField '\n' t.stateType ++ bytesField '\x12' t.stateRef ++
    t.transactionIds.flatMap (bytesField '\x1a') ++ t.payload)

/-- RocksDB without errors. -/
def rocksOk : Rocks := ⟨fun _ => none, fun _ => none, none, true, none, none⟩

/-- A database without open transactions. -/
def atticDatabase : Database := ⟨["chat.Room".toList], fun _ => none, fun _ => none, []⟩

/-- A transaction on the attic. -/
def atticTransaction : Transaction :=
  ⟨"chat.Room".toList, "AAJu7hC6McFOOg:attic".toList, ["0123456789abcdef".toList], []⟩

/-- A request in the transaction, with these upserts. -/
def atticRequest (actorUpserts : List Actor) : StoreRequest :=
  ⟨actorUpserts, [], [], some atticTransaction, none, []⟩

def attic (state : Option String) : Actor :=
  ⟨"chat.Room".toList, "AAJu7hC6McFOOg:attic".toList, state.map String.toList⟩

/-- If the first upsert is the one that fails, the transaction is begun and nothing else. -/
theorem store_failed_first :
    (store atticProtobuf rocksOk .ok atticDatabase (atticRequest [attic none, attic "open"])).2 =
        .failed "Failed to update batch: Actor 'AAJu7hC6McFOOg:attic' missing state to store".toList ∧
    Undisturbed atticProtobuf atticDatabase
      (store atticProtobuf rocksOk .ok atticDatabase (atticRequest [attic none, attic "open"])).1
      atticTransaction := by
  have hfailed : (store atticProtobuf rocksOk .ok atticDatabase
      (atticRequest [attic none, attic "open"])).2 = .failed
        "Failed to update batch: Actor 'AAJu7hC6McFOOg:attic' missing state to store".toList := by
    decide +kernel
  refine ⟨hfailed, (store_failed_iff _ _ _ _ _ rfl (Prod.ext rfl hfailed)).mpr (.inr ⟨?_, ?_⟩)⟩
  · rintro ⟨data, -, hbegins, -⟩
    exact hbegins ⟨rfl, rfl⟩
  · rintro ⟨-, hwrites⟩
    exact (runSteps_writes_eq_iff [] _ _).mp rfl hwrites

/-- If the second is, the first stays in the transaction. -/
theorem store_failed_second :
    (store atticProtobuf rocksOk .ok atticDatabase (atticRequest [attic "open", attic none])).2 =
        .failed "Failed to update batch: Actor 'AAJu7hC6McFOOg:attic' missing state to store".toList ∧
    ((store atticProtobuf rocksOk .ok atticDatabase
      (atticRequest [attic "open", attic none])).1.txns "AAJu7hC6McFOOg:attic".toList).map
        RocksTransaction.writes =
      some [⟨"chat.Room".toList, "state:AAJu7hC6McFOOg:attic".toList, some "open".toList⟩] ∧
    ¬ Undisturbed atticProtobuf atticDatabase
      (store atticProtobuf rocksOk .ok atticDatabase (atticRequest [attic "open", attic none])).1
      atticTransaction := by
  have hwrites : ((store atticProtobuf rocksOk .ok atticDatabase
      (atticRequest [attic "open", attic none])).1.txns atticTransaction.stateRef).map
        RocksTransaction.writes =
      some [⟨"chat.Room".toList, "state:AAJu7hC6McFOOg:attic".toList, some "open".toList⟩] := by
    decide +kernel
  refine ⟨by decide +kernel, hwrites, ?_⟩
  rintro (⟨hsame, -⟩ | ⟨id, data, -, -, -, htxns, -⟩)
  · rw [hsame] at hwrites
    cases hwrites
  · rw [htxns, Function.update_self] at hwrites
    cases hwrites

end Reboot.Persist.Pending
