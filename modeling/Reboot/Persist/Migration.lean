import Mathlib.Data.Char
import Mathlib.Data.List.Forall2
import Reboot.Lib.SortedAssoc
import Reboot.Lib.Text

/-!
# Migrating the persisted keys from version 3 to version 4

`DatabaseService::MigratePersistence3To4` (`reboot/server/database.cc`) renames
the keys of idempotent mutations and tasks in every column family except
`default`, batching the renames, and finally records persistence version 4.

The model follows the C++ statement by statement, including a shape that is
easy to read over: the loop that renames the mutations of a family stands twice,
the second copy *inside* the body of the first, with its own `iterator`, `batch`
and `valid` shadowing the outer ones, and the pass over the tasks sits inside
that body as well. The outer iterator is therefore never advanced:

* a family with a mutation never leaves the outer loop (`familyLoop_stuck`);
* a family without one never enters it, so its tasks are never renamed
  (`migrateFamily_skip`).

`migratePersistence3To4_meets_iff` turns the two into the exact condition under
which the migration does what its comment says: there is nothing to migrate.

Mirroring notes:
- A `std::string` is a list of characters, one for each byte; a column family is
  a sorted association list, as RocksDB iterates it bytewise.
- A serialized message is kept as the message (`Value`); parsing a value as the
  wrong message is the failing `CHECK(... ParseFromArray ...)`.
- `while` loops that need not end take fuel and end in `Ending.running` when it
  runs out; "terminates" is "some fuel does not run out".
- Every `db_->Write` is recorded in `writes`, so a crash between two batches is
  a choice of one of the recorded contents. RocksDB writes are taken to succeed.
- `UUID::fromBytes(..)->toString()` (stout) and `WriteBatch::GetDataSize`
  (RocksDB) are parameters; no result needs to know anything about them.
-/

namespace Reboot.Persist

open Reboot.Lib

/-- `Task::Status`. -/
inductive TaskStatus
  | unknown
  | pending
  | completed
  deriving DecidableEq

/-- `Task::Status_Name`. -/
def TaskStatus.name : TaskStatus → Str
  | .unknown => "UNKNOWN".toList
  | .pending => "PENDING".toList
  | .completed => "COMPLETED".toList

/-- `TaskId`, without the state type, which no key holds. -/
structure TaskId where
  stateRef : Str
  taskUuid : Str
  deriving DecidableEq

/-- `Task`: what the keys are made of, and the remaining fields as they are. -/
structure Task where
  taskId : TaskId
  status : TaskStatus
  payload : Str
  deriving DecidableEq

/-- `IdempotentMutation`: what the keys are made of, and the remaining fields. -/
structure IdempotentMutation where
  stateRef : Str
  key : Str
  payload : Str
  deriving DecidableEq

/-- A stored value: the message it is the serialization of, or other bytes. -/
inductive Value
  | idempotentMutation (m : IdempotentMutation)
  | task (t : Task)
  | other (bytes : Str)
  deriving DecidableEq

/-- How a C++ function ends other than by returning a value: an `unexpected`
that the caller sees, or a failed `CHECK`, which ends the process. -/
inductive Failure
  | unexpected (error : Str)
  | checkFailed
  deriving DecidableEq

/-! ## Keys -/

/-- `TASK_KEY_PREFIX_V3 ":"`. -/
def taskKeyPrefixV3 : Str := "task:".toList

/-- `IDEMPOTENT_MUTATION_KEY_PREFIX_V3 ":"`. -/
def idempotentMutationKeyPrefixV3 : Str := "idempotent-mutation:".toList

/-- `MakeTaskKey`. -/
def makeTaskKey (status : TaskStatus) (taskId : TaskId) : Str :=
  "task-v4:".toList ++ status.name ++ ':' :: taskId.stateRef ++ ':' :: taskId.taskUuid

/-- The version nibble of a raw 16-byte UUID. -/
def uuidVersion (idempotencyKey : Str) : Nat :=
  ((idempotencyKey.getD 6 'x').toNat / 16) % 16

section

variable (uuidToString : Str → Except Str Str)

/-- `MakeIdempotentMutationKey`. -/
def makeIdempotentMutationKey (stateRef idempotencyKey : Str)
    (workflowId : Option Str) (workflowIteration : Option Nat) : Except Failure Str :=
  if idempotencyKey.length ≠ 16 then .error .checkFailed
  else match workflowId, workflowIteration with
    | some w, some i =>
      if w.length ≠ 16 then .error .checkFailed
      else if uuidVersion idempotencyKey = 7 then
        .error (.unexpected ("Unexpected UUIDv7 (expiring) key for workflow iteration-scoped "
          ++ "idempotent mutation").toList)
      else .ok ("workflow-iteration-idempotent-mutation:".toList ++ stateRef ++ ':' :: w
        ++ ':' :: Nat.toDigits 10 i ++ ':' :: idempotencyKey)
    | some w, none =>
      if w.length ≠ 16 then .error .checkFailed
      else if uuidVersion idempotencyKey = 7 then
        .ok ("workflow-expiring-idempotent-mutation:".toList ++ stateRef ++ ':' :: w
          ++ ':' :: idempotencyKey)
      else .ok ("workflow-idempotent-mutation:".toList ++ stateRef ++ ':' :: w
        ++ ':' :: idempotencyKey)
    | none, _ =>
      if uuidVersion idempotencyKey = 7 then
        .ok ("expiring-idempotent-mutation:".toList ++ stateRef ++ ':' :: idempotencyKey)
      else match uuidToString idempotencyKey with
        | .error e => .error (.unexpected e)
        | .ok uuid => .ok ("idempotent-mutation-v4:".toList ++ stateRef ++ ':' :: uuid)

/-- The version-4 key of a value the mutation pass reads. -/
def idempotentMutationNewKey : Value → Except Failure Str
  | .idempotentMutation m => makeIdempotentMutationKey uuidToString m.stateRef m.key none none
  | _ => .error .checkFailed

end

/-- The version-4 key of a value the task pass reads. -/
def taskNewKey : Value → Except Failure Str
  | .task t => .ok (makeTaskKey t.status t.taskId)
  | _ => .error .checkFailed

/-! ## Column families, iterators and write batches -/

/-- A column family: its name and its entries in key order. -/
structure Family where
  name : Str
  content : SortedAssoc Str Value

/-- One operation of a `rocksdb::WriteBatch`. -/
inductive BatchOp
  | put (key : Str) (value : Value)
  | delete (key : Str)
  deriving DecidableEq

/-- A `rocksdb::WriteBatch` on one column family. -/
abbrev WriteBatch := List BatchOp

/-- Apply one operation of a batch. -/
def BatchOp.apply (content : SortedAssoc Str Value) : BatchOp → SortedAssoc Str Value
  | .put k v => content.put k v
  | .delete k => content.erase k

/-- `db_->Write`: a batch is applied as a whole. -/
def Family.write (f : Family) (batch : WriteBatch) : Family :=
  { f with content := batch.foldl BatchOp.apply f.content }

/-- A `rocksdb::Iterator`: the implicit snapshot it was created on and the
entries from its position on. -/
structure Iterator where
  snapshot : List (Str × Value)
  rest : List (Str × Value)

/-- `db_->NewIterator`: snapshots the family as it is now. -/
def newIterator (f : Family) : Iterator := ⟨f.content.entries, f.content.entries⟩

/-- `iterator->Seek`. -/
def Iterator.seek (it : Iterator) (target : Str) : Iterator :=
  { it with rest := seekAssoc target it.snapshot }

/-- The helper `valid` of the migration, on the entries still ahead:
`iterator->Valid() && iterator->key().ToStringView().find(p) == 0`. -/
def validFor (p : Str) : List (Str × Value) → Bool
  | [] => false
  | (k, _) :: _ => p.isPrefixOf k

/-! ## The migration -/

/-- What a loop did to a family: the family after each `db_->Write`, in order,
and how the loop ended. -/
structure Renamed where
  writes : List Family
  result : Except Failure Family

section

variable (uuidToString : Str → Except Str Str) (dataSize : WriteBatch → Nat)

/-- One of the two inner loops: rename every entry the iterator yields under the
prefix, writing the batch when nothing is left or when it has *exactly* 32 MB. -/
def renameLoop (p : Str) (newKey : Value → Except Failure Str) :
    List (Str × Value) → WriteBatch → Family → Renamed
  | [], _, f => ⟨[], .ok f⟩
  | (k, v) :: rest, batch, f =>
    if p.isPrefixOf k then
      match newKey v with
      | .error e => ⟨[], .error e⟩
      | .ok k' =>
        let batch := batch ++ [.put k' v, .delete k]
        if !validFor p rest || dataSize batch == 32 * 1024 * 1024 then
          let f := f.write batch
          let r := renameLoop p newKey rest [] f
          ⟨f :: r.writes, r.result⟩
        else renameLoop p newKey rest batch f
    else ⟨[], .ok f⟩

/-- The loop over the idempotent mutations. -/
def migrateIdempotentMutations (it : Iterator) (f : Family) : Renamed :=
  renameLoop dataSize idempotentMutationKeyPrefixV3 (idempotentMutationNewKey uuidToString)
    (it.seek idempotentMutationKeyPrefixV3).rest [] f

/-- The loop over the tasks, on the same iterator. -/
def migrateTasks (it : Iterator) (f : Family) : Renamed :=
  renameLoop dataSize taskKeyPrefixV3 taskNewKey (it.seek taskKeyPrefixV3).rest [] f

/-- The body of the outer loop after its own key computation: a fresh iterator,
the (second copy of the) mutation loop, then the task loop. -/
def migrateBody (f : Family) : Renamed :=
  let it := newIterator f
  let r := migrateIdempotentMutations uuidToString dataSize it f
  match r.result with
  | .error e => ⟨r.writes, .error e⟩
  | .ok f =>
    let t := migrateTasks dataSize it f
    ⟨r.writes ++ t.writes, t.result⟩

/-- How a run of the migration stands: it returned a content, it failed, or it
is still running when the fuel is spent. -/
inductive Ending (α : Type)
  | returned (content : α)
  | failed (failure : Failure)
  | running

/-- A run: the content after every write so far, and how it stands. -/
structure Trace (α : Type) where
  writes : List α
  ending : Ending α

/-- The outer loop on one family. `outer` is what its iterator has ahead; the
body never calls `Next` on it, so every iteration sees the same entry. -/
def familyLoop (outer : List (Str × Value)) : Nat → Family → Trace Family
  | 0, f =>
    if validFor idempotentMutationKeyPrefixV3 outer then ⟨[], .running⟩ else ⟨[], .returned f⟩
  | fuel + 1, f =>
    match outer with
    | [] => ⟨[], .returned f⟩
    | (k, v) :: _ =>
      if idempotentMutationKeyPrefixV3.isPrefixOf k then
        match idempotentMutationNewKey uuidToString v with
        | .error e => ⟨[], .failed e⟩
        | .ok _ =>
          let b := migrateBody uuidToString dataSize f
          match b.result with
          | .error e => ⟨b.writes, .failed e⟩
          | .ok f =>
            let r := familyLoop outer fuel f
            ⟨b.writes ++ r.writes, r.ending⟩
      else ⟨[], .returned f⟩

/-- One iteration of `for (... : column_family_handles_)`. -/
def migrateFamily (fuel : Nat) (f : Family) : Trace Family :=
  if f.name = "default".toList then ⟨[], .returned f⟩
  else
    familyLoop uuidToString dataSize
      ((newIterator f).seek idempotentMutationKeyPrefixV3).rest fuel f

/-- The loop over the column families; `migrated` are the ones already done. -/
def migrateFamilies (fuel : Nat) (migrated : List Family) :
    List Family → Trace (List Family)
  | [] => ⟨[], .returned migrated⟩
  | f :: rest =>
    let t := migrateFamily uuidToString dataSize fuel f
    let writes := t.writes.map (fun f' => migrated ++ f' :: rest)
    match t.ending with
    | .failed e => ⟨writes, .failed e⟩
    | .running => ⟨writes, .running⟩
    | .returned f' =>
      let r := migrateFamilies fuel (migrated ++ [f']) rest
      ⟨writes ++ r.writes, r.ending⟩

/-- The database: its column families and the persistence version, which is an
entry of its own in `default`. -/
structure Database where
  families : List Family
  persistenceVersion : Nat

/-- `MigratePersistence3To4`, for `fuel` iterations of each outer loop. -/
def migratePersistence3To4 (fuel : Nat) (db : Database) : Trace Database :=
  let t := migrateFamilies uuidToString dataSize fuel [] db.families
  let writes := t.writes.map (fun fs => { db with families := fs })
  match t.ending with
  | .failed e => ⟨writes, .failed e⟩
  | .running => ⟨writes, .running⟩
  | .returned fs =>
    -- `WritePersistenceVersion(db_.get(), 4)`
    let db := { families := fs, persistenceVersion := 4 }
    ⟨writes ++ [db], .returned db⟩

/-! ## What the migration is for -/

/-- A key of the version-3 layout. -/
def IsV3Key (k : Str) : Prop :=
  idempotentMutationKeyPrefixV3 <+: k ∨ taskKeyPrefixV3 <+: k

/-- `new` is the version-4 form of the version-3 family `old`: every mutation
and every task is under its version-4 key with the same value, no version-3 key
is left, and nothing else changed. -/
structure FamilyMigrated (old new : Family) : Prop where
  name : new.name = old.name
  mutations : ∀ k v, (k, v) ∈ old.content.entries → idempotentMutationKeyPrefixV3 <+: k →
    ∃ k', idempotentMutationNewKey uuidToString v = .ok k' ∧ new.content.get k' = some v
  tasks : ∀ k v, (k, v) ∈ old.content.entries → taskKeyPrefixV3 <+: k →
    ∃ k', taskNewKey v = .ok k' ∧ new.content.get k' = some v
  noV3Key : ∀ k v, (k, v) ∈ new.content.entries → ¬IsV3Key k
  others : ∀ k, ¬IsV3Key k →
    (∀ k₀ v₀, (k₀, v₀) ∈ old.content.entries →
      (idempotentMutationKeyPrefixV3 <+: k₀ → idempotentMutationNewKey uuidToString v₀ ≠ .ok k) ∧
      (taskKeyPrefixV3 <+: k₀ → taskNewKey v₀ ≠ .ok k)) →
    new.content.get k = old.content.get k

/-- `new` is the version-4 form of the version-3 database `old`. -/
structure Migrated (old new : Database) : Prop where
  families : List.Forall₂ (FamilyMigrated uuidToString) old.families new.families
  persistenceVersion : new.persistenceVersion = 4

/-- Some number of iterations is enough for the migration of `db` to return,
and what it returns is the version-4 form of `old`. -/
def MigratesTo (old db : Database) : Prop :=
  ∃ fuel new, (migratePersistence3To4 uuidToString dataSize fuel db).ending = .returned new ∧
    Migrated uuidToString old new

/-- What the migration promises for `db`: run to its end it leaves the version-4
form of `db`, and so does a second run on whatever a crash between two write
batches of the first left behind (still at version 3, so it is run again). -/
structure Meets (db : Database) : Prop where
  completes : MigratesTo uuidToString dataSize db db
  rerun : ∀ fuel, ∀ mid ∈ (migratePersistence3To4 uuidToString dataSize fuel db).writes,
    mid.persistenceVersion = 3 → MigratesTo uuidToString dataSize db mid

variable {uuidToString dataSize}

/-! ## One family -/

theorem validFor_eq_false {p : Str} {l : List (Str × Value)}
    (h : ∀ e ∈ l, ¬p <+: e.1) : validFor p l = false := by
  cases l with
  | nil => rfl
  | cons e l =>
    have hne := h e (List.mem_cons_self ..)
    rw [← List.isPrefixOf_iff_prefix, Bool.not_eq_true] at hne
    exact hne

/-- Seeking to the prefix is valid as soon as the family has such a key. -/
theorem validFor_seek {p k : Str} {v : Value} {f : Family}
    (h : (k, v) ∈ f.content.entries) (hp : p <+: k) :
    validFor p ((newIterator f).seek p).rest = true := by
  obtain ⟨k', v', rest, heq, hk'⟩ := seek_of_isPrefix f.content.sorted h hp
  show validFor p (seekAssoc p f.content.entries) = true
  rw [heq]
  exact List.isPrefixOf_iff_prefix.mpr hk'

/-- An outer loop that is not entered leaves the family alone. -/
theorem familyLoop_skip {outer : List (Str × Value)}
    (h : validFor idempotentMutationKeyPrefixV3 outer = false) (fuel : Nat) (f : Family) :
    familyLoop uuidToString dataSize outer fuel f = ⟨[], .returned f⟩ := by
  cases fuel with
  | zero => simp [familyLoop, h]
  | succ fuel =>
    cases outer with
    | nil => rfl
    | cons e rest =>
      obtain ⟨k, v⟩ := e
      have hk : idempotentMutationKeyPrefixV3.isPrefixOf k = false := h
      simp [familyLoop, hk]

/-- An outer loop that is entered never returns: its iterator does not move, so
the loop condition stays true (or the body fails). -/
theorem familyLoop_stuck {outer : List (Str × Value)}
    (h : validFor idempotentMutationKeyPrefixV3 outer = true) :
    ∀ (fuel : Nat) (f new : Family),
      (familyLoop uuidToString dataSize outer fuel f).ending ≠ .returned new := by
  intro fuel
  induction fuel with
  | zero => intro f new; simp [familyLoop, h]
  | succ fuel ih =>
    intro f new
    cases outer with
    | nil => cases h
    | cons e rest =>
      obtain ⟨k, v⟩ := e
      have hk : idempotentMutationKeyPrefixV3.isPrefixOf k = true := h
      simp only [familyLoop, hk, if_true]
      split
      · simp
      · split
        · simp
        · exact ih _ new

/-- A family is skipped when it is `default` or holds no version-3 mutation. -/
theorem migrateFamily_skip {f : Family}
    (h : f.name = "default".toList ∨
      ∀ e ∈ f.content.entries, ¬idempotentMutationKeyPrefixV3 <+: e.1) (fuel : Nat) :
    migrateFamily uuidToString dataSize fuel f = ⟨[], .returned f⟩ := by
  unfold migrateFamily
  split
  next => rfl
  next hname =>
    have hnone := h.resolve_left hname
    exact familyLoop_skip
      (validFor_eq_false fun e he => hnone e (mem_of_mem_seekAssoc he)) fuel f

/-- Any other family holds the migration for good. -/
theorem migrateFamily_stuck {f : Family} {k : Str} {v : Value}
    (hname : f.name ≠ "default".toList) (h : (k, v) ∈ f.content.entries)
    (hp : idempotentMutationKeyPrefixV3 <+: k) (fuel : Nat) (new : Family) :
    (migrateFamily uuidToString dataSize fuel f).ending ≠ .returned new := by
  unfold migrateFamily
  rw [if_neg hname]
  exact familyLoop_stuck (validFor_seek h hp) fuel f new

/-! ## All families -/

/-- The families that hold the migration for good. -/
def Holds (f : Family) : Prop :=
  f.name ≠ "default".toList ∧
    ∃ k v, (k, v) ∈ f.content.entries ∧ idempotentMutationKeyPrefixV3 <+: k

variable (uuidToString dataSize) in
theorem migrateFamily_of_not_holds {f : Family} (h : ¬Holds f) (fuel : Nat) :
    migrateFamily uuidToString dataSize fuel f = ⟨[], .returned f⟩ := by
  apply migrateFamily_skip
  by_cases hname : f.name = "default".toList
  · exact Or.inl hname
  · refine Or.inr fun e he hp => h ⟨hname, e.1, e.2, he, hp⟩

variable (uuidToString dataSize) in
theorem migrateFamilies_skip (fuel : Nat) :
    ∀ (fs migrated : List Family), (∀ f ∈ fs, ¬Holds f) →
      migrateFamilies uuidToString dataSize fuel migrated fs = ⟨[], .returned (migrated ++ fs)⟩ := by
  intro fs
  induction fs with
  | nil => intro migrated _; simp [migrateFamilies]
  | cons f fs ih =>
    intro migrated h
    have hf := migrateFamily_of_not_holds uuidToString dataSize
      (h f (List.mem_cons_self ..)) fuel
    have hfs := ih (migrated ++ [f]) fun g hg => h g (List.mem_cons_of_mem _ hg)
    simp [migrateFamilies, hf, hfs]

theorem migrateFamilies_stuck (fuel : Nat) :
    ∀ (fs migrated : List Family), (∃ f ∈ fs, Holds f) → ∀ new,
      (migrateFamilies uuidToString dataSize fuel migrated fs).ending ≠ .returned new := by
  intro fs
  induction fs with
  | nil =>
    intro migrated h
    obtain ⟨f, hf, _⟩ := h
    cases hf
  | cons f fs ih =>
    intro migrated h new
    simp only [migrateFamilies]
    split
    next => simp
    next => simp
    next f' hret =>
      -- the family returned, so it is a later one that holds the migration
      apply ih
      obtain ⟨g, hg, hholds⟩ := h
      rcases List.mem_cons.mp hg with rfl | hg'
      · obtain ⟨hname, k, v, hmem, hp⟩ := hholds
        exact absurd hret (migrateFamily_stuck hname hmem hp fuel f')
      · exact ⟨g, hg', hholds⟩

/-! ## The whole migration -/

/-- Without a version-3 mutation outside `default` the migration only records
the version. -/
theorem migratePersistence3To4_skip {db : Database} (h : ∀ f ∈ db.families, ¬Holds f)
    (fuel : Nat) :
    migratePersistence3To4 uuidToString dataSize fuel db =
      ⟨[⟨db.families, 4⟩], .returned ⟨db.families, 4⟩⟩ := by
  have hfs := migrateFamilies_skip uuidToString dataSize
    fuel db.families [] h
  simp [migratePersistence3To4, hfs]

theorem migratePersistence3To4_stuck {db : Database} (h : ∃ f ∈ db.families, Holds f)
    (fuel : Nat) (new : Database) :
    (migratePersistence3To4 uuidToString dataSize fuel db).ending ≠ .returned new := by
  simp only [migratePersistence3To4]
  split
  next => simp
  next => simp
  next fs hret => exact absurd hret (migrateFamilies_stuck fuel db.families [] h fs)

/-- A family without version-3 keys is its own version-4 form. -/
theorem familyMigrated_self {f : Family} (h : ∀ e ∈ f.content.entries, ¬IsV3Key e.1) :
    FamilyMigrated uuidToString f f where
  name := rfl
  mutations k v hmem hp := absurd (Or.inl hp) (h (k, v) hmem)
  tasks k v hmem hp := absurd (Or.inr hp) (h (k, v) hmem)
  noV3Key k v hmem := h (k, v) hmem
  others _ _ _ := rfl

/-- A migrated list of families has no version-3 key left. -/
theorem noV3Key_of_migrated {old new : List Family}
    (h : List.Forall₂ (FamilyMigrated uuidToString) old new) :
    ∀ f ∈ new, ∀ e ∈ f.content.entries, ¬IsV3Key e.1 := by
  induction h with
  | nil => intro f hf; cases hf
  | cons hab _ ih =>
    intro f hf e he
    rcases List.mem_cons.mp hf with rfl | hf'
    · exact hab.noV3Key e.1 e.2 he
    · exact ih f hf' e he

variable (uuidToString dataSize)

/-- The migration does what it promises exactly when no column family holds a
key of the version-3 layout, that is, when there is nothing to migrate. -/
theorem migratePersistence3To4_meets_iff (db : Database) :
    Meets uuidToString dataSize db ↔
      ∀ f ∈ db.families, ∀ e ∈ f.content.entries, ¬IsV3Key e.1 := by
  constructor
  · intro hmeets
    obtain ⟨fuel, new, hret, hmig⟩ := hmeets.completes
    -- a family that holds the migration would keep it from returning
    have hnone : ∀ f ∈ db.families, ¬Holds f := by
      intro f hf hholds
      exact migratePersistence3To4_stuck ⟨f, hf, hholds⟩ fuel new hret
    rw [migratePersistence3To4_skip hnone] at hret
    cases hret
    -- so the families are as they were, and those of the result have no version-3 key
    exact noV3Key_of_migrated hmig.families
  · intro h
    have hnone : ∀ f ∈ db.families, ¬Holds f := by
      rintro f hf ⟨_, k, v, hmem, hp⟩
      exact h f hf (k, v) hmem (Or.inl hp)
    have hmig : Migrated uuidToString db ⟨db.families, 4⟩ := by
      refine ⟨?_, rfl⟩
      rw [List.forall₂_same]
      exact fun f hf => familyMigrated_self (h f hf)
    refine ⟨⟨0, _, by rw [migratePersistence3To4_skip hnone], hmig⟩, ?_⟩
    intro fuel mid hmid hversion
    rw [migratePersistence3To4_skip hnone, List.mem_singleton] at hmid
    rw [hmid] at hversion
    exact absurd hversion (by simp)

end

/-- The version-3 key and value of one idempotent mutation (a UUIDv4 key). -/
def leftoverMutation : Str × Value :=
  ("idempotent-mutation:00112233-4455-4677-8899-aabbccddeeff".toList,
    .idempotentMutation
      { stateRef := "AFk1ev8EXQ5LUQ:foo".toList
        key := [0x00, 0x11, 0x22, 0x33, 0x44, 0x55, 0x46, 0x77,
          0x88, 0x99, 0xaa, 0xbb, 0xcc, 0xdd, 0xee, 0xff].map Char.ofNat
        payload := [] })

/-- A version-3 database with a single mutation in a single state type. -/
def oneMutation : Database where
  families := [⟨"tests.reboot.General".toList, ⟨[leftoverMutation], by simp [KeysSorted]⟩⟩]
  persistenceVersion := 3

/-- One stored mutation is enough for the migration not to do its work: it never
returns. -/
theorem oneMutation_not_meets :
    ¬Meets (fun _ => .ok "00112233-4455-4677-8899-aabbccddeeff".toList)
      (fun batch => 64 * batch.length) oneMutation := by
  intro hmeets
  obtain ⟨fuel, new, hret, _⟩ := hmeets.completes
  refine migratePersistence3To4_stuck ⟨_, List.mem_singleton.mpr rfl, ?_, ?_⟩ fuel new hret
  · decide
  · exact ⟨_, _, List.mem_singleton.mpr rfl, by decide⟩

end Reboot.Persist
