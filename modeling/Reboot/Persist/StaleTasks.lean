import Reboot.Persist.Migration

/-!
# Migrating from version 2 up to version 4

`DatabaseService::MigratePersistence2To3` (`reboot/server/database.cc`) deletes the tasks
whose response is not an `Any` yet. `DatabaseService::MaybeMigratePersistence` runs it
before `MigratePersistence3To4` (`Reboot.Persist.Migration`).

The first step seeks `TASK_KEY_PREFIX`, which has meant `task-v4` since the keys were
renamed for version 4, while the tasks of a version-2 database are under `task:`. What it
deletes is what `deleteStaleLoop_spec` says, a stale task under a key of the new layout, and
`migrateFamily_skip` says that the second step renames nothing where it ends at all.

> `cleaned_iff`: the two steps leave no stale task behind exactly when every stale task is
> under a key of version 4 already, or they do not end well.

Mirroring notes:
- `responseTypeUrl` reads, from the fields of a task that no key holds, the type URL of its
  `response`, if it `has_response()`.
- The `db_->Delete` calls are recorded like the batches of the second step; they are taken to
  succeed.
- Version 0 is a database without a persisted version.
-/

namespace Reboot.Persist

open Reboot.Lib

/-- `TASK_KEY_PREFIX`. -/
def taskKeyPrefix : Str := "task-v4".toList

/-- What the type URL of an `Any` starts with. -/
def typeUrlStart : Str := "type.googleapis.com".toList

section

variable (responseTypeUrl : Str → Option Str)

/-- A task with a response that is not an `Any`. -/
def Task.stale (task : Task) : Bool :=
  match responseTypeUrl task.payload with
  | none => false
  | some typeUrl => !typeUrlStart.isPrefixOf typeUrl

/-- A stored value is a stale task. -/
def Value.stale : Value → Bool
  | .task t => t.stale responseTypeUrl
  | _ => false

/-- Delete one entry of a family. -/
def Family.delete (f : Family) (key : Str) : Family := f.write [.delete key]

/-- The loop of `MigratePersistence2To3` on the entries its iterator has ahead. -/
def deleteStaleLoop : List (Str × Value) → Family → Renamed
  | [], f => ⟨[], .ok f⟩
  | (k, v) :: rest, f =>
    if taskKeyPrefix.isPrefixOf k then
      match v with
      | .task t =>
        if t.stale responseTypeUrl then
          let f := f.delete k
          let r := deleteStaleLoop rest f
          ⟨f :: r.writes, r.result⟩
        else deleteStaleLoop rest f
      | _ => ⟨[], .error .checkFailed⟩
    else ⟨[], .ok f⟩

/-- One column family; `default` is not left out. -/
def deleteStaleTasks (f : Family) : Renamed :=
  deleteStaleLoop responseTypeUrl ((newIterator f).seek taskKeyPrefix).rest f

/-- The loop over the column families; `migrated` are the ones already done. -/
def deleteStaleFamilies (migrated : List Family) : List Family → Trace (List Family)
  | [] => ⟨[], .returned migrated⟩
  | f :: rest =>
    let r := deleteStaleTasks responseTypeUrl f
    let writes := r.writes.map (fun f' => migrated ++ f' :: rest)
    match r.result with
    | .error e => ⟨writes, .failed e⟩
    | .ok f' =>
      let t := deleteStaleFamilies (migrated ++ [f']) rest
      ⟨writes ++ t.writes, t.ending⟩

/-- `MigratePersistence2To3`. -/
def migratePersistence2To3 (db : Database) : Trace Database :=
  let t := deleteStaleFamilies responseTypeUrl [] db.families
  let writes := t.writes.map (fun fs => { db with families := fs })
  match t.ending with
  | .failed e => ⟨writes, .failed e⟩
  | .running => ⟨writes, .running⟩
  | .returned fs =>
    -- `WritePersistenceVersion(db_.get(), 3)`
    let db := { families := fs, persistenceVersion := 3 }
    ⟨writes ++ [db], .returned db⟩

variable (uuidToString : Str → Except Str Str) (dataSize : WriteBatch → Nat)

/-- `MaybeMigratePersistence`, for `fuel` iterations of each outer loop of the second step. -/
def maybeMigratePersistence (fuel : Nat) (db : Database) : Trace Database :=
  match db.persistenceVersion with
  | 2 =>
    let t := migratePersistence2To3 responseTypeUrl db
    match t.ending with
    | .returned db =>
      let r := migratePersistence3To4 uuidToString dataSize fuel db
      ⟨t.writes ++ r.writes, r.ending⟩
    | .failed e => ⟨t.writes, .failed e⟩
    | .running => ⟨t.writes, .running⟩
  | 3 => migratePersistence3To4 uuidToString dataSize fuel db
  | 4 => ⟨[], .returned db⟩
  | 0 | 1 => ⟨[], .failed .checkFailed⟩
  | _ => ⟨[], .failed (.unexpected "Unsupported persistence version".toList)⟩

/-! ## What the two steps are for -/

/-- Every value of `old` but the stale tasks is still in `new`, under some key. -/
def Kept (old new : Family) : Prop :=
  ∀ k v, (k, v) ∈ old.content.entries → v.stale responseTypeUrl = false →
    ∃ k', (k', v) ∈ new.content.entries

/-- If the migration of `db` succeeds, no stale task remains and everything else does. -/
def Cleaned (db : Database) : Prop :=
  ∀ fuel new,
    (maybeMigratePersistence responseTypeUrl uuidToString dataSize fuel db).ending =
        .returned new →
      (∀ f ∈ new.families, ∀ e ∈ f.content.entries, e.2.stale responseTypeUrl = false) ∧
        List.Forall₂ (Kept responseTypeUrl) db.families new.families

/-- A family in which the first step stops the process: an entry under its prefix that is no
task. -/
def Unparsable (f : Family) : Prop :=
  ∃ k v, (k, v) ∈ f.content.entries ∧ taskKeyPrefix <+: k ∧ ∀ t, v ≠ .task t

variable {responseTypeUrl uuidToString dataSize}

/-! ## One family -/

theorem mem_delete_iff {f : Family} {key : Str} {e : Str × Value} :
    e ∈ (f.delete key).content.entries ↔ e ∈ f.content.entries ∧ e.1 ≠ key := by
  show e ∈ eraseAssoc key f.content.entries ↔ _
  rw [mem_eraseAssoc_iff]

variable (responseTypeUrl) in
/-- What the loop leaves of a family: all but the stale tasks it comes by. -/
theorem deleteStaleLoop_spec : ∀ (l : List (Str × Value)) (f : Family),
    (∀ e ∈ l, taskKeyPrefix <+: e.1 → ∃ t, e.2 = .task t) →
    ∃ f', (deleteStaleLoop responseTypeUrl l f).result = .ok f' ∧
      ∀ e, e ∈ f'.content.entries ↔ e ∈ f.content.entries ∧
        ¬∃ v, (e.1, v) ∈ l.takeWhile (fun e => taskKeyPrefix.isPrefixOf e.1) ∧
          v.stale responseTypeUrl = true := by
  intro l
  induction l with
  | nil =>
    intro f _
    refine ⟨f, rfl, fun e => ?_⟩
    simp
  | cons x l ih =>
    intro f hparses
    obtain ⟨k, v⟩ := x
    have hrest := fun e he => hparses e (List.mem_cons_of_mem _ he)
    by_cases hp : taskKeyPrefix.isPrefixOf k = true
    · obtain ⟨t, hv⟩ := hparses (k, v) List.mem_cons_self (List.isPrefixOf_iff_prefix.mp hp)
      dsimp only at hv
      subst hv
      simp only [deleteStaleLoop, hp, if_true, List.takeWhile_cons, List.mem_cons, Prod.mk.injEq]
      by_cases hstale : t.stale responseTypeUrl = true
      · -- a stale task: it is deleted, and no later entry has its key back
        rw [if_pos hstale]
        obtain ⟨f', hf', hmem⟩ := ih (f.delete k) hrest
        refine ⟨f', hf', fun e => ?_⟩
        rw [hmem e, mem_delete_iff]
        constructor
        · rintro ⟨⟨he, hne⟩, hnone⟩
          refine ⟨he, ?_⟩
          rintro ⟨v, ⟨hek, -⟩ | hv, hs⟩
          · exact hne hek
          · exact hnone ⟨v, hv, hs⟩
        · rintro ⟨he, hnone⟩
          refine ⟨⟨he, fun hek => hnone ⟨_, .inl ⟨hek, rfl⟩, hstale⟩⟩, ?_⟩
          rintro ⟨v, hv, hs⟩
          exact hnone ⟨v, .inr hv, hs⟩
      · rw [if_neg hstale]
        obtain ⟨f', hf', hmem⟩ := ih f hrest
        refine ⟨f', hf', fun e => ?_⟩
        rw [hmem e]
        have hiff : (∃ v, (e.1, v) ∈ l.takeWhile (fun e => taskKeyPrefix.isPrefixOf e.1) ∧
              v.stale responseTypeUrl = true) ↔
            ∃ v, ((e.1 = k ∧ v = .task t) ∨
              (e.1, v) ∈ l.takeWhile (fun e => taskKeyPrefix.isPrefixOf e.1)) ∧
              v.stale responseTypeUrl = true := by
          constructor
          · rintro ⟨v, hv, hs⟩
            exact ⟨v, .inr hv, hs⟩
          · rintro ⟨v, ⟨-, rfl⟩ | hv, hs⟩
            · exact absurd hs hstale
            · exact ⟨v, hv, hs⟩
        rw [hiff]
    · have hloop : deleteStaleLoop responseTypeUrl ((k, v) :: l) f = ⟨[], .ok f⟩ := by
        simp only [deleteStaleLoop]
        rw [if_neg hp]
      refine ⟨f, by rw [hloop], fun e => ?_⟩
      have hnil : ((k, v) :: l).takeWhile (fun e => taskKeyPrefix.isPrefixOf e.1) = [] := by
        rw [List.takeWhile_cons]
        exact if_neg hp
      rw [hnil]
      simp

variable (responseTypeUrl) in
/-- What the first step leaves of a family: all but the stale tasks under a key of the
version-4 layout. -/
theorem deleteStaleTasks_spec {f : Family} (hparses : ¬Unparsable f) :
    ∃ f', (deleteStaleTasks responseTypeUrl f).result = .ok f' ∧
      ∀ e, e ∈ f'.content.entries ↔ e ∈ f.content.entries ∧
        ¬(taskKeyPrefix <+: e.1 ∧ e.2.stale responseTypeUrl = true) := by
  have hall : ∀ e ∈ ((newIterator f).seek taskKeyPrefix).rest, taskKeyPrefix <+: e.1 →
      ∃ t, e.2 = .task t := by
    intro e he hp
    by_contra hnone
    exact hparses ⟨e.1, e.2, mem_of_mem_seekAssoc he, hp, fun t ht => hnone ⟨t, ht⟩⟩
  obtain ⟨f', hf', hmem⟩ := deleteStaleLoop_spec responseTypeUrl _ f hall
  refine ⟨f', hf', fun e => ?_⟩
  rw [hmem e]
  -- the iterator yields exactly the entries under the prefix
  have htake : ((newIterator f).seek taskKeyPrefix).rest.takeWhile
      (fun e => taskKeyPrefix.isPrefixOf e.1) =
        f.content.entries.filter fun e => taskKeyPrefix.isPrefixOf e.1 :=
    takeWhile_seekAssoc f.content.sorted
  rw [htake]
  constructor
  · rintro ⟨he, hnone⟩
    refine ⟨he, ?_⟩
    rintro ⟨hp, hs⟩
    exact hnone ⟨e.2, List.mem_filter.mpr ⟨he, List.isPrefixOf_iff_prefix.mpr hp⟩, hs⟩
  · rintro ⟨he, hnot⟩
    refine ⟨he, ?_⟩
    rintro ⟨v, hv, hs⟩
    obtain ⟨hv, hp⟩ := List.mem_filter.mp hv
    -- a key has one value
    have hsame : v = e.2 := by
      have h1 := (lookupAssoc_iff_mem f.content.sorted).mpr hv
      have h2 : lookupAssoc e.1 f.content.entries = some e.2 :=
        (lookupAssoc_iff_mem f.content.sorted).mpr he
      exact Option.some.inj (h1.symm.trans h2)
    exact hnot ⟨List.isPrefixOf_iff_prefix.mp hp, hsame ▸ hs⟩

variable (responseTypeUrl) in
/-- The process stops in a family that holds something else under the prefix. -/
theorem deleteStaleLoop_unparsable : ∀ (l : List (Str × Value)) (f : Family),
    (∃ k v, (k, v) ∈ l.takeWhile (fun e => taskKeyPrefix.isPrefixOf e.1) ∧ ∀ t, v ≠ .task t) →
    ∃ e, (deleteStaleLoop responseTypeUrl l f).result = .error e := by
  intro l
  induction l with
  | nil =>
    rintro f ⟨k, v, hkv, -⟩
    cases hkv
  | cons x l ih =>
    rintro f ⟨k, v, hkv, hv⟩
    obtain ⟨k', v'⟩ := x
    rw [List.takeWhile_cons] at hkv
    split at hkv
    next hp =>
      dsimp only at hp
      simp only [deleteStaleLoop, hp, if_true]
      split
      next t =>
        have hlater : ∃ k v, (k, v) ∈ l.takeWhile (fun e => taskKeyPrefix.isPrefixOf e.1) ∧
            ∀ t, v ≠ .task t := by
          obtain he | he := List.mem_cons.mp hkv
          · cases he
            exact absurd rfl (hv t)
          · exact ⟨k, v, he, hv⟩
        split
        next => exact ih _ hlater
        next => exact ih _ hlater
      next => exact ⟨_, rfl⟩
    next => cases hkv

variable (responseTypeUrl) in
theorem deleteStaleTasks_unparsable {f : Family} (h : Unparsable f) :
    ∃ e, (deleteStaleTasks responseTypeUrl f).result = .error e := by
  obtain ⟨k, v, hkv, hp, hv⟩ := h
  refine deleteStaleLoop_unparsable responseTypeUrl _ f ⟨k, v, ?_, hv⟩
  have htake : ((newIterator f).seek taskKeyPrefix).rest.takeWhile
      (fun e => taskKeyPrefix.isPrefixOf e.1) =
        f.content.entries.filter fun e => taskKeyPrefix.isPrefixOf e.1 :=
    takeWhile_seekAssoc f.content.sorted
  rw [htake]
  exact List.mem_filter.mpr ⟨hkv, List.isPrefixOf_iff_prefix.mpr hp⟩

/-! ## All families -/

/-- `new` is `old` without the stale tasks under a key of the version-4 layout. -/
def WithoutStale (responseTypeUrl : Str → Option Str) (old new : Family) : Prop :=
  new.name = old.name ∧ ∀ e, e ∈ new.content.entries ↔ e ∈ old.content.entries ∧
    ¬(taskKeyPrefix <+: e.1 ∧ e.2.stale responseTypeUrl = true)

theorem deleteStaleLoop_name : ∀ (l : List (Str × Value)) (f f' : Family),
    (deleteStaleLoop responseTypeUrl l f).result = .ok f' → f'.name = f.name := by
  intro l
  induction l with
  | nil =>
    intro f f' h
    cases h
    rfl
  | cons x l ih =>
    intro f f' h
    obtain ⟨k, v⟩ := x
    simp only [deleteStaleLoop] at h
    split at h
    next =>
      split at h
      next t =>
        split at h
        next => exact ih (f.delete k) f' h
        next => exact ih f f' h
      next => cases h
    next =>
      cases h
      rfl

variable (responseTypeUrl) in
/-- The first step on families it can read. -/
theorem deleteStaleFamilies_spec : ∀ (fs migrated : List Family), (∀ f ∈ fs, ¬Unparsable f) →
    ∃ fs', (deleteStaleFamilies responseTypeUrl migrated fs).ending =
        .returned (migrated ++ fs') ∧
      List.Forall₂ (WithoutStale responseTypeUrl) fs fs' := by
  intro fs
  induction fs with
  | nil =>
    intro migrated _
    exact ⟨[], by simp [deleteStaleFamilies], .nil⟩
  | cons f fs ih =>
    intro migrated h
    obtain ⟨f', hf', hmem⟩ := deleteStaleTasks_spec responseTypeUrl
      (h f List.mem_cons_self)
    obtain ⟨fs', hfs', hforall⟩ := ih (migrated ++ [f']) fun g hg =>
      h g (List.mem_cons_of_mem _ hg)
    refine ⟨f' :: fs', ?_, .cons ⟨deleteStaleLoop_name _ _ _ hf', hmem⟩ hforall⟩
    simp only [deleteStaleFamilies, hf']
    rw [hfs', List.append_assoc]
    rfl

variable (responseTypeUrl) in
/-- One family it cannot read is enough for the first step to fail. -/
theorem deleteStaleFamilies_unparsable : ∀ (fs migrated : List Family), (∃ f ∈ fs, Unparsable f) →
    ∃ e, (deleteStaleFamilies responseTypeUrl migrated fs).ending = .failed e := by
  intro fs
  induction fs with
  | nil =>
    rintro migrated ⟨f, hf, -⟩
    cases hf
  | cons f fs ih =>
    rintro migrated ⟨g, hg, hbad⟩
    simp only [deleteStaleFamilies]
    split
    next e _ => exact ⟨e, rfl⟩
    next f' hf' =>
      refine ih _ ⟨g, ?_, hbad⟩
      obtain rfl | hg := List.mem_cons.mp hg
      · obtain ⟨e, he⟩ := deleteStaleTasks_unparsable responseTypeUrl hbad
        rw [he] at hf'
        cases hf'
      · exact hg

/-- The prefix of the mutations and the prefix of the tasks exclude each other. -/
theorem not_taskKeyPrefix {k : Str} (h : idempotentMutationKeyPrefixV3 <+: k) :
    ¬taskKeyPrefix <+: k := by
  rintro ⟨x, rfl⟩
  obtain ⟨y, hy⟩ := h
  injection hy with hc _
  exact absurd hc (by decide)

/-- The first step leaves the mutations where they are, so the second one is held by the
same families. -/
theorem WithoutStale.holds_iff {old new : Family} (h : WithoutStale responseTypeUrl old new) :
    Holds new ↔ Holds old := by
  unfold Holds
  rw [h.1]
  refine and_congr_right fun _ => exists_congr fun k => exists_congr fun v => ?_
  rw [h.2]
  constructor
  · rintro ⟨⟨he, -⟩, hp⟩
    exact ⟨he, hp⟩
  · rintro ⟨he, hp⟩
    exact ⟨⟨he, fun hk => not_taskKeyPrefix hp hk.1⟩, hp⟩

/-! ## Both steps -/

theorem exists_mem_of_forall₂ {α β : Type*} {R : α → β → Prop} {l : List α} {l' : List β}
    (h : List.Forall₂ R l l') : (∀ a ∈ l, ∃ b ∈ l', R a b) ∧ ∀ b ∈ l', ∃ a ∈ l, R a b := by
  induction h with
  | nil => exact ⟨fun a ha => (nomatch ha), fun b hb => (nomatch hb)⟩
  | cons hab _ ih =>
    refine ⟨fun a ha => ?_, fun b hb => ?_⟩
    · obtain rfl | ha := List.mem_cons.mp ha
      · exact ⟨_, List.mem_cons_self, hab⟩
      · obtain ⟨b, hb, hr⟩ := ih.1 a ha
        exact ⟨b, List.mem_cons_of_mem _ hb, hr⟩
    · obtain rfl | hb := List.mem_cons.mp hb
      · exact ⟨_, List.mem_cons_self, hab⟩
      · obtain ⟨a, ha, hr⟩ := ih.2 b hb
        exact ⟨a, List.mem_cons_of_mem _ ha, hr⟩

/-- How the migration of a version-2 database ends: it fails, it never returns, or it returns
the families without the stale tasks that the first step finds. -/
theorem maybeMigratePersistence_ending (responseTypeUrl : Str → Option Str)
    (uuidToString : Str → Except Str Str) (dataSize : WriteBatch → Nat) {db : Database}
    (hversion : db.persistenceVersion = 2) :
    ((∃ f ∈ db.families, Unparsable f) ∧ ∀ fuel, ∃ e,
      (maybeMigratePersistence responseTypeUrl uuidToString dataSize fuel db).ending =
        .failed e) ∨
    ((∃ f ∈ db.families, Holds f) ∧ ∀ fuel new,
      (maybeMigratePersistence responseTypeUrl uuidToString dataSize fuel db).ending ≠
        .returned new) ∨
    (∀ f ∈ db.families, ¬Holds f ∧ ¬Unparsable f) ∧
      ∃ fs, List.Forall₂ (WithoutStale responseTypeUrl) db.families fs ∧ ∀ fuel,
        (maybeMigratePersistence responseTypeUrl uuidToString dataSize fuel db).ending =
          .returned ⟨fs, 4⟩ := by
  by_cases hbad : ∃ f ∈ db.families, Unparsable f
  · refine .inl ⟨hbad, fun fuel => ?_⟩
    obtain ⟨e, he⟩ := deleteStaleFamilies_unparsable responseTypeUrl
      db.families [] hbad
    refine ⟨e, ?_⟩
    simp only [maybeMigratePersistence, hversion, migratePersistence2To3, he]
  · have hreads : ∀ f ∈ db.families, ¬Unparsable f := fun f hf h => hbad ⟨f, hf, h⟩
    obtain ⟨fs, hfs, hforall⟩ :=
      deleteStaleFamilies_spec responseTypeUrl db.families [] hreads
    have hrun : ∀ fuel,
        (maybeMigratePersistence responseTypeUrl uuidToString dataSize fuel db).ending =
          (migratePersistence3To4 uuidToString dataSize fuel ⟨fs, 3⟩).ending := by
      intro fuel
      simp only [maybeMigratePersistence, hversion, migratePersistence2To3, hfs, List.nil_append]
    by_cases hholds : ∃ f ∈ db.families, Holds f
    · refine .inr (.inl ⟨hholds, fun fuel new hret => ?_⟩)
      rw [hrun] at hret
      refine migratePersistence3To4_stuck ?_ fuel new hret
      obtain ⟨f, hf, hholdsf⟩ := hholds
      obtain ⟨f', hf', hwithout⟩ := (exists_mem_of_forall₂ hforall).1 f hf
      exact ⟨f', hf', hwithout.holds_iff.mpr hholdsf⟩
    · refine .inr (.inr ⟨fun f hf => ⟨fun h => hholds ⟨f, hf, h⟩, hreads f hf⟩, fs, hforall,
        fun fuel => ?_⟩)
      have hnone : ∀ f ∈ fs, ¬Holds f := by
        intro f' hf' hholdsf
        obtain ⟨f, hf, hwithout⟩ := (exists_mem_of_forall₂ hforall).2 f' hf'
        exact hholds ⟨f, hf, hwithout.holds_iff.mp hholdsf⟩
      rw [hrun]
      exact congrArg Trace.ending (migratePersistence3To4_skip hnone fuel)

/-- The two steps do what they promise exactly when they never return, when the process stops
at an entry under `task-v4` that is no task, or when every stale task is under a key that
starts with `task-v4`. -/
theorem cleaned_iff (responseTypeUrl : Str → Option Str) (uuidToString : Str → Except Str Str)
    (dataSize : WriteBatch → Nat) (db : Database) (hversion : db.persistenceVersion = 2) :
    Cleaned responseTypeUrl uuidToString dataSize db ↔
      (∃ f ∈ db.families, Holds f) ∨ (∃ f ∈ db.families, Unparsable f) ∨
        ∀ f ∈ db.families, ∀ e ∈ f.content.entries, e.2.stale responseTypeUrl = true →
          taskKeyPrefix <+: e.1 := by
  obtain ⟨hbad, hfails⟩ | ⟨hholds, hruns⟩ | ⟨hfine, fs, hforall, hreturns⟩ :=
    maybeMigratePersistence_ending responseTypeUrl uuidToString dataSize hversion
  · refine iff_of_true (fun fuel new hret => ?_) (.inr (.inl hbad))
    obtain ⟨e, he⟩ := hfails fuel
    rw [he] at hret
    cases hret
  · exact iff_of_true (fun fuel new hret => absurd hret (hruns fuel new)) (.inl hholds)
  · constructor
    · intro hclean
      refine .inr (.inr fun f hf e he hstale => ?_)
      by_contra hp
      -- the task is still there when the migration has returned
      obtain ⟨f', hf', hwithout⟩ := (exists_mem_of_forall₂ hforall).1 f hf
      have hleft := (hclean 0 _ (hreturns 0)).1 f' hf' e
        ((hwithout.2 e).mpr ⟨he, fun hk => hp hk.1⟩)
      rw [hstale] at hleft
      cases hleft
    · intro hcases fuel new hret
      rw [hreturns fuel] at hret
      cases hret
      have hstaleOk : ∀ f ∈ db.families, ∀ e ∈ f.content.entries,
          e.2.stale responseTypeUrl = true → taskKeyPrefix <+: e.1 := by
        obtain ⟨f, hf, hholds⟩ | ⟨f, hf, hbad⟩ | hall := hcases
        · exact absurd hholds (hfine f hf).1
        · exact absurd hbad (hfine f hf).2
        · exact hall
      refine ⟨fun f' hf' e he => ?_, hforall.imp fun f f' hwithout k v hkv hfresh => ?_⟩
      · obtain ⟨f, hf, hwithout⟩ := (exists_mem_of_forall₂ hforall).2 f' hf'
        obtain ⟨he, hnot⟩ := (hwithout.2 e).mp he
        by_contra hstale
        rw [Bool.not_eq_false] at hstale
        exact hnot ⟨hstaleOk f hf e he hstale, hstale⟩
      · refine ⟨k, (hwithout.2 (k, v)).mpr ⟨hkv, fun hk => ?_⟩⟩
        rw [hk.2] at hfresh
        cases hfresh

end

/-- A task from before responses were kept as `Any`, under its version-2 key. -/
def staleLeftover : Str × Value :=
  ("task:AFk1ev8EXQ5LUQ:foo:00112233".toList,
    .task
      { taskId := ⟨"AFk1ev8EXQ5LUQ:foo".toList, "00112233".toList⟩
        status := .completed
        payload := [] })

/-- A version-2 database with one stale task in a single state type. -/
def oneStaleTask : Database where
  families := [⟨"tests.reboot.General".toList, ⟨[staleLeftover], by simp [KeysSorted]⟩⟩]
  persistenceVersion := 2

/-- The migration succeeds and the stale task is still there. -/
theorem oneStaleTask_not_cleaned :
    ¬Cleaned (fun _ => some "General".toList) (fun _ => .ok [])
      (fun batch => 64 * batch.length) oneStaleTask := by
  intro hclean
  have hgone := (hclean 0 ⟨oneStaleTask.families, 4⟩ rfl).1 _ (List.mem_singleton.mpr rfl)
    staleLeftover (List.mem_singleton.mpr rfl)
  exact absurd hgone (by decide)

/-- A version-2 database that has no stale task. -/
theorem cleaned_iff_fresh :
    Cleaned (fun _ => none) (fun _ => .ok []) (fun batch => 64 * batch.length) oneStaleTask ↔
      (∃ f ∈ oneStaleTask.families, Holds f) ∨ (∃ f ∈ oneStaleTask.families, Unparsable f) ∨
        ∀ f ∈ oneStaleTask.families, ∀ e ∈ f.content.entries,
          e.2.stale (fun _ => none) = true → taskKeyPrefix <+: e.1 :=
  cleaned_iff _ _ _ oneStaleTask rfl

end Reboot.Persist
