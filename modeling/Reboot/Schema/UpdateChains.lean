import Reboot.Schema.Compatibility

/-!
# Chains of updates

A schema is checked against the one before it, at every update. An application that skips some of
its versions is checked against one that is several updates older. `check_of_chain`: if each update
of the chain is compatible then the check over all of it can only report names. A field that is gone
has to have its name reserved, which is the name it had last and not the one that an older schema
has for it: with `note` renamed to `memo` by one update and `memo` removed by the next, both are
compatible, and the check over both reports `note`. Where nothing is renamed it reports nothing.

`protoc` refuses a field with a reserved number (`Version.unused`), so that a number once reserved
stays free: a field that one update removes does not come back with another type in the next.

Mirroring notes:
- A version is a schema together with the message that is compared. Between two versions it is
  compared with every message that it leads to along the same field numbers (`Check.Reachable`).
-/

namespace Reboot.Schemas

open Reboot.Lib Reboot.Lib.DepthFirst

/-! ## Three messages -/

theorem SafeChange.trans {a b c : Nat} (h : SafeChange a b) (h' : SafeChange b c) :
    SafeChange a c := by
  simp only [SafeChange, typeUint32, typeUint64, typeInt32, typeInt64] at h h' ⊢
  omega

theorem kept_iff_safeChange {n n' : Nat} {f : FieldDescriptor n} {g : FieldDescriptor n'} :
    f.Kept g ↔ SafeChange f.type.constant g.type.constant ∧ f.label = g.label :=
  and_congr_left fun _ => safeChange_type.symm

theorem FieldDescriptor.Kept.trans {n₁ n₂ n₃ : Nat} {f : FieldDescriptor n₁}
    {g : FieldDescriptor n₂} {h : FieldDescriptor n₃} (hfg : f.Kept g) (hgh : g.Kept h) :
    f.Kept h := by
  rw [kept_iff_safeChange] at hfg hgh ⊢
  exact ⟨hfg.1.trans hgh.1, hfg.2.trans hgh.2⟩

theorem isSome_messageType {n : Nat} {t : FieldType n} :
    t.messageType.isSome = true ↔ t.constant = 10 ∨ t.constant = 11 := by
  cases t <;>
    simp [FieldType.messageType, FieldType.constant, typeInt64, typeUint64, typeInt32, typeUint32]

/-- A field with a message type is kept with a message type. -/
theorem FieldDescriptor.Kept.messageType {n n' : Nat} {f : FieldDescriptor n}
    {g : FieldDescriptor n'} (h : f.Kept g) (hf : f.type.messageType.isSome = true) :
    g.type.messageType.isSome = true := by
  rcases h.1 with htype | ⟨htype, -⟩ | ⟨htype, -⟩
  · rw [isSome_messageType] at hf ⊢
    rwa [← htype]
  · rw [htype] at hf
    cases hf
  · rw [htype] at hf
    cases hf

theorem Schema.eq_of_number_eq {s : Schema} {m : Fin s.size} {f g : FieldDescriptor s.size}
    (hf : f ∈ (s.message m).fields) (hg : g ∈ (s.message m).fields) (h : f.number = g.number) :
    f = g := by
  have hfind := Schema.fieldByNumber_eq_some.mpr ⟨hg, rfl⟩
  rw [← h, Schema.fieldByNumber_eq_some.mpr ⟨hf, rfl⟩] at hfind
  exact Option.some.inj hfind

/-- No field has a reserved number. -/
def Descriptor.Unused {n : Nat} (m : Descriptor n) : Prop :=
  ∀ f ∈ m.fields, ¬ m.Reserves f.number

/-- Fields of one number have one name. -/
def SameNames {n n' : Nat} (m : Descriptor n) (m' : Descriptor n') : Prop :=
  ∀ f ∈ m.fields, ∀ g ∈ m'.fields, f.number = g.number → f.name = g.name

instance {n n' : Nat} (m : Descriptor n) (m' : Descriptor n') : Decidable (SameNames m m') :=
  inferInstanceAs (Decidable (∀ _ ∈ _, _))

instance {n n' : Nat} (schemaType : SchemaType) (updated : Descriptor n') (f : FieldDescriptor n) :
    Decidable (KeptOrReserved schemaType updated f) :=
  inferInstanceAs (Decidable (_ ∨ _))

/-- The field is kept, or it is gone, and its number is reserved. -/
def KeptOrGone {n n' : Nat} (schemaType : SchemaType) (updated : Descriptor n')
    (f : FieldDescriptor n) : Prop :=
  (∃ g ∈ updated.fields, g.number = f.number ∧ f.Kept g) ∨
    ((∀ g ∈ updated.fields, g.number ≠ f.number) ∧ schemaType = .proto ∧ updated.Reserves f.number)

/-- The names of the fields that are gone are reserved. -/
def NamesReserved {n n' : Nat} (original : Descriptor n) (updated : Descriptor n') : Prop :=
  ∀ f ∈ original.fields, (∀ g ∈ updated.fields, g.number ≠ f.number) → f.name ∈ updated.reservedName

instance {n n' : Nat} (m : Descriptor n) (m' : Descriptor n') : Decidable (NamesReserved m m') :=
  inferInstanceAs (Decidable (∀ _ ∈ _, _))

/-- What an update must not break, but for the names of the fields that are gone. -/
structure CompatibleButNames {n n' : Nat} (schemaType : SchemaType) (original : Descriptor n)
    (updated : Descriptor n') : Prop where
  fields : ∀ f ∈ original.fields, KeptOrGone schemaType updated f
  numbers : ∀ number, original.Reserves number → updated.Reserves number
  names : ∀ name ∈ original.reservedName, name ∈ updated.reservedName
  required : schemaType ≠ .proto → ∀ g ∈ updated.fields,
    (∃ f ∈ original.fields, f.number = g.number ∧ f.required = g.required) ∨
      ((∀ f ∈ original.fields, f.number ≠ g.number) ∧ g.required = false)

theorem compatible_iff {n n' : Nat} {schemaType : SchemaType} {m : Descriptor n}
    {m' : Descriptor n'} :
    Compatible schemaType m m' ↔ CompatibleButNames schemaType m m' ∧ NamesReserved m m' := by
  constructor
  · intro h
    refine ⟨⟨fun f hf => ?_, h.numbers, h.names, h.required⟩, fun f hf hgone => ?_⟩
    · exact (h.fields f hf).imp_right fun ⟨hgone, hproto, hreserved, _⟩ => ⟨hgone, hproto, hreserved⟩
    · rcases h.fields f hf with ⟨g, hg, hnumber, -⟩ | ⟨-, -, -, hname⟩
      · exact absurd hnumber (hgone g hg)
      · exact hname
  · rintro ⟨h, hnames⟩
    refine ⟨fun f hf => ?_, h.numbers, h.names, h.required⟩
    exact (h.fields f hf).imp_right fun ⟨hgone, hproto, hreserved⟩ =>
      ⟨hgone, hproto, hreserved, hnames f hf hgone⟩

theorem CompatibleButNames.trans {n₁ n₂ n₃ : Nat} {schemaType : SchemaType} {m₁ : Descriptor n₁}
    {m₂ : Descriptor n₂} {m₃ : Descriptor n₃} (h₁₂ : CompatibleButNames schemaType m₁ m₂)
    (h₂₃ : CompatibleButNames schemaType m₂ m₃) (hunused : m₃.Unused) :
    CompatibleButNames schemaType m₁ m₃ where
  fields := by
    intro f hf
    rcases h₁₂.fields f hf with ⟨g, hg, hnumber, hkept⟩ | ⟨-, hproto, hreserved⟩
    · rcases h₂₃.fields g hg with ⟨h, hh, hnumber', hkept'⟩ | ⟨hgone, hproto, hreserved⟩
      · exact .inl ⟨h, hh, hnumber'.trans hnumber, hkept.trans hkept'⟩
      · exact .inr ⟨fun h hh => hnumber ▸ hgone h hh, hproto, hnumber ▸ hreserved⟩
    · -- what the first update reserves stays reserved, and is not used again
      have hreserved' := h₂₃.numbers _ hreserved
      exact .inr ⟨fun h hh hnumber => hunused h hh (hnumber ▸ hreserved'), hproto, hreserved'⟩
  numbers number h := h₂₃.numbers number (h₁₂.numbers number h)
  names name h := h₂₃.names name (h₁₂.names name h)
  required := by
    intro hproto h hh
    rcases h₂₃.required hproto h hh with ⟨g, hg, hnumber, hrequired⟩ | ⟨hnew, hoptional⟩
    · rcases h₁₂.required hproto g hg with ⟨f, hf, hnumber', hrequired'⟩ | ⟨hnew, hoptional⟩
      · exact .inl ⟨f, hf, hnumber'.trans hnumber, hrequired'.trans hrequired⟩
      · exact .inr ⟨fun f hf => hnumber ▸ hnew f hf, hrequired ▸ hoptional⟩
    · -- nothing is removed from a schema that cannot reserve
      refine .inr ⟨fun f hf hnumber => ?_, hoptional⟩
      rcases h₁₂.fields f hf with ⟨g, hg, hnumber', -⟩ | ⟨-, hisproto, -⟩
      · exact hnew g hg (hnumber'.trans hnumber)
      · exact hproto hisproto

theorem CompatibleButNames.refl {n : Nat} (schemaType : SchemaType) (m : Descriptor n) :
    CompatibleButNames schemaType m m where
  fields f hf := .inl ⟨f, hf, rfl, .inl rfl, rfl⟩
  numbers _ h := h
  names _ h := h
  required _ g hg := .inl ⟨g, hg, rfl, rfl⟩

/-- Names that are not changed before a field is removed. -/
theorem NamesReserved.trans {n₁ n₂ n₃ : Nat} {schemaType : SchemaType} {m₁ : Descriptor n₁}
    {m₂ : Descriptor n₂} {m₃ : Descriptor n₃} (h₁₂ : NamesReserved m₁ m₂) (hsame : SameNames m₁ m₂)
    (h₂₃ : NamesReserved m₂ m₃) (hcompatible : CompatibleButNames schemaType m₂ m₃) :
    NamesReserved m₁ m₃ := by
  intro f hf hgone
  by_cases hkept : ∃ g ∈ m₂.fields, g.number = f.number
  · obtain ⟨g, hg, hnumber⟩ := hkept
    rw [hsame f hf g hg hnumber.symm]
    exact h₂₃ g hg fun h hh => hnumber ▸ hgone h hh
  · exact hcompatible.names _ (h₁₂ f hf fun g hg hnumber => hkept ⟨g, hg, hnumber⟩)

/-! ## Versions -/

/-- A schema as it is given to the check, with the message that is compared. -/
structure Version (schemaType : SchemaType) where
  schema : Schema
  message : Fin schema.size
  no_reservations : schemaType ≠ .proto → ∀ m,
    (schema.message m).reservedRange = [] ∧ (schema.message m).reservedName = []
  unused : ∀ m, (schema.message m).Unused

variable {schemaType : SchemaType}

/-- The check of an update from `v` to `w`. -/
def Version.check (v w : Version schemaType) (sourceName : String) : Check where
  schemaType := schemaType
  original := v.schema
  updated := w.schema
  originalMessage := v.message
  updatedMessage := w.message
  sourceName := sourceName
  no_reservations := v.no_reservations

/-- The pairs that a check goes to behind the first one. -/
def Check.Goes (c : Check) (processed : List String) (visited : List c.Pair)
    (processed' : List String) : Prop :=
  Walk c.children c.key (c.children c.root) processed visited processed'

/-- Whatever the message leads to is compatible. -/
def Update (v w : Version schemaType) : Prop :=
  ∀ p, (v.check w "").Reachable p → (v.check w "").Compatible p

/-- And no field is renamed. -/
structure PlainUpdate (v w : Version schemaType) : Prop where
  update : Update v w
  unrenamed : ∀ p, (v.check w "").Reachable p →
    SameNames (v.schema.message p.1) (w.schema.message p.2)

/-- The names of the fields that are gone are reserved, in the messages of a pair. -/
def Version.KeepsNames (v w : Version schemaType) (p : Fin v.schema.size × Fin w.schema.size) :
    Prop :=
  NamesReserved (v.schema.message p.1) (w.schema.message p.2)

/-- Whatever the message leads to is compatible but for names. -/
def Descends (v w : Version schemaType) : Prop :=
  ∀ p, (v.check w "").Reachable p →
    CompatibleButNames schemaType (v.schema.message p.1) (w.schema.message p.2)

variable {u v w : Version schemaType}

theorem Update.descends (h : Update v w) : Descends v w := fun p hp => (compatible_iff.mp (h p hp)).1

/-- What the first and the last version lead to goes through the version between them. -/
theorem reachable_between (huv : Descends u v) (hvw : Descends v w)
    {p : Fin u.schema.size × Fin w.schema.size} (hp : (u.check w "").Reachable p) :
    ∃ m, (u.check v "").Reachable (p.1, m) ∧ (v.check w "").Reachable (m, p.2) := by
  induction hp with
  | refl => exact ⟨v.message, .refl, .refl⟩
  | tail _ hstep ih =>
    obtain ⟨m, hu, hw⟩ := ih
    obtain ⟨f, hf, h, hh, hnumber, hftype, hhtype⟩ := hstep
    rcases (huv _ hu).fields f hf with ⟨g, hg, hnumber', hkept⟩ | ⟨-, -, hreserved⟩
    · obtain ⟨m', hgtype⟩ := Option.isSome_iff_exists.mp
        (hkept.messageType (Option.isSome_iff_exists.mpr ⟨_, hftype⟩))
      exact ⟨m', hu.tail ⟨f, hf, g, hg, hnumber'.symm, hftype, hgtype⟩,
        hw.tail ⟨g, hg, h, hh, hnumber'.trans hnumber, hgtype, hhtype⟩⟩
    · exact absurd ((hvw _ hw).numbers _ hreserved) (hnumber ▸ w.unused _ h hh)

theorem Descends.trans (huv : Descends u v) (hvw : Descends v w) : Descends u w := by
  intro p hp
  obtain ⟨m, hu, hw⟩ := reachable_between huv hvw hp
  exact (huv _ hu).trans (hvw _ hw) (w.unused p.2)

theorem PlainUpdate.trans (huv : PlainUpdate u v) (hvw : PlainUpdate v w) : PlainUpdate u w where
  update := by
    intro p hp
    obtain ⟨m, hu, hw⟩ := reachable_between huv.update.descends hvw.update.descends hp
    refine compatible_iff.mpr ⟨huv.update.descends.trans hvw.update.descends p hp, ?_⟩
    exact (compatible_iff.mp (huv.update _ hu)).2.trans (huv.unrenamed _ hu)
      (compatible_iff.mp (hvw.update _ hw)).2 (hvw.update.descends _ hw)
  unrenamed := by
    intro p hp f hf h hh hnumber
    obtain ⟨m, hu, hw⟩ := reachable_between huv.update.descends hvw.update.descends hp
    rcases (huv.update _ hu).fields f hf with ⟨g, hg, hnumber', -⟩ | ⟨-, -, hreserved, -⟩
    · exact (huv.unrenamed _ hu f hf g hg hnumber'.symm).trans
        (hvw.unrenamed _ hw g hg h hh (hnumber'.trans hnumber))
    · exact absurd ((hvw.update _ hw).numbers _ hreserved) (hnumber ▸ w.unused _ h hh)

/-- A version leads to each message together with itself. -/
theorem eq_of_reachable_self {p : Fin v.schema.size × Fin v.schema.size}
    (hp : (v.check v "").Reachable p) : p.1 = p.2 := by
  induction hp with
  | refl => rfl
  | tail _ hstep ih =>
    obtain ⟨f, hf, g, hg, hnumber, hftype, hgtype⟩ := hstep
    rw [← ih] at hg
    have heq : f = g := Schema.eq_of_number_eq hf hg hnumber
    rw [heq] at hftype
    exact Option.some.inj (hftype.symm.trans hgtype)

theorem Descends.refl (v : Version schemaType) : Descends v v := by
  intro p hp
  rw [← eq_of_reachable_self hp]
  exact .refl _ _

theorem PlainUpdate.refl (v : Version schemaType) : PlainUpdate v v := by
  refine ⟨fun p hp => compatible_iff.mpr ⟨Descends.refl v p hp, fun f hf hgone => ?_⟩,
    fun p hp f hf g hg hnumber => ?_⟩
  · exact absurd rfl (hgone f (eq_of_reachable_self hp ▸ hf))
  · rw [← eq_of_reachable_self hp] at hg
    rw [Schema.eq_of_number_eq hf hg hnumber]

theorem descends_of_chain (h : Relation.ReflTransGen Update v w) : Descends v w := by
  induction h with
  | refl => exact .refl v
  | tail _ hlast ih => exact ih.trans hlast.descends

theorem plainUpdate_of_chain (h : Relation.ReflTransGen PlainUpdate v w) : PlainUpdate v w := by
  induction h with
  | refl => exact .refl v
  | tail _ hlast ih => exact ih.trans hlast

/-- Over a chain of compatible updates, after any earlier checks, the check of the last version
against the first one reports no error if and only if the names are reserved of all fields that are
gone from the messages it gets to; and it reports none if nothing was renamed on the way. -/
theorem check_of_chain {schemaType : SchemaType} {v w : Version schemaType}
    (h : Relation.ReflTransGen Update v w) (earlier : List Check) (sourceName : String) :
    ∃ processed errors processed' visited, processedBy earlier [] = .ok processed ∧
      (v.check w sourceName).compare processed = .ok (errors, processed') ∧
      (v.check w sourceName).Goes processed visited processed' ∧
      (errors = [] ↔ ∀ p ∈ (v.check w sourceName).root :: visited, v.KeepsNames w p) ∧
      (Relation.ReflTransGen PlainUpdate v w → errors = []) := by
  obtain ⟨processed, hearlier⟩ := processedBy_ok earlier []
  obtain ⟨errors, processed', visited, hcompare, hwalk, herrors⟩ :=
    (v.check w sourceName).compare_walk processed
  have hreachable := Check.reachable_of_mem hwalk
  refine ⟨processed, errors, processed', visited, hearlier, hcompare, hwalk, ?_, fun hplain => ?_⟩
  · refine herrors.trans (forall₂_congr fun p hp => compatible_iff.trans (and_iff_right ?_))
    exact descends_of_chain h p (hreachable p hp)
  · exact herrors.mpr fun p hp => (plainUpdate_of_chain hplain).update p (hreachable p hp)

/-- A counter whose message has these fields, with these reserved. -/
def counter (fields : List (FieldDescriptor 1)) (ranges : List ReservedRange) (names : List String)
    (hfields : (fields.map (·.number)).Nodup) (hranges : ranges.Pairwise ReservedRange.Disjoint)
    (hunused : ∀ f ∈ fields, ∀ r ∈ ranges, ¬ r.Covers f.number) : Version .proto where
  schema :=
    { size := 1
      message := fun _ =>
        ⟨"counter.v1.Counter", "Counter", fields, ranges, names, true, ⟨"", ""⟩⟩
      fullName_injective := fun m m' _ => Subsingleton.elim m m'
      number_nodup := fun _ => hfields
      reserved_disjoint := fun _ => hranges }
  message := (0 : Fin 1)
  no_reservations h := absurd rfl h
  unused := fun _ f hf ⟨r, hr, hcovers⟩ => hunused f hf r hr hcovers

/-- One update removes the note and widens the count, the next one adds an owner. -/
def noted : Version .proto :=
  counter [⟨1, "count", .int32, .optional, false⟩, ⟨2, "note", .string, .optional, false⟩] [] []
    (by decide) .nil (by decide)

def unnoted : Version .proto :=
  counter [⟨1, "count", .int64, .optional, false⟩] [⟨2, 3, by decide⟩] ["note"] (by decide)
    (List.pairwise_singleton _ _) (by decide)

def owned : Version .proto :=
  counter [⟨1, "count", .int64, .optional, false⟩, ⟨3, "owner", .string, .optional, false⟩]
    [⟨2, 3, by decide⟩] ["note"] (by decide) (List.pairwise_singleton _ _) (by decide)

/-- Or one renames the note, and the next one removes it. -/
def renamed : Version .proto :=
  counter [⟨1, "count", .int32, .optional, false⟩, ⟨2, "memo", .string, .optional, false⟩] [] []
    (by decide) .nil (by decide)

def unmemoed : Version .proto :=
  counter [⟨1, "count", .int32, .optional, false⟩] [⟨2, 3, by decide⟩] ["memo"] (by decide)
    (List.pairwise_singleton _ _) (by decide)

theorem noted_to_owned :
    (∃ processed processed', processedBy [] [] = .ok processed ∧
      (noted.check owned "Counter").compare processed = .ok ([], processed')) ∧
    ∃ processed errors processed', processedBy [] [] = .ok processed ∧
      (noted.check unmemoed "Counter").compare processed = .ok (errors, processed') ∧
      errors ≠ [] := by
  have hroot : ∀ p : Fin 1 × Fin 1, p = (0, 0) := fun p => Subsingleton.elim _ _
  constructor
  · have h₁ : PlainUpdate noted unnoted := by
      refine ⟨fun p _ => ?_, fun p _ => ?_⟩ <;> rw [hroot p]
      · exact ⟨by decide, fun _ ⟨_, hr, _⟩ => absurd hr List.not_mem_nil, by decide,
          fun h => absurd rfl h⟩
      · decide
    have h₂ : PlainUpdate unnoted owned := by
      refine ⟨fun p _ => ?_, fun p _ => ?_⟩ <;> rw [hroot p]
      · exact ⟨by decide, fun _ h => h, by decide, fun h => absurd rfl h⟩
      · decide
    have hchain : Relation.ReflTransGen Update noted owned :=
      (Relation.ReflTransGen.single h₁.update).tail h₂.update
    obtain ⟨processed, errors, processed', _, hearlier, hcompare, -, -, hplain⟩ :=
      check_of_chain hchain [] "Counter"
    rw [hplain ((Relation.ReflTransGen.single h₁).tail h₂)] at hcompare
    exact ⟨processed, processed', hearlier, hcompare⟩
  · have h₁ : Update noted renamed := by
      intro p _
      rw [hroot p]
      exact ⟨by decide, fun _ ⟨_, hr, _⟩ => absurd hr List.not_mem_nil, by decide,
        fun h => absurd rfl h⟩
    have h₂ : Update renamed unmemoed := by
      intro p _
      rw [hroot p]
      exact ⟨by decide, fun _ ⟨_, hr, _⟩ => absurd hr List.not_mem_nil, by decide,
        fun h => absurd rfl h⟩
    obtain ⟨processed, errors, processed', _, hearlier, hcompare, -, hnames, -⟩ :=
      check_of_chain ((Relation.ReflTransGen.single h₁).tail h₂) [] "Counter"
    refine ⟨processed, errors, processed', hearlier, hcompare, fun hnone => ?_⟩
    have hreserved : NamesReserved (noted.schema.message noted.message)
        (unmemoed.schema.message unmemoed.message) := hnames.mp hnone _ List.mem_cons_self
    exact absurd hreserved (by decide)

end Reboot.Schemas
