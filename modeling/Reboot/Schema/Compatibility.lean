import Mathlib.Data.List.Perm.Subperm
import Reboot.Schema.CompareMessages

/-!
# Which pairs of messages a check gets to

What a check is for: `Compatible` says of one pair of message types that the update keeps what the
original promises, and `Check.Reachable` are the pairs that the two messages lead to along the same
field numbers. A check is right if it reports no error exactly where all reachable pairs are
compatible.

What it does: it walks depth first over the pairs, and records the original type of each one, in a
list that it shares with all earlier checks (`Check.compare_walk`). The pairs that it gets to are
those of a `Walk`; it reports no error exactly where these are compatible. So the check is right
when it leaves out nothing that matters: `compare_messages_complete_iff`. It leaves out a pair whose
original type was recorded by an earlier check, or earlier in this one together with another updated
type, and all below a group.

Mirroring notes:
- In a schema that is not protobuf nothing can be reserved, so there a removed field is never
  compatible.
-/

namespace Reboot.Schemas

open Reboot.Lib Reboot.Lib.DepthFirst

/-! ## Compatible messages -/

/-- The type and the label are the same, or the type is a wider integer. -/
def FieldDescriptor.Kept {n n' : Nat} (f : FieldDescriptor n) (g : FieldDescriptor n') : Prop :=
  (f.type.constant = g.type.constant ∨ (f.type = .uint32 ∧ g.type = .uint64) ∨
    (f.type = .int32 ∧ g.type = .int64)) ∧ f.label = g.label

instance {n n' : Nat} (f : FieldDescriptor n) (g : FieldDescriptor n') : Decidable (f.Kept g) :=
  inferInstanceAs (Decidable ((_ ∨ _) ∧ _))

/-- The field is kept, or it is gone, and its number and name are reserved. -/
def KeptOrReserved {n n' : Nat} (schemaType : SchemaType) (updated : Descriptor n')
    (f : FieldDescriptor n) : Prop :=
  (∃ g ∈ updated.fields, g.number = f.number ∧ f.Kept g) ∨
    ((∀ g ∈ updated.fields, g.number ≠ f.number) ∧ schemaType = .proto ∧
      updated.Reserves f.number ∧ f.name ∈ updated.reservedName)

/-- What an update of a message must not break. -/
structure Compatible {n n' : Nat} (schemaType : SchemaType) (original : Descriptor n)
    (updated : Descriptor n') : Prop where
  fields : ∀ f ∈ original.fields, KeptOrReserved schemaType updated f
  numbers : ∀ number, original.Reserves number → updated.Reserves number
  names : ∀ name ∈ original.reservedName, name ∈ updated.reservedName
  required : schemaType ≠ .proto → ∀ g ∈ updated.fields,
    (∃ f ∈ original.fields, f.number = g.number ∧ f.required = g.required) ∨
      ((∀ f ∈ original.fields, f.number ≠ g.number) ∧ g.required = false)

namespace Check

variable (c : Check)

/-- A pair of message types, one of the original and one of the update. -/
abbrev Pair : Type := Fin c.original.size × Fin c.updated.size

def root : c.Pair := (c.originalMessage, c.updatedMessage)

def Compatible (p : c.Pair) : Prop :=
  Schemas.Compatible c.schemaType (c.original.message p.1) (c.updated.message p.2)

/-- Fields of one number whose types are the message types of the second pair. -/
def Step (p q : c.Pair) : Prop :=
  ∃ f ∈ (c.original.message p.1).fields, ∃ g ∈ (c.updated.message p.2).fields,
    f.number = g.number ∧ f.type.messageType = some q.1 ∧ g.type.messageType = some q.2

/-- The pairs that the two messages lead to, themselves included. -/
def Reachable (p : c.Pair) : Prop := Relation.ReflTransGen c.Step c.root p

/-! ## The walk -/

/-- The full name that is recorded for a pair. -/
def key (p : c.Pair) : String := (c.original.message p.1).fullName

/-- The pair below a field, if both have a message type there that is no group. -/
def below (q : Fin c.updated.size) (f : FieldDescriptor c.original.size) : Option c.Pair :=
  match (c.updated.message q).fieldByNumber f.number with
  | none => none
  | some g =>
    match f.type, g.type with
    | .message nested, .message nested' => if f.Kept g then some (nested, nested') else none
    | _, _ => none

/-- The pairs below the fields of a pair, in order. -/
def children (p : c.Pair) : List c.Pair := (c.original.message p.1).fields.filterMap (c.below p.2)

end Check

/-! ## Errors about one pair -/

/-- The integer types that may be widened, or widened to, are told by their numbers. -/
theorem constant_eq_integer {n : Nat} (t : FieldType n) :
    (t.constant = typeInt64 ↔ t = .int64) ∧ (t.constant = typeUint64 ↔ t = .uint64) ∧
      (t.constant = typeInt32 ↔ t = .int32) ∧ (t.constant = typeUint32 ↔ t = .uint32) := by
  cases t <;> simp [FieldType.constant, typeInt64, typeUint64, typeInt32, typeUint32]

theorem safeChange_type {n n' : Nat} {t : FieldType n} {t' : FieldType n'} :
    SafeChange t.constant t'.constant ↔ t.constant = t'.constant ∨ (t = .uint32 ∧ t' = .uint64) ∨
      (t = .int32 ∧ t' = .int64) := by
  obtain ⟨-, -, hint32, huint32⟩ := constant_eq_integer t
  obtain ⟨hint64, huint64, -, -⟩ := constant_eq_integer t'
  rw [SafeChange, huint32, huint64, hint32, hint64]

/-- No label has the number of an integer type that may be widened. -/
theorem safeChange_label {l l' : Label} : SafeChange l.constant l'.constant ↔ l = l' := by
  cases l <;> cases l' <;> decide

theorem switchedProperties_eq_nil {n n' : Nat} {original : Descriptor n} {updated : Descriptor n'}
    {f : FieldDescriptor n} {g : FieldDescriptor n'} {schemaType : SchemaType} :
    switchedProperties original updated f g schemaType = [] ↔ f.Kept g := by
  rw [switchedProperties, List.append_eq_nil_iff]
  refine and_congr ?_ ?_
  · rw [← safeChange_type]
    unfold switchedProperty
    split <;> simp [*]
  · rw [← safeChange_label]
    unfold switchedProperty
    split <;> simp [*]

theorem deletedField_eq_nil {n n' : Nat} {original : Descriptor n} {updated : Descriptor n'}
    {f : FieldDescriptor n} {whereText : String} {schemaType : SchemaType} :
    deletedField original updated f whereText schemaType = [] ↔
      schemaType = .proto ∧ updated.Reserves f.number ∧ f.name ∈ updated.reservedName := by
  unfold deletedField
  by_cases hproto : schemaType = .proto
  · simp only [hproto, ne_eq, not_true, if_false, List.append_eq_nil_iff, true_and]
    refine and_congr ?_ ?_ <;> split <;> simp [*]
  · simp [hproto]

theorem compareReservedNames_eq_nil {n n' : Nat} {original : Descriptor n}
    {updated : Descriptor n'} {whereText : String} {schemaType : SchemaType} :
    compareReservedNames original updated whereText schemaType = .ok [] ↔
      ∀ name ∈ original.reservedName, name ∈ updated.reservedName := by
  have hfilter : original.reservedName.filter (· ∉ updated.reservedName) = [] ↔
      ∀ name ∈ original.reservedName, name ∈ updated.reservedName := by
    simp [List.filter_eq_nil_iff]
  rw [← hfilter]
  unfold compareReservedNames
  split
  next hnil => exact ⟨fun _ => hnil, fun _ => rfl⟩
  next name missing hcons =>
    rw [hcons]
    split <;> simp

/-- The texts about the reservations are there in a protobuf schema, and in one that reserves
nothing. -/
theorem compareReservedNames_ok {n n' : Nat} {original : Descriptor n} (updated : Descriptor n')
    (whereText : String) {schemaType : SchemaType}
    (h : schemaType ≠ .proto → original.reservedName = []) :
    ∃ errors, compareReservedNames original updated whereText schemaType = .ok errors := by
  unfold compareReservedNames
  split
  next hnil => exact ⟨_, rfl⟩
  next name missing hcons =>
    split
    next hproto => exact ⟨_, rfl⟩
    next hproto =>
      rw [h hproto, List.filter_nil] at hcons
      cases hcons

theorem compareReservedFieldNumbers_ok {originals : List ReservedRange}
    (updateds : List ReservedRange) (name whereText : String) {schemaType : SchemaType}
    (h : schemaType ≠ .proto → originals = []) :
    ∃ errors, compareReservedFieldNumbers originals updateds name whereText schemaType =
      .ok errors := by
  by_cases hproto : schemaType = .proto
  · rw [hproto]
    exact ⟨_, compareReservedFieldNumbers_proto _ _ _ _⟩
  · refine ⟨[], compareReservedFieldNumbers_eq_nil.mpr ?_⟩
    rw [h hproto]
    simp [missingRanges, sortBy, missingLoop]

theorem requiredField_eq_nil {s : Schema} {m : Fin s.size} {n' : Nat} {updated : Descriptor n'}
    {schemaType : SchemaType} {g : FieldDescriptor n'} :
    requiredField (s.message m) updated schemaType g = [] ↔
      (∃ f ∈ (s.message m).fields, f.number = g.number ∧ f.required = g.required) ∨
        ((∀ f ∈ (s.message m).fields, f.number ≠ g.number) ∧ g.required = false) := by
  unfold requiredField
  cases hfind : (s.message m).fieldByNumber g.number with
  | none =>
    have hnone := Descriptor.fieldByNumber_eq_none.mp hfind
    have hnot : ¬ ∃ f ∈ (s.message m).fields, f.number = g.number ∧ f.required = g.required :=
      fun ⟨f, hf, hnumber, _⟩ => hnone f hf hnumber
    simp only [hnot, false_or]
    cases g.required with
    | true => simp
    | false => simpa using hnone
  | some f =>
    obtain ⟨hf, hnumber⟩ := Schema.fieldByNumber_eq_some.mp hfind
    have hsome : ¬ ∀ f ∈ (s.message m).fields, f.number ≠ g.number := fun h => h f hf hnumber
    simp only [hsome, false_and, or_false]
    by_cases hrequired : f.required = g.required
    · simp only [hrequired, ne_eq, not_true, if_false, true_iff]
      exact ⟨f, hf, hnumber, hrequired⟩
    · simp only [ne_eq, hrequired, not_false_iff, if_true, List.cons_ne_nil, false_iff]
      rintro ⟨f', hf', hnumber', hrequired'⟩
      have hfind' := Schema.fieldByNumber_eq_some.mpr ⟨hf', hnumber'⟩
      rw [hfind] at hfind'
      exact hrequired (Option.some.inj hfind' ▸ hrequired')

/-! ## The check follows the walk -/

section

variable {c : Check}

/-- A field is kept or reserved by what is found under its number. -/
theorem keptOrReserved_of_none {q : Fin c.updated.size} {f : FieldDescriptor c.original.size}
    (hfind : (c.updated.message q).fieldByNumber f.number = none) :
    KeptOrReserved c.schemaType (c.updated.message q) f ↔ c.schemaType = .proto ∧
      (c.updated.message q).Reserves f.number ∧ f.name ∈ (c.updated.message q).reservedName := by
  have hnone := Descriptor.fieldByNumber_eq_none.mp hfind
  constructor
  · rintro (⟨g, hg, hnumber, -⟩ | h)
    · exact absurd hnumber (hnone g hg)
    · exact h.2
  · exact fun h => .inr ⟨hnone, h⟩

theorem keptOrReserved_of_some {q : Fin c.updated.size} {f : FieldDescriptor c.original.size}
    {g : FieldDescriptor c.updated.size}
    (hfind : (c.updated.message q).fieldByNumber f.number = some g) :
    KeptOrReserved c.schemaType (c.updated.message q) f ↔ f.Kept g := by
  obtain ⟨hg, hnumber⟩ := Schema.fieldByNumber_eq_some.mp hfind
  constructor
  · rintro (⟨g', hg', hnumber', hkept⟩ | h)
    · have hfind' := Schema.fieldByNumber_eq_some.mpr ⟨hg', hnumber'⟩
      rw [hfind] at hfind'
      exact Option.some.inj hfind' ▸ hkept
    · exact absurd hnumber (h.1 g hg)
  · exact fun h => .inl ⟨g, hg, hnumber, h⟩

/-- What a comparison of two types has to do for the loop over the fields: follow the walks of
fewer than `fuel` pairs. -/
def Follows (c : Check) (fuel : Nat) (compare : Fin c.original.size → Fin c.updated.size →
    List String → Except Failure (List String × List String)) : Prop :=
  ∀ (p : c.Pair) (processed processed' : List String) (visited : List c.Pair),
    Walk c.children c.key (c.children p) processed visited processed' → visited.length < fuel →
    ∃ errors, compare p.1 p.2 processed = .ok (errors, processed') ∧
      (errors = [] ↔ c.Compatible p ∧ ∀ v ∈ visited, c.Compatible v)

/-- The loop over the fields goes to the pairs below them. -/
theorem fieldLoop_walk {fuel : Nat} {compare : Fin c.original.size → Fin c.updated.size →
      List String → Except Failure (List String × List String)}
    (hcompare : Follows c fuel compare) (p : c.Pair) (fields : List (FieldDescriptor c.original.size))
    (processed processed' : List String) (visited : List c.Pair)
    (hwalk : Walk c.children c.key (fields.filterMap (c.below p.2)) processed visited processed')
    (hfuel : visited.length ≤ fuel) :
    ∃ errors, fieldLoop c.schemaType c.sourceName compare (c.original.message p.1)
        (c.updated.message p.2) fields processed = .ok (errors, processed') ∧
      (errors = [] ↔ (∀ f ∈ fields, KeptOrReserved c.schemaType (c.updated.message p.2) f) ∧
        ∀ v ∈ visited, c.Compatible v) := by
  induction fields generalizing processed visited with
  | nil =>
    cases hwalk
    exact ⟨[], rfl, by simp⟩
  | cons f fields ih =>
    -- a field without a pair below it adds its own errors to those of the rest
    have hown : ∀ own : List String, c.below p.2 f = none →
        (own = [] ↔ KeptOrReserved c.schemaType (c.updated.message p.2) f) →
        ∃ errors, ((fieldLoop c.schemaType c.sourceName compare (c.original.message p.1)
          (c.updated.message p.2) fields processed).map fun r => (own ++ r.1, r.2)) =
            .ok (errors, processed') ∧
          (errors = [] ↔ (∀ f' ∈ f :: fields,
            KeptOrReserved c.schemaType (c.updated.message p.2) f') ∧
            ∀ v ∈ visited, c.Compatible v) := by
      intro own hbelow hiff
      rw [List.filterMap_cons_none hbelow] at hwalk
      obtain ⟨errors, hrest, herrors⟩ := ih _ _ hwalk hfuel
      refine ⟨own ++ errors, by rw [hrest]; rfl, ?_⟩
      rw [List.append_eq_nil_iff, hiff, herrors, List.forall_mem_cons, and_assoc]
    unfold fieldLoop
    cases hfind : (c.updated.message p.2).fieldByNumber f.number with
    | none =>
      dsimp only
      refine hown _ (by rw [Check.below, hfind]) ?_
      rw [deletedField_eq_nil, keptOrReserved_of_none hfind]
    | some g =>
      dsimp only
      split
      next nested nested' hswitched htype htype' =>
        have hkept := switchedProperties_eq_nil.mp hswitched
        have hbelow : c.below p.2 f = some (nested, nested') := by
          rw [Check.below, hfind]
          dsimp only
          rw [htype, htype']
          exact if_pos hkept
        rw [List.filterMap_cons_some hbelow] at hwalk
        cases hwalk with
        | skip hc hcs =>
          obtain ⟨errors, hrest, herrors⟩ := ih _ _ hcs hfuel
          have hc' : (c.original.message nested).fullName ∈ processed := hc
          refine ⟨errors, by rw [if_pos hc', hrest], ?_⟩
          rw [herrors, List.forall_mem_cons, keptOrReserved_of_some hfind]
          simp [hkept]
        | @visit _ _ below visited _ processed₁ _ hc hbelow' hcs =>
          rw [List.length_append, List.length_cons] at hfuel
          obtain ⟨nestedErrors, hnested, hnestedErrors⟩ :=
            hcompare (nested, nested') _ _ _ hbelow' (by omega)
          obtain ⟨errors, hrest, herrors⟩ := ih _ _ hcs (by omega)
          refine ⟨nestedErrors ++ errors, ?_, ?_⟩
          · have hc' : (c.original.message nested).fullName ∉ processed := hc
            have hnested' : compare nested nested'
                (processed ++ [(c.original.message nested).fullName]) =
                .ok (nestedErrors, processed₁) := hnested
            rw [if_neg hc', hnested']
            simp only [Except.bind, hrest, Except.map]
          · rw [List.append_eq_nil_iff, hnestedErrors, herrors, List.forall_mem_cons,
              keptOrReserved_of_some hfind, List.forall_mem_append, List.forall_mem_cons]
            simp only [hkept, true_and]
            exact and_left_comm
      next hnot =>
        refine hown _ ?_ (by rw [switchedProperties_eq_nil, keptOrReserved_of_some hfind])
        rw [Check.below, hfind]
        dsimp only
        split
        next nested nested' htype htype' =>
          refine if_neg fun hkept => ?_
          exact hnot nested nested' (switchedProperties_eq_nil.mpr hkept) htype htype'
        next => rfl

/-- The comparison of a pair follows the walk below it. -/
theorem compareMessages_walk (fuel : Nat) :
    Follows c fuel (compareMessages c.schemaType c.sourceName fuel) := by
  induction fuel with
  | zero => exact fun p processed processed' visited hwalk hfuel => absurd hfuel (by omega)
  | succ fuel ih =>
    intro p processed processed' visited hwalk hfuel
    obtain ⟨numbers, hnumbers⟩ := compareReservedFieldNumbers_ok
      (c.updated.message p.2).reservedRange (c.original.message p.1).name
      (whereMessage (c.original.message p.1) (c.updated.message p.2) c.sourceName)
      (fun h => (c.no_reservations h p.1).1)
    obtain ⟨names, hnames⟩ := compareReservedNames_ok (c.updated.message p.2)
      (whereMessage (c.original.message p.1) (c.updated.message p.2) c.sourceName)
      (fun h => (c.no_reservations h p.1).2)
    obtain ⟨errors, hloop, herrors⟩ := fieldLoop_walk ih p _ processed processed' visited hwalk
      (by omega)
    refine ⟨_, by rw [compareMessages, hnumbers, hnames]; dsimp only [Except.bind]; rw [hloop]; rfl,
      ?_⟩
    have hnumbers' : numbers = [] ↔ ∀ number, (c.original.message p.1).Reserves number →
        (c.updated.message p.2).Reserves number := by
      refine Iff.trans ?_ (missingRanges_eq_nil (c.original.reserved_disjoint p.1))
      have hok : numbers = [] ↔ (Except.ok numbers : Except Failure (List String)) = .ok [] := by
        simp
      rw [hok, ← hnumbers]
      exact compareReservedFieldNumbers_eq_nil
    have hnames' : names = [] ↔ ∀ name ∈ (c.original.message p.1).reservedName,
        name ∈ (c.updated.message p.2).reservedName := by
      rw [← compareReservedNames_eq_nil, hnames, Except.ok.injEq]
    have hrequired : (if c.schemaType ≠ .proto then (c.updated.message p.2).fields.flatMap
          (requiredField (c.original.message p.1) (c.updated.message p.2) c.schemaType) else []) =
        [] ↔ (c.schemaType ≠ .proto → ∀ g ∈ (c.updated.message p.2).fields,
          (∃ f ∈ (c.original.message p.1).fields, f.number = g.number ∧ f.required = g.required) ∨
            ((∀ f ∈ (c.original.message p.1).fields, f.number ≠ g.number) ∧
              g.required = false)) := by
      by_cases hproto : c.schemaType ≠ .proto
      · rw [if_pos hproto, List.flatMap_eq_nil_iff]
        simp only [requiredField_eq_nil, hproto, not_false_iff, true_imp_iff, ne_eq]
      · simp [hproto]
    rw [List.append_eq_nil_iff, List.append_eq_nil_iff, List.append_eq_nil_iff, hnumbers', hnames',
      herrors, hrequired]
    constructor
    · rintro ⟨⟨⟨h1, h2⟩, h3, h4⟩, h5⟩
      exact ⟨⟨h3, h1, h2, h5⟩, h4⟩
    · rintro ⟨⟨h3, h1, h2, h5⟩, h4⟩
      exact ⟨⟨⟨h1, h2⟩, h3, h4⟩, h5⟩

/-- A call from outside follows the walk from what is in the list: it has fuel enough, since the
walk goes to each name of the original schema at most once. -/
theorem Check.compare_walk (c : Check) (processed : List String) :
    ∃ errors processed' visited, c.compare processed = .ok (errors, processed') ∧
      Walk c.children c.key (c.children c.root) processed visited processed' ∧
      (errors = [] ↔ ∀ v ∈ c.root :: visited, c.Compatible v) := by
  let names := (List.finRange c.original.size).map fun m => (c.original.message m).fullName
  have hnames : ∀ v : c.Pair, c.key v ∈ names := fun v =>
    List.mem_map.mpr ⟨v.1, List.mem_finRange _, rfl⟩
  obtain ⟨visited, processed', hwalk⟩ :=
    exists_walk c.children c.key names hnames (c.children c.root) processed
  have hlength : visited.length < c.original.size + 1 := by
    have hsub : visited.map c.key ⊆ names := fun k hk => by
      obtain ⟨v, -, rfl⟩ := List.mem_map.mp hk
      exact hnames v
    have hle := (List.subperm_of_subset hwalk.nodup.1 hsub).length_le
    rw [List.length_map, List.length_map, List.length_finRange] at hle
    omega
  obtain ⟨errors, hcompare, herrors⟩ :=
    compareMessages_walk _ c.root processed processed' visited hwalk hlength
  exact ⟨errors, processed', visited, hcompare, hwalk, by rw [herrors, List.forall_mem_cons]⟩

/-- So does every call of a sequence. -/
theorem processedBy_ok (checks : List Check) (processed : List String) :
    ∃ processed', processedBy checks processed = .ok processed' := by
  induction checks generalizing processed with
  | nil => exact ⟨processed, rfl⟩
  | cons c checks ih =>
    obtain ⟨errors, processed₁, visited, hcompare, -, -⟩ := c.compare_walk processed
    obtain ⟨processed', hrest⟩ := ih processed₁
    exact ⟨processed', by rw [processedBy, hcompare]; exact hrest⟩

/-! ## What is reachable, and what is gone to -/

theorem Check.below_eq_some {q : Fin c.updated.size} {f : FieldDescriptor c.original.size}
    {r : c.Pair} (h : c.below q f = some r) :
    ∃ g ∈ (c.updated.message q).fields, f.number = g.number ∧
      f.type.messageType = some r.1 ∧ g.type.messageType = some r.2 := by
  unfold Check.below at h
  split at h
  next => cases h
  next g hfind =>
    obtain ⟨hg, hnumber⟩ := Schema.fieldByNumber_eq_some.mp hfind
    split at h
    next nested nested' htype htype' =>
      split at h
      next hkept =>
        cases h
        exact ⟨g, hg, hnumber.symm, by rw [htype]; rfl, by rw [htype']; rfl⟩
      next => cases h
    next => cases h

/-- What is below a pair is one step away. -/
theorem Check.step_of_mem_children {p q : c.Pair} (h : q ∈ c.children p) : c.Step p q := by
  obtain ⟨f, hf, hbelow⟩ := List.mem_filterMap.mp h
  obtain ⟨g, hg, hnumber, htype, htype'⟩ := Check.below_eq_some hbelow
  exact ⟨f, hf, g, hg, hnumber, htype, htype'⟩

/-- And so is reachable whatever is below. -/
theorem Check.reachable_below {p a : c.Pair} (hp : p ∈ c.children c.root)
    (ha : Relation.ReflTransGen (fun a b => b ∈ c.children a) p a) : c.Reachable a :=
  .head (Check.step_of_mem_children hp)
    (Relation.ReflTransGen.mono (fun _ _ => Check.step_of_mem_children) _ _ ha)

theorem Check.reachable_of_mem {processed processed' : List String} {visited : List c.Pair}
    (hwalk : Walk c.children c.key (c.children c.root) processed visited processed') :
    ∀ v ∈ c.root :: visited, c.Reachable v := by
  intro v hv
  rcases List.mem_cons.mp hv with rfl | hv
  · exact .refl
  · obtain ⟨p, hp, hreach⟩ := hwalk.reachable v hv
    exact Check.reachable_below hp hreach

/-- Below a compatible pair whose first message has no groups lies all that is one step away. -/
theorem Check.mem_children_of_step {p q : c.Pair} (hp : c.Compatible p)
    (hgroups : ∀ f ∈ (c.original.message p.1).fields, ∀ m, f.type ≠ .group m)
    (hstep : c.Step p q) : q ∈ c.children p := by
  obtain ⟨f, hf, g, hg, hnumber, hftype, hgtype⟩ := hstep
  have hfind := Schema.fieldByNumber_eq_some.mpr ⟨hg, hnumber.symm⟩
  refine List.mem_filterMap.mpr ⟨f, hf, ?_⟩
  have hkept : f.Kept g := by
    rcases hp.fields f hf with ⟨g', hg', hnumber', hkept⟩ | ⟨hgone, -⟩
    · have hfind' := Schema.fieldByNumber_eq_some.mpr ⟨hg', hnumber'⟩
      rw [Option.some.inj (hfind.symm.trans hfind')]
      exact hkept
    · exact absurd hnumber.symm (hgone g hg)
  have hf' : f.type = .message q.1 := by
    cases htype : f.type <;> rw [htype] at hftype <;> cases hftype
    · exact absurd htype (hgroups f hf _)
    · rfl
  have hg' : g.type = .message q.2 := by
    have hconstant := hkept.1
    rw [hf'] at hconstant
    cases htype : g.type <;> rw [htype] at hgtype hconstant <;> cases hgtype
    · simp [FieldType.constant] at hconstant
    · rfl
  rw [Check.below, hfind]
  dsimp only
  rw [hf', hg']
  exact if_pos hkept

/-- Where no reachable type is recorded, each has one type in the update, and there are no groups,
the check leaves nothing out. -/
theorem compare_messages_complete {processed : List String}
    (hfresh : ∀ p, c.Reachable p → c.key p ∉ processed)
    (hone : ∀ p q, c.Reachable p → c.Reachable q → p.1 = q.1 → p = q)
    (hgroups : ∀ m, ∀ f ∈ (c.original.message m).fields, ∀ m', f.type ≠ .group m') :
    ∃ errors processed', c.compare processed = .ok (errors, processed') ∧
      (errors = [] ↔ ∀ p, c.Reachable p → c.Compatible p) := by
  obtain ⟨errors, processed', visited, hcompare, hwalk, herrors⟩ := c.compare_walk processed
  have hreachable := Check.reachable_of_mem hwalk
  refine ⟨errors, processed', hcompare, herrors.trans ⟨fun hvisited p hp => ?_, fun hall p hp =>
    hall p (hreachable p hp)⟩⟩
  have hmem : ∀ {p}, c.Reachable p → p ∈ c.root :: visited := by
    intro p hp
    induction hp with
    | refl => exact List.mem_cons_self
    | @tail q r hq hstep ih =>
      have hr : c.Reachable r := .tail hq hstep
      have hchild := Check.mem_children_of_step (hvisited q ih) (hgroups q.1) hstep
      have hrecorded : c.key r ∈ processed' := by
        rcases List.mem_cons.mp ih with rfl | hq
        · exact hwalk.closed.1 r hchild
        · exact hwalk.closed.2 q hq r hchild
      -- recorded by this walk, and so for the same pair
      rw [hwalk.recorded_eq] at hrecorded
      obtain ⟨v, hv, hkey⟩ := List.mem_map.mp
        ((List.mem_append.mp hrecorded).resolve_left (hfresh r hr))
      have hv' := List.mem_cons_of_mem c.root hv
      rw [← hone v r (hreachable v hv') hr (c.original.fullName_injective _ _ hkey)]
      exact hv'
  exact hvisited p (hmem hp)

/-- After any earlier checks: that a check reports no error exactly for compatible messages is the
case if and only if it gets to a pair that is not compatible, or all reachable pairs that it leaves
out are compatible. -/
theorem compare_messages_complete_iff (earlier : List Check) (c : Check) :
    ∃ processed errors processed' visited, processedBy earlier [] = .ok processed ∧
      c.compare processed = .ok (errors, processed') ∧
      Walk c.children c.key (c.children c.root) processed visited processed' ∧
      ((errors = [] ↔ ∀ p, c.Reachable p → c.Compatible p) ↔
        (∃ p ∈ c.root :: visited, ¬ c.Compatible p) ∨
          ∀ p, c.Reachable p → p ∉ c.root :: visited → c.Compatible p) := by
  obtain ⟨processed, hearlier⟩ := processedBy_ok earlier []
  obtain ⟨errors, processed', visited, hcompare, hwalk, herrors⟩ := c.compare_walk processed
  refine ⟨processed, errors, processed', visited, hearlier, hcompare, hwalk, ?_⟩
  rw [herrors]
  constructor
  · intro hright
    by_cases hvisited : ∀ p ∈ c.root :: visited, c.Compatible p
    · exact .inr fun p hp _ => hright.mp hvisited p hp
    · refine .inl ?_
      push Not at hvisited
      exact hvisited
  · rintro (⟨p, hp, hnot⟩ | hskipped)
    · exact ⟨fun hvisited => absurd (hvisited p hp) hnot, fun hall =>
        absurd (hall p (Check.reachable_of_mem hwalk p hp)) hnot⟩
    · refine ⟨fun hvisited p hp => ?_, fun hall p hp =>
        hall p (Check.reachable_of_mem hwalk p hp)⟩
      by_cases hmem : p ∈ c.root :: visited
      · exact hvisited p hmem
      · exact hskipped p hp hmem

end

/-- A chat whose last message has a text of this type. -/
def chatSchema (text : FieldType 2) : Schema where
  size := 2
  message
    | 0 => ⟨"chat.v1.Chat", "Chat", [⟨1, "last", .message 1, .optional, false⟩], [], [], true,
        ⟨"", ""⟩⟩
    | 1 => ⟨"chat.v1.Message", "Message", [⟨1, "text", text, .optional, false⟩], [], [], false,
        ⟨"", ""⟩⟩
  fullName_injective
    | 0, 0, _ => rfl
    | 0, 1, h => absurd (show "chat.v1.Chat" = "chat.v1.Message" from h) (by decide)
    | 1, 0, h => absurd (show "chat.v1.Message" = "chat.v1.Chat" from h) (by decide)
    | 1, 1, _ => rfl
  number_nodup
    | 0 => List.nodup_singleton _
    | 1 => List.nodup_singleton _
  reserved_disjoint
    | 0 => List.Pairwise.nil
    | 1 => List.Pairwise.nil

/-- The chat as it is now against one with texts of this type. -/
def chatCheck (text : FieldType 2) : Check where
  schemaType := .proto
  original := chatSchema .string
  updated := chatSchema text
  originalMessage := (0 : Fin 2)
  updatedMessage := (0 : Fin 2)
  sourceName := "Chat"
  no_reservations := fun h => absurd rfl h

/-- After a check of the chat against itself, the check against texts that are numbers reports
nothing; without it, it does. -/
theorem compare_messages_after_another :
    processedBy [chatCheck .string] [] = .ok ["chat.v1.Message"] ∧
    (chatCheck .int32).compare ["chat.v1.Message"] = .ok ([], ["chat.v1.Message"]) ∧
    (∃ p, (chatCheck .int32).Reachable p ∧ ¬ (chatCheck .int32).Compatible p) ∧
    (chatCheck .int32).compare [] =
      .ok (["Field `text` in message `Message` has switched type from `string` to `int32`"],
        ["chat.v1.Message"]) := by
  refine ⟨by decide +kernel, by decide +kernel, ⟨((1 : Fin 2), (1 : Fin 2)), ?_, fun h => ?_⟩, by decide +kernel⟩
  · exact .single ⟨⟨1, "last", .message (1 : Fin 2), .optional, false⟩, List.mem_cons_self,
      ⟨1, "last", .message (1 : Fin 2), .optional, false⟩, List.mem_cons_self, rfl, rfl, rfl⟩
  · rcases h.fields ⟨1, "text", .string, .optional, false⟩ List.mem_cons_self with
      ⟨g, hg, -, hkept⟩ | ⟨hgone, -⟩
    · obtain rfl := List.mem_singleton.mp hg
      rcases hkept.1 with hconstant | ⟨htype, -⟩ | ⟨htype, -⟩
      · exact absurd hconstant (by decide)
      · cases htype
      · cases htype
    · exact hgone _ List.mem_cons_self rfl

end Reboot.Schemas
