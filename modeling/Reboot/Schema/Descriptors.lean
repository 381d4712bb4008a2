import Mathlib.Data.List.Basic

/-!
# Descriptors of protobuf schemas

What `reboot/server/service_descriptor_validator.py` reads of a protobuf descriptor: the fields of
a message with their numbers, names, types, labels and the `required` option of Reboot, the field
numbers and names that the message reserves, and the options of its file that say whether it was
generated from Pydantic models or from Zod.

Mirroring notes:
- The constants of `FieldDescriptor` are the numbers of `google/protobuf/descriptor.proto`.
- `fields_by_number` is a dictionary in the order of the declarations, so a message keeps the list
  of its fields, and their numbers differ (`Schema.number_nodup`).
- A message type is referred to by its index in the schema. `full_name` is what Python uses, and
  it tells the types of a schema apart (`Schema.fullName_injective`).
- A reserved range ends before `end`, holds at least one number, and two ranges of one message
  have none in common: the compiler of protobuf refuses all else.
-/

namespace Reboot.Schemas

/-- `SchemaType`: the schema language of an API. -/
inductive SchemaType
  | proto | pydantic | zod
  deriving DecidableEq

/-! ## Reserved ranges -/

/-- `DescriptorProto.ReservedRange`; `stop` is the source's `end`. -/
structure ReservedRange where
  start : Nat
  stop : Nat
  start_lt_stop : start < stop
  deriving DecidableEq

/-- The numbers of a range. -/
def ReservedRange.Covers (r : ReservedRange) (n : Nat) : Prop := r.start ≤ n ∧ n < r.stop

instance (r : ReservedRange) (n : Nat) : Decidable (r.Covers n) :=
  inferInstanceAs (Decidable (_ ∧ _))

/-- No number is in both. -/
def ReservedRange.Disjoint (r r' : ReservedRange) : Prop := ∀ n, ¬ (r.Covers n ∧ r'.Covers n)

theorem ReservedRange.covers_start (r : ReservedRange) : r.Covers r.start :=
  ⟨Nat.le_refl _, r.start_lt_stop⟩

theorem ReservedRange.Disjoint.symm {r r' : ReservedRange} (h : r.Disjoint r') : r'.Disjoint r :=
  fun n hn => h n ⟨hn.2, hn.1⟩

/-! ## Fields -/

/-- The type of a field, over `n` message types. -/
inductive FieldType (n : Nat)
  | double | float | int64 | uint64 | int32 | fixed64 | fixed32 | bool | string
  | group (messageType : Fin n)
  | message (messageType : Fin n)
  | bytes | uint32 | enum | sfixed32 | sfixed64 | sint32 | sint64
  deriving DecidableEq

/-- `FieldDescriptor.TYPE_INT64` and the other constants that the check names. -/
def typeInt64 : Nat := 3
def typeUint64 : Nat := 4
def typeInt32 : Nat := 5
def typeUint32 : Nat := 13

/-- `FieldDescriptor.type`. -/
def FieldType.constant {n : Nat} : FieldType n → Nat
  | .double => 1
  | .float => 2
  | .int64 => typeInt64
  | .uint64 => typeUint64
  | .int32 => typeInt32
  | .fixed64 => 6
  | .fixed32 => 7
  | .bool => 8
  | .string => 9
  | .group _ => 10
  | .message _ => 11
  | .bytes => 12
  | .uint32 => typeUint32
  | .enum => 14
  | .sfixed32 => 15
  | .sfixed64 => 16
  | .sint32 => 17
  | .sint64 => 18

/-- `FieldDescriptor.message_type`: groups have one as well. -/
def FieldType.messageType {n : Nat} : FieldType n → Option (Fin n)
  | .group m => some m
  | .message m => some m
  | _ => none

/-- The label of a field. -/
inductive Label
  | optional | required | repeated
  deriving DecidableEq

/-- `FieldDescriptor.label`. -/
def Label.constant : Label → Nat
  | .optional => 1
  | .required => 2
  | .repeated => 3

/-- `FieldDescriptor`; `required` is the option of that name of `get_field_options(field)`. -/
structure FieldDescriptor (n : Nat) where
  number : Nat
  name : String
  type : FieldType n
  label : Label
  required : Bool
  deriving DecidableEq

/-! ## Messages -/

/-- `FileOptions`: the Python module or the TypeScript file that the file was generated from. -/
structure FileOptions where
  pydantic : String
  zod : String
  deriving DecidableEq

/-- `Descriptor`, with what its `DescriptorProto` reserves. -/
structure Descriptor (n : Nat) where
  fullName : String
  name : String
  fields : List (FieldDescriptor n)
  reservedRange : List ReservedRange
  reservedName : List String
  isRebootState : Bool
  fileOptions : FileOptions
  deriving DecidableEq

/-- `fields_by_number[number]`. -/
def Descriptor.fieldByNumber {n : Nat} (m : Descriptor n) (number : Nat) :
    Option (FieldDescriptor n) :=
  m.fields.find? fun f => f.number = number

/-- The number is in a reserved range. -/
def Descriptor.Reserves {n : Nat} (m : Descriptor n) (number : Nat) : Prop :=
  ∃ r ∈ m.reservedRange, r.Covers number

instance {n : Nat} (m : Descriptor n) (number : Nat) : Decidable (m.Reserves number) :=
  inferInstanceAs (Decidable (∃ r ∈ _, _))

/-- The message types that a check may come to. -/
structure Schema where
  size : Nat
  message : Fin size → Descriptor size
  fullName_injective : ∀ m m', (message m).fullName = (message m').fullName → m = m'
  number_nodup : ∀ m, ((message m).fields.map (·.number)).Nodup
  reserved_disjoint : ∀ m, (message m).reservedRange.Pairwise ReservedRange.Disjoint

/-- A field is found under its own number. -/
theorem Schema.fieldByNumber_eq_some {s : Schema} {m : Fin s.size} {number : Nat}
    {f : FieldDescriptor s.size} :
    (s.message m).fieldByNumber number = some f ↔
      f ∈ (s.message m).fields ∧ f.number = number := by
  have hnodup := s.number_nodup m
  unfold Descriptor.fieldByNumber
  generalize (s.message m).fields = fields at hnodup
  induction fields with
  | nil => simp
  | cons g rest ih =>
    rw [List.map_cons, List.nodup_cons] at hnodup
    by_cases hg : g.number = number
    · rw [List.find?_cons_of_pos (by simpa using hg), Option.some.injEq, List.mem_cons]
      constructor
      · intro h
        exact ⟨.inl h.symm, h ▸ hg⟩
      · rintro ⟨h | h, hnumber⟩
        · exact h.symm
        · exact absurd (List.mem_map.mpr ⟨f, h, hnumber.trans hg.symm⟩) hnodup.1
    · rw [List.find?_cons_of_neg (by simpa using hg), List.mem_cons]
      refine (ih hnodup.2).trans ?_
      constructor
      · exact fun h => ⟨.inr h.1, h.2⟩
      · rintro ⟨h | h, hnumber⟩
        · exact absurd (h ▸ hnumber) hg
        · exact ⟨h, hnumber⟩

theorem Descriptor.fieldByNumber_eq_none {n : Nat} {m : Descriptor n} {number : Nat} :
    m.fieldByNumber number = none ↔ ∀ f ∈ m.fields, f.number ≠ number := by
  simp [Descriptor.fieldByNumber]

end Reboot.Schemas
