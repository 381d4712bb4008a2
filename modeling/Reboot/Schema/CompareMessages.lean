import Reboot.Lib.DepthFirst
import Reboot.Schema.ReservedRanges

/-!
# The comparison of two messages

`_compare_messages` of `reboot/server/service_descriptor_validator.py` compares the fields of two
messages number by number, and goes into the message types of the fields it finds unchanged. So
that recursive types end, it records the full name of each message type that it goes into, and
leaves out a field of a recorded type.

The list of names is a default argument, which Python makes once: all calls that do not pass one
share it, and those are the calls from outside. `Check.compare` is such a call, with what earlier
ones left in the list, and `processedBy` is a sequence of them.

Mirroring notes:
- `FieldDescriptor`s are read from the schema, so a message is passed on by its index.
- `str(value)` of a constant without a text is never needed: each type and label has one.
- The recursion has fuel. Each call records one more message type of the original schema, so
  one more than there are types is enough (`Check.compare_walk`). The recursion limit of Python
  is not part of the model.
- A name of a proto field is ASCII.
-/

namespace Reboot.Schemas

/-! ## Texts -/

/-- `str.capitalize` -/
def capitalize (word : String) : String :=
  match word.toList with
  | [] => ""
  | c :: cs => String.ofList (c.toUpper :: cs.map Char.toLower)

def snakeToCamel (snakeStr : String) : String :=
  match snakeStr.splitOn "_" with
  | [] => ""
  | first :: words => first ++ String.join (words.map capitalize)

/-- `_user_field_name` -/
def userFieldName (fieldName : String) (schemaType : SchemaType) : String :=
  if schemaType = .zod then snakeToCamel fieldName else fieldName

/-- `_user_visible_schema_ref`, through `_format_schema_ref`. -/
def userVisibleSchemaRef {n : Nat} (descriptor : Descriptor n) (schemaType : SchemaType) :
    String :=
  let pydantic := descriptor.fileOptions.pydantic
  let zod := descriptor.fileOptions.zod
  let name := descriptor.name
  if schemaType = .pydantic then s!"`{pydantic}.{name}`" else s!"`{name}` (from `{zod}`)"

def kindLabel {n : Nat} (originalMessage : Descriptor n) (schemaType : SchemaType) : String :=
  if schemaType = .proto then "message"
  else if originalMessage.isRebootState then "the state of servicer type"
  else if schemaType = .pydantic then "Pydantic model"
  else "Zod schema"

/-- Whether the two messages differ in name is part of every error about them. -/
def whereMessage {n n' : Nat} (originalMessage : Descriptor n) (updatedMessage : Descriptor n')
    (sourceName : String) : String :=
  let updatedName := updatedMessage.name
  if originalMessage.name ≠ updatedMessage.name then s!"changed to `{updatedName}` in `{sourceName}`"
  else s!"in `{sourceName}`"

/-- `DESCRIPTOR_OPTION_TO_STRING['type']` -/
def typeToString {n : Nat} : FieldType n → String
  | .double => "double"
  | .float => "float"
  | .int64 => "int64"
  | .uint64 => "uint64"
  | .int32 => "int32"
  | .fixed64 => "fixed64"
  | .fixed32 => "fixed32"
  | .bool => "bool"
  | .string => "string"
  | .group _ => "group"
  | .message _ => "message"
  | .bytes => "bytes"
  | .uint32 => "uint32"
  | .enum => "enum"
  | .sfixed32 => "sfixed32"
  | .sfixed64 => "sfixed64"
  | .sint32 => "sint32"
  | .sint64 => "sint64"

/-- `DESCRIPTOR_OPTION_TO_STRING['label']` -/
def labelToString : Label → String
  | .optional => "singular"
  | .required => "required"
  | .repeated => "repeated"

/-! ## What is wrong with one field -/

/-- The reserved names that the update drops. -/
def compareReservedNames {n n' : Nat} (originalMessage : Descriptor n)
    (updatedMessage : Descriptor n') (whereText : String) (schemaType : SchemaType) :
    Except Failure (List String) :=
  match originalMessage.reservedName.filter (· ∉ updatedMessage.reservedName) with
  | [] => .ok []
  | reservedName :: missing =>
    if schemaType = .proto then
      .ok ((reservedName :: missing).map fun reservedName =>
        let messageName := originalMessage.name
        s!"Field name `{reservedName}` is no longer `reserved` in message `{messageName}` " ++
          s!"({whereText}).")
    else .error .assertion

/-- A field that the update no longer has. -/
def deletedField {n n' : Nat} (originalMessage : Descriptor n) (updatedMessage : Descriptor n')
    (originalField : FieldDescriptor n) (whereText : String) (schemaType : SchemaType) :
    List String :=
  let fieldLabel := userFieldName originalField.name schemaType
  let kind := kindLabel originalMessage schemaType
  let fieldName := originalField.name
  let messageName := originalMessage.name
  if schemaType ≠ .proto then
    let schemaRef := userVisibleSchemaRef originalMessage schemaType
    [s!"Field `{fieldLabel}` was removed from {kind} {schemaRef}. Removing fields is a " ++
      "backwards-incompatible change. To continue, restore the field or use `expunge` to clear " ++
      "all existing state data."]
  else
    (if updatedMessage.Reserves originalField.number then []
    else [s!"Field `{fieldName}` was deleted from message `{messageName}` ({whereText}), and " ++
      "its field number was not reserved. See: " ++
      "https://protobuf.dev/programming-guides/proto3/#reserved"]) ++
    if originalField.name ∈ updatedMessage.reservedName then []
    else [s!"Field `{fieldName}` was deleted from message `{messageName}` ({whereText}), and " ++
      "its field name was not reserved. See: " ++
      "https://protobuf.dev/programming-guides/proto3/#reserved"]

/-- The changes of a property that are let through. -/
def SafeChange (originalValue updatedValue : Nat) : Prop :=
  originalValue = updatedValue ∨ (originalValue = typeUint32 ∧ updatedValue = typeUint64) ∨
    (originalValue = typeInt32 ∧ updatedValue = typeInt64)

instance (originalValue updatedValue : Nat) : Decidable (SafeChange originalValue updatedValue) :=
  inferInstanceAs (Decidable (_ ∨ _))

/-- One property of a field that is in both. -/
def switchedProperty {n n' : Nat} (originalMessage : Descriptor n)
    (updatedMessage : Descriptor n') (updatedField : FieldDescriptor n') (schemaType : SchemaType)
    (propertyName originalText updatedText : String) (originalValue updatedValue : Nat) :
    List String :=
  if SafeChange originalValue updatedValue then []
  else
    let kind := kindLabel originalMessage schemaType
    let originalName := originalMessage.name
    let updatedName := updatedMessage.name
    let hint := if originalMessage.name ≠ updatedMessage.name then
      s!"(relative to original {kind} `{originalName}`) " else ""
    let fieldLabel := userFieldName updatedField.name schemaType
    let schemaRef := if schemaType ≠ .proto then userVisibleSchemaRef updatedMessage schemaType
      else s!"`{updatedName}`"
    [s!"Field `{fieldLabel}` in {kind} {schemaRef} has switched {propertyName} {hint}from " ++
      s!"`{originalText}` to `{updatedText}`"]

/-- The loop over `['type', 'label']`. -/
def switchedProperties {n n' : Nat} (originalMessage : Descriptor n)
    (updatedMessage : Descriptor n') (originalField : FieldDescriptor n)
    (updatedField : FieldDescriptor n') (schemaType : SchemaType) : List String :=
  switchedProperty originalMessage updatedMessage updatedField schemaType "type"
    (typeToString originalField.type) (typeToString updatedField.type)
    originalField.type.constant updatedField.type.constant ++
  switchedProperty originalMessage updatedMessage updatedField schemaType "label"
    (labelToString originalField.label) (labelToString updatedField.label)
    originalField.label.constant updatedField.label.constant

/-- The `required` option of one field of the update. -/
def requiredField {n n' : Nat} (originalMessage : Descriptor n) (updatedMessage : Descriptor n')
    (schemaType : SchemaType) (updatedField : FieldDescriptor n') : List String :=
  let fieldLabel := userFieldName updatedField.name schemaType
  let kind := kindLabel originalMessage schemaType
  let schemaRef := userVisibleSchemaRef updatedMessage schemaType
  match originalMessage.fieldByNumber updatedField.number with
  | some originalField =>
    if originalField.required ≠ updatedField.required then
      let errorCause := if updatedField.required then "became required"
        else "is not required anymore"
      [s!"Field `{fieldLabel}` in {kind} {schemaRef} {errorCause}. This is a " ++
        "backwards-incompatible change. To continue, revert the change or use `expunge` to " ++
        "clear all existing state data."]
    else []
  | none =>
    if updatedField.required then
      [s!"Field `{fieldLabel}` was added to {kind} {schemaRef} as a required field. Adding " ++
        "required fields is a backwards-incompatible change. To continue, add the field with " ++
        "a default value or use `expunge` to clear all existing state data."]
    else []

/-! ## The recursion -/

section

variable {o u : Schema} (schemaType : SchemaType) (sourceName : String)

/-- The loop over `fields_by_number` of the original. `compare` goes into two message types, with
the list of processed names; the list that is returned has those recorded on the way. -/
def fieldLoop
    (compare : Fin o.size → Fin u.size → List String → Except Failure (List String × List String))
    (originalMessage : Descriptor o.size) (updatedMessage : Descriptor u.size) :
    List (FieldDescriptor o.size) → List String → Except Failure (List String × List String)
  | [], processed => .ok ([], processed)
  | originalField :: fields, processed =>
    match updatedMessage.fieldByNumber originalField.number with
    | none =>
      let deleted := deletedField originalMessage updatedMessage originalField
        (whereMessage originalMessage updatedMessage sourceName) schemaType
      (fieldLoop compare originalMessage updatedMessage fields processed).map
        fun r => (deleted ++ r.1, r.2)
    | some updatedField =>
      match switchedProperties originalMessage updatedMessage originalField updatedField
        schemaType, originalField.type, updatedField.type with
      | [], .message nested, .message nested' =>
        if (o.message nested).fullName ∈ processed then
          fieldLoop compare originalMessage updatedMessage fields processed
        else
          (compare nested nested' (processed ++ [(o.message nested).fullName])).bind fun below =>
            (fieldLoop compare originalMessage updatedMessage fields below.2).map
              fun r => (below.1 ++ r.1, r.2)
      | switched, _, _ =>
        (fieldLoop compare originalMessage updatedMessage fields processed).map
          fun r => (switched ++ r.1, r.2)

/-- `_compare_messages` -/
def compareMessages : (fuel : Nat) → Fin o.size → Fin u.size → List String →
    Except Failure (List String × List String)
  | 0, _, _, _ => .error .outOfFuel
  | fuel + 1, original, updated, processed =>
    let originalMessage := o.message original
    let updatedMessage := u.message updated
    let whereText := whereMessage originalMessage updatedMessage sourceName
    (compareReservedFieldNumbers originalMessage.reservedRange updatedMessage.reservedRange
      originalMessage.name whereText schemaType).bind fun numbers =>
    (compareReservedNames originalMessage updatedMessage whereText schemaType).bind fun names =>
    (fieldLoop schemaType sourceName (compareMessages fuel) originalMessage updatedMessage
      originalMessage.fields processed).map fun r =>
    (numbers ++ names ++ r.1 ++
      (if schemaType ≠ .proto then
        updatedMessage.fields.flatMap (requiredField originalMessage updatedMessage schemaType)
      else []),
      r.2)

end

/-! ## Calls from outside -/

/-- A call without a list of processed names. Only a protobuf schema reserves anything: what is
generated from Pydantic models and from Zod has no reservations. -/
structure Check where
  schemaType : SchemaType
  original : Schema
  updated : Schema
  originalMessage : Fin original.size
  updatedMessage : Fin updated.size
  sourceName : String
  no_reservations : schemaType ≠ .proto → ∀ m,
    (original.message m).reservedRange = [] ∧ (original.message m).reservedName = []

/-- The errors of a call, and what it leaves in the list. -/
def Check.compare (c : Check) (processed : List String) :
    Except Failure (List String × List String) :=
  compareMessages (o := c.original) (u := c.updated) c.schemaType c.sourceName
    (c.original.size + 1) c.originalMessage c.updatedMessage processed

/-- What is in the list after a sequence of calls. -/
def processedBy : List Check → List String → Except Failure (List String)
  | [], processed => .ok processed
  | c :: checks, processed => (c.compare processed).bind fun r => processedBy checks r.2

end Reboot.Schemas
