import Reboot.Lib.KeyedChanges
import Reboot.Lib.Text

/-!
# The dashboard's changelog

`reboot/dashboard/backend/changelog.py` compares what the API files declared before a save with what
they declare after it (`changes_between`), and two analyses of the servicers
(`code_changes_between`). Its docstring: every change names what changed, a type added or removed
whole, or each of its methods, properties and other parts that is not as it was.

The comparison is one test for each field, and four have none: what a transaction declares beside
being one, the UIs of a state type, whether it constructs itself, and its own description. Servicers
are found by state type and file, so of several classes for one state type in one file the last is
compared. `changelog_complete_iff` says for which inputs nothing is left out.

Mirroring notes:
- The types and the constraints of properties, and what the analysis found in a method beside its
  digest, are compared as wholes: they are type variables.
- `repeated` fields whose entries have a name of their own are lists with the names distinct, as
  `api_of` fills them; `schemas` has an entry for each model that is mentioned, so that looking one up
  does not raise.
- What a change says is its constructor with the fields of the message; a name that the message
  spells with `from` and `to` is a pair.
-/

namespace Reboot.Dashboard

open Reboot.Lib

/-! ## Declarations -/

structure Property (τ κ : Type) where
  name : Str
  tag : Nat
  type : τ
  required : Bool
  description : Option Str
  default : Option Str
  constraints : Option κ
  deprecated : Bool

structure Schema (τ κ : Type) where
  name : Str
  module : Str
  properties : List (Property τ κ)
  description : Option Str
  tags : (properties.map Property.tag).Nodup

/-- The `oneof mode` of a `Transaction`. -/
inductive Mode where
  | exclusive
  | shared
  deriving DecidableEq

/-- The `oneof kind` of a `Method`, with what the kind declares. -/
inductive Kind where
  | reader
  | writer
  | transaction (mode : Option Mode)
  | workflow
  deriving DecidableEq

inductive KindName where
  | reader
  | writer
  | transaction
  | workflow
  deriving DecidableEq

/-- `WhichOneof('kind')` -/
def Kind.whichOneof : Kind → KindName
  | .reader => .reader
  | .writer => .writer
  | .transaction _ => .transaction
  | .workflow => .workflow

/-- The `oneof primitive` of an `MCP`, each with a name and a title. -/
inductive Primitive where
  | tool (name title : Option Str)
  | resource (name title : Option Str)
  deriving DecidableEq

structure MCP where
  primitive : Option Primitive
  deriving DecidableEq

/-- A reference is the name of the model. -/
structure Method where
  name : Str
  kind : Kind
  factory : Bool
  request : Option Str
  response : Option Str
  errors : List Str
  description : Option Str
  mcp : Option MCP

structure UI where
  name : Str
  path : Str
  request : Option Str
  title : Option Str
  description : Option Str
  displayModes : List Str

structure StateType where
  name : Str
  reference : Str
  description : Option Str
  autoConstruct : Bool
  methods : List Method
  uis : List UI
  methodNames : (methods.map Method.name).Nodup
  uiNames : (uis.map UI.name).Nodup

structure API (τ κ : Type) where
  filename : Str
  package : Str
  stateTypes : List StateType
  dataTypes : List Str
  schemas : Dict Str (Schema τ κ)
  mentioned : ∀ name ∈ stateTypes.map StateType.reference ++ dataTypes,
    (schemas.find? name).isSome = true

variable {τ κ φ : Type}

/-- `api.schemas[name]`; of a name that is mentioned there is one. -/
def API.schema (api : API τ κ) (name : Str) : Schema τ κ :=
  (api.schemas.find? name).getD ⟨[], [], [], none, List.nodup_nil⟩

/-- `state_type_name` -/
def stateTypeName (api : API τ κ) (stateType : StateType) : Str :=
  api.package ++ '.' :: stateType.name

/-- The state types of the files, each with the API of its file. -/
def declaredStateTypes (files : List (API τ κ)) : List (API τ κ × StateType) :=
  files.flatMap fun api => api.stateTypes.map fun stateType => (api, stateType)

def declaredDataTypes (files : List (API τ κ)) : List (Str × API τ κ × Schema τ κ) :=
  files.flatMap fun api => api.dataTypes.map fun name => (name, api, api.schema name)

/-- What the API files declare, each name in one file. -/
structure APIs (τ κ : Type) where
  files : Dict Str (API τ κ)
  stateNames : ((declaredStateTypes (files.items.map Prod.snd)).map
    fun e => stateTypeName e.1 e.2).Nodup
  dataNames : ((declaredDataTypes (files.items.map Prod.snd)).map Prod.fst).Nodup

/-! ## Changes -/

inductive PropertyWhat (τ κ : Type) where
  | added
  | removed
  | renamed (old new : Str)
  | type (old new : τ)
  | required (required : Bool)
  | default (old new : Option Str)
  | description (old new : Option Str)
  | constraints (old new : Option κ)
  | deprecated (deprecated : Bool)

structure PropertyChange (τ κ : Type) where
  tag : Nat
  name : Str
  what : PropertyWhat τ κ

inductive MethodWhat where
  | added
  | removed
  | kind (old new : KindName)
  | factory (factory : Bool)
  | mcp (old new : Option MCP)
  | request (old new : Option Str)
  | response (old new : Option Str)
  | errors (old new : List Str)
  | description (old new : Option Str)

structure MethodChange where
  name : Str
  what : MethodWhat

structure StateTypeChanged (τ κ : Type) where
  name : Str
  filename : Str
  methods : List MethodChange
  properties : List (PropertyChange τ κ)
  description : Option (Option Str × Option Str)
  stateModelRenamed : Option (Str × Str)

structure DataTypeChanged (τ κ : Type) where
  name : Str
  filename : Str
  package : Str
  properties : List (PropertyChange τ κ)
  description : Option (Option Str × Option Str)

inductive Change (τ κ : Type) where
  | stateTypeAdded (name filename : Str)
  | stateTypeChanged (changed : StateTypeChanged τ κ)
  | stateTypeRemoved (name filename : Str)
  | dataTypeAdded (name filename package : Str)
  | dataTypeChanged (changed : DataTypeChanged τ κ)
  | dataTypeRemoved (name filename package : Str)

/-! ## The code -/

/-- Strings are sorted by code points. -/
def strLe (a b : Str) : Bool := !List.lex b a fun x y => decide (x.toNat < y.toNat)

/-- One `if` of a comparison, with the entry it appends. -/
def changeIf {C : Type} (p : Prop) [Decidable p] (c : C) : List C := if p then [c] else []

@[simp] theorem mem_changeIf {C : Type} {p : Prop} [Decidable p] {c d : C} :
    d ∈ changeIf p c ↔ p ∧ d = c := by
  unfold changeIf
  split <;> simp_all

/-- `_properties_of` -/
def propertiesOf (schema : Schema τ κ) : Dict Nat (Property τ κ) := byKey Property.tag schema.properties

section PropertyChanges

variable [DecidableEq τ] [DecidableEq κ]

/-- The comparisons of a property that is kept. -/
def keptPropertyChanges (tag : Nat) (old new : Property τ κ) : List (PropertyChange τ κ) :=
  changeIf (old.name ≠ new.name) ⟨tag, new.name, .renamed old.name new.name⟩ ++
  changeIf (old.type ≠ new.type) ⟨tag, new.name, .type old.type new.type⟩ ++
  changeIf (old.required ≠ new.required) ⟨tag, new.name, .required new.required⟩ ++
  changeIf (old.default ≠ new.default) ⟨tag, new.name, .default old.default new.default⟩ ++
  changeIf (old.description ≠ new.description)
    ⟨tag, new.name, .description old.description new.description⟩ ++
  changeIf (old.constraints ≠ new.constraints)
    ⟨tag, new.name, .constraints old.constraints new.constraints⟩ ++
  changeIf (old.deprecated ≠ new.deprecated) ⟨tag, new.name, .deprecated new.deprecated⟩

/-- `_property_changes` -/
def propertyChanges (before after : Dict Nat (Property τ κ)) : List (PropertyChange τ κ) :=
  keyedChanges (fun a b => decide (a ≤ b)) before after
    (fun tag new => [⟨tag, new.name, .added⟩])
    (fun tag old => [⟨tag, old.name, .removed⟩])
    keptPropertyChanges

end PropertyChanges

/-- The comparisons of a method that is kept. -/
def keptMethodChanges (name : Str) (old new : Method) : List MethodChange :=
  changeIf (old.kind.whichOneof ≠ new.kind.whichOneof)
    ⟨name, .kind old.kind.whichOneof new.kind.whichOneof⟩ ++
  changeIf (old.factory ≠ new.factory) ⟨name, .factory new.factory⟩ ++
  changeIf (old.mcp ≠ new.mcp) ⟨name, .mcp old.mcp new.mcp⟩ ++
  changeIf (old.request ≠ new.request) ⟨name, .request old.request new.request⟩ ++
  changeIf (old.response ≠ new.response) ⟨name, .response old.response new.response⟩ ++
  changeIf (old.errors ≠ new.errors) ⟨name, .errors old.errors new.errors⟩ ++
  changeIf (old.description ≠ new.description)
    ⟨name, .description old.description new.description⟩

/-- `_method_changes` -/
def methodChanges (before after : Dict Str Method) : List MethodChange :=
  keyedChanges strLe before after (fun name _ => [⟨name, .added⟩]) (fun name _ => [⟨name, .removed⟩])
    keptMethodChanges

/-- `_description_changed` -/
def descriptionChanged (old new : Option Str) : Option (Option Str × Option Str) :=
  if old = new then none else some (old, new)

/-- `_state_types` -/
def stateTypes (apis : APIs τ κ) : Dict Str (API τ κ × StateType) :=
  byKey (fun e => stateTypeName e.1 e.2) (declaredStateTypes (apis.files.items.map Prod.snd))

/-- `_data_types` -/
def dataTypes (apis : APIs τ κ) : Dict Str (Str × API τ κ × Schema τ κ) :=
  byKey Prod.fst (declaredDataTypes (apis.files.items.map Prod.snd))

/-- `_package_of`: the module without the last segment. -/
def packageOf (schema : Schema τ κ) : Str :=
  if '.' ∈ schema.module then ((schema.module.reverse.dropWhile (· != '.')).tail).reverse
  else schema.module

section Between

variable [DecidableEq τ] [DecidableEq κ]

/-- What is said of a state type that is kept. -/
def stateTypeChanged (name : Str) (old new : API τ κ × StateType) : StateTypeChanged τ κ :=
  let oldSchema := old.1.schema old.2.reference
  let newSchema := new.1.schema new.2.reference
  { name := name
    filename := new.1.filename
    methods := methodChanges (byKey Method.name old.2.methods) (byKey Method.name new.2.methods)
    properties := propertyChanges (propertiesOf oldSchema) (propertiesOf newSchema)
    description := descriptionChanged oldSchema.description newSchema.description
    stateModelRenamed :=
      if oldSchema.name = newSchema.name then none else some (oldSchema.name, newSchema.name) }

def dataTypeChanged (name : Str) (old new : Str × API τ κ × Schema τ κ) : DataTypeChanged τ κ :=
  { name := name
    filename := new.2.1.filename
    package := packageOf new.2.2
    properties := propertyChanges (propertiesOf old.2.2) (propertiesOf new.2.2)
    description := descriptionChanged old.2.2.description new.2.2.description }

/-- A change with nothing named is never made. -/
def keptStateTypeChanges (name : Str) (old new : API τ κ × StateType) : List (Change τ κ) :=
  let changed := stateTypeChanged name old new
  changeIf (changed.methods ≠ [] ∨ changed.properties ≠ [] ∨ changed.description.isSome = true ∨
    changed.stateModelRenamed.isSome = true) (.stateTypeChanged changed)

def keptDataTypeChanges (name : Str) (old new : Str × API τ κ × Schema τ κ) : List (Change τ κ) :=
  let changed := dataTypeChanged name old new
  changeIf (changed.properties ≠ [] ∨ changed.description.isSome = true) (.dataTypeChanged changed)

/-- `changes_between` -/
def changesBetween (before after : APIs τ κ) : List (Change τ κ) :=
  keyedChanges strLe (stateTypes before) (stateTypes after)
    (fun name new => [.stateTypeAdded name new.1.filename])
    (fun name old => [.stateTypeRemoved name old.1.filename])
    keptStateTypeChanges ++
  keyedChanges strLe (dataTypes before) (dataTypes after)
    (fun name new => [.dataTypeAdded name new.2.1.filename (packageOf new.2.2)])
    (fun name old => [.dataTypeRemoved name old.2.1.filename (packageOf old.2.2)])
    keptDataTypeChanges

end Between

/-! ## What there is to name -/

inductive PropertyPart where
  | name
  | type
  | required
  | default
  | description
  | constraints
  | deprecated

inductive MethodPart where
  | kind
  | factory
  | mcp
  | request
  | response
  | errors
  | description

/-- A state type or a data type, by its name. -/
inductive Owner where
  | state (name : Str)
  | data (name : Str)

/-- What a change may name. The description of an owner is that of its model. -/
inductive Part where
  | whole (owner : Owner)
  | method (type name : Str)
  | methodPart (type name : Str) (part : MethodPart)
  | property (owner : Owner) (tag : Nat)
  | propertyPart (owner : Owner) (tag : Nat) (part : PropertyPart)
  | description (owner : Owner)
  | stateModel (type : Str)
  | ui (type name : Str)
  | autoConstruct (type : Str)
  | stateDescription (type : Str)

def PropertyChange.named (owner : Owner) (change : PropertyChange τ κ) : Part :=
  match change.what with
  | .added | .removed => .property owner change.tag
  | .renamed _ _ => .propertyPart owner change.tag .name
  | .type _ _ => .propertyPart owner change.tag .type
  | .required _ => .propertyPart owner change.tag .required
  | .default _ _ => .propertyPart owner change.tag .default
  | .description _ _ => .propertyPart owner change.tag .description
  | .constraints _ _ => .propertyPart owner change.tag .constraints
  | .deprecated _ => .propertyPart owner change.tag .deprecated

def MethodChange.named (type : Str) (change : MethodChange) : Part :=
  match change.what with
  | .added | .removed => .method type change.name
  | .kind _ _ => .methodPart type change.name .kind
  | .factory _ => .methodPart type change.name .factory
  | .mcp _ _ => .methodPart type change.name .mcp
  | .request _ _ => .methodPart type change.name .request
  | .response _ _ => .methodPart type change.name .response
  | .errors _ _ => .methodPart type change.name .errors
  | .description _ _ => .methodPart type change.name .description

/-- What a change names. -/
def Change.named : Change τ κ → List Part
  | .stateTypeAdded name _ | .stateTypeRemoved name _ => [.whole (.state name)]
  | .stateTypeChanged changed =>
    changed.methods.map (MethodChange.named changed.name) ++
    changed.properties.map (PropertyChange.named (.state changed.name)) ++
    (if changed.description.isSome then [.description (.state changed.name)] else []) ++
    (if changed.stateModelRenamed.isSome then [.stateModel changed.name] else [])
  | .dataTypeAdded name _ _ | .dataTypeRemoved name _ _ => [.whole (.data name)]
  | .dataTypeChanged changed =>
    changed.properties.map (PropertyChange.named (.data changed.name)) ++
    (if changed.description.isSome then [.description (.data changed.name)] else [])

/-- The files declare the state type. -/
def APIs.stateType (apis : APIs τ κ) : Str → API τ κ × StateType → Prop :=
  Keyed (fun e => stateTypeName e.1 e.2) (declaredStateTypes (apis.files.items.map Prod.snd))

def APIs.dataType (apis : APIs τ κ) : Str → Str × API τ κ × Schema τ κ → Prop :=
  Keyed Prod.fst (declaredDataTypes (apis.files.items.map Prod.snd))

/-- The files declare the model of the owner. -/
def APIs.model (apis : APIs τ κ) : Owner → Schema τ κ → Prop
  | .state name, schema => ∃ e, apis.stateType name e ∧ e.1.schema e.2.reference = schema
  | .data name, schema => ∃ e, apis.dataType name e ∧ e.2.2 = schema

def PropertyPart.Differs (part : PropertyPart) (old new : Property τ κ) : Prop :=
  match part with
  | .name => old.name ≠ new.name
  | .type => old.type ≠ new.type
  | .required => old.required ≠ new.required
  | .default => old.default ≠ new.default
  | .description => old.description ≠ new.description
  | .constraints => old.constraints ≠ new.constraints
  | .deprecated => old.deprecated ≠ new.deprecated

def MethodPart.Differs (part : MethodPart) (old new : Method) : Prop :=
  match part with
  | .kind => old.kind ≠ new.kind
  | .factory => old.factory ≠ new.factory
  | .mcp => old.mcp ≠ new.mcp
  | .request => old.request ≠ new.request
  | .response => old.response ≠ new.response
  | .errors => old.errors ≠ new.errors
  | .description => old.description ≠ new.description

/-- A kind is compared by its name. -/
def MethodPart.Compared (part : MethodPart) (old new : Method) : Prop :=
  match part with
  | .kind => old.kind.whichOneof ≠ new.kind.whichOneof
  | part => part.Differs old new

def Methods (e : API τ κ × StateType) : Str → Method → Prop := Keyed Method.name e.2.methods

def UIs (e : API τ κ × StateType) : Str → UI → Prop := Keyed UI.name e.2.uis

def Properties (schema : Schema τ κ) : Nat → Property τ κ → Prop := Keyed Property.tag schema.properties

/-- The part is not after the save what it was before. -/
def Part.Differs (before after : APIs τ κ) : Part → Prop
  | .whole (.state name) => OneSided before.stateType after.stateType name
  | .whole (.data name) => OneSided before.dataType after.dataType name
  | .method type name => KeptWith before.stateType after.stateType type fun old new =>
      OneSided (Methods old) (Methods new) name
  | .methodPart type name part => KeptWith before.stateType after.stateType type fun old new =>
      KeptWith (Methods old) (Methods new) name part.Differs
  | .property owner tag => KeptWith before.model after.model owner fun old new =>
      OneSided (Properties old) (Properties new) tag
  | .propertyPart owner tag part => KeptWith before.model after.model owner fun old new =>
      KeptWith (Properties old) (Properties new) tag part.Differs
  | .description owner => KeptWith before.model after.model owner fun old new =>
      old.description ≠ new.description
  | .stateModel type => KeptWith before.model after.model (.state type) fun old new =>
      old.name ≠ new.name
  | .ui type name => KeptWith before.stateType after.stateType type fun old new =>
      ¬ ∀ ui, UIs old name ui ↔ UIs new name ui
  | .autoConstruct type => KeptWith before.stateType after.stateType type fun old new =>
      old.2.autoConstruct ≠ new.2.autoConstruct
  | .stateDescription type => KeptWith before.stateType after.stateType type fun old new =>
      old.2.description ≠ new.2.description

/-- A state type is declared after the save as it was before. -/
structure SameStateType (old new : API τ κ × StateType) : Prop where
  methods : ∀ name method, Methods old name method ↔ Methods new name method
  uis : ∀ name ui, UIs old name ui ↔ UIs new name ui
  autoConstruct : old.2.autoConstruct = new.2.autoConstruct
  description : old.2.description = new.2.description

structure SameModel (old new : Schema τ κ) : Prop where
  properties : ∀ tag property, Properties old tag property ↔ Properties new tag property
  description : old.description = new.description

/-- The files declare the same state types and data types, with the same declarations. -/
structure Same (before after : APIs τ κ) : Prop where
  stateTypes : ∀ name, (∃ e, before.stateType name e) ↔ ∃ e, after.stateType name e
  dataTypes : ∀ name, (∃ e, before.dataType name e) ↔ ∃ e, after.dataType name e
  kept : ∀ name old new, before.stateType name old → after.stateType name new → SameStateType old new
  models : ∀ owner old new, before.model owner old → after.model owner new → SameModel old new
  stateModels : ∀ name old new, before.model (.state name) old → after.model (.state name) new →
    old.name = new.name

/-- What is compared of a state type that is kept is all that differs in it. -/
def LooksAtAll (before after : APIs τ κ) : Prop :=
  ∀ type old new, before.stateType type old → after.stateType type new →
    old.2.autoConstruct = new.2.autoConstruct ∧ old.2.description = new.2.description ∧
    (∀ name ui, UIs old name ui ↔ UIs new name ui) ∧
    ∀ name x y, Methods old name x → Methods new name y →
      x.kind.whichOneof = y.kind.whichOneof → x.kind = y.kind

/-! ## What is named -/

section Named

theorem find?_propertiesOf (schema : Schema τ κ) (tag : Nat) (property : Property τ κ) :
    (propertiesOf schema).find? tag = some property ↔ Properties schema tag property :=
  find?_byKey_eq_some_iff schema.tags

theorem find?_methods (e : API τ κ × StateType) (name : Str) (method : Method) :
    (byKey Method.name e.2.methods).find? name = some method ↔ Methods e name method :=
  find?_byKey_eq_some_iff e.2.methodNames

theorem find?_stateTypes (apis : APIs τ κ) (name : Str) (e : API τ κ × StateType) :
    (stateTypes apis).find? name = some e ↔ apis.stateType name e :=
  find?_byKey_eq_some_iff apis.stateNames

theorem find?_dataTypes (apis : APIs τ κ) (name : Str) (e : Str × API τ κ × Schema τ κ) :
    (dataTypes apis).find? name = some e ↔ apis.dataType name e :=
  find?_byKey_eq_some_iff apis.dataNames

variable [DecidableEq τ] [DecidableEq κ]

theorem mem_named_keptPropertyChanges {owner : Owner} {n : Part} {tag : Nat} {old new : Property τ κ} :
    n ∈ (keptPropertyChanges tag old new).flatMap (fun c => [c.named owner]) ↔
      ∃ part : PropertyPart, n = .propertyPart owner tag part ∧ part.Differs old new := by
  simp only [List.mem_flatMap, List.mem_singleton, keptPropertyChanges, List.mem_append, mem_changeIf]
  constructor
  · rintro ⟨c, ((((((⟨h, rfl⟩ | ⟨h, rfl⟩) | ⟨h, rfl⟩) | ⟨h, rfl⟩) | ⟨h, rfl⟩) | ⟨h, rfl⟩) | ⟨h, rfl⟩), rfl⟩
    exacts [⟨.name, rfl, h⟩, ⟨.type, rfl, h⟩, ⟨.required, rfl, h⟩, ⟨.default, rfl, h⟩,
      ⟨.description, rfl, h⟩, ⟨.constraints, rfl, h⟩, ⟨.deprecated, rfl, h⟩]
  · rintro ⟨part, rfl, h⟩
    cases part with
    | name => exact ⟨_, .inl (.inl (.inl (.inl (.inl (.inl ⟨h, rfl⟩))))), rfl⟩
    | type => exact ⟨_, .inl (.inl (.inl (.inl (.inl (.inr ⟨h, rfl⟩))))), rfl⟩
    | required => exact ⟨_, .inl (.inl (.inl (.inl (.inr ⟨h, rfl⟩)))), rfl⟩
    | default => exact ⟨_, .inl (.inl (.inl (.inr ⟨h, rfl⟩))), rfl⟩
    | description => exact ⟨_, .inl (.inl (.inr ⟨h, rfl⟩)), rfl⟩
    | constraints => exact ⟨_, .inl (.inr ⟨h, rfl⟩), rfl⟩
    | deprecated => exact ⟨_, .inr ⟨h, rfl⟩, rfl⟩

theorem mem_named_keptMethodChanges {type name : Str} {n : Part} {old new : Method} :
    n ∈ (keptMethodChanges name old new).flatMap (fun c => [c.named type]) ↔
      ∃ part : MethodPart, n = .methodPart type name part ∧ part.Compared old new := by
  simp only [List.mem_flatMap, List.mem_singleton, keptMethodChanges, List.mem_append, mem_changeIf]
  constructor
  · rintro ⟨c, ((((((⟨h, rfl⟩ | ⟨h, rfl⟩) | ⟨h, rfl⟩) | ⟨h, rfl⟩) | ⟨h, rfl⟩) | ⟨h, rfl⟩) | ⟨h, rfl⟩), rfl⟩
    exacts [⟨.kind, rfl, h⟩, ⟨.factory, rfl, h⟩, ⟨.mcp, rfl, h⟩, ⟨.request, rfl, h⟩,
      ⟨.response, rfl, h⟩, ⟨.errors, rfl, h⟩, ⟨.description, rfl, h⟩]
  · rintro ⟨part, rfl, h⟩
    cases part with
    | kind => exact ⟨_, .inl (.inl (.inl (.inl (.inl (.inl ⟨h, rfl⟩))))), rfl⟩
    | factory => exact ⟨_, .inl (.inl (.inl (.inl (.inl (.inr ⟨h, rfl⟩))))), rfl⟩
    | mcp => exact ⟨_, .inl (.inl (.inl (.inl (.inr ⟨h, rfl⟩)))), rfl⟩
    | request => exact ⟨_, .inl (.inl (.inl (.inr ⟨h, rfl⟩))), rfl⟩
    | response => exact ⟨_, .inl (.inl (.inr ⟨h, rfl⟩)), rfl⟩
    | errors => exact ⟨_, .inl (.inr ⟨h, rfl⟩), rfl⟩
    | description => exact ⟨_, .inr ⟨h, rfl⟩, rfl⟩

theorem mem_named_propertyChanges {owner : Owner} {n : Part} {old new : Schema τ κ} :
    n ∈ (propertyChanges (propertiesOf old) (propertiesOf new)).map (PropertyChange.named owner) ↔
      (∃ tag, n = .property owner tag ∧ OneSided (Properties old) (Properties new) tag) ∨
      ∃ tag, KeptWith (Properties old) (Properties new) tag fun x y =>
        ∃ part : PropertyPart, n = .propertyPart owner tag part ∧ part.Differs x y := by
  rw [List.map_eq_flatMap]
  exact mem_flatMap_keyedChanges (find?_propertiesOf old) (find?_propertiesOf new)
    (fun _ _ => by simp [PropertyChange.named]) (fun _ _ => by simp [PropertyChange.named])
    fun _ _ _ => mem_named_keptPropertyChanges

omit [DecidableEq τ] [DecidableEq κ] in
theorem mem_named_methodChanges {type : Str} {n : Part} {old new : API τ κ × StateType} :
    n ∈ (methodChanges (byKey Method.name old.2.methods) (byKey Method.name new.2.methods)).map
        (MethodChange.named type) ↔
      (∃ name, n = .method type name ∧ OneSided (Methods old) (Methods new) name) ∨
      ∃ name, KeptWith (Methods old) (Methods new) name fun x y =>
        ∃ part : MethodPart, n = .methodPart type name part ∧ part.Compared x y := by
  rw [List.map_eq_flatMap]
  exact mem_flatMap_keyedChanges (find?_methods old) (find?_methods new)
    (fun _ _ => by simp [MethodChange.named]) (fun _ _ => by simp [MethodChange.named])
    fun _ _ _ => mem_named_keptMethodChanges

theorem isSome_descriptionChanged {old new : Option Str} :
    (descriptionChanged old new).isSome = true ↔ old ≠ new := by
  unfold descriptionChanged
  split <;> simp_all

/-- The guard does not keep a name from being written. -/
theorem mem_named_keptStateTypeChanges {name : Str} {n : Part} {old new : API τ κ × StateType} :
    n ∈ (keptStateTypeChanges name old new).flatMap Change.named ↔
      n ∈ (Change.stateTypeChanged (stateTypeChanged name old new)).named := by
  unfold keptStateTypeChanges changeIf
  dsimp only
  split
  next => rw [List.flatMap_singleton]
  next h =>
    simp only [not_or, ne_eq, not_not, Bool.not_eq_true] at h
    obtain ⟨hmethods, hproperties, hdescription, hmodel⟩ := h
    simp [Change.named, hmethods, hproperties, hdescription, hmodel]

theorem mem_named_keptDataTypeChanges {name : Str} {n : Part} {old new : Str × API τ κ × Schema τ κ} :
    n ∈ (keptDataTypeChanges name old new).flatMap Change.named ↔
      n ∈ (Change.dataTypeChanged (dataTypeChanged name old new)).named := by
  unfold keptDataTypeChanges changeIf
  dsimp only
  split
  next => rw [List.flatMap_singleton]
  next h =>
    simp only [not_or, ne_eq, not_not, Bool.not_eq_true] at h
    simp [Change.named, h.1, h.2]

/-- What is named of two models: their properties, and their descriptions. -/
def ModelNamed (owner : Owner) (n : Part) (old new : Schema τ κ) : Prop :=
  ((∃ tag, n = .property owner tag ∧ OneSided (Properties old) (Properties new) tag) ∨
    ∃ tag, KeptWith (Properties old) (Properties new) tag fun x y =>
      ∃ part : PropertyPart, n = .propertyPart owner tag part ∧ part.Differs x y) ∨
  old.description ≠ new.description ∧ n = .description owner

/-- What is named of two state types beside their models. -/
def StateTypeNamed (type : Str) (n : Part) (old new : API τ κ × StateType) : Prop :=
  ((∃ name, n = .method type name ∧ OneSided (Methods old) (Methods new) name) ∨
    ∃ name, KeptWith (Methods old) (Methods new) name fun x y =>
      ∃ part : MethodPart, n = .methodPart type name part ∧ part.Compared x y) ∨
  (old.1.schema old.2.reference).name ≠ (new.1.schema new.2.reference).name ∧ n = .stateModel type

theorem mem_named_stateTypeChanged {name : Str} {n : Part} {old new : API τ κ × StateType} :
    n ∈ (Change.stateTypeChanged (stateTypeChanged name old new)).named ↔
      StateTypeNamed name n old new ∨
        ModelNamed (.state name) n (old.1.schema old.2.reference) (new.1.schema new.2.reference) := by
  have hmodel : ∀ a b : Str, (if a = b then none else some (a, b)).isSome = true ↔ a ≠ b := by
    intro a b
    split <;> simp_all
  simp only [Change.named, stateTypeChanged, List.mem_append, mem_named_methodChanges,
    mem_named_propertyChanges, isSome_descriptionChanged, hmodel, StateTypeNamed, ModelNamed,
    List.mem_ite_nil_right, List.mem_singleton]
  constructor
  · rintro (((h | h) | h) | h)
    exacts [.inl (.inl h), .inr (.inl h), .inr (.inr h), .inl (.inr h)]
  · rintro ((h | h) | h | h)
    exacts [.inl (.inl (.inl h)), .inr h, .inl (.inl (.inr h)), .inl (.inr h)]

theorem mem_named_dataTypeChanged {name : Str} {n : Part} {old new : Str × API τ κ × Schema τ κ} :
    n ∈ (Change.dataTypeChanged (dataTypeChanged name old new)).named ↔
      ModelNamed (.data name) n old.2.2 new.2.2 := by
  simp only [Change.named, dataTypeChanged, List.mem_append, mem_named_propertyChanges,
    isSome_descriptionChanged, ModelNamed, List.mem_ite_nil_right, List.mem_singleton]

theorem mem_named_changesBetween {n : Part} {before after : APIs τ κ} :
    n ∈ (changesBetween before after).flatMap Change.named ↔
      ((∃ name, n = .whole (.state name) ∧ OneSided before.stateType after.stateType name) ∨
        ∃ name, KeptWith before.stateType after.stateType name fun old new =>
          StateTypeNamed name n old new ∨
            ModelNamed (.state name) n (old.1.schema old.2.reference) (new.1.schema new.2.reference)) ∨
      ((∃ name, n = .whole (.data name) ∧ OneSided before.dataType after.dataType name) ∨
        ∃ name, KeptWith before.dataType after.dataType name fun old new =>
          ModelNamed (.data name) n old.2.2 new.2.2) := by
  unfold changesBetween
  rw [List.flatMap_append, List.mem_append]
  refine or_congr ?_ ?_
  · exact mem_flatMap_keyedChanges (find?_stateTypes before) (find?_stateTypes after)
      (fun _ _ => by simp [Change.named]) (fun _ _ => by simp [Change.named])
      fun _ _ _ => mem_named_keptStateTypeChanges.trans mem_named_stateTypeChanged
  · exact mem_flatMap_keyedChanges (find?_dataTypes before) (find?_dataTypes after)
      (fun _ _ => by simp [Change.named]) (fun _ _ => by simp [Change.named])
      fun _ _ _ => mem_named_keptDataTypeChanges.trans mem_named_dataTypeChanged

omit [DecidableEq τ] [DecidableEq κ] in
theorem keptWith_model_state {before after : APIs τ κ} {name : Str} {p : Schema τ κ → Schema τ κ → Prop} :
    KeptWith before.model after.model (.state name) p ↔
      KeptWith before.stateType after.stateType name fun old new =>
        p (old.1.schema old.2.reference) (new.1.schema new.2.reference) := by
  constructor
  · rintro ⟨_, _, ⟨old, hold, rfl⟩, ⟨new, hnew, rfl⟩, hp⟩
    exact ⟨old, new, hold, hnew, hp⟩
  · rintro ⟨old, new, hold, hnew, hp⟩
    exact ⟨_, _, ⟨old, hold, rfl⟩, ⟨new, hnew, rfl⟩, hp⟩

omit [DecidableEq τ] [DecidableEq κ] in
theorem keptWith_model_data {before after : APIs τ κ} {name : Str} {p : Schema τ κ → Schema τ κ → Prop} :
    KeptWith before.model after.model (.data name) p ↔
      KeptWith before.dataType after.dataType name fun old new => p old.2.2 new.2.2 := by
  constructor
  · rintro ⟨_, _, ⟨old, hold, rfl⟩, ⟨new, hnew, rfl⟩, hp⟩
    exact ⟨old, new, hold, hnew, hp⟩
  · rintro ⟨old, new, hold, hnew, hp⟩
    exact ⟨_, _, ⟨old, hold, rfl⟩, ⟨new, hnew, rfl⟩, hp⟩

/-- What the comparison finds of a part. -/
def Part.Found (before after : APIs τ κ) : Part → Prop
  | .methodPart type name part => KeptWith before.stateType after.stateType type fun old new =>
      KeptWith (Methods old) (Methods new) name part.Compared
  | .ui _ _ | .autoConstruct _ | .stateDescription _ => False
  | part => part.Differs before after

omit [DecidableEq τ] [DecidableEq κ] in
theorem modelNamed_iff {owner : Owner} {n : Part} {old new : Schema τ κ} :
    ModelNamed owner n old new ↔ match n with
      | .property o tag => o = owner ∧ OneSided (Properties old) (Properties new) tag
      | .propertyPart o tag part =>
        o = owner ∧ KeptWith (Properties old) (Properties new) tag part.Differs
      | .description o => o = owner ∧ old.description ≠ new.description
      | _ => False := by
  cases n <;> simp [ModelNamed, KeptWith, and_left_comm, and_comm]

omit [DecidableEq τ] [DecidableEq κ] in
theorem stateTypeNamed_iff {type : Str} {n : Part} {old new : API τ κ × StateType} :
    StateTypeNamed type n old new ↔ match n with
      | .method t name => t = type ∧ OneSided (Methods old) (Methods new) name
      | .methodPart t name part => t = type ∧ KeptWith (Methods old) (Methods new) name part.Compared
      | .stateModel t => t = type ∧
        (old.1.schema old.2.reference).name ≠ (new.1.schema new.2.reference).name
      | _ => False := by
  cases n <;> simp [StateTypeNamed, KeptWith, and_left_comm, and_comm]

/-- A part is named exactly if the comparison finds it. -/
theorem mem_named_iff {part : Part} {before after : APIs τ κ} :
    part ∈ (changesBetween before after).flatMap Change.named ↔ part.Found before after := by
  rw [mem_named_changesBetween]
  simp only [stateTypeNamed_iff, modelNamed_iff]
  cases part with
  | whole owner => cases owner <;> simp [Part.Found, Part.Differs, keptWith_false]
  | property owner tag | propertyPart owner tag part | description owner =>
    cases owner with
    | state name =>
      simp only [Part.Found, Part.Differs, keptWith_model_state]
      simp [keptWith_false, exists_keptWith]
    | data name =>
      simp only [Part.Found, Part.Differs, keptWith_model_data]
      simp [keptWith_false, exists_keptWith]
  | stateModel type =>
    simp only [Part.Found, Part.Differs, keptWith_model_state]
    simp [keptWith_false, exists_keptWith]
  | method type name | methodPart type name part | ui type name | autoConstruct type
  | stateDescription type => simp [Part.Found, Part.Differs, keptWith_false, exists_keptWith]

end Named

/-! ## When nothing is left out -/

theorem APIs.stateType_unique {apis : APIs τ κ} {name : Str} {e e' : API τ κ × StateType}
    (h : apis.stateType name e) (h' : apis.stateType name e') : e = e' :=
  Keyed.unique apis.stateNames h h'

/-- Two properties of a tag that no part tells apart are one. -/
theorem Property.eq_of_not_differs {tag : Nat} {schema schema' : Schema τ κ} {x y : Property τ κ}
    (hx : Properties schema tag x) (hy : Properties schema' tag y)
    (h : ∀ part : PropertyPart, ¬ part.Differs x y) : x = y := by
  have htag : x.tag = y.tag := hx.2.trans hy.2.symm
  have hname := not_not.mp (h .name)
  have htype := not_not.mp (h .type)
  have hrequired := not_not.mp (h .required)
  have hdefault := not_not.mp (h .default)
  have hdescription := not_not.mp (h .description)
  have hconstraints := not_not.mp (h .constraints)
  have hdeprecated := not_not.mp (h .deprecated)
  cases x
  cases y
  subst hname htag htype hrequired hdefault hdescription hconstraints hdeprecated
  rfl

theorem Method.eq_of_not_differs {name : Str} {e e' : API τ κ × StateType} {x y : Method}
    (hx : Methods e name x) (hy : Methods e' name y)
    (h : ∀ part : MethodPart, ¬ part.Differs x y) : x = y := by
  have hname : x.name = y.name := hx.2.trans hy.2.symm
  have hkind := not_not.mp (h .kind)
  have hfactory := not_not.mp (h .factory)
  have hmcp := not_not.mp (h .mcp)
  have hrequest := not_not.mp (h .request)
  have hresponse := not_not.mp (h .response)
  have herrors := not_not.mp (h .errors)
  have hdescription := not_not.mp (h .description)
  cases x
  cases y
  subst hname hkind hfactory hmcp hrequest hresponse herrors hdescription
  rfl

/-- The same is declared exactly if no part differs. -/
theorem same_iff {before after : APIs τ κ} :
    Same before after ↔ ∀ part : Part, ¬ part.Differs before after := by
  constructor
  · intro h part
    cases part with
    | whole owner =>
      cases owner with
      | state name => exact not_not.mpr (h.stateTypes name)
      | data name => exact not_not.mpr (h.dataTypes name)
    | method type name =>
      rintro ⟨old, new, hold, hnew, hside⟩
      exact not_oneSided_of_iff (h.kept type old new hold hnew).methods name hside
    | methodPart type name part =>
      rintro ⟨old, new, hold, hnew, hkept⟩
      exact not_keptWith_of_iff (h.kept type old new hold hnew).methods
        (fun _ _ _ => Keyed.unique new.2.methodNames) (fun _ => by cases part <;> exact fun h => h rfl)
        name hkept
    | property owner tag =>
      rintro ⟨old, new, hold, hnew, hside⟩
      exact not_oneSided_of_iff (h.models owner old new hold hnew).properties tag hside
    | propertyPart owner tag part =>
      rintro ⟨old, new, hold, hnew, hkept⟩
      exact not_keptWith_of_iff (h.models owner old new hold hnew).properties
        (fun _ _ _ => Keyed.unique new.tags) (fun _ => by cases part <;> exact fun h => h rfl) tag hkept
    | description owner =>
      rintro ⟨old, new, hold, hnew, hne⟩
      exact hne (h.models owner old new hold hnew).description
    | stateModel type =>
      rintro ⟨old, new, hold, hnew, hne⟩
      exact hne (h.stateModels type old new hold hnew)
    | ui type name =>
      rintro ⟨old, new, hold, hnew, hne⟩
      exact hne ((h.kept type old new hold hnew).uis name)
    | autoConstruct type =>
      rintro ⟨old, new, hold, hnew, hne⟩
      exact hne (h.kept type old new hold hnew).autoConstruct
    | stateDescription type =>
      rintro ⟨old, new, hold, hnew, hne⟩
      exact hne (h.kept type old new hold hnew).description
  · intro h
    refine ⟨fun name => not_not.mp (h (.whole (.state name))),
      fun name => not_not.mp (h (.whole (.data name))), ?_, ?_, ?_⟩
    · intro type old new hold hnew
      refine ⟨iff_of_not_oneSided (fun name hside => h (.method type name) ⟨old, new, hold, hnew, hside⟩)
          ?_, fun name => ?_, ?_, ?_⟩
      · rintro name ⟨x, y, hx, hy, hne⟩
        exact hne (Method.eq_of_not_differs hx hy fun part hpart =>
          h (.methodPart type name part) ⟨old, new, hold, hnew, x, y, hx, hy, hpart⟩)
      · by_contra hne
        exact h (.ui type name) ⟨old, new, hold, hnew, hne⟩
      · by_contra hne
        exact h (.autoConstruct type) ⟨old, new, hold, hnew, hne⟩
      · by_contra hne
        exact h (.stateDescription type) ⟨old, new, hold, hnew, hne⟩
    · intro owner old new hold hnew
      refine ⟨iff_of_not_oneSided (fun tag hside => h (.property owner tag) ⟨old, new, hold, hnew, hside⟩)
          ?_, ?_⟩
      · rintro tag ⟨x, y, hx, hy, hne⟩
        exact hne (Property.eq_of_not_differs hx hy fun part hpart =>
          h (.propertyPart owner tag part) ⟨old, new, hold, hnew, x, y, hx, hy, hpart⟩)
      · by_contra hne
        exact h (.description owner) ⟨old, new, hold, hnew, hne⟩
    · intro type old new hold hnew
      by_contra hne
      exact h (.stateModel type) ⟨old, new, hold, hnew, hne⟩

/-- What is found differs. -/
theorem Part.Found.differs {before after : APIs τ κ} {part : Part} (h : part.Found before after) :
    part.Differs before after := by
  cases part with
  | methodPart type name part =>
    refine KeptWith.mono h fun old new _ _ hkept => KeptWith.mono hkept fun x y _ _ hpart => ?_
    cases part with
    | kind => exact fun hkind => hpart (congrArg Kind.whichOneof hkind)
    | _ => exact hpart
  | ui | autoConstruct | stateDescription => exact h.elim
  | _ => exact h

/-- Every part is found exactly if what is compared is all that differs. -/
theorem found_iff_looksAtAll {before after : APIs τ κ} :
    (∀ part : Part, part.Found before after ↔ part.Differs before after) ↔
      LooksAtAll before after := by
  constructor
  · intro h type old new hold hnew
    refine ⟨?_, ?_, fun name => ?_, fun name x y hx hy hname => ?_⟩
    · by_contra hne
      exact (h (.autoConstruct type)).mpr ⟨old, new, hold, hnew, hne⟩
    · by_contra hne
      exact (h (.stateDescription type)).mpr ⟨old, new, hold, hnew, hne⟩
    · by_contra hne
      exact (h (.ui type name)).mpr ⟨old, new, hold, hnew, hne⟩
    · by_contra hne
      obtain ⟨old', new', hold', hnew', x', y', hx', hy', hkind⟩ :=
        (h (.methodPart type name .kind)).mpr ⟨old, new, hold, hnew, x, y, hx, hy, hne⟩
      obtain rfl := APIs.stateType_unique hold hold'
      obtain rfl := APIs.stateType_unique hnew hnew'
      obtain rfl : x = x' := Keyed.unique old.2.methodNames hx hx'
      obtain rfl : y = y' := Keyed.unique new.2.methodNames hy hy'
      exact hkind hname
  · intro h part
    refine ⟨Part.Found.differs, fun hdiffers => ?_⟩
    cases part with
    | methodPart type name part =>
      refine KeptWith.mono hdiffers fun old new hold hnew hkept =>
        KeptWith.mono hkept fun x y hx hy hpart => ?_
      cases part with
      | kind => exact fun hkind => hpart ((h type old new hold hnew).2.2.2 name x y hx hy hkind)
      | _ => exact hpart
    | ui type name =>
      obtain ⟨old, new, hold, hnew, hne⟩ := hdiffers
      exact hne ((h type old new hold hnew).2.2.1 name)
    | autoConstruct type =>
      obtain ⟨old, new, hold, hnew, hne⟩ := hdiffers
      exact hne (h type old new hold hnew).1
    | stateDescription type =>
      obtain ⟨old, new, hold, hnew, hne⟩ := hdiffers
      exact hne (h type old new hold hnew).2.1
    | _ => exact hdiffers

section Complete

variable [DecidableEq τ] [DecidableEq κ]

/-- Every change names something. -/
theorem exists_named {before after : APIs τ κ} {change : Change τ κ}
    (h : change ∈ changesBetween before after) : ∃ part, part ∈ change.named := by
  unfold changesBetween at h
  rw [List.mem_append, mem_keyedChanges, mem_keyedChanges] at h
  rcases h with (⟨name, new, -, -, h⟩ | ⟨name, old, -, -, h⟩ | ⟨name, old, new, -, -, h⟩) |
    ⟨name, new, -, -, h⟩ | ⟨name, old, -, -, h⟩ | ⟨name, old, new, -, -, h⟩
  · obtain rfl := List.mem_singleton.mp h
    exact ⟨_, List.mem_singleton_self _⟩
  · obtain rfl := List.mem_singleton.mp h
    exact ⟨_, List.mem_singleton_self _⟩
  · obtain ⟨hguard, rfl⟩ := mem_changeIf.mp h
    refine List.exists_mem_of_ne_nil _ ?_
    rcases hguard with hguard | hguard | hguard | hguard <;> simp [Change.named, hguard]
  · obtain rfl := List.mem_singleton.mp h
    exact ⟨_, List.mem_singleton_self _⟩
  · obtain rfl := List.mem_singleton.mp h
    exact ⟨_, List.mem_singleton_self _⟩
  · obtain ⟨hguard, rfl⟩ := mem_changeIf.mp h
    refine List.exists_mem_of_ne_nil _ ?_
    rcases hguard with hguard | hguard <;> simp [Change.named, hguard]

/-- The change log names exactly what differs, and nothing when nothing does. -/
def Complete (before after : APIs τ κ) : Prop :=
  (changesBetween before after = [] ↔ Same before after) ∧
    ∀ part : Part, part ∈ (changesBetween before after).flatMap Change.named ↔
      part.Differs before after

theorem complete_iff_looksAtAll {before after : APIs τ κ} :
    Complete before after ↔ LooksAtAll before after := by
  constructor
  · intro h
    exact found_iff_looksAtAll.mp fun part => mem_named_iff.symm.trans (h.2 part)
  · intro h
    have hexact : ∀ part : Part, part ∈ (changesBetween before after).flatMap Change.named ↔
        part.Differs before after :=
      fun part => mem_named_iff.trans (found_iff_looksAtAll.mpr h part)
    refine ⟨?_, hexact⟩
    rw [same_iff]
    constructor
    · intro hempty part hdiffers
      have hmem := (hexact part).mpr hdiffers
      rw [hempty] at hmem
      exact List.not_mem_nil hmem
    · intro hsame
      by_contra hne
      obtain ⟨change, hchange⟩ := List.exists_mem_of_ne_nil _ hne
      obtain ⟨part, hpart⟩ := exists_named hchange
      exact hsame part ((hexact part).mp (List.mem_flatMap.mpr ⟨change, hchange, hpart⟩))

end Complete

/-! ## Servicers -/

/-- A method of a servicer: its name, its digest, and what else was found in it. -/
structure ServicerMethod (δ φ : Type) where
  name : Str
  digest : δ
  findings : φ
  deriving DecidableEq

structure Servicer (δ φ : Type) where
  stateType : Str
  filename : Str
  methods : List (ServicerMethod δ φ)

/-- What the dictionaries of servicers are keyed by. -/
def Servicer.key {δ φ : Type} (servicer : Servicer δ φ) : Str × Str :=
  (servicer.stateType, servicer.filename)

/-- What is not as it was in a method. -/
inductive CodeWhat where
  | body
  | calls

/-- The `Change`s that are about code. -/
inductive CodeChange where
  | codeAdded (stateType filename : Str)
  | codeChanged (stateType filename method : Str) (what : CodeWhat)
  | codeRemoved (stateType filename : Str)

def pairLe (a b : Str × Str) : Bool := if a.1 = b.1 then strLe a.2 b.2 else strLe a.1 b.1

section Code

variable {δ φ : Type}

section Between

variable [DecidableEq δ] [DecidableEq φ]

/-- The comparison of a method that is kept. -/
def keptCodeChanges (key : Str × Str) (name : Str) (old new : ServicerMethod δ φ) : List CodeChange :=
  if old.digest ≠ new.digest then [.codeChanged key.1 key.2 name .body]
  else if old ≠ new then [.codeChanged key.1 key.2 name .calls]
  else []

/-- Of methods only those that are kept are looked at. -/
def keptServicerChanges (key : Str × Str) (old new : Servicer δ φ) : List CodeChange :=
  keyedChanges strLe (byKey ServicerMethod.name old.methods) (byKey ServicerMethod.name new.methods)
    (fun _ _ => []) (fun _ _ => []) (keptCodeChanges key)

/-- `code_changes_between` -/
def codeChangesBetween (before after : List (Servicer δ φ)) : List CodeChange :=
  keyedChanges pairLe (byKey Servicer.key before) (byKey Servicer.key after)
    (fun key _ => [.codeAdded key.1 key.2]) (fun key _ => [.codeRemoved key.1 key.2])
    keptServicerChanges

end Between

/-- What a change of the code may name: a servicer, by its state type and its file, or a method. -/
inductive CodePart where
  | servicer (key : Str × Str)
  | method (key : Str × Str) (name : Str)

def CodeChange.named : CodeChange → CodePart
  | .codeAdded stateType filename | .codeRemoved stateType filename => .servicer (stateType, filename)
  | .codeChanged stateType filename method _ => .method (stateType, filename) method

/-- The classes for one state type in one file, as they are written. -/
def classes (servicers : List (Servicer δ φ)) (key : Str × Str) : List (Servicer δ φ) :=
  servicers.filter fun servicer => servicer.key = key

/-- The method of a class: of two definitions of one name the later. -/
def Servicer.method (servicer : Servicer δ φ) (name : Str) : Option (ServicerMethod δ φ) :=
  (servicer.methods.filter fun method => method.name = name).getLast?

/-- The class keeps the method, with another digest or other findings. -/
def DiffersIn (name : Str) (old new : Servicer δ φ) : Prop :=
  ∃ x ∈ old.method name, ∃ y ∈ new.method name, x.digest ≠ y.digest ∨ x.findings ≠ y.findings

/-- What is found in the last class stands for all of them: no class came or went beside another, and a
method that differs differs in the last class. -/
def LastStandsForAll (before after : List (Servicer δ φ)) : Prop :=
  ∀ key, classes before key ≠ [] → classes after key ≠ [] →
    (classes before key).length = (classes after key).length ∧
    ∀ (i : Nat) (old new : Servicer δ φ) (name : Str),
      (classes before key)[i]? = some old → (classes after key)[i]? = some new → DiffersIn name old new →
      ∃ old' ∈ (classes before key).getLast?, ∃ new' ∈ (classes after key).getLast?,
        DiffersIn name old' new'

variable [DecidableEq δ] [DecidableEq φ]

/-- Every servicer class that appeared or disappeared is named, and every method that is kept by a
class with another digest or other findings. The classes for one state type in one file are told
apart by their order. -/
def CodeComplete (before after : List (Servicer δ φ)) : Prop :=
  (∀ key, (classes before key).length ≠ (classes after key).length →
    .servicer key ∈ (codeChangesBetween before after).map CodeChange.named) ∧
  ∀ (key : Str × Str) (i : Nat) (old new : Servicer δ φ) (name : Str),
    (classes before key)[i]? = some old → (classes after key)[i]? = some new → DiffersIn name old new →
    .method key name ∈ (codeChangesBetween before after).map CodeChange.named

omit [DecidableEq δ] [DecidableEq φ] in
theorem find?_classes (servicers : List (Servicer δ φ)) (key : Str × Str) :
    (byKey Servicer.key servicers).find? key = (classes servicers key).getLast? :=
  find?_byKey _ _ _

theorem mem_keptCodeChanges {key : Str × Str} {name : Str} {x y : ServicerMethod δ φ} {n : CodePart}
    (hname : x.name = y.name) : n ∈ (keptCodeChanges key name x y).map CodeChange.named ↔
      n = .method key name ∧ (x.digest ≠ y.digest ∨ x.findings ≠ y.findings) := by
  have heq : x = y ↔ x.digest = y.digest ∧ x.findings = y.findings := by
    cases x
    cases y
    simp_all
  unfold keptCodeChanges
  split
  next h => simp [CodeChange.named, h]
  next h =>
    split
    next hne => simp_all [CodeChange.named]
    next hne => simp_all

theorem mem_methodNamed_iff {key : Str × Str} {old new : Servicer δ φ} {n : CodePart} :
    n ∈ (keptServicerChanges key old new).map CodeChange.named ↔
      ∃ name, n = .method key name ∧ DiffersIn name old new := by
  have hname : ∀ {servicer : Servicer δ φ} {name : Str} {x : ServicerMethod δ φ},
      servicer.method name = some x → x.name = name := fun h => by
    simpa using (List.mem_filter.mp (List.mem_of_getLast? h)).2
  unfold keptServicerChanges
  rw [List.mem_map]
  simp only [mem_keyedChanges, find?_byKey, List.not_mem_nil, and_false, exists_false, false_or]
  constructor
  · rintro ⟨c, ⟨name, x, y, hx, hy, hc⟩, rfl⟩
    obtain ⟨hn, hdiffers⟩ := (mem_keptCodeChanges ((hname hx).trans (hname hy).symm)).mp
      (List.mem_map_of_mem hc)
    exact ⟨name, hn, x, hx, y, hy, hdiffers⟩
  · rintro ⟨name, rfl, x, hx, y, hy, hdiffers⟩
    have hmem : CodePart.method key name ∈ (keptCodeChanges key name x y).map CodeChange.named :=
      (mem_keptCodeChanges ((hname hx).trans (hname hy).symm)).mpr ⟨rfl, hdiffers⟩
    obtain ⟨c, hc, hn⟩ := List.mem_map.mp hmem
    exact ⟨c, ⟨name, x, y, hx, hy, hc⟩, hn⟩

/-- What is named: state types whose classes of a file all came or all went, and the methods in which
the last classes differ. -/
theorem mem_codeNamed_iff {before after : List (Servicer δ φ)} {n : CodePart} :
    n ∈ (codeChangesBetween before after).map CodeChange.named ↔
      (∃ key, n = .servicer key ∧ (classes before key = [] ∧ classes after key ≠ [] ∨
        classes before key ≠ [] ∧ classes after key = [])) ∨
      ∃ key name, n = .method key name ∧ ∃ old ∈ (classes before key).getLast?,
        ∃ new ∈ (classes after key).getLast?, DiffersIn name old new := by
  have hsome : ∀ {xs : List (Servicer δ φ)} {x : Servicer δ φ}, xs.getLast? = some x → xs ≠ [] := by
    rintro _ _ h rfl
    exact nomatch h
  unfold codeChangesBetween
  rw [List.mem_map]
  simp only [mem_keyedChanges, find?_classes, List.getLast?_eq_none_iff]
  constructor
  · rintro ⟨c, ⟨key, new, hbefore, hafter, hc⟩ | ⟨key, old, hbefore, hafter, hc⟩ |
      ⟨key, old, new, hbefore, hafter, hc⟩, rfl⟩
    · obtain rfl := List.mem_singleton.mp hc
      exact .inl ⟨key, rfl, .inl ⟨hbefore, hsome hafter⟩⟩
    · obtain rfl := List.mem_singleton.mp hc
      exact .inl ⟨key, rfl, .inr ⟨hsome hbefore, hafter⟩⟩
    · obtain ⟨name, hn, hdiffers⟩ := mem_methodNamed_iff.mp (List.mem_map_of_mem hc)
      exact .inr ⟨key, name, hn, old, hbefore, new, hafter, hdiffers⟩
  · rintro (⟨key, rfl, ⟨hbefore, hafter⟩ | ⟨hbefore, hafter⟩⟩ |
      ⟨key, name, rfl, old, hbefore, new, hafter, hdiffers⟩)
    · exact ⟨_, .inl ⟨key, _, hbefore, List.getLast?_eq_some_getLast hafter,
        List.mem_singleton_self _⟩, rfl⟩
    · exact ⟨_, .inr (.inl ⟨key, _, List.getLast?_eq_some_getLast hbefore, hafter,
        List.mem_singleton_self _⟩), rfl⟩
    · have hmem : CodePart.method key name ∈ (keptServicerChanges key old new).map CodeChange.named :=
        mem_methodNamed_iff.mpr ⟨name, rfl, hdiffers⟩
      obtain ⟨c, hc, hn⟩ := List.mem_map.mp hmem
      exact ⟨c, .inr (.inr ⟨key, old, new, hbefore, hafter, hc⟩), hn⟩

theorem codeComplete_iff {before after : List (Servicer δ φ)} :
    CodeComplete before after ↔ LastStandsForAll before after := by
  constructor
  · rintro ⟨hservicers, hmethods⟩ key hbefore hafter
    constructor
    · by_contra hne
      rcases mem_codeNamed_iff.mp (hservicers key hne) with ⟨key', hkey, h⟩ | ⟨_, _, hkey, -⟩
      · cases hkey
        rcases h with ⟨hempty, -⟩ | ⟨-, hempty⟩
        · exact hbefore hempty
        · exact hafter hempty
      · exact nomatch hkey
    · intro i old new name hold hnew hdiffers
      rcases mem_codeNamed_iff.mp (hmethods key i old new name hold hnew hdiffers) with
        ⟨_, hkey, -⟩ | ⟨key', name', hkey, h⟩
      · exact nomatch hkey
      · cases hkey
        exact h
  · intro h
    constructor
    · intro key hne
      refine mem_codeNamed_iff.mpr (.inl ⟨key, rfl, ?_⟩)
      by_cases hbefore : classes before key = []
      · refine .inl ⟨hbefore, fun hafter => hne ?_⟩
        rw [hbefore, hafter]
      · refine .inr ⟨hbefore, ?_⟩
        by_contra hafter
        exact hne (h key hbefore hafter).1
    · intro key i old new name hold hnew hdiffers
      have hbefore : classes before key ≠ [] := List.ne_nil_of_mem (List.mem_of_getElem? hold)
      have hafter : classes after key ≠ [] := List.ne_nil_of_mem (List.mem_of_getElem? hnew)
      exact mem_codeNamed_iff.mpr (.inr ⟨key, name, rfl,
        (h key hbefore hafter).2 i old new name hold hnew hdiffers⟩)

end Code

/-- The change log misses nothing if and only if no state type that is kept has another `auto_construct`,
description or UI and no transaction another mode, and, of several classes for one state type in one
file, none came or went and the last stands for all. -/
theorem changelog_complete_iff {δ : Type} [DecidableEq τ] [DecidableEq κ] [DecidableEq δ] [DecidableEq φ]
    (before after : APIs τ κ) (servicersBefore servicersAfter : List (Servicer δ φ)) :
    (Complete before after ↔ LooksAtAll before after) ∧
      (CodeComplete servicersBefore servicersAfter ↔
        LastStandsForAll servicersBefore servicersAfter) :=
  ⟨complete_iff_looksAtAll, codeComplete_iff⟩

/-! ## A mode, and a class behind another -/

def orderMethod (mode : Mode) : Method where
  name := "order".toList
  kind := .transaction (some mode)
  factory := false
  request := none
  response := none
  errors := []
  description := none
  mcp := none

/-- A shop whose one method is a transaction of the mode. -/
def shopType (mode : Mode) : StateType where
  name := "Shop".toList
  reference := "shop.v1.shop.Shop".toList
  description := none
  autoConstruct := false
  methods := [orderMethod mode]
  uis := []
  methodNames := List.nodup_singleton _
  uiNames := List.nodup_nil

def shopApi (mode : Mode) : API Unit Unit where
  filename := "shop/v1/shop.py".toList
  package := "shop.v1".toList
  stateTypes := [shopType mode]
  dataTypes := []
  schemas := ⟨[("shop.v1.shop.Shop".toList,
    ⟨"Shop".toList, "shop.v1.shop".toList, [], none, List.nodup_nil⟩)], List.nodup_singleton _⟩
  mentioned := by simp [Dict.find?, shopType]

def shopApis (mode : Mode) : APIs Unit Unit where
  files := ⟨[("shop/v1/shop.py".toList, shopApi mode)], List.nodup_singleton _⟩
  stateNames := List.nodup_singleton _
  dataNames := List.nodup_nil

/-- A servicer of the shop, with the digest of its one method. -/
def shopServicer (digest : Nat) : Servicer Nat Unit :=
  ⟨"shop.v1.Shop".toList, "shop_servicer.py".toList, [⟨"order".toList, digest, ()⟩]⟩

/-- A transaction that becomes shared is not named, nor is the method of the first of two classes. -/
theorem changelog_misses :
    changesBetween (shopApis .exclusive) (shopApis .shared) = [] ∧
    ¬ Complete (shopApis .exclusive) (shopApis .shared) ∧
    ¬ CodeComplete [shopServicer 1, shopServicer 2] [shopServicer 3, shopServicer 2] := by
  have hstate : ∀ mode, (shopApis mode).stateType "shop.v1.Shop".toList
      (shopApi mode, shopType mode) :=
    fun mode => ⟨List.mem_singleton_self _, rfl⟩
  have horder : ∀ mode, Methods (shopApi mode, shopType mode) "order".toList (orderMethod mode) :=
    fun mode => ⟨List.mem_singleton_self _, rfl⟩
  refine ⟨?_, ?_, ?_⟩
  · refine List.isEmpty_iff.mp ?_
    decide +kernel
  · rw [complete_iff_looksAtAll]
    intro h
    have hkind := (h _ _ _ (hstate .exclusive) (hstate .shared)).2.2.2 _ _ _ (horder .exclusive)
      (horder .shared) rfl
    exact nomatch hkind
  · rw [codeComplete_iff]
    intro h
    obtain ⟨-, hlast⟩ := h ("shop.v1.Shop".toList, "shop_servicer.py".toList) (by decide) (by decide)
    obtain ⟨old, hold, new, hnew, x, hx, y, hy, hne⟩ := hlast 0 _ _ "order".toList rfl rfl
      ⟨_, rfl, _, rfl, .inl (by decide)⟩
    cases hold
    cases hnew
    cases hx
    cases hy
    simp at hne

end Reboot.Dashboard
