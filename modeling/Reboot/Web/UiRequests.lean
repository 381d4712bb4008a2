import Reboot.Lib.Dict
import Reboot.Lib.Text

/-!
# The request that a UI is opened with

The tool that opens a UI echoes its validated request to the browser: `model_dump(mode="json")`, then
`camelize_request_payload` of `reboot/mcp/ui.py`, so that the names of the fields are those of the
generated TypeScript. The recursion sees dictionaries only, and no longer knows which of them were
models and which were dictionaries of the application.

`camelize_iff` says for which requests nothing but the names of the fields changes: those whose
dictionaries have no underscore in their keys, and whose models have no two fields with one camelCase
name. Any other request reaches the browser with keys renamed, or with entries missing.

Mirroring notes:
- A dump has the items of a dictionary in their order, and the names of a model's fields as Python
  spells them; a union is the dump of the variant that is set.
- `str.capitalize` is a parameter: of the case mappings of Unicode only that they yield no underscore
  matters.
-/

namespace Reboot.Web.UiRequests

open Reboot.Lib

/-! ## Values and their JSON -/

inductive Scalar where
  | null
  | bool (b : Bool)
  | number (text : Str)
  | string (s : Str)
  deriving DecidableEq

/-- What `json` has. -/
inductive Json where
  | scalar (s : Scalar)
  | list (items : List Json)
  | dict (items : List (Str × Json))

/-- What a field of a `Model` may hold. -/
inductive Value where
  | scalar (s : Scalar)
  | list (items : List Value)
  | dict (items : List (Str × Value))
  | model (fields : List (Str × Value))

mutual

/-- `model_dump(mode="json")` -/
def modelDump : Value → Json
  | .scalar s => .scalar s
  | .list items => .list (modelDumpItems items)
  | .dict items => .dict (modelDumpEntries items)
  | .model fields => .dict (modelDumpEntries fields)

def modelDumpItems : List Value → List Json
  | [] => []
  | v :: items => modelDump v :: modelDumpItems items

def modelDumpEntries : List (Str × Value) → List (Str × Json)
  | [] => []
  | (key, v) :: items => (key, modelDump v) :: modelDumpEntries items

end

mutual

/-- The dictionaries in a value are dictionaries, and no class has two fields of one name. -/
def WellFormed : Value → Prop
  | .scalar _ => True
  | .list items => WellFormedItems items
  | .dict items => (items.map Prod.fst).Nodup ∧ WellFormedEntries items
  | .model fields => (fields.map Prod.fst).Nodup ∧ WellFormedEntries fields

def WellFormedItems : List Value → Prop
  | [] => True
  | v :: items => WellFormed v ∧ WellFormedItems items

def WellFormedEntries : List (Str × Value) → Prop
  | [] => True
  | (_, v) :: items => WellFormed v ∧ WellFormedEntries items

end

/-- An instance of a request `Model`. -/
structure Request where
  fields : List (Str × Value)
  wellFormed : WellFormed (.model fields)

def Request.modelDump (request : Request) : Json := UiRequests.modelDump (.model request.fields)

/-! ## The code -/

/-- `snake_to_camel` -/
def snakeToCamel (capitalize : Str → Str) (snakeStr : Str) : Str :=
  match snakeStr.splitOn '_' with
  | [] => []
  | component :: components => component ++ (components.map capitalize).flatten

variable (capitalize : Str → Str)

/-- No letter is an underscore in another case. -/
def KeepsUnderscoresOut : Prop := ∀ word, '_' ∉ word → '_' ∉ capitalize word

mutual

/-- `camelize_request_payload`; a later entry of a dictionary takes the place of an earlier one with
its name. -/
def camelizeRequestPayload : Json → Json
  | .dict items => .dict (Dict.ofItems (camelizeEntries items)).items
  | .list items => .list (camelizeItems items)
  | .scalar s => .scalar s

def camelizeItems : List Json → List Json
  | [] => []
  | item :: items => camelizeRequestPayload item :: camelizeItems items

def camelizeEntries : List (Str × Json) → List (Str × Json)
  | [] => []
  | (key, inner) :: items =>
    (snakeToCamel capitalize key, camelizeRequestPayload inner) :: camelizeEntries items

end

/-! ## What the browser is promised -/

mutual

/-- The JSON of a value in which the fields of models have their camelCase names. -/
def promised : Value → Json
  | .scalar s => .scalar s
  | .list items => .list (promisedItems items)
  | .dict items => .dict (promisedEntries items)
  | .model fields => .dict (promisedFields fields)

def promisedItems : List Value → List Json
  | [] => []
  | v :: items => promised v :: promisedItems items

/-- The keys of a dictionary are the application's. -/
def promisedEntries : List (Str × Value) → List (Str × Json)
  | [] => []
  | (key, v) :: items => (key, promised v) :: promisedEntries items

def promisedFields : List (Str × Value) → List (Str × Json)
  | [] => []
  | (name, v) :: fields => (snakeToCamel capitalize name, promised v) :: promisedFields fields

end

def Request.promised (request : Request) : Json :=
  UiRequests.promised capitalize (.model request.fields)

mutual

/-- No key of a dictionary in the value has an underscore, and no two fields of a model have one
camelCase name. -/
def Plain : Value → Prop
  | .scalar _ => True
  | .list items => PlainItems items
  | .dict items => (∀ key ∈ items.map Prod.fst, '_' ∉ key) ∧ PlainEntries items
  | .model fields =>
    (fields.map fun field => snakeToCamel capitalize field.1).Nodup ∧ PlainEntries fields

def PlainItems : List Value → Prop
  | [] => True
  | v :: items => Plain v ∧ PlainItems items

def PlainEntries : List (Str × Value) → Prop
  | [] => True
  | (_, v) :: items => Plain v ∧ PlainEntries items

end

def Request.Plain (request : Request) : Prop := UiRequests.Plain capitalize (.model request.fields)

/-! ## Names -/

section Names

variable {capitalize}

/-- What has no underscore keeps its name. -/
theorem snakeToCamel_of_not_mem {s : Str} (h : '_' ∉ s) : snakeToCamel capitalize s = s := by
  have hsplit : s.splitOn '_' = [s] := List.splitOn_eq_singleton h
  simp [snakeToCamel, hsplit]

/-- No name has an underscore. -/
theorem not_mem_snakeToCamel (hcap : KeepsUnderscoresOut capitalize) (s : Str) :
    '_' ∉ snakeToCamel capitalize s := by
  have hparts : ∀ part ∈ s.splitOn '_', '_' ∉ part := fun part hpart => not_mem_of_mem_splitOn hpart
  unfold snakeToCamel
  split
  next => exact List.not_mem_nil
  next component components hsplit =>
    rw [hsplit] at hparts
    rw [List.mem_append, List.mem_flatten]
    rintro (hmem | ⟨word, hword, hmem⟩)
    · exact hparts component (List.mem_cons_self ..) hmem
    · obtain ⟨part, hpart, rfl⟩ := List.mem_map.mp hword
      exact hcap part (hparts part (List.mem_cons_of_mem _ hpart)) hmem

theorem snakeToCamel_eq_self_iff (hcap : KeepsUnderscoresOut capitalize) {s : Str} :
    snakeToCamel capitalize s = s ↔ '_' ∉ s :=
  ⟨fun h => h ▸ not_mem_snakeToCamel hcap s, snakeToCamel_of_not_mem⟩

end Names

/-! ## What is kept -/

section Kept

variable {capitalize}

@[simp] theorem length_camelizeEntries_modelDumpEntries : ∀ items : List (Str × Value),
    (camelizeEntries capitalize (modelDumpEntries items)).length = items.length
  | [] => rfl
  | (_, _) :: items => congrArg Nat.succ (length_camelizeEntries_modelDumpEntries items)

@[simp] theorem length_promisedEntries : ∀ items : List (Str × Value),
    (promisedEntries capitalize items).length = items.length
  | [] => rfl
  | (_, _) :: items => congrArg Nat.succ (length_promisedEntries items)

@[simp] theorem length_promisedFields : ∀ fields : List (Str × Value),
    (promisedFields capitalize fields).length = fields.length
  | [] => rfl
  | (_, _) :: fields => congrArg Nat.succ (length_promisedFields fields)

/-- The names in the JSON are those of the items, one for one. -/
theorem map_fst_camelizeEntries : ∀ items : List (Str × Value),
    (camelizeEntries capitalize (modelDumpEntries items)).map Prod.fst =
      items.map fun e => snakeToCamel capitalize e.1
  | [] => rfl
  | (_, _) :: items => congrArg (List.cons _) (map_fst_camelizeEntries items)

/-- A dictionary of as many items as there are entries merges none of them. -/
theorem ofItems_eq_iff {entries wanted : List (Str × Json)} (hlength : entries.length = wanted.length) :
    (Dict.ofItems entries).items = wanted ↔ (entries.map Prod.fst).Nodup ∧ entries = wanted := by
  constructor
  · intro h
    have hnodup : (entries.map Prod.fst).Nodup :=
      Dict.length_ofItems_iff.mp ((congrArg List.length h).trans hlength.symm)
    exact ⟨hnodup, (Dict.ofItems_eq hnodup).symm.trans h⟩
  · rintro ⟨hnodup, rfl⟩
    exact Dict.ofItems_eq hnodup

mutual

/-- The induction is on the value; a dictionary that was a model and one that was none are told apart
by what was promised. -/
theorem camelize_modelDump_iff (hcap : KeepsUnderscoresOut capitalize) : ∀ {v : Value}, WellFormed v →
    (camelizeRequestPayload capitalize (modelDump v) = promised capitalize v ↔ Plain capitalize v)
  | .scalar _, _ => by simp [modelDump, camelizeRequestPayload, promised, Plain]
  | .list items, h => by
    unfold WellFormed at h
    simp only [modelDump, camelizeRequestPayload, promised, Plain, Json.list.injEq]
    exact camelizeItems_iff hcap h
  | .dict items, h => by
    unfold WellFormed at h
    simp only [modelDump, camelizeRequestPayload, promised, Plain, Json.dict.injEq]
    rw [ofItems_eq_iff (by simp), map_fst_camelizeEntries, camelizeEntries_iff hcap h.2]
    constructor
    · exact fun hkept => hkept.2
    · intro hplain
      have hkeys : (items.map fun e => snakeToCamel capitalize e.1) = items.map Prod.fst :=
        List.map_congr_left fun e he =>
          snakeToCamel_of_not_mem (hplain.1 e.1 (List.mem_map_of_mem he))
      exact ⟨hkeys ▸ h.1, hplain⟩
  | .model fields, h => by
    unfold WellFormed at h
    simp only [modelDump, camelizeRequestPayload, promised, Plain, Json.dict.injEq]
    rw [ofItems_eq_iff (by simp), map_fst_camelizeEntries, camelizeFields_iff hcap h.2]

theorem camelizeItems_iff (hcap : KeepsUnderscoresOut capitalize) :
    ∀ {items : List Value}, WellFormedItems items →
    (camelizeItems capitalize (modelDumpItems items) = promisedItems capitalize items ↔
      PlainItems capitalize items)
  | [], _ => by simp [modelDumpItems, camelizeItems, promisedItems, PlainItems]
  | v :: items, h => by
    unfold WellFormedItems at h
    simp only [modelDumpItems, camelizeItems, promisedItems, PlainItems, List.cons.injEq]
    rw [camelize_modelDump_iff hcap h.1, camelizeItems_iff hcap h.2]

theorem camelizeEntries_iff (hcap : KeepsUnderscoresOut capitalize) :
    ∀ {items : List (Str × Value)}, WellFormedEntries items →
    (camelizeEntries capitalize (modelDumpEntries items) = promisedEntries capitalize items ↔
      (∀ key ∈ items.map Prod.fst, '_' ∉ key) ∧ PlainEntries capitalize items)
  | [], _ => by simp [modelDumpEntries, camelizeEntries, promisedEntries, PlainEntries]
  | (key, v) :: items, h => by
    unfold WellFormedEntries at h
    simp only [modelDumpEntries, camelizeEntries, promisedEntries, PlainEntries, List.cons.injEq,
      Prod.mk.injEq, List.map_cons, List.forall_mem_cons]
    rw [camelize_modelDump_iff hcap h.1, camelizeEntries_iff hcap h.2, snakeToCamel_eq_self_iff hcap]
    constructor
    · rintro ⟨⟨hkey, hplain⟩, hkeys, hrest⟩
      exact ⟨⟨hkey, hkeys⟩, hplain, hrest⟩
    · rintro ⟨⟨hkey, hkeys⟩, hplain, hrest⟩
      exact ⟨⟨hkey, hplain⟩, hkeys, hrest⟩

theorem camelizeFields_iff (hcap : KeepsUnderscoresOut capitalize) :
    ∀ {fields : List (Str × Value)}, WellFormedEntries fields →
    (camelizeEntries capitalize (modelDumpEntries fields) = promisedFields capitalize fields ↔
      PlainEntries capitalize fields)
  | [], _ => by simp [modelDumpEntries, camelizeEntries, promisedFields, PlainEntries]
  | (_, v) :: fields, h => by
    unfold WellFormedEntries at h
    simp only [modelDumpEntries, camelizeEntries, promisedFields, PlainEntries, List.cons.injEq,
      Prod.mk.injEq, true_and]
    rw [camelize_modelDump_iff hcap h.1, camelizeFields_iff hcap h.2]

end

end Kept

/-- A request reaches the browser with its data if and only if no dictionary in it has a key with an
underscore and no model two fields with one camelCase name. -/
theorem camelize_iff (hcap : KeepsUnderscoresOut capitalize) (request : Request) :
    camelizeRequestPayload capitalize request.modelDump = request.promised capitalize ↔
      request.Plain capitalize :=
  camelize_modelDump_iff hcap request.wellFormed

/-- `str.capitalize`, of ASCII -/
def capitalizeASCII : Str → Str
  | [] => []
  | c :: word => c.toUpper :: word.map Char.toLower

theorem toUpper_ne {c : Char} (h : c ≠ '_') : c.toUpper ≠ '_' := by
  intro he
  unfold Char.toUpper at he
  split at he
  next hc =>
    have hval := congrArg Char.toNat he
    have hlow : 97 ≤ c.toNat := UInt32.le_iff_toNat_le.mp hc.1
    have hhigh : c.toNat ≤ 122 := UInt32.le_iff_toNat_le.mp hc.2
    simp at hval
    omega
  next => exact h he

theorem toLower_ne {c : Char} (h : c ≠ '_') : c.toLower ≠ '_' := by
  intro he
  unfold Char.toLower at he
  split at he
  next hc =>
    have hval := congrArg Char.toNat he
    have hlow : 65 ≤ c.toNat := UInt32.le_iff_toNat_le.mp hc.1
    have hhigh : c.toNat ≤ 90 := UInt32.le_iff_toNat_le.mp hc.2
    simp at hval
    omega
  next => exact h he

theorem keepsUnderscoresOut_capitalizeASCII : KeepsUnderscoresOut capitalizeASCII
  | [], _ => List.not_mem_nil
  | c :: word, h => by
    rw [List.mem_cons, not_or] at h
    rw [capitalizeASCII, List.mem_cons, not_or]
    refine ⟨fun he => toUpper_ne (Ne.symm h.1) he.symm, fun hmem => ?_⟩
    obtain ⟨d, hd, he⟩ := List.mem_map.mp hmem
    exact toLower_ne (fun he' => h.2 (he' ▸ hd)) he

/-- A request whose field `counts_by_key` counts the keys `user_id` and `userId`. -/
def countsRequest : Request where
  fields := [("counts_by_key".toList, .dict
    [("user_id".toList, .scalar (.number ['1'])), ("userId".toList, .scalar (.number ['2']))])]
  wellFormed := by
    simp only [WellFormed, WellFormedEntries, and_true]
    decide

/-- One of the two counts is lost. -/
theorem camelize_user_id :
    camelizeRequestPayload capitalizeASCII countsRequest.modelDump =
        .dict [("countsByKey".toList, .dict [("userId".toList, .scalar (.number ['2']))])] ∧
      camelizeRequestPayload capitalizeASCII countsRequest.modelDump ≠
        countsRequest.promised capitalizeASCII := by
  have hdump : camelizeRequestPayload capitalizeASCII countsRequest.modelDump =
      .dict [("countsByKey".toList, .dict [("userId".toList, .scalar (.number ['2']))])] := by
    rfl
  refine ⟨hdump, ?_⟩
  rw [hdump]
  simp [countsRequest, Request.promised, promised, promisedFields, promisedEntries]

/-- A request with a colour and one name by language. -/
def greetingRequest : Request where
  fields := [("primary_color".toList, .scalar (.string "red".toList)),
    ("names".toList, .dict [("en".toList, .model [("first_name".toList, .scalar .null)])])]
  wellFormed := by
    simp only [WellFormed, WellFormedEntries, and_true]
    decide

theorem camelize_greeting : KeepsUnderscoresOut capitalizeASCII ∧
    camelizeRequestPayload capitalizeASCII greetingRequest.modelDump =
      greetingRequest.promised capitalizeASCII := by
  refine ⟨keepsUnderscoresOut_capitalizeASCII,
    (camelize_iff capitalizeASCII keepsUnderscoresOut_capitalizeASCII greetingRequest).mpr ?_⟩
  simp only [greetingRequest, Request.Plain, Plain, PlainEntries, and_true]
  decide

end Reboot.Web.UiRequests
