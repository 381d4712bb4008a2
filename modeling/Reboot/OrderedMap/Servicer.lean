import Mathlib.Data.Char
import Mathlib.Data.List.Lex
import Reboot.Lib.Text
import Reboot.OrderedMap.Node

/-!
# `OrderedMap`

`OrderedMapServicer` (`reboot/std/collections/ordered_map/v1/ordered_map.py`): the map itself
has the id of the root node, its degree and, if asked to, the number of entries. The first
`Create`, `Insert` or `Remove` constructs it. When an insert splits the root, the pieces get a
new root; if they are too many for one node, levels of inner nodes are built under it first.

Mirroring notes:
- Keys are strings, ordered by code points (`Str`).
- `google.protobuf.Value`, `bytes` and `google.protobuf.Any` are three types `V`, `B` and `A`.
  How a `Value` message is written to bytes and read again is a parameter, `Codec`, of which only
  that reading gives back what was written is known.
- A map field of a request cannot hold a key twice (`InsertRequest.distinct`).
- `Insert` does not declare `StateAlreadyConstructed`, so its caller sees a construction option that
  is refused as `Unknown`; here it keeps the error that the servicer raises.
- A call that fails aborts its transaction, so it leaves the map and its nodes as they were.
- A `Search`, `Range` or `ReverseRange` of a map that was never constructed is refused before it gets to
  the servicer (`_load` in `reboot/aio/state_managers.py`).
- The fuel of a call is the number of ids handed out, which no path down the tree exceeds; a
  range, which goes on along the leaves, gets twice as much.
-/

namespace Reboot.OrderedMap

open Reboot.Lib

/-! ## Requests -/

section Requests

variable (V B A : Type)

/-- The value fields of an `Item` or of a request, each set or not. -/
structure Item where
  value : Option V
  bytes : Option B
  any : Option A
  deriving DecidableEq

/-- A `Value` message: one of the fields, or none. -/
inductive Value
  | unset
  | value (v : V)
  | bytes (b : B)
  | any (a : A)
  deriving DecidableEq

/-- `Value.SerializeToString` and `Value.ParseFromString`. -/
structure Codec (S : Type) where
  serialize : Value V B A → S
  parse : S → Value V B A
  roundTrip : ∀ v, parse (serialize v) = v

structure CreateRequest where
  degree : Option Nat
  maintainSize : Bool
  deriving DecidableEq

structure InsertRequest where
  key : Str
  item : Item V B A
  entries : List (Str × Item V B A)
  degree : Option Nat
  maintainSize : Option Bool
  distinct : (entries.map Prod.fst).Nodup

structure RemoveRequest where
  key : Str
  keys : List Str
  deriving DecidableEq

structure RangeRequest where
  startKey : Option Str
  limit : Nat
  deriving DecidableEq

structure ReverseRangeRequest where
  startKey : Option Str
  limit : Nat
  deriving DecidableEq

end Requests

variable {V B A S : Type}

/-- `_item_to_value`. -/
def itemToValue (item : Item V B A) : Value V B A :=
  match item.value, item.bytes, item.any with
  | some v, _, _ => .value v
  | none, some b, _ => .bytes b
  | none, none, some a => .any a
  | none, none, none => .unset

/-- The fields of a response or an `Entry` that a `Value` sets. -/
def valueToItem : Value V B A → Except Failure (Item V B A)
  | .value v => .ok ⟨some v, none, none⟩
  | .bytes b => .ok ⟨none, some b, none⟩
  | .any a => .ok ⟨none, none, some a⟩
  | .unset => .error .failed

structure MapState where
  degree : Nat
  rootId : Nat
  size : Nat
  maintainSize : Bool
  deriving DecidableEq

/-- The map, if it is constructed, and all nodes. -/
structure World (S : Type) where
  map : Option MapState
  store : Store Str S

def World.empty : World S := ⟨none, .empty⟩

/-- `_check_construction_options`; `state` is `none` for a constructor. -/
def checkConstructionOptions (stateId : String) (state : Option MapState) (degree : Option Nat)
    (maintainSize : Option Bool) : Except Failure Unit :=
  match checkDegree degree with
  | some message => .error (.invalidArgument message)
  | none =>
    match state with
    | none => .ok ()
    | some state =>
      let degreeErrors := match degree with
        | some d => if d ≠ state.degree then
            ["degree=" ++ toString state.degree ++ ", requested degree=" ++ toString d] else []
        | none => []
      let sizeErrors := match maintainSize with
        | some m => if m ≠ state.maintainSize then
            ["maintain_size=" ++ pythonBool state.maintainSize ++ ", requested maintain_size=" ++
              pythonBool m] else []
        | none => []
      match degreeErrors ++ sizeErrors with
      | [] => .ok ()
      | errors => .error (.stateAlreadyConstructed
          ("OrderedMap with ID '" ++ stateId ++ "' already created with " ++
            "; ".intercalate errors ++ ". `degree` and `maintain_size` are only required when " ++
            "implicitly constructing the map; if it already exists, omit them or pass values " ++
            "that match the existing map."))
where
  /-- How Python shows a truth value. -/
  pythonBool (b : Bool) : String := if b then "True" else "False"

/-! ## New root levels -/

/-- Group the keys and children of a level into nodes of `mid` keys. Gives the nodes and the keys
between them. -/
def groupLevel {K : Type} (mid : Nat) :
    Nat → List K → List Nat → Option (List (List K × List Nat) × List K)
  | 0, _, _ => none
  | fuel + 1, keys, children =>
    match keys.drop mid with
    | [] => some ([(keys, children.take (keys.length + 1))], [])
    | k :: rest =>
      (groupLevel mid fuel rest (children.drop (mid + 1))).map fun (nodes, nextKeys) =>
        ((keys.take mid, children.take (mid + 1)) :: nodes, k :: nextKeys)

/-- `_build_root_levels`. -/
def buildRootLevels {K : Type} (degree : Nat) :
    Nat → Store K S → List K → List Nat → Except Failure (Store K S × List K × List Nat)
  | 0, _, _, _ => .error .running
  | fuel + 1, st, keys, childrenIds =>
    if keys.length < degree then .ok (st, keys, childrenIds)
    else match groupLevel (degree / 2) (keys.length + 1) keys childrenIds with
    | none => .error .running
    | some (nodes, nextKeys) => do
      let siblings := innerSiblings degree st.next nodes
      let st ← { st with next := st.next + nodes.length }.createAll siblings
      buildRootLevels degree fuel st nextKeys (siblings.map Prod.fst)

/-! ## The methods -/

/-- `OrderedMap.Create`. -/
def create (stateId : String) (w : World S) (request : CreateRequest) :
    Except Failure (World S) := do
  checkConstructionOptions stateId w.map request.degree (some request.maintainSize)
  match w.map with
  | some _ => .ok w
  | none =>
    let degree := request.degree.getD defaultDegree
    let rootId := w.store.next
    let st ← { w.store with next := rootId + 1 }.create rootId (emptyLeaf degree)
    .ok ⟨some ⟨degree, rootId, 0, request.maintainSize⟩, st⟩

/-- The entries of an insert, from the bulk field or from the single-key fields. -/
def nodeEntries (codec : Codec V B A S) (request : InsertRequest V B A) :
    Except Failure (List (Str × S)) :=
  match request.entries with
  | _ :: _ =>
    if request.key ≠ [] ∨ request.item.value.isSome ∨ request.item.bytes.isSome ∨
        request.item.any.isSome then
      .error (.invalidArgument ("When using bulk `entries`, single-key fields `key`, `value`, " ++
        "`bytes`, and `any` must all be unset"))
    else
      .ok (request.entries.map fun e => (e.1, codec.serialize (itemToValue e.2)))
  | [] =>
    match itemToValue request.item with
    | .unset => .error (.invalidArgument "")
    | value => .ok [(request.key, codec.serialize value)]

/-- Put a new root over what a split root promoted. -/
def newRoot {K : Type} (degree : Nat) (st : Store K S) (rootId : Nat)
    (response : InsertResponse K) : Except Failure (Store K S × Nat) :=
  match response.promotedKeys with
  | [] => .ok (st, rootId)
  | keys => do
    let (st, keys, childrenIds) ←
      buildRootLevels degree (keys.length + 1) st keys (rootId :: response.newChildIds)
    let id := st.next
    let st ← { st with next := id + 1 }.create id (innerNode degree keys childrenIds)
    .ok (st, id)

/-- The map to insert into, constructed if it is not, with the store its root id came from. -/
def constructed (w : World S) (degree : Nat) (maintainSize : Bool) : MapState × Store Str S :=
  match w.map with
  | some m => (m, w.store)
  | none => (⟨degree, w.store.next, 0, maintainSize⟩, { w.store with next := w.store.next + 1 })

/-- `OrderedMap.Insert`. -/
def insert (codec : Codec V B A S) (stateId : String) (w : World S)
    (request : InsertRequest V B A) : Except Failure (World S) := do
  checkConstructionOptions stateId w.map request.degree request.maintainSize
  let (m, st) :=
    constructed w (request.degree.getD defaultDegree) (request.maintainSize.getD false)
  let entries ← nodeEntries codec request
  let (st, response) ← nodeInsert st.next m.degree st m.rootId entries
  let size := if m.maintainSize then m.size + response.insertedCount else m.size
  let (st, rootId) ← newRoot m.degree st m.rootId response
  .ok ⟨some { m with rootId := rootId, size := size }, st⟩

/-- The keys of a removal, from the bulk field or from the single-key field. -/
def nodeKeys (request : RemoveRequest) : Except Failure (List Str) :=
  match request.keys with
  | _ :: _ =>
    if request.key ≠ [] then
      .error (.invalidArgument
        "When using bulk `keys`, the single-key `key` field must be unset.")
    else .ok request.keys
  | [] => .ok [request.key]

/-- `OrderedMap.Remove`. -/
def remove (w : World S) (request : RemoveRequest) : Except Failure (World S) := do
  let (m, st) := constructed w defaultDegree false
  let keys ← nodeKeys request
  let (st, removedCount) ← nodeRemove st.next st m.rootId keys
  let size := if m.maintainSize then m.size - removedCount else m.size
  .ok ⟨some { m with size := size }, st⟩

/-- `OrderedMap.Search`: `none` is not found. -/
def search (codec : Codec V B A S) (w : World S) (key : Str) :
    Except Failure (Option (Item V B A)) :=
  match w.map with
  | none => .error .stateNotConstructed
  | some m => do
    match ← nodeSearch w.store.next w.store m.rootId key with
    | some bytes => do
      let item ← valueToItem (codec.parse bytes)
      .ok (some item)
    | none => .ok none

/-- `_entry_from_node_entry`. -/
def entriesOf (codec : Codec V B A S) : List (Str × S) → Except Failure (List (Str × Item V B A))
  | [] => .ok []
  | e :: es => do
    let item ← valueToItem (codec.parse e.2)
    let items ← entriesOf codec es
    .ok ((e.1, item) :: items)

/-- `OrderedMap.Range`: the entries, and the size of a map that maintains it. -/
def range (codec : Codec V B A S) (w : World S) (request : RangeRequest) :
    Except Failure (List (Str × Item V B A) × Option Nat) :=
  match w.map with
  | none => .error .stateNotConstructed
  | some m => do
    let start := request.startKey.filter fun key => key ≠ []
    let entries ← nodeRange (2 * w.store.next) w.store m.rootId start request.limit
    let entries ← entriesOf codec entries
    .ok (entries, if m.maintainSize then some m.size else none)

/-- `OrderedMap.ReverseRange`. A start key that is set but empty counts as unset. -/
def reverseRange (codec : Codec V B A S) (w : World S) (request : ReverseRangeRequest) :
    Except Failure (List (Str × Item V B A)) :=
  match w.map with
  | none => .error .stateNotConstructed
  | some m => do
    let start := request.startKey.filter fun key => key ≠ []
    let entries ← nodeReverseRange (2 * w.store.next) w.store m.rootId start request.limit
    entriesOf codec entries

end Reboot.OrderedMap
