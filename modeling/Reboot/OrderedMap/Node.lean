import Mathlib.Algebra.GroupWithZero.Nat
import Reboot.Lib.Bisect

/-!
# The nodes of an `OrderedMap`

`NodeServicer` (`reboot/std/collections/ordered_map/v1/ordered_map.py`): a B+ tree whose nodes
are states of their own and refer to one another by id. A leaf has as many values as keys, an
inner node one child more than keys, and leaves are linked by `next_id` and `prev_id`.

An insert sorts its entries into a leaf and, if that leaves `degree` keys or more, cuts the leaf
into pieces of `degree // 2` keys; the pieces after the first become new leaves, whose first
keys and ids go to the parent. An inner node hands each child its share of the entries, takes in
what the children promote, and is cut the same way, except that the key between two pieces goes
to the parent and into neither. A removal takes keys out of leaves and nothing else.

Mirroring notes:
- A method call on a node is a function on the store of all nodes. What one call does within a
  transaction happens in one step here, and a call that fails leaves no trace (`Except`).
- `uuid4` is a counter: the n-th id made is `n`. An unset `next_id` or `prev_id` is `none`.
- The children of a node are called one after the other, not concurrently. They share no node.
- Recursion over ids, and every loop that is not over a list, is given fuel; without it the
  outcome is `running`. That the fuel suffices is part of what is proved.
- `keys` and `values` of a leaf are merged as pairs; a request's map of entries is a list of
  pairs with distinct keys.
- `if request.start_key` is decided by the caller: `start` is `none` for an empty key.
-/

namespace Reboot.OrderedMap

open Reboot.Lib

/-- What a call that does not return normally ends in. -/
inductive Failure
  | invalidArgument (message : String)
  | stateAlreadyConstructed (message : String)
  | stateNotConstructed
  | invalidRange (message : String)
  /-- an assertion or an index error -/
  | failed
  /-- it does not end -/
  | running
  deriving DecidableEq

structure Node (K S : Type) where
  degree : Nat
  isLeaf : Bool
  keys : List K
  childrenIds : List Nat
  values : List S
  nextId : Option Nat
  prevId : Option Nat
  deriving DecidableEq

/-- All nodes, and the next id. -/
structure Store (K S : Type) where
  nodes : Nat → Option (Node K S)
  next : Nat

structure InsertResponse (K : Type) where
  promotedKeys : List K
  newChildIds : List Nat
  insertedCount : Nat
  deriving DecidableEq

def defaultDegree : Nat := 128

/-- `_check_degree`. -/
def checkDegree : Option Nat → Option String
  | some degree =>
    if degree < 2 then some ("`degree` must be >= 2, but got " ++ toString degree) else none
  | none => none

variable {K S : Type}

namespace Store

def empty : Store K S := ⟨fun _ => none, 0⟩

def set (st : Store K S) (id : Nat) (n : Node K S) : Store K S :=
  { st with nodes := fun i => if i = id then some n else st.nodes i }

/-- `Node.Create`. -/
def create (st : Store K S) (id : Nat) (n : Node K S) : Except Failure (Store K S) :=
  match st.nodes id with
  | some _ => .error (.stateAlreadyConstructed
      "Cannot call `Create` after `Create` or `Insert` has been called.")
  | none =>
    match checkDegree (some n.degree) with
    | some _ => .error .failed
    | none => .ok (st.set id n)

def createAll (st : Store K S) : List (Nat × Node K S) → Except Failure (Store K S)
  | [] => .ok st
  | (id, n) :: ns => do
    let st ← st.create id n
    st.createAll ns

end Store

def emptyLeaf (degree : Nat) : Node K S where
  degree := degree
  isLeaf := true
  keys := []
  childrenIds := []
  values := []
  nextId := none
  prevId := none

def innerNode (degree : Nat) (keys : List K) (childrenIds : List Nat) : Node K S where
  degree := degree
  isLeaf := false
  keys := keys
  childrenIds := childrenIds
  values := []
  nextId := none
  prevId := none

/-! ## Insert -/

section Leaf

/-- Cut a list into pieces of `mid`. -/
def pieces {α : Type} (mid : Nat) : Nat → List α → Option (List (List α))
  | _, [] => some []
  | 0, _ :: _ => none
  | fuel + 1, a :: l => (pieces mid fuel ((a :: l).drop mid)).map ((a :: l).take mid :: ·)

/-- The new leaves, from left to right, with their ids. -/
def leafSiblings (degree : Nat) (oldNextId : Option Nat) :
    Nat → Nat → List (List (K × S)) → List (Nat × Node K S)
  | _, _, [] => []
  | prev, id, p :: ps =>
    (id,
      { degree := degree
        isLeaf := true
        keys := p.map Prod.fst
        childrenIds := []
        values := p.map Prod.snd
        nextId := if ps.isEmpty then oldNextId else some (id + 1)
        prevId := some prev }) :: leafSiblings degree oldNextId id (id + 1) ps

variable [LinearOrder K]

/-- The merge loop, for one existing entry: new ones that come before it, then it or its
update, then `rest`. The second component counts the new keys. -/
def mergeFrom (e : K × S) (es : List (K × S)) (rest : List (K × S) → List (K × S) × Nat) :
    List (K × S) → List (K × S) × Nat
  | [] => (e :: es, 0)
  | e' :: es' =>
    if e.1 < e'.1 then
      let r := rest (e' :: es')
      (e :: r.1, r.2)
    else if e.1 = e'.1 then
      let r := rest es'
      (e' :: r.1, r.2)
    else
      let r := mergeFrom e es rest es'
      (e' :: r.1, r.2 + 1)

/-- The sorted merge of existing entries with new ones. -/
def merge : List (K × S) → List (K × S) → List (K × S) × Nat
  | [], new => (new, new.length)
  | e :: es, new => mergeFrom e es (merge es) new

/-- `_insert_leaf`. -/
def insertLeaf (st : Store K S) (id : Nat) (n : Node K S) (entries : List (K × S)) :
    Except Failure (Store K S × InsertResponse K) :=
  let merged := merge (n.keys.zip n.values) (sortBy Prod.fst entries)
  if merged.1.length < n.degree then
    .ok (st.set id { n with keys := merged.1.map Prod.fst, values := merged.1.map Prod.snd },
      ⟨[], [], merged.2⟩)
  else
    let mid := n.degree / 2
    let first := merged.1.take mid
    match pieces mid merged.1.length (merged.1.drop mid) with
    | none => .error .running
    | some [] => .error .failed
    | some (p :: ps) => do
      let siblings := leafSiblings n.degree n.nextId id st.next (p :: ps)
      let st := st.set id { n with
        keys := first.map Prod.fst
        values := first.map Prod.snd
        nextId := some st.next }
      let st ← { st with next := st.next + (p :: ps).length }.createAll siblings
      .ok (st, ⟨(p :: ps).filterMap fun q => q.head?.map Prod.fst, siblings.map Prod.fst, merged.2⟩)

end Leaf

section Inner

variable [LinearOrder K]

/-- Insert into each child that has entries. -/
def insertChildren
    (insert : Store K S → Nat → List (K × S) → Except Failure (Store K S × InsertResponse K))
    (keys : List K) (entries : List (K × S)) :
    Nat → List Nat → Store K S → Except Failure (Store K S × List (InsertResponse K))
  | _, [], st => .ok (st, [])
  | i, c :: cs, st =>
    match entries.filter fun e => bisectRight keys e.1 = i with
    | [] => do
      let (st, rs) ← insertChildren insert keys entries (i + 1) cs st
      .ok (st, ⟨[], [], 0⟩ :: rs)
    | e :: es => do
      let (st, r) ← insert st c (e :: es)
      let (st, rs) ← insertChildren insert keys entries (i + 1) cs st
      .ok (st, r :: rs)

omit [LinearOrder K] in
/-- The keys and children of a node with what its children promoted. -/
def absorb : List Nat → List (InsertResponse K) → List K → List K × List Nat
  | c :: cs, r :: rs, keys =>
    let promoted := r.promotedKeys.zip r.newChildIds
    let rest := absorb cs rs keys.tail
    (promoted.map Prod.fst ++ (keys.head?.toList ++ rest.1),
      c :: (promoted.map Prod.snd ++ rest.2))
  | _, _, _ => ([], [])

/-- Cut what is right of the first `mid` keys into a key to promote and a node of `mid` keys,
as often as it takes. -/
def splitInner (mid : Nat) :
    Nat → List K → List Nat → Option (List (K × List K × List Nat))
  | _, [], _ => some []
  | 0, _ :: _, _ => none
  | fuel + 1, k :: keys, children =>
    (splitInner mid fuel (keys.drop mid) (children.drop (mid + 1))).map
      ((k, keys.take mid, children.take ((keys.take mid).length + 1)) :: ·)

/-- New inner nodes, from left to right, with their ids. -/
def innerSiblings (degree : Nat) : Nat → List (List K × List Nat) → List (Nat × Node K S)
  | _, [] => []
  | id, (keys, children) :: ns =>
    (id, innerNode degree keys children) :: innerSiblings degree (id + 1) ns

/-- `_insert_inner`. -/
def insertInner
    (insert : Store K S → Nat → List (K × S) → Except Failure (Store K S × InsertResponse K))
    (st : Store K S) (id : Nat) (n : Node K S) (entries : List (K × S)) :
    Except Failure (Store K S × InsertResponse K) := do
  let (st, rs) ← insertChildren insert n.keys entries 0 n.childrenIds st
  let insertedCount := (rs.map InsertResponse.insertedCount).sum
  let (newKeys, newChildrenIds) := absorb n.childrenIds rs n.keys
  if newKeys.length < n.degree then
    .ok (st.set id { n with keys := newKeys, childrenIds := newChildrenIds },
      ⟨[], [], insertedCount⟩)
  else
    let mid := n.degree / 2
    match splitInner mid newKeys.length (newKeys.drop mid) (newChildrenIds.drop (mid + 1)) with
    | none => .error .running
    | some ps => do
      let siblings := innerSiblings n.degree st.next (ps.map Prod.snd)
      let st := st.set id { n with
        keys := newKeys.take mid
        childrenIds := newChildrenIds.take (mid + 1) }
      let st ← { st with next := st.next + ps.length }.createAll siblings
      .ok (st, ⟨ps.map Prod.fst, siblings.map Prod.fst, insertedCount⟩)

/-- `degree or DEFAULT_DEGREE`. -/
def orDefault (degree : Nat) : Nat := if degree = 0 then defaultDegree else degree

/-- `Node.Insert`. -/
def nodeInsert : Nat → Nat → Store K S → Nat → List (K × S) →
    Except Failure (Store K S × InsertResponse K)
  | 0, _, _, _, _ => .error .running
  | fuel + 1, degree, st, id, entries =>
    match st.nodes id with
    | none =>
      -- implicit construction
      match checkDegree (some (orDefault degree)) with
      | some _ => .error .failed
      | none => insertLeaf st id (emptyLeaf (orDefault degree)) entries
    | some n =>
      -- a root that an older version left without a degree
      let n := if n.degree = 0 then { n with degree := orDefault degree } else n
      if n.isLeaf then insertLeaf st id n entries
      else insertInner (nodeInsert fuel n.degree) st id n entries

end Inner

/-! ## Search and Remove -/

section Search

variable [LinearOrder K]

/-- Equality of keys by `==` is equality, which is what `key ∈ keys` is decided by. -/
local instance lawfulBEqKey : @LawfulBEq K instBEqOfDecidableEq := inferInstance

/-- `_find_child`. -/
def findChild (n : Node K S) (key : K) : Except Failure Nat :=
  match n.childrenIds[bisectRight n.keys key]? with
  | some c => .ok c
  | none => .error .failed

/-- `Node.Search`. -/
def nodeSearch : Nat → Store K S → Nat → K → Except Failure (Option S)
  | 0, _, _, _ => .error .running
  | fuel + 1, st, id, key =>
    match st.nodes id with
    | none => .error .stateNotConstructed
    | some n =>
      if n.isLeaf then .ok ((n.keys.zip n.values).lookup key)
      else do
        let child ← findChild n key
        nodeSearch fuel st child key

/-- `_remove_leaf`. -/
def removeLeaf (st : Store K S) (id : Nat) (n : Node K S) (keys : List K) : Store K S × Nat :=
  let entries := n.keys.zip n.values
  let kept := entries.filter fun e => e.1 ∉ keys
  (st.set id { n with keys := kept.map Prod.fst, values := kept.map Prod.snd },
    entries.length - kept.length)

/-- Remove from each child that has keys. -/
def removeChildren
    (remove : Store K S → Nat → List K → Except Failure (Store K S × Nat))
    (nodeKeys : List K) (keys : List K) :
    Nat → List Nat → Store K S → Except Failure (Store K S × Nat)
  | _, [], st => .ok (st, 0)
  | i, c :: cs, st =>
    match keys.filter fun k => bisectRight nodeKeys k = i with
    | [] => removeChildren remove nodeKeys keys (i + 1) cs st
    | k :: ks => do
      let (st, count) ← remove st c (k :: ks)
      let (st, counts) ← removeChildren remove nodeKeys keys (i + 1) cs st
      .ok (st, count + counts)

/-- `Node.Remove`. -/
def nodeRemove : Nat → Store K S → Nat → List K → Except Failure (Store K S × Nat)
  | 0, _, _, _ => .error .running
  | fuel + 1, st, id, keys =>
    match st.nodes id with
    | none => .ok (removeLeaf st id (emptyLeaf defaultDegree) keys)
    | some n =>
      if n.isLeaf then .ok (removeLeaf st id n keys)
      else removeChildren (nodeRemove fuel) n.keys keys 0 n.childrenIds st

end Search

/-! ## Ranges -/

section Range

variable [LinearOrder K]

/-- `Node.Range`. -/
def nodeRange : Nat → Store K S → Nat → Option K → Nat → Except Failure (List (K × S))
  | 0, _, _, _, _ => .error .running
  | fuel + 1, st, id, start, limit =>
    if limit = 0 then .error (.invalidRange "Range requires a non-zero `limit` value.")
    else match st.nodes id with
    | none => .error .stateNotConstructed
    | some n =>
      if n.isLeaf then
        -- the keys from the first one at or after the start
        let before := match start with
          | none => 0
          | some key => bisectLeft n.keys key
        let entries := ((n.keys.zip n.values).drop before).take limit
        match n.nextId with
        | some next =>
          if entries.length < limit then do
            let more ← nodeRange fuel st next start (limit - entries.length)
            .ok (entries ++ more)
          else .ok entries
        | none => .ok entries
      else
        match start with
        | none =>
          match n.childrenIds.head? with
          | some child => nodeRange fuel st child start limit
          | none => .error .failed
        | some key => do
          let child ← findChild n key
          nodeRange fuel st child start limit

/-- `Node.ReverseRange`. -/
def nodeReverseRange : Nat → Store K S → Nat → Option K → Nat →
    Except Failure (List (K × S))
  | 0, _, _, _, _ => .error .running
  | fuel + 1, st, id, start, limit =>
    if limit = 0 then
      .error (.invalidRange "Reverse range requires a non-zero `limit` value.")
    else match st.nodes id with
    | none => .error .stateNotConstructed
    | some n =>
      if n.isLeaf then
        -- the keys up to the last one at or before the start, backwards
        let upTo := match start with
          | none => n.keys.length
          | some key => bisectRight n.keys key
        let entries := (((n.keys.zip n.values).take upTo).reverse).take limit
        match n.prevId with
        | some prev =>
          if entries.length < limit then do
            let more ← nodeReverseRange fuel st prev start (limit - entries.length)
            .ok (entries ++ more)
          else .ok entries
        | none => .ok entries
      else
        match start with
        | none =>
          match n.childrenIds.getLast? with
          | some child => nodeReverseRange fuel st child start limit
          | none => .error .failed
        | some key => do
          let child ← findChild n key
          nodeReverseRange fuel st child start limit

end Range

end Reboot.OrderedMap
