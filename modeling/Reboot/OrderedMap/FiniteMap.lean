import Reboot.Lib.Run
import Reboot.OrderedMap.RemoveNode

/-!
# `OrderedMap` as a finite map

Above the tree: `Ready` is the invariant of a constructed map, and `insert_spec`, `remove_spec`
and `create_spec` say of each method that succeeds that the tree it leaves is `Updated` from the
tree it was given. A method that constructs the map is given an empty leaf (`opened`).

What the map is for is said without trees: a run of calls leaves behind, for each key, the item
of the last `Insert` of it that no `Remove` of it followed (`Call.apply`), and `search_latest` is
that `Search` gives back that item.

Mirroring notes:
- A request may set several value fields. Only the first of `value`, `bytes` and `any` that is
  set is kept (`Item.first`).
- Calls that fail change nothing, so a run is a run of calls that succeed.
-/

namespace Reboot.OrderedMap

open Reboot.Lib

variable {V B A S : Type}

/-! ## The invariant of a constructed map -/

structure Ready (st : Store Str S) (m : MapState) (h : Nat) : Prop where
  degree : 2 ≤ m.degree
  fresh : st.Fresh
  trees : Trees m.degree st h none none [m.rootId] []
  linked : Linked st.nextOf none (leaves st h [m.rootId])

/-- A constructed map, or a store that a map can be constructed in. -/
def World.Ok (w : World S) : Prop :=
  match w.map with
  | none => w.store.Fresh
  | some m => ∃ h, Ready w.store m h

theorem Ready.good {st : Store Str S} {m : MapState} {h : Nat} (hr : Ready st m h) :
    Good m.degree st h none none m.rootId := by
  cases hr.trees.forest with
  | one hc => exact hc

/-- A tree has no more nodes than there are ids. -/
theorem Ready.nodeIds_le {st : Store Str S} {m : MapState} {h : Nat} (hr : Ready st m h) :
    (nodeIds st h m.rootId).length ≤ st.next := by
  have hnodup := hr.trees.nodup
  have hbelow := hr.trees.below
  rw [allIds_singleton] at hnodup hbelow
  have hsub : (nodeIds st h m.rootId).Subperm (List.range st.next) :=
    List.subperm_of_subset hnodup fun i hi => List.mem_range.mpr (hbelow i hi)
  have hlen := hsub.length_le
  rw [List.length_range] at hlen
  exact hlen

theorem Ready.height_lt {st : Store Str S} {m : MapState} {h : Nat} (hr : Ready st m h) :
    h < st.next :=
  lt_of_lt_of_le (OrderedMap.height_lt h hr.good) hr.nodeIds_le

/-! ## The methods -/

/-- What a method works on: the map as it is, or a new one with an empty root leaf. -/
def opened (w : World S) (degree : Nat) (maintainSize : Bool) : MapState × Store Str S :=
  match w.map with
  | some m => (m, w.store)
  | none =>
    (⟨degree, w.store.next, 0, maintainSize⟩,
      { w.store with next := w.store.next + 1 }.set w.store.next (emptyLeaf degree))

theorem emptyLeaf_ready {st : Store Str S} {degree : Nat} {size : Nat} {maintainSize : Bool}
    (hfresh : st.Fresh) (hd : 2 ≤ degree) :
    Ready ({ st with next := st.next + 1 }.set st.next (emptyLeaf degree))
      ⟨degree, st.next, size, maintainSize⟩ 0 where
  degree := hd
  fresh := by
    refine Store.Fresh.set (fun i hi => ?_) _ (Nat.lt_succ_self _)
    have hi : st.next + 1 ≤ i := hi
    exact hfresh i (by omega)
  trees := by
    refine ⟨.one ⟨_, Store.set_nodes_self .., rfl, rfl, rfl, ?_, List.Pairwise.nil, ?_⟩, ?_, ?_⟩
    · exact (by omega : 0 < degree)
    · intro k hk
      cases hk
    · rw [allIds_singleton]
      exact List.nodup_singleton _
    · intro i hi
      rw [allIds_singleton] at hi
      obtain rfl := List.mem_singleton.mp hi
      exact Nat.lt_succ_self _
  linked := by
    rw [leaves_singleton]
    refine ⟨?_, trivial⟩
    simp [Store.nextOf, Store.set_nodes_self, emptyLeaf]

theorem emptyLeaf_stored (st : Store Str S) (id degree : Nat) :
    stored (st.set id (emptyLeaf degree)) 0 [id] = [] := by
  rw [stored_singleton]
  simp [contents, Store.set_nodes_self, Node.entries, emptyLeaf]

theorem set_set (st : Store Str S) (id : Nat) (n n' : Node Str S) :
    (st.set id n).set id n' = st.set id n' := by
  simp only [Store.set, Store.mk.injEq, and_true]
  funext i
  split <;> rfl

/-- Inserting into a node that does not exist is inserting into an empty leaf. -/
theorem nodeInsert_none {st : Store Str S} {id fuel degree : Nat} (hnone : st.nodes id = none)
    (hd : 2 ≤ degree) (entries : List (Str × S)) :
    nodeInsert (fuel + 1) degree st id entries =
      nodeInsert (fuel + 1) degree (st.set id (emptyLeaf degree)) id entries := by
  have hor : orDefault degree = degree := if_neg (by omega)
  have hcheck : checkDegree (some degree) = none := if_neg (by omega)
  have hne : (emptyLeaf degree : Node Str S).degree ≠ 0 := by
    simp only [emptyLeaf]
    omega
  have hleaf : (emptyLeaf degree : Node Str S).isLeaf = true := rfl
  simp only [nodeInsert, hnone, hor, hcheck, Store.set_nodes_self, hne, hleaf, if_false, if_true,
    insertLeaf, set_set]
  rfl

theorem nodeRemove_none {st : Store Str S} {id fuel : Nat} (hnone : st.nodes id = none)
    (keys : List Str) :
    nodeRemove (fuel + 1) st id keys =
      nodeRemove (fuel + 1) (st.set id (emptyLeaf defaultDegree)) id keys := by
  have hleaf : (emptyLeaf defaultDegree : Node Str S).isLeaf = true := rfl
  simp only [nodeRemove, hnone, Store.set_nodes_self, hleaf, if_true, removeLeaf, set_set]

/-- A call that goes on has checked the degree it was given. -/
theorem checkConstructionOptions_degree {stateId : String} {state : Option MapState}
    {degree : Option Nat} {maintainSize : Option Bool}
    (h : checkConstructionOptions stateId state degree maintainSize = .ok ()) :
    2 ≤ degree.getD defaultDegree := by
  unfold checkConstructionOptions at h
  cases degree with
  | none => decide
  | some d =>
    by_contra hlt
    have hlt : d < 2 := Nat.lt_of_not_le hlt
    simp [checkDegree, hlt] at h

/-- The store a method is given and the one it may be thought to be given: they differ in the
empty root leaf only, which `nodeInsert` and `nodeRemove` would make. -/
theorem constructed_opened {w : World S} (degree : Nat) (maintainSize : Bool) (hw : w.Ok)
    (hd : 2 ≤ degree) :
    ∃ m st st₀ h, constructed w degree maintainSize = (m, st) ∧
      opened w degree maintainSize = (m, st₀) ∧ Ready st₀ m h ∧ st.next = st₀.next ∧
      (st = st₀ ∨ m.degree = degree ∧ st.nodes m.rootId = none ∧
        st₀ = st.set m.rootId (emptyLeaf degree)) := by
  unfold World.Ok at hw
  unfold constructed opened
  cases hm : w.map with
  | some m =>
    rw [hm] at hw
    obtain ⟨h, hr⟩ := hw
    exact ⟨m, w.store, w.store, h, rfl, rfl, hr, rfl, Or.inl rfl⟩
  | none =>
    rw [hm] at hw
    exact ⟨_, _, _, 0, rfl, rfl, emptyLeaf_ready hw hd, rfl,
      Or.inr ⟨rfl, hw _ (le_refl _), rfl⟩⟩

/-- What every method that succeeds does: it works on a tree, which it leaves updated. -/
structure Changed (w : World S) (m : MapState) (st : Store Str S) (h : Nat)
    (new : List (Str × S)) (touched : List Str) (gained : Int) (ok : Prop) (w' : World S)
    (m' : MapState) (h' : Nat) : Prop where
  before : ∃ degree maintainSize, 2 ≤ degree ∧ opened w degree maintainSize = (m, st)
  ready : Ready st m h
  map : w'.map = some m'
  degree : m'.degree = m.degree
  maintainSize : m'.maintainSize = m.maintainSize
  size : m'.size = if m.maintainSize then (m.size + gained).toNat else m.size
  updated : Updated m.degree none none st h [m.rootId] new touched gained ok w'.store h'
    [m'.rootId] []

/-- And what it leaves is ready for the next. -/
theorem Changed.ready_after {w w' : World S} {m m' : MapState} {st : Store Str S} {h h' : Nat}
    {new : List (Str × S)} {touched : List Str} {gained : Int} {ok : Prop}
    (hc : Changed w m st h new touched gained ok w' m' h') : Ready w'.store m' h' where
  degree := by rw [hc.degree]; exact hc.ready.degree
  fresh := hc.updated.fresh
  trees := by rw [hc.degree]; exact hc.updated.trees
  linked := hc.updated.nexts none hc.ready.linked

theorem nodeEntries_nodup {codec : Codec V B A S} {request : InsertRequest V B A}
    {entries : List (Str × S)} (h : nodeEntries codec request = .ok entries) :
    (entries.map Prod.fst).Nodup := by
  unfold nodeEntries at h
  split at h
  next hne =>
    split at h
    · cases h
    · obtain rfl := Except.ok.inj h
      rw [List.map_map]
      exact request.distinct
  next hnil =>
    split at h
    · cases h
    · obtain rfl := Except.ok.inj h
      exact List.nodup_singleton _

/-- An insert that passes its checks succeeds. -/
theorem insert_changed {codec : Codec V B A S} {stateId : String} {w : World S}
    {request : InsertRequest V B A} {entries : List (Str × S)} (hw : w.Ok)
    (hcheck : checkConstructionOptions stateId w.map request.degree request.maintainSize = .ok ())
    (hentries : nodeEntries codec request = .ok entries) :
    ∃ w' m st h m' h' gained, insert codec stateId w request = .ok w' ∧
      Changed w m st h entries (entries.map Prod.fst) gained
        (splitsLast st.next st m.rootId entries = true) w' m' h' := by
  have hd := checkConstructionOptions_degree hcheck
  obtain ⟨m, st, st₀, h, hcon, hopen, hr, hnext, hst⟩ :=
    constructed_opened (request.degree.getD defaultDegree) (request.maintainSize.getD false) hw hd
  have hpos := hr.height_lt
  obtain ⟨st₁, r, hrun, u⟩ := nodeInsert_spec hr.degree h st₀.next m.degree hpos hr.fresh hr.trees
    (nodeEntries_nodup hentries) fun e _ => within_none e.1
  have hrun' : nodeInsert st.next m.degree st m.rootId entries = .ok (st₁, r) := by
    rcases hst with rfl | ⟨hdeg, hnone, rfl⟩
    · exact hrun
    · obtain ⟨fuel, hfuel⟩ : ∃ fuel, st.next = fuel + 1 := ⟨st.next - 1, by omega⟩
      rw [hfuel, nodeInsert_none hnone hr.degree, ← hfuel]
      rw [← hdeg] at hrun
      exact hrun
  obtain ⟨st', h', rootId, hroot, u'⟩ := newRoot_spec hr.degree u
  refine ⟨⟨some { m with
    rootId := rootId
    size := if m.maintainSize then m.size + r.insertedCount else m.size }, st'⟩, m, st₀, h, _, h',
    r.insertedCount, ?_, ⟨⟨_, _, hd, hopen⟩, hr, rfl, rfl, rfl, ?_, u'⟩⟩
  · simp only [insert, hcheck, hcon, hentries]
    change (nodeInsert st.next m.degree st m.rootId entries >>= fun p =>
      newRoot m.degree p.1 m.rootId p.2 >>= fun q =>
      Except.ok (World.mk (some { m with
        rootId := q.2
        size := if m.maintainSize then m.size + p.2.insertedCount else m.size }) q.1)) = _
    rw [hrun']
    change (newRoot m.degree st₁ m.rootId r >>= fun q =>
      Except.ok (World.mk (some { m with
        rootId := q.2
        size := if m.maintainSize then m.size + r.insertedCount else m.size }) q.1)) = _
    rw [hroot]
    rfl
  · simp only
    split
    · omega
    · rfl

theorem remove_changed {w : World S} {request : RemoveRequest} {keys : List Str} (hw : w.Ok)
    (hkeys : nodeKeys request = .ok keys) :
    ∃ w' m st h m' h' gained, remove w request = .ok w' ∧
      Changed w m st h [] keys gained True w' m' h' := by
  have hd : 2 ≤ defaultDegree := by decide
  obtain ⟨m, st, st₀, h, hcon, hopen, hr, hnext, hst⟩ :=
    constructed_opened defaultDegree false hw hd
  have hpos := hr.height_lt
  obtain ⟨st₁, count, hrun, u⟩ := nodeRemove_spec h st₀.next hpos keys hr.fresh hr.trees
    fun k _ => within_none k
  have hrun' : nodeRemove st.next st m.rootId keys = .ok (st₁, count) := by
    rcases hst with rfl | ⟨hdeg, hnone, rfl⟩
    · exact hrun
    · obtain ⟨fuel, hfuel⟩ : ∃ fuel, st.next = fuel + 1 := ⟨st.next - 1, by omega⟩
      rw [hfuel, nodeRemove_none hnone, ← hfuel]
      exact hrun
  refine ⟨⟨some { m with size := if m.maintainSize then m.size - count else m.size }, st₁⟩, m, st₀,
    h, _, h, -(count : Int), ?_, ⟨⟨_, _, hd, hopen⟩, hr, rfl, rfl, rfl, ?_, u⟩⟩
  · simp only [remove, hcon, hkeys]
    change (nodeRemove st.next st m.rootId keys >>= fun p =>
      Except.ok (World.mk
        (some { m with size := if m.maintainSize then m.size - p.2 else m.size }) p.1)) = _
    rw [hrun']
    rfl
  · simp only
    split
    · omega
    · rfl

theorem create_changed {stateId : String} {w : World S} {request : CreateRequest} (hw : w.Ok)
    (hcheck : checkConstructionOptions stateId w.map request.degree (some request.maintainSize) =
      .ok ()) :
    ∃ w' m st h m' h', create stateId w request = .ok w' ∧
      Changed w m st h [] [] 0 True w' m' h' := by
  have hd := checkConstructionOptions_degree hcheck
  obtain ⟨m, st, st₀, h, hcon, hopen, hr, -, -⟩ :=
    constructed_opened (request.degree.getD defaultDegree) request.maintainSize hw hd
  refine ⟨⟨some m, st₀⟩, m, st₀, h, m, h, ?_, ⟨⟨_, _, hd, hopen⟩, hr, rfl, rfl, rfl, by simp,
    Updated.refl hr.trees hr.fresh True⟩⟩
  unfold World.Ok at hw
  unfold opened at hopen
  simp only [create, hcheck]
  cases hm : w.map with
  | some m' =>
    rw [hm] at hopen
    obtain ⟨rfl, rfl⟩ := Prod.mk.inj hopen
    obtain ⟨map, store⟩ := w
    simp only at hm
    subst hm
    rfl
  | none =>
    rw [hm] at hopen hw
    obtain ⟨rfl, rfl⟩ := Prod.mk.inj hopen
    have hnone : w.store.nodes w.store.next = none := hw _ (le_refl _)
    have hdeg : checkDegree (some (request.degree.getD defaultDegree)) = none :=
      if_neg (Nat.not_lt.mpr hd)
    have hcreate : { w.store with next := w.store.next + 1 }.create w.store.next
        (emptyLeaf (request.degree.getD defaultDegree)) =
        .ok ({ w.store with next := w.store.next + 1 }.set w.store.next
          (emptyLeaf (request.degree.getD defaultDegree))) := by
      simp only [Store.create, hnone, emptyLeaf, hdeg]
    change (do
      let st ← { w.store with next := w.store.next + 1 }.create w.store.next
        (emptyLeaf (request.degree.getD defaultDegree))
      Except.ok (World.mk (some _) st)) = _
    rw [hcreate]
    rfl

/-! ## Runs of calls -/

/-- What is kept of an item: the first of its fields that is set. -/
def Item.first (item : Item V B A) : Item V B A :=
  match item.value, item.bytes with
  | some v, _ => ⟨some v, none, none⟩
  | none, some b => ⟨none, some b, none⟩
  | none, none => ⟨none, none, item.any⟩

theorem itemToValue_first (item : Item V B A) : itemToValue item.first = itemToValue item := by
  obtain ⟨_ | v, _ | b, _ | a⟩ := item <;> rfl

theorem valueToItem_first {item : Item V B A} (h : itemToValue item ≠ .unset) :
    valueToItem (itemToValue item) = .ok item.first := by
  obtain ⟨_ | v, _ | b, _ | a⟩ := item <;> first | rfl | exact absurd rfl h

/-- The entries of a request, bulk or single. -/
def InsertRequest.items (request : InsertRequest V B A) : List (Str × Item V B A) :=
  match request.entries with
  | [] => [(request.key, request.item)]
  | entries => entries

def RemoveRequest.allKeys (request : RemoveRequest) : List Str :=
  match request.keys with
  | [] => [request.key]
  | keys => keys

inductive Call (V B A : Type)
  | create (request : CreateRequest)
  | insert (request : InsertRequest V B A)
  | remove (request : RemoveRequest)

def Call.run (codec : Codec V B A S) (stateId : String) (w : World S) :
    Call V B A → Except Failure (World S)
  | .create request => OrderedMap.create stateId w request
  | .insert request => OrderedMap.insert codec stateId w request
  | .remove request => OrderedMap.remove w request

/-- Every item of a bulk insert has a value field set. -/
def Call.ItemsSet : Call V B A → Prop
  | .insert request => ∀ e ∈ request.entries, itemToValue e.2 ≠ .unset
  | _ => True

instance [DecidableEq V] [DecidableEq B] [DecidableEq A] :
    DecidablePred (Call.ItemsSet : Call V B A → Prop) := fun call =>
  match call with
  | .insert request => inferInstanceAs (Decidable (∀ e ∈ request.entries, itemToValue e.2 ≠ .unset))
  | .create _ => isTrue trivial
  | .remove _ => isTrue trivial

/-- What a call means for a finite map. -/
def Call.apply : Call V B A → (Str → Option (Item V B A)) → Str → Option (Item V B A)
  | .create _, f => f
  | .insert request, f => fun k => (request.items.lookup k).elim (f k) fun item => some item.first
  | .remove request, f => fun k => if k ∈ request.allKeys then none else f k

/-- A call that succeeds, on the map and on the finite map. -/
def step (codec : Codec V B A S) (stateId : String)
    (s : World S × (Str → Option (Item V B A))) (call : Call V B A) :
    Option (World S × (Str → Option (Item V B A))) :=
  match call.run codec stateId s.1 with
  | .ok w => some (w, call.apply s.2)
  | .error _ => none

/-- No map, and nothing in it. -/
def start : World S × (Str → Option (Item V B A)) := (.empty, fun _ => none)

def encode (codec : Codec V B A S) (item : Item V B A) : S := codec.serialize (itemToValue item)

theorem nodeEntries_eq {codec : Codec V B A S} {request : InsertRequest V B A}
    {entries : List (Str × S)} (h : nodeEntries codec request = .ok entries) :
    entries = request.items.map fun e => (e.1, encode codec e.2) := by
  unfold nodeEntries at h
  unfold InsertRequest.items
  split at h
  next e es hes =>
    split at h
    · cases h
    · rw [← Except.ok.inj h, hes]
      rfl
  next hnil =>
    rw [hnil]
    split at h
    · cases h
    next hset => rw [← Except.ok.inj h]; rfl

/-- The items of an insert that succeeds are set: a bulk insert is asked, a single one checks. -/
theorem items_set {codec : Codec V B A S} {request : InsertRequest V B A}
    {entries : List (Str × S)} (h : nodeEntries codec request = .ok entries)
    (hset : (Call.insert request).ItemsSet) : ∀ e ∈ request.items, itemToValue e.2 ≠ .unset := by
  unfold nodeEntries at h
  unfold InsertRequest.items
  simp only [Call.ItemsSet] at hset
  split at h
  next e es hes =>
    rw [hes] at hset ⊢
    exact hset
  next hnil =>
    rw [hnil]
    intro e he
    obtain rfl := List.mem_singleton.mp he
    intro hunset
    simp only [hunset] at h
    cases h

theorem nodeKeys_eq {request : RemoveRequest} {keys : List Str}
    (h : nodeKeys request = .ok keys) : keys = request.allKeys := by
  unfold nodeKeys at h
  unfold RemoveRequest.allKeys
  split at h
  next k ks hks =>
    split at h
    · cases h
    · rw [← Except.ok.inj h, hks]
  next hnil => rw [hnil, ← Except.ok.inj h]

/-- The entries a call brings, the keys it touches, and whether it splits last leaves only. -/
def Call.new (codec : Codec V B A S) : Call V B A → List (Str × S)
  | .insert request => request.items.map fun e => (e.1, encode codec e.2)
  | _ => []

def Call.touched : Call V B A → List Str
  | .create _ => []
  | .insert request => request.items.map Prod.fst
  | .remove request => request.allKeys

def Call.splitsLast (codec : Codec V B A S) (m : MapState) (st : Store Str S)
    (call : Call V B A) : Bool :=
  OrderedMap.splitsLast st.next st m.rootId (call.new codec)

theorem call_changed {codec : Codec V B A S} {stateId : String} {w w' : World S}
    {call : Call V B A} (hw : w.Ok) (h : call.run codec stateId w = .ok w') :
    ∃ m st h m' h' gained, Changed w m st h (call.new codec) call.touched gained
      (call.splitsLast codec m st = true) w' m' h' := by
  cases call with
  | create request =>
    simp only [Call.run] at h
    cases hcheck : checkConstructionOptions stateId w.map request.degree
        (some request.maintainSize) with
    | error e => simp only [create, hcheck] at h; cases h
    | ok _ =>
      obtain ⟨w₁, m, st, h₀, m', h', hok, hc⟩ := create_changed hw hcheck
      obtain rfl : w₁ = w' := Except.ok.inj (hok.symm.trans h)
      exact ⟨m, st, h₀, m', h', 0, { hc with
        updated := hc.updated.congr (fun _ => Iff.rfl) (fun _ => Iff.rfl) rfl fun _ => trivial }⟩
  | insert request =>
    simp only [Call.run] at h
    cases hcheck : checkConstructionOptions stateId w.map request.degree request.maintainSize with
    | error e => simp only [OrderedMap.insert, hcheck] at h; cases h
    | ok _ =>
      cases hentries : nodeEntries codec request with
      | error e => simp only [OrderedMap.insert, hcheck, hentries] at h; cases h
      | ok entries =>
        obtain ⟨w₁, m, st, h₀, m', h', gained, hok, hc⟩ := insert_changed hw hcheck hentries
        obtain rfl : w₁ = w' := Except.ok.inj (hok.symm.trans h)
        have hentries := nodeEntries_eq hentries
        subst hentries
        have htouched : (Call.insert request).touched =
            (request.items.map fun e => (e.1, encode codec e.2)).map Prod.fst := by
          rw [List.map_map]
          rfl
        refine ⟨m, st, h₀, m', h', gained, ?_⟩
        rw [htouched]
        exact hc
  | remove request =>
    simp only [Call.run] at h
    cases hkeys : nodeKeys request with
    | error e => simp only [OrderedMap.remove, hkeys] at h; cases h
    | ok keys =>
      obtain ⟨w₁, m, st, h₀, m', h', gained, hok, hc⟩ := remove_changed hw hkeys
      obtain rfl : w₁ = w' := Except.ok.inj (hok.symm.trans h)
      obtain rfl := nodeKeys_eq hkeys
      exact ⟨m, st, h₀, m', h', gained, { hc with
        updated := hc.updated.congr (fun _ => Iff.rfl) (fun _ => Iff.rfl) rfl fun _ => trivial }⟩

/-! ## The map holds what the finite map says -/

/-- The entries of the tree are those of the finite map. -/
def Stores (codec : Codec V B A S) (f : Str → Option (Item V B A)) (entries : List (Str × S)) :
    Prop :=
  ∀ k v, (k, v) ∈ entries ↔ (f k).map (encode codec) = some v

/-- Every item of the finite map comes back as it is. -/
def Readable (f : Str → Option (Item V B A)) : Prop :=
  ∀ k item, f k = some item → valueToItem (itemToValue item) = .ok item

/-- The entries of the tree are those of the finite map, and all of them can be read. -/
structure Holds (codec : Codec V B A S) (f : Str → Option (Item V B A)) (entries : List (Str × S)) :
    Prop where
  mem : ∀ k v, (k, v) ∈ entries ↔ (f k).map (encode codec) = some v
  readable : ∀ k item, f k = some item → valueToItem (itemToValue item) = .ok item

/-- The map is the finite map, whether or not its items can be read. -/
def Represents (codec : Codec V B A S) (s : World S × (Str → Option (Item V B A))) : Prop :=
  match s.1.map with
  | none => s.1.store.Fresh ∧ ∀ k, s.2 k = none
  | some m => ∃ h, Ready s.1.store m h ∧ Stores codec s.2 (stored s.1.store h [m.rootId])

def Simulates (codec : Codec V B A S) (s : World S × (Str → Option (Item V B A))) : Prop :=
  match s.1.map with
  | none => s.1.store.Fresh ∧ ∀ k, s.2 k = none
  | some m => ∃ h, Ready s.1.store m h ∧ Holds codec s.2 (stored s.1.store h [m.rootId])

theorem simulates_iff {codec : Codec V B A S} {s : World S × (Str → Option (Item V B A))} :
    Simulates codec s ↔ Represents codec s ∧ Readable s.2 := by
  unfold Simulates Represents
  cases hm : s.1.map with
  | none =>
    refine ⟨fun hs => ⟨hs, fun k item hk => ?_⟩, fun hs => hs.1⟩
    rw [hs.2 k] at hk
    cases hk
  | some m =>
    constructor
    · rintro ⟨h, hr, hh⟩
      exact ⟨⟨h, hr, hh.mem⟩, hh.readable⟩
    · rintro ⟨⟨h, hr, hmem⟩, hread⟩
      exact ⟨h, hr, hmem, hread⟩

theorem Represents.ok {codec : Codec V B A S} {s : World S × (Str → Option (Item V B A))}
    (hs : Represents codec s) : s.1.Ok := by
  unfold Represents at hs
  unfold World.Ok
  cases hm : s.1.map with
  | none =>
    rw [hm] at hs
    exact hs.1
  | some m =>
    rw [hm] at hs
    obtain ⟨h, hr, -⟩ := hs
    exact ⟨h, hr⟩

theorem Simulates.ok {codec : Codec V B A S} {s : World S × (Str → Option (Item V B A))}
    (hs : Simulates codec s) : s.1.Ok :=
  (simulates_iff.mp hs).1.ok

/-- The tree that a method works on holds the finite map too. -/
theorem Changed.stores {codec : Codec V B A S} {w w' : World S} {f : Str → Option (Item V B A)}
    {m m' : MapState} {st : Store Str S} {h h' : Nat} {new : List (Str × S)} {touched : List Str}
    {gained : Int} {ok : Prop} (hc : Changed w m st h new touched gained ok w' m' h')
    (hs : Represents codec (w, f)) : Stores codec f (stored st h [m.rootId]) := by
  obtain ⟨degree, maintainSize, -, hopen⟩ := hc.before
  unfold Represents at hs
  unfold opened at hopen
  simp only at hs
  cases hm : w.map with
  | some m₀ =>
    rw [hm] at hs hopen
    obtain ⟨rfl, rfl⟩ := Prod.mk.inj hopen
    obtain ⟨h₀, hr, hh⟩ := hs
    rw [height_unique h h₀ hc.ready.good hr.good]
    exact hh
  | none =>
    rw [hm] at hs hopen
    obtain ⟨rfl, rfl⟩ := Prod.mk.inj hopen
    have hzero : h = 0 :=
      height_unique h 0 hc.ready.good (emptyLeaf_ready hs.1 hc.ready.degree).good
    subst hzero
    simp only [emptyLeaf_stored]
    exact fun k v => by simp [hs.2 k]

theorem items_nodup (request : InsertRequest V B A) : (request.items.map Prod.fst).Nodup := by
  unfold InsertRequest.items
  split
  · exact List.nodup_singleton _
  · exact request.distinct

/-- The entries after an insert, given those before. -/
theorem Stores.insert {codec : Codec V B A S} {f : Str → Option (Item V B A)}
    {entries entries' : List (Str × S)} {request : InsertRequest V B A}
    (hh : Stores codec f entries)
    (hmem : ∀ e, e ∈ entries' ↔ e ∈ (Call.insert request).new codec ∨
      e ∈ entries ∧ e.1 ∉ (Call.insert request).touched) :
    Stores codec ((Call.insert request).apply f) entries' := by
  intro k v
  rw [hmem, hh]
  simp only [Call.new, Call.touched, Call.apply]
  cases hl : request.items.lookup k with
  | none =>
    have hnot : k ∉ request.items.map Prod.fst := by
      intro hin
      obtain ⟨e, he, rfl⟩ := List.mem_map.mp hin
      have := List.lookup_eq_none_iff.mp hl e he
      simp at this
    simp only [Option.elim_none, hnot, not_false_eq_true, and_true, or_iff_right_iff_imp]
    intro hm
    obtain ⟨e, he, heq⟩ := List.mem_map.mp hm
    exact absurd (List.mem_map.mpr ⟨e, he, (Prod.mk.inj heq).1⟩) hnot
  | some item =>
    have hin := (lookup_iff_mem (items_nodup request)).mp hl
    have htouched : k ∈ request.items.map Prod.fst := List.mem_map.mpr ⟨_, hin, rfl⟩
    simp only [Option.elim_some, Option.map_some, Option.some.injEq, htouched, not_true_eq_false,
      and_false, or_false, encode, itemToValue_first]
    constructor
    · intro hm
      obtain ⟨⟨k', item'⟩, he, heq⟩ := List.mem_map.mp hm
      obtain ⟨rfl, rfl⟩ := Prod.mk.inj heq
      have := (lookup_iff_mem (items_nodup request)).mpr he
      rw [hl] at this
      rw [Option.some.inj this]
    · rintro rfl
      exact List.mem_map.mpr ⟨_, hin, rfl⟩

theorem Readable.insert {f : Str → Option (Item V B A)} {request : InsertRequest V B A}
    (hf : Readable f) (hset : ∀ e ∈ request.items, itemToValue e.2 ≠ .unset) :
    Readable ((Call.insert request).apply f) := by
  intro k item hk
  simp only [Call.apply] at hk
  cases hl : request.items.lookup k with
  | none =>
    rw [hl] at hk
    exact hf k item hk
  | some item' =>
    rw [hl] at hk
    obtain rfl := Option.some.inj hk
    rw [itemToValue_first]
    exact valueToItem_first (hset _ ((lookup_iff_mem (items_nodup request)).mp hl))

theorem Stores.remove {codec : Codec V B A S} {f : Str → Option (Item V B A)}
    {entries entries' : List (Str × S)} {request : RemoveRequest} (hh : Stores codec f entries)
    (hmem : ∀ e, e ∈ entries' ↔ e ∈ entries ∧ e.1 ∉ request.allKeys) :
    Stores codec ((Call.remove request).apply f) entries' := by
  intro k v
  rw [hmem, hh]
  simp only [Call.apply]
  split
  next hin => simp [hin]
  next hnot => simp [hnot]

/-- One call. -/
theorem step_represents {codec : Codec V B A S} {stateId : String}
    {s s' : World S × (Str → Option (Item V B A))} {call : Call V B A}
    (hs : Represents codec s) (h : step codec stateId s call = some s') :
    Represents codec s' := by
  obtain ⟨w, f⟩ := s
  unfold step at h
  cases hrun : call.run codec stateId w with
  | error e => simp only [hrun] at h; cases h
  | ok w' =>
    simp only [hrun] at h
    obtain rfl := Option.some.inj h
    obtain ⟨m, st, h₀, m', h', gained, hc⟩ := call_changed hs.ok hrun
    have hh := hc.stores hs
    have hmem := hc.updated.mem
    unfold Represents
    simp only [hc.map]
    refine ⟨h', hc.ready_after, ?_⟩
    cases call with
    | create request =>
      intro k v
      rw [hmem, hh]
      simp [Call.new, Call.touched, Call.apply]
    | insert request => exact hh.insert hmem
    | remove request =>
      refine hh.remove fun e => ?_
      rw [hmem]
      simp [Call.new, Call.touched]

/-- An insert that succeeds has been given items. -/
theorem run_items_set {codec : Codec V B A S} {stateId : String} {w w' : World S}
    {request : InsertRequest V B A} (hset : (Call.insert request).ItemsSet)
    (hrun : (Call.insert request).run codec stateId w = .ok w') :
    ∀ e ∈ request.items, itemToValue e.2 ≠ .unset := by
  simp only [Call.run] at hrun
  cases hcheck : checkConstructionOptions stateId w.map request.degree request.maintainSize with
  | error e => simp only [OrderedMap.insert, hcheck] at hrun; cases hrun
  | ok _ =>
    cases hentries : nodeEntries codec request with
    | error e => simp only [OrderedMap.insert, hcheck, hentries] at hrun; cases hrun
    | ok entries => exact items_set hentries hset

/-- One call, whose items are set. -/
theorem step_simulates {codec : Codec V B A S} {stateId : String}
    {s s' : World S × (Str → Option (Item V B A))} {call : Call V B A}
    (hs : Simulates codec s) (hset : call.ItemsSet) (h : step codec stateId s call = some s') :
    Simulates codec s' := by
  obtain ⟨hrep, hread⟩ := simulates_iff.mp hs
  refine simulates_iff.mpr ⟨step_represents hrep h, ?_⟩
  unfold step at h
  cases hrun : call.run codec stateId s.1 with
  | error e => simp only [hrun] at h; cases h
  | ok w' =>
    simp only [hrun] at h
    obtain rfl := Option.some.inj h
    cases call with
    | create request => exact hread
    | insert request => exact hread.insert (run_items_set hset hrun)
    | remove request =>
      intro k item hk
      simp only [Call.apply] at hk
      split at hk
      · cases hk
      · exact hread k item hk

/-- And a run of them. -/
theorem run_simulates {codec : Codec V B A S} {stateId : String} :
    ∀ (calls : List (Call V B A)) {s s' : World S × (Str → Option (Item V B A))},
    Simulates codec s → (∀ call ∈ calls, call.ItemsSet) →
    exec (step codec stateId) s calls = some s' → Simulates codec s' := by
  intro calls
  induction calls with
  | nil =>
    intro s s' hs _ h
    obtain rfl := Option.some.inj h
    exact hs
  | cons call calls ih =>
    intro s s' hs hset h
    simp only [exec] at h
    cases hstep : step codec stateId s call with
    | none => simp only [hstep] at h; cases h
    | some s₁ =>
      simp only [hstep] at h
      exact ih (step_simulates hs (hset call (by simp)) hstep)
        (fun c hc => hset c (List.mem_cons_of_mem _ hc)) h

theorem start_represents (codec : Codec V B A S) : Represents codec start :=
  ⟨fun _ _ => rfl, fun _ => rfl⟩

theorem start_simulates (codec : Codec V B A S) : Simulates codec start :=
  ⟨fun _ _ => rfl, fun _ => rfl⟩

/-- A search of a constructed map gives what the finite map has. -/
theorem Simulates.search {codec : Codec V B A S} {s : World S × (Str → Option (Item V B A))}
    {m : MapState} (hs : Simulates codec s) (hm : s.1.map = some m) (key : Str) :
    search codec s.1 key = .ok (s.2 key) := by
  unfold Simulates at hs
  rw [hm] at hs
  obtain ⟨h, hr, hh⟩ := hs
  obtain ⟨r, hsearch, hfound⟩ := nodeSearch_spec h hr.height_lt hr.good (within_none key)
  simp only [OrderedMap.search, hm, hsearch]
  have hmem : ∀ v, r = some v ↔ (s.2 key).map (encode codec) = some v := by
    intro v
    rw [hfound v, ← stored_singleton, hh.mem]
  cases hk : s.2 key with
  | none =>
    cases r with
    | none => rfl
    | some v =>
      have := (hmem v).mp rfl
      rw [hk] at this
      cases this
  | some item =>
    obtain rfl : r = some (encode codec item) := (hmem _).mpr (by rw [hk]; rfl)
    change (do let item ← valueToItem (codec.parse (encode codec item)); Except.ok (some item)) = _
    rw [encode, codec.roundTrip, hh.readable key item hk]
    rfl

/-- A call that succeeds leaves a constructed map. -/
theorem step_constructed {codec : Codec V B A S} {stateId : String}
    {s s' : World S × (Str → Option (Item V B A))} {call : Call V B A} (hw : s.1.Ok)
    (h : step codec stateId s call = some s') : ∃ m, s'.1.map = some m := by
  unfold step at h
  cases hrun : call.run codec stateId s.1 with
  | error e => simp only [hrun] at h; cases h
  | ok w' =>
    simp only [hrun] at h
    obtain rfl := Option.some.inj h
    obtain ⟨m, st, h₀, m', h', gained, hc⟩ := call_changed hw hrun
    exact ⟨m', hc.map⟩

theorem run_constructed {codec : Codec V B A S} {stateId : String} :
    ∀ (calls : List (Call V B A)) {s s' : World S × (Str → Option (Item V B A))},
    Simulates codec s → (∀ call ∈ calls, call.ItemsSet) → calls ≠ [] →
    exec (step codec stateId) s calls = some s' → ∃ m, s'.1.map = some m := by
  intro calls
  induction calls with
  | nil => intro s s' _ _ hne; exact absurd rfl hne
  | cons call calls ih =>
    intro s s' hs hset _ h
    simp only [exec] at h
    cases hstep : step codec stateId s call with
    | none => simp only [hstep] at h; cases h
    | some s₁ =>
      simp only [hstep] at h
      cases calls with
      | nil =>
        obtain rfl := Option.some.inj h
        exact step_constructed hs.ok hstep
      | cons call' calls =>
        exact ih (step_simulates hs (hset call (by simp)) hstep)
          (fun c hc => hset c (List.mem_cons_of_mem _ hc)) (by simp) h

/-- `Search` after any calls that succeeded, at least one: the item of the last insert of the key
that no removal of it followed, and not found if there is none. -/
theorem search_latest (codec : Codec V B A S) (stateId : String) (calls : List (Call V B A))
    (hne : calls ≠ []) (hset : ∀ call ∈ calls, call.ItemsSet) (w : World S)
    (f : Str → Option (Item V B A)) (h : exec (step codec stateId) start calls = some (w, f))
    (key : Str) : search codec w key = .ok (f key) := by
  have hs := run_simulates calls (start_simulates codec) hset h
  obtain ⟨m, hm⟩ := run_constructed calls (start_simulates codec) hset hne h
  exact hs.search hm key

/-- Values that are their own bytes. -/
def plainCodec : Codec Nat Nat Nat (Value Nat Nat Nat) := ⟨id, id, fun _ => rfl⟩

def bytesItem (b : Nat) : Item Nat Nat Nat := ⟨none, some b, none⟩

def bulkInsert (entries : List (Str × Item Nat Nat Nat)) (degree : Option Nat)
    (distinct : (entries.map Prod.fst).Nodup) : Call Nat Nat Nat :=
  .insert ⟨[], ⟨none, none, none⟩, entries, degree, none, distinct⟩

/-- A bulk insert that splits the root of a map of degree 2, an update and a removal. -/
def splitAndRemove : List (Call Nat Nat Nat) :=
  [.insert ⟨[], ⟨none, none, none⟩,
      [("d".toList, bytesItem 4), ("a".toList, bytesItem 1), ("c".toList, bytesItem 3)],
      some 2, none, by decide⟩,
    .insert ⟨"a".toList, bytesItem 5, [], none, none, by decide⟩,
    .remove ⟨"c".toList, []⟩]

theorem splitAndRemove_search :
    search plainCodec (last (step plainCodec "m") start splitAndRemove).1 "a".toList =
        .ok (some (bytesItem 5)) ∧
      search plainCodec (last (step plainCodec "m") start splitAndRemove).1 "c".toList = .ok none := by
  have hset : ∀ call ∈ splitAndRemove, call.ItemsSet := by decide
  have hrun : exec (step plainCodec "m") start splitAndRemove =
      some (last (step plainCodec "m") start splitAndRemove) := exec_eq_last (by decide +kernel)
  exact ⟨search_latest plainCodec "m" splitAndRemove (by decide) hset _ _ hrun "a".toList,
    search_latest plainCodec "m" splitAndRemove (by decide) hset _ _ hrun "c".toList⟩

/-- Without a call there is no map, and a search of it is refused. -/
theorem search_unconstructed :
    ¬ ∀ (calls : List (Call Nat Nat Nat)) (w : World (Value Nat Nat Nat))
        (f : Str → Option (Item Nat Nat Nat)), (∀ call ∈ calls, call.ItemsSet) →
        exec (step plainCodec "m") start calls = some (w, f) →
        ∀ key, search plainCodec w key = .ok (f key) := by
  intro h
  have hsearch := h [] .empty (fun _ => none) (by simp) rfl []
  cases hsearch

end Reboot.OrderedMap
