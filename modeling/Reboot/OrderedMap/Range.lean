import Reboot.OrderedMap.FiniteMap

/-!
# `Range`

A range goes down the tree to the leaf the start key belongs to, and from there from leaf to
leaf along `next_id`, over leaves that have nothing to give, until it has as many entries as were
asked for. The links forwards are right in every tree that inserts and removals make
(`Ready.linked`), so what is read off the leaves is exact: `nodeRange_spec`.

What is read still has to be turned into the entries of the response. A bulk insert takes items
that have no value at all, which an insert of a single key refuses; `_entry_from_node_entry`
asserts that there is one. `range_exact_iff` is the whole of it: a range of a constructed map is
exact if and only if no such item is among the entries it is to return.

Mirroring notes:
- An empty start key counts as none. Every key is at or after the empty one, so for a range
  forwards this is the same.
-/

namespace Reboot.OrderedMap

open Reboot.Lib

section Node

variable {K S : Type} [LinearOrder K]

/-- At or after the start, if there is one. -/
def fromStart (start : Option K) (k : K) : Bool := start.all fun s => s ≤ k

/-! ## A leaf -/

/-- On sorted entries a test that is closed upwards holds on what is left after a prefix. -/
theorem dropWhile_eq_filter {l : List (K × S)} (hs : l.Pairwise fun a b => a.1 < b.1) (s : K) :
    (l.dropWhile fun e => decide (e.1 < s)) = l.filter fun e => decide (s ≤ e.1) := by
  induction l with
  | nil => rfl
  | cons e l ih =>
    obtain ⟨hgt, hs⟩ := List.pairwise_cons.mp hs
    by_cases he : e.1 < s
    · rw [List.dropWhile_cons_of_pos (by simpa using he),
        List.filter_cons_of_neg (by simpa using he), ih hs]
    · rw [List.dropWhile_cons_of_neg (by simpa using he)]
      refine (List.filter_eq_self.mpr fun e' he' => ?_).symm
      have hle := not_lt.mp he
      rcases List.mem_cons.mp he' with rfl | he'
      · simpa using hle
      · simpa using le_trans hle (le_of_lt (hgt e' he'))

/-- The entries of a leaf that a range starts with. -/
theorem leaf_fromStart {d : Nat} {lo hi : Option K} {n : Node K S} (hleaf : GoodLeaf d lo hi n)
    (start : Option K) :
    n.entries.drop (match start with
      | none => 0
      | some key => bisectLeft n.keys key) = n.entries.filter fun e => fromStart start e.1 := by
  cases start with
  | none => simp [fromStart]
  | some key =>
    have hcut : bisectLeft n.keys key =
        (n.entries.takeWhile fun e => decide (e.1 < key)).length := by
      rw [bisectLeft_eq (hleaf.sorted.imp le_of_lt), lowerBound, ← hleaf.map_fst,
        List.takeWhile_map, List.length_map]
      rfl
    simp only [hcut, fromStart, Option.all_some]
    rw [← dropWhile_eq_filter hleaf.sorted_entries]
    have hsplit := List.takeWhile_append_dropWhile (p := fun e : K × S => decide (e.1 < key))
      (l := n.entries)
    have hdrop : ((n.entries.takeWhile fun e => decide (e.1 < key)) ++
        n.entries.dropWhile fun e => decide (e.1 < key)).drop
          (n.entries.takeWhile fun e => decide (e.1 < key)).length =
        n.entries.dropWhile fun e => decide (e.1 < key) := List.drop_left
    rwa [hsplit] at hdrop

/-! ## Along the leaves -/

variable {d : Nat} {st : Store K S} {start : Option K}

/-- What a leaf has from the start on. -/
def leafFrom (st : Store K S) (start : Option K) (id : Nat) : List (K × S) :=
  (contents st 0 id).filter fun e => fromStart start e.1

theorem leafFrom_eq {id : Nat} {lo hi : Option K} {n : Node K S} (hn : st.nodes id = some n)
    (hleaf : GoodLeaf d lo hi n) (start : Option K) :
    (n.keys.zip n.values).drop (match start with
      | none => 0
      | some key => bisectLeft n.keys key) = leafFrom st start id := by
  simp only [leafFrom, contents, hn, Option.elim_some]
  exact leaf_fromStart hleaf start

/-- The last leaf gives what it has. -/
theorem nodeRange_last {fuel id limit : Nat} {lo hi : Option K} {n : Node K S}
    (hn : st.nodes id = some n) (hleaf : GoodLeaf d lo hi n) (hlimit : 0 < limit)
    (hnext : n.nextId = none) :
    nodeRange (fuel + 1) st id start limit = .ok ((leafFrom st start id).take limit) := by
  have hfrom := leafFrom_eq hn hleaf start
  cases start with
  | none =>
    simp only [nodeRange, hn, hleaf.isLeaf, Nat.ne_of_gt hlimit, if_true, if_false, hnext]
    rw [hfrom]
  | some key =>
    simp only [nodeRange, hn, hleaf.isLeaf, Nat.ne_of_gt hlimit, if_true, if_false, hnext]
    rw [hfrom]

/-- Another leaf gives what it has, and more from the next one if that is not enough. -/
theorem nodeRange_step {fuel id limit next : Nat} {lo hi : Option K} {n : Node K S}
    (hn : st.nodes id = some n) (hleaf : GoodLeaf d lo hi n) (hlimit : 0 < limit)
    (hnext : n.nextId = some next) :
    nodeRange (fuel + 1) st id start limit =
      if ((leafFrom st start id).take limit).length < limit then do
        let more ← nodeRange fuel st next start (limit - ((leafFrom st start id).take limit).length)
        .ok ((leafFrom st start id).take limit ++ more)
      else .ok ((leafFrom st start id).take limit) := by
  have hfrom := leafFrom_eq hn hleaf start
  cases start with
  | none =>
    simp only [nodeRange, hn, hleaf.isLeaf, Nat.ne_of_gt hlimit, if_true, if_false, hnext]
    rw [hfrom]
  | some key =>
    simp only [nodeRange, hn, hleaf.isLeaf, Nat.ne_of_gt hlimit, if_true, if_false, hnext]
    rw [hfrom]

/-- What the leaves from `id` on hold from the start on. -/
theorem nodeRange_leaf : ∀ (l : List Nat) {fuel id limit : Nat}, l.length < fuel →
    0 < limit → (∀ i ∈ id :: l, ∃ lo hi, Good d st 0 lo hi i) →
    Linked st.nextOf none (id :: l) →
    nodeRange fuel st id start limit = .ok (((id :: l).flatMap (leafFrom st start)).take limit) := by
  intro l
  induction l with
  | nil =>
    intro fuel id limit hfuel hlimit hgood hl
    obtain ⟨lo, hi, n, hn, hleaf⟩ := hgood id (by simp)
    obtain ⟨fuel, rfl⟩ : ∃ f, fuel = f + 1 := ⟨fuel - 1, by omega⟩
    have hnext : n.nextId = none := by
      have := hl.1
      simpa [Store.nextOf, hn] using this
    rw [nodeRange_last hn hleaf hlimit hnext, List.flatMap_singleton]
  | cons p l ih =>
    intro fuel id limit hfuel hlimit hgood hl
    obtain ⟨lo, hi, n, hn, hleaf⟩ := hgood id (by simp)
    obtain ⟨fuel, rfl⟩ : ∃ f, fuel = f + 1 := ⟨fuel - 1, by omega⟩
    have hnext : n.nextId = some p := by
      have := hl.1
      simpa [Store.nextOf, hn] using this
    rw [nodeRange_step hn hleaf hlimit hnext, List.flatMap_cons]
    generalize leafFrom st start id = r
    rw [List.length_cons] at hfuel
    split
    next hshort =>
      -- the leaf does not have enough
      have hshort : r.length < limit := by
        rw [List.length_take] at hshort
        omega
      have hrest := @ih fuel p (limit - r.length) (by omega) (by omega)
        (fun i hi => hgood i (List.mem_cons_of_mem _ hi)) hl.2
      rw [List.take_of_length_le (Nat.le_of_lt hshort), hrest, List.take_append,
        List.take_of_length_le (Nat.le_of_lt hshort)]
      rfl
    next hlong =>
      have hlong : limit ≤ r.length := by
        rw [List.length_take] at hlong
        omega
      rw [List.take_append_of_le_length hlong]

/-! ## Down the tree -/

/-- The child a range goes to: what is left of it comes before the start. -/
theorem nodeRange_child {h id : Nat} {lo hi : Option K} {n : Node K S}
    (hn : st.nodes id = some n) (hin : GoodInner d n)
    (hf : Forest (Good d st h) lo hi n.childrenIds n.keys) (hstart : ∀ s ∈ start, Within lo hi s) :
    ∃ cs₁ c cs₂, n.childrenIds = cs₁ ++ c :: cs₂ ∧
      (∃ lo' hi', Good d st h lo' hi' c ∧ ∀ s ∈ start, Within lo' hi' s) ∧
      (∀ e ∈ stored st h cs₁, fromStart start e.1 = false) ∧
      ∀ fuel limit, 0 < limit →
        nodeRange (fuel + 1) st id start limit = nodeRange fuel st c start limit := by
  cases start with
  | none =>
    obtain ⟨c, cs₂, hcs⟩ := List.exists_cons_of_ne_nil hf.ne_nil
    obtain ⟨lo', hi', hc⟩ := hf.of_mem (c := c) (by rw [hcs]; simp)
    refine ⟨[], c, cs₂, hcs, ⟨lo', hi', hc, nofun⟩, nofun, ?_⟩
    intro fuel limit hlimit
    simp only [nodeRange, hn, hin.isLeaf, Nat.ne_of_gt hlimit, if_false, hcs, List.head?_cons,
      Bool.false_eq_true]
  | some s =>
    obtain ⟨cs₁, c, cs₂, hcs, hlen, ⟨lo', hi', hc, hs⟩, hleft, -⟩ :=
      hf.route_split (f := contents st h) (fun c _ lo hi hc => contents_within h hc) (hstart s rfl)
    refine ⟨cs₁, c, cs₂, hcs, ⟨lo', hi', hc, fun s' hs' => ?_⟩, fun e he => ?_, ?_⟩
    · obtain rfl := Option.some.inj hs'
      exact hs
    · have := hleft e he
      simpa [fromStart] using this
    · intro fuel limit hlimit
      have hchild : findChild n s = .ok c := by
        simp only [findChild, bisectRight_forest hf, ← hlen, hcs]
        simp
      simp only [nodeRange, hn, hin.isLeaf, Nat.ne_of_gt hlimit, if_false, hchild,
        Bool.false_eq_true, bind, Except.bind]

/-- A range from a node, with the leaves that are right of its tree. -/
theorem nodeRange_spec : ∀ (h : Nat) {fuel id limit : Nat} {lo hi : Option K}
    {right : List Nat}, h + (leafIds st h id ++ right).length ≤ fuel → 0 < limit →
    Good d st h lo hi id → (∀ s ∈ start, Within lo hi s) →
    (∀ i ∈ right, ∃ lo hi, Good d st 0 lo hi i) →
    Linked st.nextOf none (leafIds st h id ++ right) →
    nodeRange fuel st id start limit =
      .ok ((((leafIds st h id ++ right).flatMap (contents st 0)).filter
        fun e => fromStart start e.1).take limit) := by
  intro h
  induction h with
  | zero =>
    intro fuel id limit lo hi right hfuel hlimit hg _ hright hl
    rw [leafIds] at hl hfuel ⊢
    have hgood : ∀ i ∈ id :: right, ∃ lo hi, Good d st 0 lo hi i := by
      intro i hmem
      rcases List.mem_cons.mp hmem with rfl | hmem
      · exact ⟨lo, hi, hg⟩
      · exact hright i hmem
    have hlen : right.length < fuel := by
      rw [List.length_append, List.length_singleton] at hfuel
      omega
    rw [nodeRange_leaf right hlen hlimit hgood hl, List.filter_flatMap]
    rfl
  | succ h ih =>
    intro fuel id limit lo hi right hfuel hlimit hg hstart hright hl
    obtain ⟨n, hn, hin, hf⟩ := hg
    obtain ⟨cs₁, c, cs₂, hcs, ⟨lo', hi', hc, hs⟩, hleft, hstep⟩ :=
      nodeRange_child hn hin hf hstart
    have hleaves : leafIds st (h + 1) id ++ right =
        leaves st h cs₁ ++ (leafIds st h c ++ (leaves st h cs₂ ++ right)) := by
      simp only [leafIds, hn, Option.elim_some, hcs, List.flatMap_append, List.flatMap_cons, leaves,
        List.append_assoc]
    rw [hleaves] at hl hfuel ⊢
    obtain ⟨fuel, rfl⟩ : ∃ f, fuel = f + 1 := ⟨fuel - 1, by omega⟩
    rw [hstep fuel limit hlimit]
    have hfuel' : h + (leafIds st h c ++ (leaves st h cs₂ ++ right)).length ≤ fuel := by
      simp only [List.length_append] at hfuel ⊢
      omega
    have hright' : ∀ i ∈ leaves st h cs₂ ++ right, ∃ lo hi, Good d st 0 lo hi i := by
      intro i hi
      rcases List.mem_append.mp hi with hi | hi
      · obtain ⟨c', hc', hi⟩ := List.mem_flatMap.mp hi
        obtain ⟨_, _, hg'⟩ := hf.of_mem (c := c')
          (by rw [hcs]; exact List.mem_append_right _ (List.mem_cons_of_mem _ hc'))
        exact leaf_good h hg' hi
      · exact hright i hi
    rw [ih hfuel' hlimit hc hs hright' (linked_append.mp hl).2]
    have hnone : ((leaves st h cs₁).flatMap (contents st 0)).filter
        (fun e => fromStart start e.1) = [] := by
      rw [stored_leaves]
      refine List.filter_eq_nil_iff.mpr fun e he => ?_
      rw [hleft e he]
      exact Bool.false_ne_true
    generalize leafIds st h c ++ (leaves st h cs₂ ++ right) = here
    rw [List.flatMap_append, List.filter_append, hnone, List.nil_append]

end Node

/-! ## The map -/

section Map

variable {V B A S : Type}

/-- The entries of the finite map whose keys are at or after the start, in ascending order. -/
structure InRange (f : Str → Option (Item V B A)) (startKey : Option Str)
    (all : List (Str × Item V B A)) : Prop where
  ascending : all.Pairwise fun a b => a.1 < b.1
  mem : ∀ k item, (k, item) ∈ all ↔ f k = some item ∧ ∀ s ∈ startKey, s ≤ k

/-- The response has the first `limit` of them. -/
def IsRange (f : Str → Option (Item V B A)) (request : RangeRequest)
    (response : Except Failure (List (Str × Item V B A) × Option Nat)) : Prop :=
  ∃ all size, InRange f request.startKey all ∧ response = .ok (all.take request.limit, size)

/-- What is kept of an item is kept as it is. -/
def Kept (f : Str → Option (Item V B A)) : Prop := ∀ k item, f k = some item → item.first = item

theorem first_first (item : Item V B A) : item.first.first = item.first := by
  obtain ⟨_ | v, _ | b, _ | a⟩ := item <;> rfl

theorem step_kept {codec : Codec V B A S} {stateId : String}
    {s s' : World S × (Str → Option (Item V B A))} {call : Call V B A} (hk : Kept s.2)
    (h : step codec stateId s call = some s') : Kept s'.2 := by
  unfold step at h
  split at h
  next w' hrun =>
    cases h
    intro k item hitem
    cases call with
    | create request => exact hk k item hitem
    | insert request =>
      simp only [Call.apply] at hitem
      cases hl : request.items.lookup k with
      | none =>
        rw [hl] at hitem
        exact hk k item hitem
      | some item' =>
        rw [hl] at hitem
        obtain rfl := Option.some.inj hitem
        exact first_first item'
    | remove request =>
      simp only [Call.apply] at hitem
      split at hitem
      · cases hitem
      · exact hk k item hitem
  next => cases h

/-- The entries of a tree are those of items. -/
theorem exists_items {codec : Codec V B A S} {f : Str → Option (Item V B A)}
    {entries : List (Str × S)} (hh : Stores codec f entries) :
    ∀ {l : List (Str × S)}, (∀ e ∈ l, e ∈ entries) →
    ∃ items : List (Str × Item V B A), items.map (fun e => (e.1, encode codec e.2)) = l ∧
      ∀ e ∈ items, f e.1 = some e.2 := by
  intro l
  induction l with
  | nil => intro _; exact ⟨[], rfl, by simp⟩
  | cons e l ih =>
    intro hin
    obtain ⟨items, hmap, hf⟩ := ih fun e he => hin e (List.mem_cons_of_mem _ he)
    obtain ⟨k, v⟩ := e
    have hk := (hh k v).mp (hin (k, v) (by simp))
    obtain ⟨item, hitem, rfl⟩ := Option.map_eq_some_iff.mp hk
    refine ⟨(k, item) :: items, by rw [List.map_cons, hmap], ?_⟩
    intro e he
    rcases List.mem_cons.mp he with rfl | he
    · exact hitem
    · exact hf e he

/-- Entries can be turned into those of a response if and only if all their items are set. -/
theorem entriesOf_items (codec : Codec V B A S) {items : List (Str × Item V B A)}
    (hkept : ∀ e ∈ items, e.2.first = e.2) :
    ((∀ e ∈ items, itemToValue e.2 ≠ .unset) →
      entriesOf codec (items.map fun e => (e.1, encode codec e.2)) = .ok items) ∧
    ∀ r, entriesOf codec (items.map fun e => (e.1, encode codec e.2)) = .ok r →
      ∀ e ∈ items, itemToValue e.2 ≠ .unset := by
  induction items with
  | nil => exact ⟨fun _ => rfl, nofun⟩
  | cons e items ih =>
    obtain ⟨ih₁, ih₂⟩ := ih fun e he => hkept e (List.mem_cons_of_mem _ he)
    have hparse : codec.parse (encode codec e.2) = itemToValue e.2 := codec.roundTrip _
    constructor
    · intro hset
      have hvalue : valueToItem (itemToValue e.2) = .ok e.2 := by
        rw [valueToItem_first (hset e (by simp)), hkept e (by simp)]
      simp only [List.map_cons, entriesOf, hparse, hvalue,
        ih₁ fun e he => hset e (List.mem_cons_of_mem _ he)]
      rfl
    · intro r hr e' he'
      simp only [List.map_cons, entriesOf, hparse] at hr
      cases hvalue : valueToItem (itemToValue e.2) with
      | error x =>
        rw [hvalue] at hr
        cases hr
      | ok item =>
        rw [hvalue] at hr
        cases hrest : entriesOf codec (items.map fun e => (e.1, encode codec e.2)) with
        | error x =>
          rw [hrest] at hr
          cases hr
        | ok rest =>
          rcases List.mem_cons.mp he' with rfl | he'
          · intro hunset
            rw [hunset] at hvalue
            cases hvalue
          · exact ih₂ rest hrest e' he'

/-- What the nodes give for a range is there in the finite map, as items. -/
theorem nodeRange_items {codec : Codec V B A S} {s : World S × (Str → Option (Item V B A))}
    {m : MapState} (hs : Represents codec s) (hm : s.1.map = some m) (request : RangeRequest)
    (hlimit : 0 < request.limit) :
    ∃ all, InRange s.2 request.startKey all ∧
      nodeRange (2 * s.1.store.next) s.1.store m.rootId
        (request.startKey.filter fun key => key ≠ []) request.limit =
      .ok ((all.take request.limit).map fun e => (e.1, encode codec e.2)) := by
  unfold Represents at hs
  rw [hm] at hs
  obtain ⟨h, hr, hh⟩ := hs
  have hl := hr.linked
  rw [stored_singleton] at hh
  rw [leaves_singleton] at hl
  obtain ⟨start, hst⟩ : ∃ start, request.startKey.filter (fun key => decide (key ≠ [])) = start :=
    ⟨_, rfl⟩
  have hfuel : h + (leafIds s.1.store h m.rootId ++ []).length ≤ 2 * s.1.store.next := by
    have hlt := hr.height_lt
    have hleaves : (leafIds s.1.store h m.rootId).length ≤ s.1.store.next :=
      le_trans (leafIds_sublist h m.rootId).length_le hr.nodeIds_le
    rw [List.append_nil]
    omega
  have hrun : nodeRange (2 * s.1.store.next) s.1.store m.rootId start request.limit = _ :=
    nodeRange_spec h hfuel hlimit hr.good (fun s _ => within_none s) nofun
      (by rw [List.append_nil]; exact hl)
  rw [List.append_nil, ← contents_leafIds] at hrun
  obtain ⟨all, hmap, hall⟩ := exists_items hh
    (l := (contents s.1.store h m.rootId).filter fun e => fromStart start e.1)
    fun e he => (List.mem_filter.mp he).1
  -- every key is at or after the empty one, so an empty start key is none
  have hkeep : ∀ k, fromStart start k = true ↔ ∀ s ∈ request.startKey, s ≤ k := by
    intro k
    rw [← hst]
    cases hkey : request.startKey with
    | none => simp [fromStart]
    | some key =>
      by_cases hempty : key = []
      · subst hempty
        have hle : ([] : Str) ≤ k := not_lt.mp (List.not_lt_nil k)
        simp [fromStart, hle]
      · simp [fromStart, hempty]
  refine ⟨all, ⟨?_, fun k item => ⟨fun hin => ?_, ?_⟩⟩, ?_⟩
  · have hasc := (contents_sorted h hr.good).filter fun e => fromStart start e.1
    rw [← hmap, List.pairwise_map] at hasc
    exact hasc
  · have hmem : (k, encode codec item) ∈
        (contents s.1.store h m.rootId).filter fun e => fromStart start e.1 := by
      rw [← hmap]
      exact List.mem_map.mpr ⟨_, hin, rfl⟩
    exact ⟨hall _ hin, (hkeep k).mp (List.mem_filter.mp hmem).2⟩
  · rintro ⟨hk, hle⟩
    have hmem : (k, encode codec item) ∈ all.map fun e => (e.1, encode codec e.2) := by
      rw [hmap, List.mem_filter]
      exact ⟨(hh k _).mpr (by rw [hk]; rfl), (hkeep k).mpr hle⟩
    obtain ⟨⟨k', item'⟩, hin, heq⟩ := List.mem_map.mp hmem
    obtain ⟨rfl, -⟩ := Prod.mk.inj heq
    obtain rfl := Option.some.inj ((hall _ hin).symm.trans hk)
    exact hin
  · rw [hst, hrun, List.map_take, hmap]

/-- There is only one list of the entries in range. -/
theorem InRange.unique {f : Str → Option (Item V B A)} {startKey : Option Str}
    {all all' : List (Str × Item V B A)} (h : InRange f startKey all)
    (h' : InRange f startKey all') : all = all' := by
  have hperm : all.Perm all' := by
    refine (List.perm_ext_iff_of_nodup ?_ ?_).mpr fun e => ?_
    · exact h.ascending.imp fun hlt heq => absurd hlt (by rw [heq]; exact lt_irrefl _)
    · exact h'.ascending.imp fun hlt heq => absurd hlt (by rw [heq]; exact lt_irrefl _)
    · rw [h.mem e.1 e.2, h'.mem e.1 e.2]
  exact hperm.eq_of_pairwise (fun a b _ _ hab hba => absurd hab (lt_asymm hba)) h.ascending
    h'.ascending

/-- After any calls that succeeded, a range with a positive limit gives exactly the first `limit`
entries at or after the start key, in ascending order, if and only if the map was constructed and
none of these entries is an item that has no value. -/
theorem range_exact_iff (codec : Codec V B A S) (stateId : String) (w : World S)
    (f : Str → Option (Item V B A))
    (hreach : Reach (step codec stateId) (fun _ _ => True) start (w, f))
    (request : RangeRequest) (hlimit : 0 < request.limit) :
    IsRange f request (range codec w request) ↔
      w.map ≠ none ∧ ∀ all, InRange f request.startKey all →
        ∀ e ∈ all.take request.limit, itemToValue e.2 ≠ .unset := by
  have hinv : Represents codec (w, f) ∧ Kept f :=
    hreach.invariant (fun s => Represents codec s ∧ Kept s.2) ⟨start_represents codec, nofun⟩
      fun _ _ _ hs _ hstep => ⟨step_represents hs.1 hstep, step_kept hs.2 hstep⟩
  cases hm : w.map with
  | none =>
    refine ⟨?_, fun h => absurd rfl h.1⟩
    rintro ⟨all, size, -, hresponse⟩
    simp only [range, hm] at hresponse
    cases hresponse
  | some m =>
    obtain ⟨all, hall, hrun⟩ := nodeRange_items hinv.1 hm request hlimit
    have hkept : ∀ e ∈ all.take request.limit, e.2.first = e.2 := fun e he =>
      hinv.2 e.1 e.2 ((hall.mem e.1 e.2).mp (List.mem_of_mem_take he)).1
    obtain ⟨hset, hunset⟩ := entriesOf_items codec hkept
    constructor
    · rintro ⟨all', size, hall', hresponse⟩
      refine ⟨nofun, fun all'' hall'' => ?_⟩
      obtain rfl := hall.unique hall''
      simp only [range, hm, hrun] at hresponse
      cases hentries : entriesOf codec
          ((all.take request.limit).map fun e => (e.1, encode codec e.2)) with
      | error x =>
        change (do let entries ← entriesOf codec _; Except.ok (entries, _)) = _ at hresponse
        rw [hentries] at hresponse
        cases hresponse
      | ok r => exact hunset r hentries
    · rintro ⟨-, hcond⟩
      refine ⟨all, if m.maintainSize then some m.size else none, hall, ?_⟩
      simp only [range, hm, hrun]
      change (do let entries ← entriesOf codec _; Except.ok (entries, _)) = _
      rw [hset (hcond all hall)]
      rfl

end Map

section Runs

/-- A bulk insert into a map of degree 2, which makes leaves of one key, and a removal that
empties one of them. -/
def emptiedLeaf : List (Call Nat Nat Nat) :=
  [bulkInsert [("a".toList, bytesItem 1), ("b".toList, bytesItem 2), ("c".toList, bytesItem 3),
      ("d".toList, bytesItem 4)] (some 2) (by decide),
    .remove ⟨"b".toList, []⟩]

theorem emptiedLeaf_exact :
    IsRange (last (step plainCodec "m") start emptiedLeaf).2 ⟨some "b".toList, 2⟩
      (range plainCodec (last (step plainCodec "m") start emptiedLeaf).1 ⟨some "b".toList, 2⟩) ∧
    range plainCodec (last (step plainCodec "m") start emptiedLeaf).1 ⟨some "b".toList, 2⟩ =
      .ok ([("c".toList, bytesItem 3), ("d".toList, bytesItem 4)], none) := by
  have hrun : exec (step plainCodec "m") start emptiedLeaf =
      some (last (step plainCodec "m") start emptiedLeaf) := exec_eq_last (by decide +kernel)
  have hread := (simulates_iff.mp
    (run_simulates emptiedLeaf (start_simulates plainCodec) (by decide) hrun)).2
  refine ⟨(range_exact_iff plainCodec "m" _ _ (reach_last emptiedLeaf .init ?_)
    ⟨some "b".toList, 2⟩ (by decide)).mpr ⟨?_, fun all hall e he hunset => ?_⟩, ?_⟩
  · decide +kernel
  · decide +kernel
  · have hitem := hread e.1 e.2 ((hall.mem e.1 e.2).mp (List.mem_of_mem_take he)).1
    rw [hunset] at hitem
    cases hitem
  · decide +kernel

/-- A bulk insert of an item that has no value. -/
def unsetItem : List (Call Nat Nat Nat) :=
  [bulkInsert [("a".toList, bytesItem 1), ("b".toList, ⟨none, none, none⟩)] none (by decide)]

/-- The insert succeeds, and a range over the map fails. -/
theorem unsetItem_not_range :
    ¬ ∀ (calls : List (Call Nat Nat Nat)) (w : World (Value Nat Nat Nat))
        (f : Str → Option (Item Nat Nat Nat)) (request : RangeRequest),
        exec (step plainCodec "m") start calls = some (w, f) → w.map ≠ none →
        0 < request.limit → IsRange f request (range plainCodec w request) := by
  intro h
  have hrun : exec (step plainCodec "m") start unsetItem =
      some (last (step plainCodec "m") start unsetItem) := exec_eq_last (by decide +kernel)
  obtain ⟨all, size, -, hresponse⟩ := h unsetItem _ _ ⟨none, 2⟩ hrun (by decide +kernel) (by decide)
  have hfails : range plainCodec (last (step plainCodec "m") start unsetItem).1 ⟨none, 2⟩ =
      .error .failed := by
    decide +kernel
  cases hfails.symm.trans hresponse

end Runs

end Reboot.OrderedMap
