import Mathlib.Data.List.Flatten
import Reboot.Lib.Forest
import Reboot.Lib.Links
import Reboot.Lib.SortedAssoc
import Reboot.OrderedMap.Servicer

/-!
# The tree under a node

What the nodes reachable from an id are, read off the store level by level: the height is an
argument, so all leaves are equally deep. `contents` is the entries from left to right, `nodeIds`
and `leafIds` the ids, and `Good` the invariant: keys sorted, a child within the bounds that its
parent's keys give it, fewer than `degree` keys in a node.

All of these only depend on the nodes of the tree (`good_congr` and its siblings), which is what
lets one subtree change without the others.

`nodeSearch_spec`: with fuel for the height, a search ends and gives the entry of the tree.
-/

namespace Reboot.OrderedMap

open Reboot.Lib

variable {K S : Type}

/-! ## Reading a tree -/

/-- The keys of a leaf with their values. -/
def Node.entries (n : Node K S) : List (K × S) := n.keys.zip n.values

/-- The entries under a node, from left to right. -/
def contents (st : Store K S) : Nat → Nat → List (K × S)
  | 0, id => (st.nodes id).elim [] Node.entries
  | h + 1, id => (st.nodes id).elim [] fun n => n.childrenIds.flatMap (contents st h)

/-- The ids of a node and of all under it. -/
def nodeIds (st : Store K S) : Nat → Nat → List Nat
  | 0, id => [id]
  | h + 1, id => id :: (st.nodes id).elim [] fun n => n.childrenIds.flatMap (nodeIds st h)

/-- The ids of the leaves under a node, from left to right. -/
def leafIds (st : Store K S) : Nat → Nat → List Nat
  | 0, id => [id]
  | h + 1, id => (st.nodes id).elim [] fun n => n.childrenIds.flatMap (leafIds st h)

/-! The same for a list of nodes. -/

section Lists

variable (st : Store K S) (h c : Nat) (cs cs' : List Nat)

/-- The entries under the nodes. -/
def stored : List (K × S) := cs.flatMap (contents st h)

/-- The ids of the nodes and of all under them. -/
def allIds : List Nat := cs.flatMap (nodeIds st h)

/-- The ids of the leaves under the nodes. -/
def leaves : List Nat := cs.flatMap (leafIds st h)

theorem stored_singleton : stored st h [c] = contents st h c := List.flatMap_singleton ..

theorem stored_cons : stored st h (c :: cs) = contents st h c ++ stored st h cs := rfl

theorem stored_append : stored st h (cs ++ cs') = stored st h cs ++ stored st h cs' :=
  List.flatMap_append

theorem allIds_singleton : allIds st h [c] = nodeIds st h c := List.flatMap_singleton ..

theorem allIds_cons : allIds st h (c :: cs) = nodeIds st h c ++ allIds st h cs := rfl

theorem allIds_append : allIds st h (cs ++ cs') = allIds st h cs ++ allIds st h cs' :=
  List.flatMap_append

theorem leaves_singleton : leaves st h [c] = leafIds st h c := List.flatMap_singleton ..

theorem leaves_cons : leaves st h (c :: cs) = leafIds st h c ++ leaves st h cs := rfl

theorem leaves_append : leaves st h (cs ++ cs') = leaves st h cs ++ leaves st h cs' :=
  List.flatMap_append

end Lists

/-- The leaf that comes after it in the linked list. -/
def Store.nextOf (st : Store K S) (id : Nat) : Option Nat := (st.nodes id).bind Node.nextId

/-- The leaf that comes before it in the linked list. -/
def Store.prevOf (st : Store K S) (id : Nat) : Option Nat := (st.nodes id).bind Node.prevId

/-- No node has an id that was not handed out yet. -/
def Store.Fresh (st : Store K S) : Prop := ∀ i, st.next ≤ i → st.nodes i = none

theorem mem_nodeIds_self (st : Store K S) (h id : Nat) : id ∈ nodeIds st h id := by
  cases h <;> simp [nodeIds]

/-! ## The invariant -/

section Good

variable [LinearOrder K]

/-- A leaf with fewer keys than its degree, sorted and within the bounds. -/
structure GoodLeaf (d : Nat) (lo hi : Option K) (n : Node K S) : Prop where
  degree : n.degree = d
  isLeaf : n.isLeaf = true
  values : n.keys.length = n.values.length
  few : n.keys.length < d
  sorted : n.keys.Pairwise (· < ·)
  within : ∀ k ∈ n.keys, Within lo hi k

omit [LinearOrder K] in
/-- An inner node with fewer keys than its degree. -/
structure GoodInner (d : Nat) (n : Node K S) : Prop where
  degree : n.degree = d
  isLeaf : n.isLeaf = false
  few : n.keys.length < d

/-- The node is the root of a tree of this height, all of whose keys are within the bounds. -/
def Good (degree : Nat) (st : Store K S) : Nat → Option K → Option K → Nat → Prop
  | 0, lo, hi, id => ∃ n, st.nodes id = some n ∧ GoodLeaf degree lo hi n
  | h + 1, lo, hi, id => ∃ n, st.nodes id = some n ∧ GoodInner degree n ∧
      Forest (Good degree st h) lo hi n.childrenIds n.keys

variable {d : Nat} {st st' : Store K S}

theorem GoodLeaf.map_fst {lo hi : Option K} {n : Node K S} (h : GoodLeaf d lo hi n) :
    n.entries.map Prod.fst = n.keys :=
  List.map_fst_zip (Nat.le_of_eq h.values)

theorem GoodLeaf.sorted_entries {lo hi : Option K} {n : Node K S} (h : GoodLeaf d lo hi n) :
    n.entries.Pairwise fun a b => a.1 < b.1 := by
  have := h.sorted
  rw [← h.map_fst, List.pairwise_map] at this
  exact this

/-- All that is under a node is within its bounds. -/
theorem contents_within : ∀ (h : Nat) {lo hi : Option K} {id : Nat}, Good d st h lo hi id →
    ∀ e ∈ contents st h id, Within lo hi e.1 := by
  intro h
  induction h with
  | zero =>
    intro lo hi id hg e he
    obtain ⟨n, hn, hleaf⟩ := hg
    simp only [contents, hn, Option.elim_some] at he
    exact hleaf.within _ (List.of_mem_zip he).1
  | succ h ih =>
    intro lo hi id hg e he
    obtain ⟨n, hn, -, hf⟩ := hg
    simp only [contents, hn, Option.elim_some] at he
    exact hf.within (fun c _ lo hi hc => ih hc) e he

/-- The entries of a tree are in strictly increasing order of their keys. -/
theorem contents_sorted : ∀ (h : Nat) {lo hi : Option K} {id : Nat}, Good d st h lo hi id →
    (contents st h id).Pairwise fun a b => a.1 < b.1 := by
  intro h
  induction h with
  | zero =>
    intro lo hi id hg
    obtain ⟨n, hn, hleaf⟩ := hg
    simp only [contents, hn, Option.elim_some]
    exact hleaf.sorted_entries
  | succ h ih =>
    intro lo hi id hg
    obtain ⟨n, hn, -, hf⟩ := hg
    simp only [contents, hn, Option.elim_some]
    exact hf.sorted_flatMap (fun c _ lo hi hc => contents_within h hc) fun c _ lo hi hc => ih hc

/-- There is a leaf under every node. -/
theorem leafIds_ne_nil : ∀ (h : Nat) {lo hi : Option K} {id : Nat}, Good d st h lo hi id →
    leafIds st h id ≠ [] := by
  intro h
  induction h with
  | zero => intro lo hi id _; simp [leafIds]
  | succ h ih =>
    intro lo hi id hg
    obtain ⟨n, hn, -, hf⟩ := hg
    obtain ⟨c, hc, lo', hi', hg'⟩ := hf.exists_mem
    simp only [leafIds, hn, Option.elim_some]
    exact fun hnil => ih hg' (List.flatMap_eq_nil_iff.mp hnil c hc)

/-- How high a tree is can be read off its nodes. -/
theorem height_unique : ∀ (h h' : Nat) {lo hi lo' hi' : Option K} {id : Nat},
    Good d st h lo hi id → Good d st h' lo' hi' id → h = h' := by
  intro h
  induction h with
  | zero =>
    intro h' lo hi lo' hi' id hg hg'
    obtain ⟨n, hn, hleaf⟩ := hg
    cases h' with
    | zero => rfl
    | succ h' =>
      obtain ⟨n', hn', hin, -⟩ := hg'
      obtain rfl : n = n' := Option.some.inj (hn.symm.trans hn')
      have := hleaf.isLeaf.symm.trans hin.isLeaf
      cases this
  | succ h ih =>
    intro h' lo hi lo' hi' id hg hg'
    obtain ⟨n, hn, hin, hf⟩ := hg
    cases h' with
    | zero =>
      obtain ⟨n', hn', hleaf⟩ := hg'
      obtain rfl : n = n' := Option.some.inj (hn.symm.trans hn')
      have := hleaf.isLeaf.symm.trans hin.isLeaf
      cases this
    | succ h' =>
      obtain ⟨n', hn', -, hf'⟩ := hg'
      obtain rfl : n = n' := Option.some.inj (hn.symm.trans hn')
      obtain ⟨c, hc, _, _, hgc⟩ := hf.exists_mem
      obtain ⟨_, _, hgc'⟩ := hf'.of_mem hc
      rw [ih h' hgc hgc']

/-! ## Only the nodes of the tree matter -/

omit [LinearOrder K] in
/-- What is under a child is under its parent. -/
theorem nodeIds_child {h id c : Nat} {n : Node K S} (hn : st.nodes id = some n)
    (hc : c ∈ n.childrenIds) {i : Nat} (hi : i ∈ nodeIds st h c) : i ∈ nodeIds st (h + 1) id := by
  simp only [nodeIds, hn, Option.elim_some]
  exact List.mem_cons_of_mem _ (List.mem_flatMap.mpr ⟨c, hc, hi⟩)

omit [LinearOrder K] in
/-- The entries depend on the nodes of the tree only. -/
theorem contents_congr : ∀ (h : Nat) {id : Nat},
    (∀ i ∈ nodeIds st h id, st'.nodes i = st.nodes i) → contents st' h id = contents st h id := by
  intro h
  induction h with
  | zero =>
    intro id heq
    simp only [contents, heq id (mem_nodeIds_self ..)]
  | succ h ih =>
    intro id heq
    simp only [contents, heq id (mem_nodeIds_self ..)]
    cases hn : st.nodes id with
    | none => rfl
    | some n =>
      simp only [Option.elim_some]
      refine List.flatMap_congr fun c hc => ih fun i hi => heq i (nodeIds_child hn hc hi)

omit [LinearOrder K] in
/-- So do the ids. -/
theorem nodeIds_congr : ∀ (h : Nat) {id : Nat},
    (∀ i ∈ nodeIds st h id, st'.nodes i = st.nodes i) → nodeIds st' h id = nodeIds st h id := by
  intro h
  induction h with
  | zero => intro id _; rfl
  | succ h ih =>
    intro id heq
    simp only [nodeIds, heq id (mem_nodeIds_self ..)]
    cases hn : st.nodes id with
    | none => rfl
    | some n =>
      simp only [Option.elim_some]
      congr 1
      refine List.flatMap_congr fun c hc => ih fun i hi => heq i (nodeIds_child hn hc hi)

omit [LinearOrder K] in
/-- So do the leaves. -/
theorem leafIds_congr : ∀ (h : Nat) {id : Nat},
    (∀ i ∈ nodeIds st h id, st'.nodes i = st.nodes i) → leafIds st' h id = leafIds st h id := by
  intro h
  induction h with
  | zero => intro id _; rfl
  | succ h ih =>
    intro id heq
    simp only [leafIds, heq id (mem_nodeIds_self ..)]
    cases hn : st.nodes id with
    | none => rfl
    | some n =>
      simp only [Option.elim_some]
      refine List.flatMap_congr fun c hc => ih fun i hi => heq i (nodeIds_child hn hc hi)

/-- A tree stays good while none of its nodes changes. -/
theorem good_congr : ∀ (h : Nat) {lo hi : Option K} {id : Nat},
    (∀ i ∈ nodeIds st h id, st'.nodes i = st.nodes i) → Good d st h lo hi id →
    Good d st' h lo hi id := by
  intro h
  induction h with
  | zero =>
    intro lo hi id heq hg
    obtain ⟨n, hn, hleaf⟩ := hg
    exact ⟨n, by rw [heq id (mem_nodeIds_self ..), hn], hleaf⟩
  | succ h ih =>
    intro lo hi id heq hg
    obtain ⟨n, hn, hin, hf⟩ := hg
    refine ⟨n, by rw [heq id (mem_nodeIds_self ..), hn], hin, hf.mono fun c hc lo hi => ?_⟩
    exact ih fun i hi => heq i (nodeIds_child hn hc hi)

omit [LinearOrder K] in
/-- The leaves are among the nodes, in the same order. -/
theorem leafIds_sublist : ∀ (h : Nat) (id : Nat), (leafIds st h id).Sublist (nodeIds st h id) := by
  intro h
  induction h with
  | zero => intro id; exact .refl _
  | succ h ih =>
    intro id
    cases hn : st.nodes id with
    | none => simp [leafIds, hn]
    | some n =>
      simp only [leafIds, nodeIds, hn, Option.elim_some]
      exact (List.Sublist.flatMap_right _ fun c _ => ih c).cons id

/-- A path down the tree is no longer than there are nodes. -/
theorem height_lt : ∀ (h : Nat) {lo hi : Option K} {id : Nat}, Good d st h lo hi id →
    h < (nodeIds st h id).length := by
  intro h
  induction h with
  | zero => intro lo hi id _; simp [nodeIds]
  | succ h ih =>
    intro lo hi id hg
    obtain ⟨n, hn, -, hf⟩ := hg
    obtain ⟨c, hc, lo', hi', hg'⟩ := hf.exists_mem
    have hlt := ih hg'
    have hle : (nodeIds st h c).length ≤ (n.childrenIds.flatMap (nodeIds st h)).length :=
      (List.sublist_flatten_of_mem (List.mem_map_of_mem hc)).length_le
    simp only [nodeIds, hn, Option.elim_some, List.length_cons]
    omega

/-- Trees side by side: within the bounds, with no node in common, and their ids handed out. -/
structure Trees (d : Nat) (st : Store K S) (h : Nat) (lo hi : Option K) (cs : List Nat)
    (ks : List K) : Prop where
  forest : Forest (Good d st h) lo hi cs ks
  nodup : (allIds st h cs).Nodup
  below : ∀ i ∈ allIds st h cs, i < st.next

section Congr

variable {h : Nat} {cs : List Nat} (heq : ∀ i ∈ allIds st h cs, st'.nodes i = st.nodes i)
include heq

omit [LinearOrder K] in
theorem stored_congr : stored st' h cs = stored st h cs :=
  List.flatMap_congr fun c hc => contents_congr h fun i hi => heq i (List.mem_flatMap.mpr ⟨c, hc, hi⟩)

omit [LinearOrder K] in
theorem allIds_congr : allIds st' h cs = allIds st h cs :=
  List.flatMap_congr fun c hc => nodeIds_congr h fun i hi => heq i (List.mem_flatMap.mpr ⟨c, hc, hi⟩)

omit [LinearOrder K] in
theorem leaves_congr : leaves st' h cs = leaves st h cs :=
  List.flatMap_congr fun c hc => leafIds_congr h fun i hi => heq i (List.mem_flatMap.mpr ⟨c, hc, hi⟩)

theorem forest_congr {lo hi : Option K} {ks : List K} (hf : Forest (Good d st h) lo hi cs ks) :
    Forest (Good d st' h) lo hi cs ks :=
  hf.mono fun c hc _ _ => good_congr h fun i hi => heq i (List.mem_flatMap.mpr ⟨c, hc, hi⟩)

/-- Trees side by side stay so while none of their nodes changes. -/
theorem Trees.congr {lo hi : Option K} {ks : List K} (ht : Trees d st h lo hi cs ks)
    (hle : st.next ≤ st'.next) : Trees d st' h lo hi cs ks where
  forest := forest_congr heq ht.forest
  nodup := by rw [allIds_congr heq]; exact ht.nodup
  below := by
    rw [allIds_congr heq]
    exact fun i hi => lt_of_lt_of_le (ht.below i hi) hle

end Congr

omit [LinearOrder K] in
/-- The leaves of trees are among their nodes. -/
theorem leaves_subset {h : Nat} {cs : List Nat} {i : Nat} (hi : i ∈ leaves st h cs) :
    i ∈ allIds st h cs := by
  obtain ⟨c, hc, hi⟩ := List.mem_flatMap.mp hi
  exact List.mem_flatMap.mpr ⟨c, hc, (leafIds_sublist h c).subset hi⟩

theorem leaves_ne_nil {h : Nat} {lo hi : Option K} {cs : List Nat} {ks : List K}
    (hf : Forest (Good d st h) lo hi cs ks) : leaves st h cs ≠ [] := by
  obtain ⟨c, hc, lo', hi', hg⟩ := hf.exists_mem
  exact fun hnil => leafIds_ne_nil h hg (List.flatMap_eq_nil_iff.mp hnil c hc)

/-- All that is stored in trees side by side is within their outer bounds. -/
theorem stored_within {h : Nat} {lo hi : Option K} {cs : List Nat} {ks : List K}
    (hf : Forest (Good d st h) lo hi cs ks) : ∀ e ∈ stored st h cs, Within lo hi e.1 :=
  hf.within fun _ _ _ _ hc => contents_within h hc

/-! ## From leaf to leaf -/

omit [LinearOrder K] in
/-- What is stored is what is stored in the leaves. -/
theorem contents_leafIds : ∀ (h : Nat) (id : Nat),
    contents st h id = (leafIds st h id).flatMap (contents st 0) := by
  intro h
  induction h with
  | zero => intro id; rw [leafIds, List.flatMap_singleton]
  | succ h ih =>
    intro id
    cases hn : st.nodes id with
    | none => simp [contents, leafIds, hn]
    | some n =>
      simp only [contents, leafIds, hn, Option.elim_some, List.flatMap_assoc]
      exact List.flatMap_congr fun c _ => ih c

omit [LinearOrder K] in
theorem stored_leaves (h : Nat) (cs : List Nat) :
    (leaves st h cs).flatMap (contents st 0) = stored st h cs := by
  rw [leaves, List.flatMap_assoc]
  exact List.flatMap_congr fun c _ => (contents_leafIds h c).symm

/-- The leaves of a good tree are good, within bounds of their own. -/
theorem leaf_good : ∀ (h : Nat) {lo hi : Option K} {id i : Nat}, Good d st h lo hi id →
    i ∈ leafIds st h id → ∃ lo hi, Good d st 0 lo hi i := by
  intro h
  induction h with
  | zero =>
    intro lo hi id i hg hi'
    obtain rfl := List.mem_singleton.mp hi'
    exact ⟨lo, hi, hg⟩
  | succ h ih =>
    intro lo hi id i hg hmem
    obtain ⟨n, hn, -, hf⟩ := hg
    simp only [leafIds, hn, Option.elim_some] at hmem
    obtain ⟨c, hc, hmem⟩ := List.mem_flatMap.mp hmem
    obtain ⟨lo', hi', hg'⟩ := hf.of_mem hc
    exact ih hg' hmem

/-! ## Search -/

theorem sorted_nodup {l : List (K × S)} (h : l.Pairwise fun a b => a.1 < b.1) :
    (l.map Prod.fst).Nodup :=
  List.pairwise_map.mpr (h.imp ne_of_lt)

/-- The keys of an inner node are sorted, so `bisect_right` finds the upper bound. -/
theorem bisectRight_forest {P : Option K → Option K → Nat → Prop} {lo hi : Option K}
    {cs : List Nat} {ks : List K} (hf : Forest P lo hi cs ks) (k : K) :
    bisectRight ks k = upperBound ks k :=
  bisectRight_eq (hf.sorted.imp le_of_lt) k

/-- A search with fuel for the height ends, and finds what is there. -/
theorem nodeSearch_spec : ∀ (h : Nat) {fuel : Nat} {lo hi : Option K} {id : Nat} {k : K},
    h < fuel → Good d st h lo hi id → Within lo hi k →
    ∃ r, nodeSearch fuel st id k = .ok r ∧ ∀ v, r = some v ↔ (k, v) ∈ contents st h id := by
  intro h
  induction h with
  | zero =>
    intro fuel lo hi id k hfuel hg _
    obtain ⟨n, hn, hleaf⟩ := hg
    obtain ⟨fuel, rfl⟩ := Nat.exists_eq_add_of_lt hfuel
    refine ⟨n.entries.lookup k, ?_, fun v => ?_⟩
    · simp [nodeSearch, hn, hleaf.isLeaf, Node.entries]
    · simp only [contents, hn, Option.elim_some]
      exact lookup_iff_mem (sorted_nodup hleaf.sorted_entries)
  | succ h ih =>
    intro fuel lo hi id k hfuel hg hk
    obtain ⟨n, hn, hin, hf⟩ := hg
    obtain ⟨fuel, rfl⟩ := Nat.exists_eq_add_of_lt hfuel
    obtain ⟨c, hget, ⟨lo', hi', hc, hk'⟩, hmem⟩ :=
      hf.route (f := contents st h) (fun c _ lo hi hc => contents_within h hc) hk
    obtain ⟨r, hr, hspec⟩ := ih (by omega : h < h + 1 + fuel) hc hk'
    refine ⟨r, ?_, fun v => ?_⟩
    · simp only [nodeSearch, hn, hin.isLeaf, findChild, bisectRight_forest hf, hget]
      exact hr
    · simp only [contents, hn, Option.elim_some]
      rw [hspec v, hmem v]

end Good

end Reboot.OrderedMap
