import Mathlib.Data.List.Range
import Reboot.OrderedMap.Update

/-!
# Inserting into a node

`nodeInsert_spec`: with fuel for its height, an insert into a tree ends without failing, and
what it leaves is `Updated` by the entries. The node and the nodes it promotes are the trees
after it, and the keys it promotes lie between them.

A leaf is where entries change (`merge`) and where links are made (`leafSiblings`). An inner
node is a loop over its children (`insertChildren_spec`), then `absorb`, which lays what they
have become side by side, and then a cut into groups.

The links to previous leaves survive if `splitsLast` held before: no leaf is split that has a
next one. It is decided from the nodes as they are before the insert.
-/

namespace Reboot.OrderedMap

open Reboot.Lib

variable {K S : Type}

/-! ## Creating nodes -/

section Create

variable {st : Store K S}

theorem Store.set_nodes_self (id : Nat) (n : Node K S) : (st.set id n).nodes id = some n := by
  simp [Store.set]

theorem Store.set_nodes_ne {id i : Nat} (n : Node K S) (h : i ≠ id) :
    (st.set id n).nodes i = st.nodes i := by
  simp [Store.set, h]

theorem Store.Fresh.set (hfresh : st.Fresh) {id : Nat} (n : Node K S) (hid : id < st.next) :
    (st.set id n).Fresh := by
  intro i hi
  have hi : st.next ≤ i := hi
  rw [Store.set_nodes_ne n (by omega)]
  exact hfresh i hi

theorem Store.Fresh.lt (hfresh : st.Fresh) {id : Nat} {n : Node K S} (hn : st.nodes id = some n) :
    id < st.next := by
  by_contra hge
  rw [hfresh id (by omega)] at hn
  cases hn

theorem createAll_ok : ∀ {l : List (Nat × Node K S)} {st : Store K S}, (l.map Prod.fst).Nodup →
    (∀ e ∈ l, st.nodes e.1 = none) → (∀ e ∈ l, 2 ≤ e.2.degree) →
    ∃ st', st.createAll l = .ok st' ∧ st'.next = st.next ∧
      (∀ e ∈ l, st'.nodes e.1 = some e.2) ∧ ∀ i, i ∉ l.map Prod.fst → st'.nodes i = st.nodes i := by
  intro l
  induction l with
  | nil => intro st _ _ _; exact ⟨st, rfl, rfl, by simp, fun _ _ => rfl⟩
  | cons e l ih =>
    intro st hnodup hnone hdeg
    obtain ⟨id, n⟩ := e
    obtain ⟨hnot, hnodup⟩ := List.nodup_cons.mp hnodup
    have hcreate : st.create id n = .ok (st.set id n) := by
      have hn := hnone (id, n) (by simp)
      have hd := hdeg (id, n) (by simp)
      simp only at hn hd
      simp only [Store.create, hn, checkDegree, Nat.not_lt.mpr hd, if_false]
    have hnone' : ∀ e ∈ l, (st.set id n).nodes e.1 = none := by
      intro e he
      have hne : e.1 ≠ id := by
        intro heq
        exact hnot (List.mem_map.mpr ⟨e, he, heq⟩)
      rw [Store.set_nodes_ne n hne]
      exact hnone e (List.mem_cons_of_mem _ he)
    obtain ⟨st', hok, hnext, hin, hout⟩ :=
      ih hnodup hnone' fun e he => hdeg e (List.mem_cons_of_mem _ he)
    refine ⟨st', ?_, hnext, fun e he => ?_, fun i hi => ?_⟩
    · simp only [Store.createAll, hcreate]
      exact hok
    · rcases List.mem_cons.mp he with rfl | he
      · rw [hout _ hnot, Store.set_nodes_self]
      · exact hin e he
    · rw [List.map_cons, List.mem_cons, not_or] at hi
      rw [hout i hi.2, Store.set_nodes_ne n hi.1]

/-- Nodes with the next ids can be created. -/
theorem createAll_next {l : List (Nat × Node K S)} {m : Nat} (hfresh : st.Fresh)
    (hl : l.map Prod.fst = List.range' st.next m) (hdeg : ∀ e ∈ l, 2 ≤ e.2.degree) :
    ∃ st', { st with next := st.next + m }.createAll l = .ok st' ∧ st'.next = st.next + m ∧
      st'.Fresh ∧ (∀ e ∈ l, st'.nodes e.1 = some e.2) ∧
      ∀ i, i ∉ List.range' st.next m → st'.nodes i = st.nodes i := by
  have hnone : ∀ e ∈ l, st.nodes e.1 = none := by
    intro e he
    have hmem : e.1 ∈ l.map Prod.fst := List.mem_map_of_mem he
    rw [hl, List.mem_range'_1] at hmem
    exact hfresh e.1 hmem.1
  have hnodup : (l.map Prod.fst).Nodup := by
    rw [hl]
    exact List.nodup_range'
  obtain ⟨st', hok, hnext, hin, hout⟩ :=
    @createAll_ok K S l { st with next := st.next + m } hnodup hnone hdeg
  refine ⟨st', hok, hnext, fun i hi => ?_, hin, ?_⟩
  · rw [hnext] at hi
    have hi : st.next + m ≤ i := hi
    rw [hout i (by rw [hl, List.mem_range'_1]; omega)]
    exact hfresh i (by omega)
  · rw [← hl]
    exact hout

end Create

/-! ## Merging -/

section Merge

variable [LinearOrder K]

theorem merge_nil_right (old : List (K × S)) : merge old [] = (old, 0) := by
  cases old <;> rfl

theorem merge_cons_lt {e e' : K × S} {es es' : List (K × S)} (h : e.1 < e'.1) :
    merge (e :: es) (e' :: es') =
      (e :: (merge es (e' :: es')).1, (merge es (e' :: es')).2) := by
  simp only [merge, mergeFrom, h, if_true]

theorem merge_cons_eq {e e' : K × S} {es es' : List (K × S)} (h : e.1 = e'.1) :
    merge (e :: es) (e' :: es') = (e' :: (merge es es').1, (merge es es').2) := by
  simp only [merge, mergeFrom, h, lt_irrefl, if_false, if_true]

theorem merge_cons_gt {e e' : K × S} {es es' : List (K × S)} (h : e'.1 < e.1) :
    merge (e :: es) (e' :: es') =
      (e' :: (merge (e :: es) es').1, (merge (e :: es) es').2 + 1) := by
  simp only [merge, mergeFrom, not_lt.mpr (le_of_lt h), ne_of_gt h, if_false]

/-- The induction that follows the merge loop. -/
theorem merge_induct {motive : List (K × S) → List (K × S) → Prop}
    (nil_left : ∀ new, motive [] new) (nil_right : ∀ e es, motive (e :: es) [])
    (lt : ∀ e es e' es', e.1 < e'.1 → motive es (e' :: es') → motive (e :: es) (e' :: es'))
    (eq : ∀ e es e' es', e.1 = e'.1 → motive es es' → motive (e :: es) (e' :: es'))
    (gt : ∀ e es e' es', e'.1 < e.1 → motive (e :: es) es' → motive (e :: es) (e' :: es')) :
    ∀ old new, motive old new := by
  intro old
  induction old with
  | nil => exact nil_left
  | cons e es ih =>
    intro new
    induction new with
    | nil => exact nil_right e es
    | cons e' es' ih' =>
      rcases lt_trichotomy e.1 e'.1 with h | h | h
      · exact lt e es e' es' h (ih _)
      · exact eq e es e' es' h (ih _)
      · exact gt e es e' es' h ih'

theorem merge_length (old new : List (K × S)) :
    (merge old new).1.length = old.length + (merge old new).2 := by
  induction old, new using merge_induct with
  | nil_left new => simp [merge]
  | nil_right e es => simp [merge_nil_right]
  | lt e es e' es' h ih => simp only [merge_cons_lt h, List.length_cons, ih]; omega
  | eq e es e' es' h ih => simp only [merge_cons_eq h, List.length_cons, ih]; omega
  | gt e es e' es' h ih => simp only [merge_cons_gt h, List.length_cons, ih]; omega

/-- The new entries, and the old ones whose key is not among theirs. -/
theorem merge_mem (old new : List (K × S)) (hold : old.Pairwise fun a b => a.1 < b.1)
    (hnew : new.Pairwise fun a b => a.1 < b.1) (x : K × S) :
    x ∈ (merge old new).1 ↔ x ∈ new ∨ x ∈ old ∧ x.1 ∉ new.map Prod.fst := by
  induction old, new using merge_induct with
  | nil_left new => simp [merge]
  | nil_right e es => simp [merge_nil_right]
  | lt e es e' es' h ih =>
    have ih := ih hold.of_cons hnew
    have hnot : e.1 ∉ (e' :: es').map Prod.fst := by
      intro hm
      obtain ⟨y, hy, hey⟩ := List.mem_map.mp hm
      rcases List.mem_cons.mp hy with rfl | hy
      · exact absurd h (hey ▸ lt_irrefl _)
      · exact absurd (lt_trans h ((List.pairwise_cons.mp hnew).1 y hy)) (hey ▸ lt_irrefl _)
    rw [merge_cons_lt h, List.mem_cons, ih, List.mem_cons (l := es)]
    constructor
    · rintro (rfl | hx | ⟨hx, hk⟩)
      · exact Or.inr ⟨Or.inl rfl, hnot⟩
      · exact Or.inl hx
      · exact Or.inr ⟨Or.inr hx, hk⟩
    · rintro (hx | ⟨rfl | hx, hk⟩)
      · exact Or.inr (Or.inl hx)
      · exact Or.inl rfl
      · exact Or.inr (Or.inr ⟨hx, hk⟩)
  | eq e es e' es' h ih =>
    have ih := ih hold.of_cons hnew.of_cons
    have hgt := (List.pairwise_cons.mp hold).1
    rw [merge_cons_eq h, List.mem_cons, ih, List.mem_cons, List.mem_cons, List.map_cons,
      List.mem_cons, not_or]
    constructor
    · rintro (rfl | hx | ⟨hx, hk⟩)
      · exact Or.inl (Or.inl rfl)
      · exact Or.inl (Or.inr hx)
      · exact Or.inr ⟨Or.inr hx, h ▸ (ne_of_gt (hgt x hx)), hk⟩
    · rintro ((rfl | hx) | ⟨rfl | hx, hne, hk⟩)
      · exact Or.inl rfl
      · exact Or.inr (Or.inl hx)
      · exact absurd h hne
      · exact Or.inr (Or.inr ⟨hx, hk⟩)
  | gt e es e' es' h ih =>
    have ih := ih hold hnew.of_cons
    have hgt : ∀ y ∈ e :: es, e'.1 < y.1 := by
      intro y hy
      rcases List.mem_cons.mp hy with rfl | hy
      · exact h
      · exact lt_trans h ((List.pairwise_cons.mp hold).1 y hy)
    rw [merge_cons_gt h, List.mem_cons, ih, List.mem_cons (l := es'), List.map_cons,
      List.mem_cons (l := es'.map Prod.fst), not_or]
    constructor
    · rintro (rfl | hx | ⟨hx, hk⟩)
      · exact Or.inl (Or.inl rfl)
      · exact Or.inl (Or.inr hx)
      · exact Or.inr ⟨hx, ne_of_gt (hgt x hx), hk⟩
    · rintro ((rfl | hx) | ⟨hx, -, hk⟩)
      · exact Or.inl rfl
      · exact Or.inr (Or.inl hx)
      · exact Or.inr (Or.inr ⟨hx, hk⟩)

/-- An entry of the merge is at or above a bound that both lists are above. -/
theorem merge_above {old new : List (K × S)} (hold : old.Pairwise fun a b => a.1 < b.1)
    (hnew : new.Pairwise fun a b => a.1 < b.1) {k : K} (hold' : ∀ e ∈ old, k < e.1)
    (hnew' : ∀ e ∈ new, k < e.1) : ∀ e ∈ (merge old new).1, k < e.1 := by
  intro e he
  rcases (merge_mem old new hold hnew e).mp he with he | ⟨he, -⟩
  · exact hnew' e he
  · exact hold' e he

theorem merge_sorted (old new : List (K × S)) (hold : old.Pairwise fun a b => a.1 < b.1)
    (hnew : new.Pairwise fun a b => a.1 < b.1) :
    (merge old new).1.Pairwise fun a b => a.1 < b.1 := by
  induction old, new using merge_induct with
  | nil_left new => exact hnew
  | nil_right e es => rw [merge_nil_right]; exact hold
  | lt e es e' es' h ih =>
    obtain ⟨hgt, hold⟩ := List.pairwise_cons.mp hold
    rw [merge_cons_lt h]
    refine List.pairwise_cons.mpr ⟨merge_above hold hnew hgt fun y hy => ?_, ih hold hnew⟩
    rcases List.mem_cons.mp hy with rfl | hy
    · exact h
    · exact lt_trans h ((List.pairwise_cons.mp hnew).1 y hy)
  | eq e es e' es' h ih =>
    obtain ⟨hgt, hold⟩ := List.pairwise_cons.mp hold
    obtain ⟨hgt', hnew⟩ := List.pairwise_cons.mp hnew
    rw [merge_cons_eq h]
    exact List.pairwise_cons.mpr ⟨merge_above hold hnew (h ▸ hgt) hgt', ih hold hnew⟩
  | gt e es e' es' h ih =>
    obtain ⟨hgt', hnew⟩ := List.pairwise_cons.mp hnew
    rw [merge_cons_gt h]
    refine List.pairwise_cons.mpr ⟨merge_above hold hnew (fun y hy => ?_) hgt', ih hold hnew⟩
    rcases List.mem_cons.mp hy with rfl | hy
    · exact h
    · exact lt_trans h ((List.pairwise_cons.mp hold).1 y hy)

theorem sortBy_perm (l : List (K × S)) : (sortBy Prod.fst l).Perm l :=
  List.perm_insertionSort _ l

/-- Entries with distinct keys are strictly sorted once they are sorted. -/
theorem sortBy_sorted {l : List (K × S)} (hl : (l.map Prod.fst).Nodup) :
    (sortBy Prod.fst l).Pairwise fun a b => a.1 < b.1 := by
  have : Std.Total (fun a b : K × S => a.1 ≤ b.1) := ⟨fun a b => le_total a.1 b.1⟩
  have : IsTrans (K × S) (fun a b => a.1 ≤ b.1) := ⟨fun _ _ _ => le_trans⟩
  have hle : (sortBy Prod.fst l).Pairwise fun a b => a.1 ≤ b.1 := List.pairwise_insertionSort _ l
  have hne : (sortBy Prod.fst l).Pairwise fun a b => a.1 ≠ b.1 :=
    List.pairwise_map.mp (((sortBy_perm l).map Prod.fst).nodup_iff.mpr hl)
  exact (hle.and hne).imp fun h => lt_of_le_of_ne h.1 h.2

end Merge

/-! ## Leaves -/

section Leaf

theorem pieces_ok {α : Type} {mid : Nat} (hmid : 0 < mid) : ∀ (fuel : Nat) {l : List α},
    l.length ≤ fuel → ∃ ps, pieces mid fuel l = some ps ∧ ps.flatten = l ∧
      ∀ p ∈ ps, p ≠ [] ∧ p.length ≤ mid := by
  intro fuel
  induction fuel with
  | zero =>
    intro l hl
    obtain rfl := List.eq_nil_of_length_eq_zero (Nat.le_zero.mp hl)
    exact ⟨[], rfl, rfl, by simp⟩
  | succ fuel ih =>
    intro l hl
    cases l with
    | nil => exact ⟨[], rfl, rfl, by simp⟩
    | cons a l =>
      have hshort : ((a :: l).drop mid).length ≤ fuel := by
        rw [List.length_drop]
        omega
      obtain ⟨ps, hps, hflat, hsize⟩ := ih hshort
      refine ⟨(a :: l).take mid :: ps, by simp only [pieces, hps, Option.map_some], ?_, ?_⟩
      · rw [List.flatten_cons, hflat, List.take_append_drop]
      · intro p hp
        rcases List.mem_cons.mp hp with rfl | hp
        · refine ⟨fun hnil => ?_, List.length_take_le ..⟩
          rcases List.take_eq_nil_iff.mp hnil with h | h
          · omega
          · cases h
        · exact hsize p hp

theorem leafSiblings_ids (d : Nat) (oldNextId : Option Nat) :
    ∀ (ps : List (List (K × S))) (prev id : Nat),
      (leafSiblings d oldNextId prev id ps).map Prod.fst = List.range' id ps.length := by
  intro ps
  induction ps with
  | nil => intro prev id; rfl
  | cons p ps ih =>
    intro prev id
    simp only [leafSiblings, List.map_cons, ih, List.length_cons, List.range'_succ]

theorem leafSiblings_degree {d : Nat} {oldNextId : Option Nat} :
    ∀ {ps : List (List (K × S))} {prev id : Nat},
      ∀ e ∈ leafSiblings d oldNextId prev id ps, e.2.degree = d := by
  intro ps
  induction ps with
  | nil => intro prev id e he; cases he
  | cons p ps ih =>
    intro prev id e he
    rcases List.mem_cons.mp he with rfl | he
    · rfl
    · exact ih e he

/-- The new leaves in a store: their entries, and how they are linked to each other, to the old
next leaf and back to `prev`. -/
theorem leafSiblings_spec {d : Nat} {oldNextId : Option Nat} {st : Store K S} :
    ∀ (ps : List (List (K × S))) (prev id : Nat),
    (∀ e ∈ leafSiblings d oldNextId prev id ps, st.nodes e.1 = some e.2) →
    LeafLayer d st (List.range' id ps.length) ps ∧
      Linked st.nextOf oldNextId (List.range' id ps.length) ∧
      Linked st.prevOf (some prev) (List.range' id ps.length).reverse := by
  intro ps
  induction ps with
  | nil => intro prev id _; exact ⟨.nil, trivial, trivial⟩
  | cons p ps ih =>
    intro prev id hin
    obtain ⟨hlayer, hnext, hprev⟩ := ih id (id + 1) fun e he => hin e (List.mem_cons_of_mem _ he)
    have hid := hin _ (List.mem_cons_self ..)
    simp only at hid
    rw [List.length_cons, List.range'_succ]
    refine ⟨.cons ⟨_, hid, rfl, rfl, rfl, rfl⟩ hlayer, ⟨?_, hnext⟩, ?_⟩
    · simp only [Store.nextOf, hid, Option.bind_some]
      cases ps with
      | nil => simp
      | cons q ps => simp [List.range'_succ]
    · rw [List.reverse_cons, linked_append]
      refine ⟨hprev, ?_, trivial⟩
      simp only [Store.prevOf, hid, Option.bind_some, List.head?_nil, Option.none_or]

variable [LinearOrder K]

/-- Whether a leaf has to be split. -/
def leafSplits (n : Node K S) (entries : List (K × S)) : Bool :=
  decide (n.degree ≤ (merge n.entries (sortBy Prod.fst entries)).1.length)

variable {d : Nat} {lo hi : Option K} {st : Store K S} {id : Nat} {n : Node K S}
  {entries : List (K × S)}

/-- What a leaf holds after an insert. -/
structure Merged (d : Nat) (lo hi : Option K) (n : Node K S) (entries : List (K × S))
    (merged : List (K × S) × Nat) : Prop where
  sorted : merged.1.Pairwise fun a b => a.1 < b.1
  within : ∀ e ∈ merged.1, Within lo hi e.1
  mem : ∀ e, e ∈ merged.1 ↔ e ∈ entries ∨ e ∈ n.entries ∧ e.1 ∉ entries.map Prod.fst
  length : (merged.1.length : Int) = n.entries.length + merged.2

theorem merged_of_leaf (hleaf : GoodLeaf d lo hi n) (hnodup : (entries.map Prod.fst).Nodup)
    (hin : ∀ e ∈ entries, Within lo hi e.1) :
    Merged d lo hi n entries (merge n.entries (sortBy Prod.fst entries)) := by
  have hperm := sortBy_perm entries
  have hmem : ∀ e, e ∈ (merge n.entries (sortBy Prod.fst entries)).1 ↔
      e ∈ entries ∨ e ∈ n.entries ∧ e.1 ∉ entries.map Prod.fst := by
    intro e
    rw [merge_mem _ _ hleaf.sorted_entries (sortBy_sorted hnodup), hperm.mem_iff,
      (hperm.map Prod.fst).mem_iff]
  refine ⟨merge_sorted _ _ hleaf.sorted_entries (sortBy_sorted hnodup), fun e he => ?_, hmem, ?_⟩
  · rcases (hmem e).mp he with he | ⟨he, -⟩
    · exact hin e he
    · exact hleaf.within e.1 (List.of_mem_zip he).1
  · rw [merge_length]
    push_cast
    rfl

theorem insertLeaf_spec (hd : 2 ≤ d) (hfresh : st.Fresh) (hn : st.nodes id = some n)
    (hleaf : GoodLeaf d lo hi n) (hnodup : (entries.map Prod.fst).Nodup)
    (hin : ∀ e ∈ entries, Within lo hi e.1) :
    ∃ st' r, insertLeaf st id n entries = .ok (st', r) ∧
      Updated d lo hi st 0 [id] entries (entries.map Prod.fst) r.insertedCount
        (leafSplits n entries = true → n.nextId = none) st' 0 (id :: r.newChildIds)
        r.promotedKeys := by
  have hid := hfresh.lt hn
  have hm := merged_of_leaf hleaf hnodup hin
  obtain rfl := hleaf.degree
  have hzip : n.keys.zip n.values = n.entries := rfl
  simp only [insertLeaf, leafSplits, hzip]
  generalize merge n.entries (sortBy Prod.fst entries) = merged at hm ⊢
  split
  next hfew =>
    -- it fits
    refine ⟨_, _, rfl, ?_⟩
    have hl : LeafLayer n.degree (st.set id { n with
        keys := merged.1.map Prod.fst, values := merged.1.map Prod.snd }) [id] [merged.1] :=
      .cons ⟨_, Store.set_nodes_self .., rfl, hleaf.isLeaf, rfl, rfl⟩ .nil
    refine Updated.leaf hn (hfresh.set _ hid) (le_refl _) hid hl (hl.forest ?_ (Or.inl rfl)
      (by simp) ?_ ?_) List.Pairwise.nil (by simp) (fun i _ hne => Store.set_nodes_ne _ hne) ?_ ?_ ?_ ?_
      (fun _ _ => rfl)
    · intro q hq
      rw [List.mem_singleton.mp hq]
      omega
    · simpa using hm.sorted
    · simpa using hm.within
    · simpa using hm.mem
    · simpa using hm.length
    · refine ⟨?_, trivial⟩
      simp [Store.nextOf, Store.set_nodes_self]
    · refine ⟨?_, trivial⟩
      simp [Store.prevOf, Store.set_nodes_self]
  next hmany =>
    -- it is split; the first piece stays
    obtain ⟨mid, hmid⟩ : ∃ mid, n.degree / 2 = mid := ⟨_, rfl⟩
    rw [hmid]
    obtain ⟨ps, hps, hflat, hsize⟩ := pieces_ok (by omega : 0 < mid) merged.1.length
      (l := merged.1.drop mid) (by simp)
    have hne : ps ≠ [] := by
      rintro rfl
      have := congrArg List.length hflat
      simp at this
      omega
    obtain ⟨p, ps, rfl⟩ := List.exists_cons_of_ne_nil hne
    simp only [hps]
    have hall : (merged.1.take mid :: p :: ps).flatten = merged.1 := by
      rw [List.flatten_cons, hflat, List.take_append_drop]
    obtain ⟨n₁, hn₁⟩ : ∃ m, { n with
        keys := (merged.1.take mid).map Prod.fst
        values := (merged.1.take mid).map Prod.snd
        nextId := some st.next } = m := ⟨_, rfl⟩
    rw [hn₁]
    have hsib := leafSiblings_ids n.degree n.nextId (p :: ps) id st.next
    obtain ⟨st', hok, hnext, hfresh', hin', hout⟩ := createAll_next (hfresh.set n₁ hid) hsib
      (fun e he => by rw [leafSiblings_degree e he]; exact hd)
    have hnext : st'.next = st.next + (p :: ps).length := hnext
    have hset : ∀ i < st.next, st'.nodes i = (st.set id n₁).nodes i := by
      intro i hi
      refine hout i fun hi' => ?_
      have hge : st.next ≤ i := (List.mem_range'_1.mp hi').1
      omega
    have hself : st'.nodes id = some n₁ := by
      rw [hset id hid, Store.set_nodes_self]
    subst hn₁
    obtain ⟨hlayer, hlnext, hlprev⟩ := leafSiblings_spec _ _ _ hin'
    have hl : LeafLayer n.degree st' (id :: List.range' st.next (p :: ps).length)
        (merged.1.take mid :: p :: ps) :=
      .cons ⟨_, hself, rfl, hleaf.isLeaf, rfl, rfl⟩ hlayer
    refine ⟨st', ⟨(p :: ps).filterMap fun q => q.head?.map Prod.fst,
      List.range' st.next (p :: ps).length, merged.2⟩, ?_, ?_⟩
    · rw [hok, ← hsib]
      rfl
    · refine Updated.leaf hn hfresh' (by omega) hid hl (hl.forest ?_ (Or.inr ?_)
        (fun q hq => (hsize q hq).1) (by rw [hall]; exact hm.sorted)
        (by rw [hall]; exact hm.within)) List.pairwise_lt_range' (fun i hi => ?_) (fun i hi hne => ?_)
        (by rw [hall]; exact hm.mem) (by rw [hall]; exact hm.length) ⟨?_, hlnext⟩ ?_ ?_
      · intro q hq
        rcases List.mem_cons.mp hq with rfl | hq
        · rw [List.length_take]
          omega
        · have := (hsize q hq).2
          omega
      · intro hnil
        have := congrArg List.length hnil
        rw [List.length_take, List.length_nil] at this
        omega
      · rw [List.mem_range'_1] at hi
        omega
      · rw [hset i hi, Store.set_nodes_ne _ hne]
      · simp [Store.nextOf, hself, List.range'_succ]
      · rw [List.reverse_cons, linked_append]
        refine ⟨hlprev, ?_, trivial⟩
        simp [Store.prevOf, hself]
      · intro hok hnone
        exact absurd (hok (decide_eq_true (by omega))) hnone

end Leaf

/-! ## The loop over the children -/

section Children

variable [LinearOrder K]

/-- A condition on each child with its share of the entries. -/
def childrenAll (p : Nat → List (K × S) → Bool) (keys : List K) (entries : List (K × S)) :
    Nat → List Nat → Bool
  | _, [] => true
  | i, c :: cs =>
    p c (entries.filter fun e => bisectRight keys e.1 = i) &&
      childrenAll p keys entries (i + 1) cs

theorem childrenAll_congr {p q : Nat → List (K × S) → Bool} {keys : List K}
    {entries : List (K × S)} : ∀ {cs : List Nat} {i : Nat}, (∀ c ∈ cs, p c = q c) →
    childrenAll p keys entries i cs = childrenAll q keys entries i cs := by
  intro cs
  induction cs with
  | nil => intro i _; rfl
  | cons c cs ih =>
    intro i hpq
    simp only [childrenAll]
    rw [hpq c (by simp), ih fun c hc => hpq c (List.mem_cons_of_mem _ hc)]

/-- The insert into a child, if it has entries. -/
def insertChild
    (insert : Store K S → Nat → List (K × S) → Except Failure (Store K S × InsertResponse K))
    (st : Store K S) (c : Nat) : List (K × S) → Except Failure (Store K S × InsertResponse K)
  | [] => .ok (st, ⟨[], [], 0⟩)
  | e :: es => insert st c (e :: es)

variable {insert : Store K S → Nat → List (K × S) → Except Failure (Store K S × InsertResponse K)}
  {keys : List K} {entries : List (K × S)}

theorem insertChildren_cons {i c : Nat} {cs : List Nat} {st st₁ st₂ : Store K S}
    {r : InsertResponse K} {rs : List (InsertResponse K)}
    (h₁ : insertChild insert st c (entries.filter fun e => bisectRight keys e.1 = i) = .ok (st₁, r))
    (h₂ : insertChildren insert keys entries (i + 1) cs st₁ = .ok (st₂, rs)) :
    insertChildren insert keys entries i (c :: cs) st = .ok (st₂, r :: rs) := by
  unfold insertChildren
  cases hf : entries.filter fun e => bisectRight keys e.1 = i with
  | nil =>
    rw [hf] at h₁
    cases h₁
    simp only [h₂]
    rfl
  | cons e es =>
    rw [hf] at h₁
    have h₁ : insert st c (e :: es) = .ok (st₁, r) := h₁
    simp only [h₁]
    change (insertChildren insert keys entries (i + 1) cs st₁ >>= fun p =>
      Except.ok (p.1, r :: p.2)) = _
    rw [h₂]
    rfl

omit [LinearOrder K] in
theorem absorb_cons {c : Nat} {cs : List Nat} {r : InsertResponse K} {rs : List (InsertResponse K)}
    {ks : List K} (hlen : r.newChildIds.length = r.promotedKeys.length) :
    absorb (c :: cs) (r :: rs) ks =
      (r.promotedKeys ++ (ks.head?.toList ++ (absorb cs rs ks.tail).1),
        (c :: r.newChildIds) ++ (absorb cs rs ks.tail).2) := by
  simp only [absorb, List.map_fst_zip (Nat.le_of_eq hlen.symm),
    List.map_snd_zip (Nat.le_of_eq hlen), List.cons_append]

variable {d h : Nat}

/-- What is asked of the insert into a child: `nodeInsert_spec`, at the height of the children. -/
def InsertSpec (d h : Nat)
    (insert : Store K S → Nat → List (K × S) → Except Failure (Store K S × InsertResponse K))
    (p : Store K S → Nat → List (K × S) → Bool) : Prop :=
  ∀ {st : Store K S} {lo hi : Option K} {c : Nat} {es : List (K × S)}, st.Fresh →
    Trees d st h lo hi [c] [] → (es.map Prod.fst).Nodup → (∀ e ∈ es, Within lo hi e.1) →
    ∃ st' r, insert st c es = .ok (st', r) ∧
      Updated d lo hi st h [c] es (es.map Prod.fst) r.insertedCount (p st c es = true) st' h
        (c :: r.newChildIds) r.promotedKeys

variable {p : Store K S → Nat → List (K × S) → Bool}

theorem insertChild_spec (hinsert : InsertSpec d h insert p) {st : Store K S} {lo hi : Option K}
    {c : Nat} {es : List (K × S)} (hfresh : st.Fresh) (ht : Trees d st h lo hi [c] [])
    (hnodup : (es.map Prod.fst).Nodup) (hin : ∀ e ∈ es, Within lo hi e.1) :
    ∃ st' r, insertChild insert st c es = .ok (st', r) ∧
      Updated d lo hi st h [c] es (es.map Prod.fst) r.insertedCount (p st c es = true) st' h
        (c :: r.newChildIds) r.promotedKeys := by
  cases es with
  | nil => exact ⟨st, ⟨[], [], 0⟩, rfl, Updated.refl ht hfresh _⟩
  | cons e es => exact hinsert hfresh ht hnodup hin

/-- The children with a route of at least `i`, one after the other. -/
theorem insertChildren_spec (hinsert : InsertSpec d h insert p)
    (hp : ∀ {st st' : Store K S} {lo hi : Option K} {c : Nat}, Good d st h lo hi c →
      (∀ i ∈ nodeIds st h c, st'.nodes i = st.nodes i) → p st' c = p st c)
    (hnodup : (entries.map Prod.fst).Nodup) {st₀ : Store K S} {lo hi : Option K} {cs : List Nat}
    {ks : List K} (hf : Forest (Good d st₀ h) lo hi cs ks) :
    ∀ {st : Store K S} {i : Nat}, st.Fresh → Trees d st h lo hi cs ks →
    (∀ x, Within lo hi x → bisectRight keys x = i + upperBound ks x) →
    (∀ e ∈ entries, i ≤ bisectRight keys e.1 → Within lo hi e.1) →
    ∃ st' rs, insertChildren insert keys entries i cs st = .ok (st', rs) ∧
      Updated d lo hi st h cs (entries.filter fun e => i ≤ bisectRight keys e.1)
        ((entries.filter fun e => i ≤ bisectRight keys e.1).map Prod.fst)
        ((rs.map InsertResponse.insertedCount).sum : Nat)
        (childrenAll (p st) keys entries i cs = true) st' h (absorb cs rs ks).2
        (absorb cs rs ks).1 := by
  have hshare : ∀ i, ((entries.filter fun e => bisectRight keys e.1 = i).map Prod.fst).Nodup :=
    fun i => hnodup.sublist (List.filter_sublist.map _)
  induction hf with
  | @one lo hi c _ =>
    intro st i hfresh ht hroute hin
    have hlast : ∀ e ∈ entries, i ≤ bisectRight keys e.1 ↔ bisectRight keys e.1 = i := by
      intro e he
      refine ⟨fun hle => ?_, fun heq => by omega⟩
      have := hroute e.1 (hin e he hle)
      simpa [upperBound] using this
    obtain ⟨st₁, r, h₁, u₁⟩ := insertChild_spec hinsert hfresh ht (hshare i) fun e he => by
      obtain ⟨he, heq⟩ := List.mem_filter.mp he
      exact hin e he (by simp only [decide_eq_true_eq] at heq; omega)
    have hlen := u₁.trees.forest.length
    refine ⟨st₁, [r], insertChildren_cons h₁ rfl, ?_⟩
    rw [absorb_cons (by simpa using hlen)]
    have hsame : (entries.filter fun e => decide (i ≤ bisectRight keys e.1)) =
        entries.filter fun e => decide (bisectRight keys e.1 = i) :=
      List.filter_congr fun e he => decide_eq_decide.mpr (hlast e he)
    simp only [List.head?_nil, Option.toList_none, absorb, List.append_nil, hsame]
    refine u₁.congr (fun _ => Iff.rfl) (fun _ => Iff.rfl) (by simp) fun hok => ?_
    simpa [childrenAll] using hok
  | @cons lo hi c cs k ks _ hk rest ih =>
    intro st i hfresh ht hroute hin
    have hleft : ∀ e ∈ entries, bisectRight keys e.1 = i → Within lo (some k) e.1 := by
      intro e he heq
      have hin := hin e he (by omega)
      refine hin.lt (not_le.mp fun hle => ?_)
      have := hroute e.1 hin
      rw [Forest.upperBound_cons_of_le hle] at this
      omega
    have hright : ∀ e ∈ entries, i + 1 ≤ bisectRight keys e.1 → Within (some k) hi e.1 := by
      intro e he hle
      have hin := hin e he (by omega)
      refine hin.ge (not_lt.mp fun hlt => ?_)
      have := hroute e.1 hin
      rw [Forest.upperBound_cons_of_lt hlt] at this
      omega
    obtain ⟨hc, -, hcs, -⟩ := ht.split
    obtain ⟨st₁, r, h₁, u₁⟩ := insertChild_spec hinsert hfresh hc (hshare i) fun e he => by
      obtain ⟨he, heq⟩ := List.mem_filter.mp he
      exact hleft e he (of_decide_eq_true heq)
    have hothers := u₁.others ht
    obtain ⟨st₂, rs, h₂, u₂⟩ := @ih st₁ (i + 1) u₁.fresh (hcs.congr hothers u₁.next_le)
      (fun x hx => by
        rw [hroute x (hx.right hk), Forest.upperBound_cons_of_le (hx.1 k rfl)]
        omega) hright
    have hlen := u₁.trees.forest.length
    refine ⟨st₂, r :: rs, insertChildren_cons h₁ h₂, ?_⟩
    rw [absorb_cons (by simpa using hlen)]
    have hboth : ∀ e, e ∈ (entries.filter fun e => decide (i ≤ bisectRight keys e.1)) ↔
        e ∈ (entries.filter fun e => decide (bisectRight keys e.1 = i)) ++
          entries.filter fun e => decide (i + 1 ≤ bisectRight keys e.1) := by
      intro e
      simp only [List.mem_append, List.mem_filter, decide_eq_true_eq]
      constructor
      · rintro ⟨he, hle⟩
        rcases Nat.eq_or_lt_of_le hle with heq | hlt
        · exact Or.inl ⟨he, heq.symm⟩
        · exact Or.inr ⟨he, hlt⟩
      · rintro (⟨he, heq⟩ | ⟨he, hle⟩)
        · exact ⟨he, by omega⟩
        · exact ⟨he, by omega⟩
    have hsame : childrenAll (p st₁) keys entries (i + 1) cs =
        childrenAll (p st) keys entries (i + 1) cs := by
      refine childrenAll_congr fun c' hc' => ?_
      obtain ⟨lo', hi', hg⟩ := hcs.forest.of_mem hc'
      exact hp hg fun j hj => hothers j (List.mem_flatMap.mpr ⟨c', hc', hj⟩)
    refine (u₁.cons u₂ ht ?_ ?_).congr hboth (fun x => ?_) ?_ fun hok => ?_
    · intro x hx
      obtain ⟨e, he, rfl⟩ := List.mem_map.mp hx
      obtain ⟨he, heq⟩ := List.mem_filter.mp he
      exact hleft e he (of_decide_eq_true heq)
    · intro x hx
      obtain ⟨e, he, rfl⟩ := List.mem_map.mp hx
      obtain ⟨he, hle⟩ := List.mem_filter.mp he
      exact hright e he (of_decide_eq_true hle)
    · rw [← List.map_append]
      simp only [List.mem_map, hboth]
    · rw [List.map_cons, List.sum_cons]
      push_cast
      rfl
    · simp only [childrenAll, Bool.and_eq_true] at hok
      rw [hsame]
      exact hok

end Children

/-! ## Inner nodes -/

section Inner

theorem innerSiblings_ids (d : Nat) : ∀ (ns : List (List K × List Nat)) (id : Nat),
    (innerSiblings (S := S) d id ns).map Prod.fst = List.range' id ns.length := by
  intro ns
  induction ns with
  | nil => intro id; rfl
  | cons g ns ih =>
    intro id
    simp only [innerSiblings, List.map_cons, ih, List.length_cons, List.range'_succ]

theorem innerSiblings_degree {d : Nat} : ∀ {ns : List (List K × List Nat)} {id : Nat},
    ∀ e ∈ innerSiblings (S := S) d id ns, e.2.degree = d := by
  intro ns
  induction ns with
  | nil => intro id e he; cases he
  | cons g ns ih =>
    intro id e he
    rcases List.mem_cons.mp he with rfl | he
    · rfl
    · exact ih e he

theorem innerSiblings_layer {d : Nat} {st : Store K S} : ∀ {ns : List (List K × List Nat)} {id : Nat},
    (∀ e ∈ innerSiblings d id ns, st.nodes e.1 = some e.2) → (∀ g ∈ ns, g.1.length < d) →
    Layer d st (List.range' id ns.length) ns := by
  intro ns
  induction ns with
  | nil => intro id _ _; exact .nil
  | cons g ns ih =>
    intro id hin hfew
    rw [List.length_cons, List.range'_succ]
    refine .cons ⟨_, hin _ (List.mem_cons_self ..), ⟨rfl, rfl, hfew g (by simp)⟩, rfl, rfl⟩ ?_
    exact ih (fun e he => hin e (List.mem_cons_of_mem _ he))
      fun g hg => hfew g (List.mem_cons_of_mem _ hg)

/-- The cut of an inner node. What is left of it has one child more than keys; what is right of
it begins with the key between the two. -/
theorem splitInner_spec (mid : Nat) : ∀ (fuel : Nat) (keys : List K) (children : List Nat),
    keys.length ≤ fuel → children.length = keys.length →
    ∃ ps, splitInner mid fuel keys children = some ps ∧ (∀ q ∈ ps, q.2.1.length ≤ mid) ∧
      ∀ (ks₀ : List K) (cs₀ : List Nat), cs₀.length = ks₀.length + 1 →
        Grouped ((ks₀, cs₀) :: ps.map Prod.snd) (ps.map Prod.fst) (ks₀ ++ keys)
          (cs₀ ++ children) := by
  intro fuel
  induction fuel with
  | zero =>
    intro keys children hfuel hlen
    obtain rfl := List.eq_nil_of_length_eq_zero (Nat.le_zero.mp hfuel)
    obtain rfl := List.eq_nil_of_length_eq_zero hlen
    refine ⟨[], rfl, by simp, fun ks₀ cs₀ _ => ?_⟩
    rw [List.append_nil, List.append_nil]
    exact .one
  | succ fuel ih =>
    intro keys children hfuel hlen
    cases keys with
    | nil =>
      obtain rfl := List.eq_nil_of_length_eq_zero hlen
      refine ⟨[], rfl, by simp, fun ks₀ cs₀ _ => ?_⟩
      rw [List.append_nil, List.append_nil]
      exact .one
    | cons k keys =>
      rw [List.length_cons] at hfuel hlen
      have hdrop : (children.drop (mid + 1)).length = (keys.drop mid).length := by
        rw [List.length_drop, List.length_drop]
        omega
      obtain ⟨ps, hps, hsize, hgroup⟩ := ih _ _ (by rw [List.length_drop]; omega) hdrop
      refine ⟨(k, keys.take mid, children.take ((keys.take mid).length + 1)) :: ps,
        by simp only [splitInner, hps, Option.map_some], fun q hq => ?_, fun ks₀ cs₀ hlen₀ => ?_⟩
      · rcases List.mem_cons.mp hq with rfl | hq
        · exact List.length_take_le ..
        · exact hsize q hq
      · -- the children of the first new node and the rest are all there are
        have hcut : children.take ((keys.take mid).length + 1) ++ children.drop (mid + 1) =
            children := by
          rw [List.length_take]
          rcases Nat.le_total mid keys.length with hle | hle
          · rw [Nat.min_eq_left hle, List.take_append_drop]
          · rw [Nat.min_eq_right hle, List.take_of_length_le (by omega),
              List.drop_of_length_le (by omega), List.append_nil]
        have hrest := hgroup (keys.take mid) (children.take ((keys.take mid).length + 1))
          (by rw [List.length_take, List.length_take]; omega)
        rw [List.take_append_drop, hcut] at hrest
        exact .cons hlen₀ hrest

variable [LinearOrder K] {d : Nat} {lo hi : Option K} {st st₁ : Store K S} {h : Nat}

/-- The children of an inner node are trees of their own. -/
theorem Trees.children {id : Nat} (ht : Trees d st (h + 1) lo hi [id] []) :
    ∃ n, st.nodes id = some n ∧ GoodInner d n ∧ Trees d st h lo hi n.childrenIds n.keys ∧
      id ∉ allIds st h n.childrenIds ∧ id < st.next := by
  obtain ⟨n, hn, hin, hf⟩ : Good d st (h + 1) lo hi id := by
    cases ht.forest with
    | one hc => exact hc
  have hids : allIds st (h + 1) [id] = id :: allIds st h n.childrenIds := by
    rw [allIds_singleton]
    simp only [nodeIds, hn, Option.elim_some, allIds]
  have hnodup := ht.nodup
  have hbelow := ht.below
  rw [hids] at hnodup hbelow
  obtain ⟨hnot, hnodup⟩ := List.nodup_cons.mp hnodup
  exact ⟨n, hn, hin, ⟨hf, hnodup, fun i hi => hbelow i (List.mem_cons_of_mem _ hi)⟩, hnot,
    hbelow id (by simp)⟩

/-- From the children of an inner node to the node, once they are updated. -/
theorem insertInner_spec {id : Nat} {n : Node K S} {entries : List (K × S)} {touched : List K}
    {ok : Prop} {rs : List (InsertResponse K)}
    {insert : Store K S → Nat → List (K × S) → Except Failure (Store K S × InsertResponse K)}
    (hd : 2 ≤ d) (hn : st.nodes id = some n) (hin : GoodInner d n) (hid : id < st.next)
    (hnot : id ∉ allIds st h n.childrenIds)
    (hrun : insertChildren insert n.keys entries 0 n.childrenIds st = .ok (st₁, rs))
    (u : Updated d lo hi st h n.childrenIds entries touched
      ((rs.map InsertResponse.insertedCount).sum : Nat) ok st₁ h (absorb n.childrenIds rs n.keys).2
      (absorb n.childrenIds rs n.keys).1) :
    ∃ st' r, insertInner insert st id n entries = .ok (st', r) ∧
      Updated d lo hi st (h + 1) [id] entries touched r.insertedCount ok st' (h + 1)
        (id :: r.newChildIds) r.promotedKeys := by
  obtain rfl := hin.degree
  have hid₁ : id < st₁.next := lt_of_lt_of_le hid u.next_le
  have hself : id ∈ allIds st (h + 1) [id] := by
    rw [allIds_singleton]
    exact mem_nodeIds_self ..
  -- the node is not below itself afterwards either
  have hnot₁ : id ∉ allIds st₁ h (absorb n.childrenIds rs n.keys).2 := by
    intro hi
    rcases u.ids id hi with hi | hge
    · exact hnot hi
    · omega
  have hlen := u.trees.forest.length
  simp only [insertInner, hrun]
  change ∃ st' r, (if (absorb n.childrenIds rs n.keys).1.length < n.degree then _ else _) = _ ∧ _
  generalize absorb n.childrenIds rs n.keys = new at u hnot₁ hlen ⊢
  obtain ⟨ks, cs⟩ := new
  simp only at u hnot₁ hlen ⊢
  split
  next hfew =>
    refine ⟨_, _, rfl, ?_⟩
    have hlayer : Layer n.degree (st₁.set id { n with keys := ks, childrenIds := cs }) [id]
        [(ks, cs)] := .cons ⟨_, Store.set_nodes_self .., ⟨rfl, hin.isLeaf, hfew⟩, rfl, rfl⟩ .nil
    refine (u.node hn).regroup .one hlayer (u.fresh.set _ hid₁) (le_refl _) (fun i hi => Store.set_nodes_ne _ (by simpa using hi))
      (List.nodup_singleton _) (fun i hi => ?_) (fun i hi => ?_)
    · obtain rfl := List.mem_singleton.mp hi
      exact hid₁
    · obtain rfl := List.mem_singleton.mp hi
      exact ⟨hnot₁, Or.inl hself⟩
  next hmany =>
    obtain ⟨mid, hmid⟩ : ∃ mid, n.degree / 2 = mid := ⟨_, rfl⟩
    rw [hmid]
    obtain ⟨ps, hps, hsize, hgroup⟩ := splitInner_spec mid ks.length (ks.drop mid)
      (cs.drop (mid + 1)) (by simp) (by
        rw [List.length_drop, List.length_drop]
        omega)
    have hg := hgroup (ks.take mid) (cs.take (mid + 1)) (by
      rw [List.length_take, List.length_take]
      omega)
    rw [List.take_append_drop, List.take_append_drop] at hg
    simp only [hps]
    obtain ⟨n₁, hn₁⟩ : ∃ m, { n with keys := ks.take mid, childrenIds := cs.take (mid + 1) } = m :=
      ⟨_, rfl⟩
    rw [hn₁]
    have hsib := innerSiblings_ids (S := S) n.degree (ps.map Prod.snd) st₁.next
    rw [List.length_map] at hsib
    obtain ⟨st', hok, hnext, hfresh', hin', hout⟩ := createAll_next (u.fresh.set n₁ hid₁) hsib
      (fun e he => by rw [innerSiblings_degree e he]; exact hd)
    have hnext : st'.next = st₁.next + ps.length := hnext
    have hout : ∀ i, i ∉ List.range' st₁.next ps.length → st'.nodes i = (st₁.set id n₁).nodes i :=
      hout
    have hid' : id ∉ List.range' st₁.next ps.length := by
      rw [List.mem_range'_1]
      omega
    refine ⟨st', ⟨ps.map Prod.fst, List.range' st₁.next ps.length,
      (rs.map InsertResponse.insertedCount).sum⟩, ?_, ?_⟩
    · rw [hok, ← hsib]
      rfl
    · have hlayer : Layer n.degree st' (id :: List.range' st₁.next ps.length)
          ((ks.take mid, cs.take (mid + 1)) :: ps.map Prod.snd) := by
        refine .cons ⟨n₁, by rw [hout id hid', Store.set_nodes_self], ?_, ?_, ?_⟩ ?_
        · subst hn₁
          refine ⟨rfl, hin.isLeaf, ?_⟩
          simp only [List.length_take]
          omega
        · subst hn₁
          rfl
        · subst hn₁
          rfl
        · have := innerSiblings_layer hin' fun g hg => ?_
          · rwa [List.length_map] at this
          · obtain ⟨q, hq, rfl⟩ := List.mem_map.mp hg
            have := hsize q hq
            omega
      refine (u.node hn).regroup hg hlayer hfresh' (by omega) (fun i hi => ?_)
        (List.nodup_cons.mpr ⟨hid', List.nodup_range'⟩) (fun i hi => ?_) (fun i hi => ?_)
      · rw [List.mem_cons, not_or] at hi
        rw [hout i hi.2, Store.set_nodes_ne _ hi.1]
      · rcases List.mem_cons.mp hi with rfl | hi
        · omega
        · rw [List.mem_range'_1] at hi
          omega
      · rcases List.mem_cons.mp hi with rfl | hi
        · exact ⟨hnot₁, Or.inl hself⟩
        · rw [List.mem_range'_1] at hi
          have := u.next_le
          refine ⟨fun hi' => ?_, Or.inr (by omega)⟩
          have := u.trees.below i hi'
          omega

end Inner

/-! ## Whole trees -/

section Tree

variable [LinearOrder K] {d : Nat}

/-- No leaf is split that has a next one. -/
def splitsLast : Nat → Store K S → Nat → List (K × S) → Bool
  | 0, _, _, _ => true
  | fuel + 1, st, id, entries =>
    match st.nodes id with
    | none => true
    | some n =>
      if n.isLeaf then !leafSplits n entries || n.nextId.isNone
      else childrenAll (splitsLast fuel st) n.keys entries 0 n.childrenIds

theorem splitsLast_congr : ∀ (h fuel : Nat) {st st' : Store K S} {lo hi : Option K} {id : Nat},
    Good d st h lo hi id → (∀ i ∈ nodeIds st h id, st'.nodes i = st.nodes i) →
    splitsLast fuel st' id = splitsLast fuel st id := by
  intro h
  induction h with
  | zero =>
    intro fuel st st' lo hi id hg heq
    obtain ⟨n, hn, hleaf⟩ := hg
    cases fuel with
    | zero => rfl
    | succ fuel =>
      funext entries
      simp only [splitsLast, heq id (mem_nodeIds_self ..), hn, hleaf.isLeaf, if_true]
  | succ h ih =>
    intro fuel st st' lo hi id hg heq
    obtain ⟨n, hn, hin, hf⟩ := hg
    cases fuel with
    | zero => rfl
    | succ fuel =>
      funext entries
      simp only [splitsLast, heq id (mem_nodeIds_self ..), hn, hin.isLeaf]
      refine childrenAll_congr fun c hc => ?_
      obtain ⟨lo', hi', hg'⟩ := hf.of_mem hc
      exact ih fuel hg' fun i hi => heq i (nodeIds_child hn hc hi)

/-- An insert into a tree ends, and leaves trees with the entries in them. -/
theorem nodeInsert_spec (hd : 2 ≤ d) : ∀ (h fuel degree : Nat), h < fuel →
    InsertSpec (K := K) (S := S) d h (nodeInsert fuel degree) (splitsLast fuel) := by
  intro h
  induction h with
  | zero =>
    intro fuel degree hfuel st lo hi id entries hfresh ht hnodup hin
    obtain ⟨n, hn, hleaf⟩ : Good d st 0 lo hi id := by
      cases ht.forest with
      | one hc => exact hc
    obtain ⟨fuel, rfl⟩ := Nat.exists_eq_add_of_lt hfuel
    obtain ⟨st', r, hrun, u⟩ := insertLeaf_spec hd hfresh hn hleaf hnodup hin
    have hdeg : n.degree ≠ 0 := by
      rw [hleaf.degree]
      omega
    refine ⟨st', r, ?_, u.congr (fun _ => Iff.rfl) (fun _ => Iff.rfl) rfl fun hok hsplit => ?_⟩
    · simp only [nodeInsert, hn, hdeg, hleaf.isLeaf, if_false, if_true]
      exact hrun
    · simp only [splitsLast, hn, hleaf.isLeaf, hsplit, if_true, Bool.not_true, Bool.false_or] at hok
      exact Option.isNone_iff_eq_none.mp hok
  | succ h ih =>
    intro fuel degree hfuel st lo hi id entries hfresh ht hnodup hin
    obtain ⟨n, hn, hinner, htc, hnot, hid⟩ := ht.children
    obtain ⟨fuel, rfl⟩ := Nat.exists_eq_add_of_lt hfuel
    have hdeg : n.degree ≠ 0 := by
      rw [hinner.degree]
      omega
    obtain ⟨st₁, rs, hrun, u⟩ := insertChildren_spec (ih (h + 1 + fuel) n.degree (by omega))
      (fun hg heq => splitsLast_congr h _ hg heq) hnodup htc.forest (i := 0) hfresh htc
      (fun x _ => by rw [bisectRight_forest htc.forest]; omega) fun e he _ => hin e he
    have hall : (entries.filter fun e => decide (0 ≤ bisectRight n.keys e.1)) = entries := by
      simp
    rw [hall] at u
    obtain ⟨st', r, hrun', u'⟩ := insertInner_spec hd hn hinner hid hnot hrun u
    refine ⟨st', r, ?_, u'.congr (fun _ => Iff.rfl) (fun _ => Iff.rfl) rfl fun hok => ?_⟩
    · simp only [nodeInsert, hn, hdeg, hinner.isLeaf, if_false]
      exact hrun'
    · simpa [splitsLast, hn, hinner.isLeaf] using hok

end Tree

/-! ## New root levels -/

section Root

theorem groupLevel_spec (mid : Nat) : ∀ (fuel : Nat) (keys : List K) (children : List Nat),
    keys.length < fuel → children.length = keys.length + 1 →
    ∃ nodes nextKeys, groupLevel mid fuel keys children = some (nodes, nextKeys) ∧
      Grouped nodes nextKeys keys children ∧ (∀ g ∈ nodes, g.1.length ≤ mid) ∧
      nextKeys.length ≤ keys.length - mid := by
  intro fuel
  induction fuel with
  | zero => intro keys children hfuel; omega
  | succ fuel ih =>
    intro keys children hfuel hlen
    cases hdrop : keys.drop mid with
    | nil =>
      have hshort := List.drop_eq_nil_iff.mp hdrop
      refine ⟨[(keys, children)], [], ?_, .one, by simpa using hshort, by simp⟩
      simp only [groupLevel, hdrop, ← hlen, List.take_length]
    | cons k rest =>
      have hcut : keys.length - mid = rest.length + 1 := by
        rw [← List.length_drop, hdrop, List.length_cons]
      obtain ⟨nodes, nextKeys, hrec, hg, hsize, hfewer⟩ := ih rest (children.drop (mid + 1))
        (by omega) (by rw [List.length_drop]; omega)
      refine ⟨(keys.take mid, children.take (mid + 1)) :: nodes, k :: nextKeys, ?_, ?_, ?_, ?_⟩
      · simp only [groupLevel, hdrop, hrec, Option.map_some]
      · have hcons : Grouped ((keys.take mid, children.take (mid + 1)) :: nodes) (k :: nextKeys)
            (keys.take mid ++ k :: rest) (children.take (mid + 1) ++ children.drop (mid + 1)) :=
          .cons (by rw [List.length_take, List.length_take]; omega) hg
        rwa [← hdrop, List.take_append_drop, List.take_append_drop] at hcons
      · intro g hg
        rcases List.mem_cons.mp hg with rfl | hg
        · exact List.length_take_le ..
        · exact hsize g hg
      · rw [List.length_cons]
        omega

variable [LinearOrder K] {d h : Nat} {st : Store K S} {cs : List Nat} {new : List (K × S)}
  {touched : List K} {gained : Int} {ok : Prop}

/-- The trees, put under new nodes. -/
theorem Updated.level {st₁ : Store K S} {h₁ : Nat} {cs₁ : List Nat} {ks₁ seps : List K}
    {lo hi : Option K} {gs : List (List K × List Nat)}
    (u : Updated d lo hi st h cs new touched gained ok st₁ h₁ cs₁ ks₁) (hd : 2 ≤ d)
    (hg : Grouped gs seps ks₁ cs₁) (hfew : ∀ g ∈ gs, g.1.length < d) :
    ∃ st₂, { st₁ with next := st₁.next + gs.length }.createAll (innerSiblings d st₁.next gs) =
        .ok st₂ ∧
      Updated d lo hi st h cs new touched gained ok st₂ (h₁ + 1)
        (List.range' st₁.next gs.length) seps := by
  obtain ⟨st₂, hok, hnext, hfresh, hin, hout⟩ := createAll_next u.fresh
    (innerSiblings_ids d gs st₁.next) fun e he => by rw [innerSiblings_degree e he]; exact hd
  refine ⟨st₂, hok, u.regroup hg (innerSiblings_layer hin hfew) hfresh (by omega) hout
    List.nodup_range' (fun i hi => ?_) fun i hi => ?_⟩
  · rw [List.mem_range'_1] at hi
    omega
  · rw [List.mem_range'_1] at hi
    have := u.next_le
    refine ⟨fun hi' => ?_, Or.inr (by omega)⟩
    have := u.trees.below i hi'
    omega

/-- Each level has fewer keys than the one below, so the levels come to an end. -/
theorem buildRootLevels_spec (hd : 2 ≤ d) : ∀ (fuel : Nat) {st₁ : Store K S} {h₁ : Nat}
    {cs₁ : List Nat} {ks₁ : List K}, ks₁.length < fuel →
    Updated d none none st h cs new touched gained ok st₁ h₁ cs₁ ks₁ →
    ∃ st' h' cs' ks', buildRootLevels d fuel st₁ ks₁ cs₁ = .ok (st', ks', cs') ∧ ks'.length < d ∧
      Updated d none none st h cs new touched gained ok st' h' cs' ks' := by
  intro fuel
  induction fuel with
  | zero => intro st₁ h₁ cs₁ ks₁ hfuel; omega
  | succ fuel ih =>
    intro st₁ h₁ cs₁ ks₁ hfuel u
    simp only [buildRootLevels]
    split
    next hfew => exact ⟨st₁, h₁, cs₁, ks₁, rfl, hfew, u⟩
    next hmany =>
      obtain ⟨nodes, nextKeys, hgroup, hg, hsize, hfewer⟩ :=
        groupLevel_spec (d / 2) (ks₁.length + 1) ks₁ cs₁ (by omega) u.trees.forest.length
      have hfew : ∀ g ∈ nodes, g.1.length < d := by
        intro g hg
        have := hsize g hg
        omega
      obtain ⟨st₂, hok, u₂⟩ := u.level hd hg hfew
      obtain ⟨st', h', cs', ks', hrec, hlen, u'⟩ := ih (by omega) u₂
      refine ⟨st', h', cs', ks', ?_, hlen, u'⟩
      simp only [hgroup, hok]
      change buildRootLevels d fuel st₂ nextKeys _ = _
      rw [innerSiblings_ids]
      exact hrec

theorem newRoot_spec (hd : 2 ≤ d) {st₁ : Store K S} {h₁ rootId : Nat} {r : InsertResponse K}
    (u : Updated d none none st h cs new touched gained ok st₁ h₁ (rootId :: r.newChildIds)
      r.promotedKeys) :
    ∃ st' h' rootId', newRoot d st₁ rootId r = .ok (st', rootId') ∧
      Updated d none none st h cs new touched gained ok st' h' [rootId'] [] := by
  have hlen := u.trees.forest.length
  cases hkeys : r.promotedKeys with
  | nil =>
    rw [hkeys] at u hlen
    obtain hnil : r.newChildIds = [] := List.eq_nil_of_length_eq_zero (by simpa using hlen)
    rw [hnil] at u
    exact ⟨st₁, h₁, rootId, by simp only [newRoot, hkeys], u⟩
  | cons k ks =>
    rw [hkeys] at u
    obtain ⟨st₂, h₂, cs₂, ks₂, hbuild, hfew, u₂⟩ :=
      buildRootLevels_spec hd ((k :: ks).length + 1) (by omega) u
    obtain ⟨st₃, hok, u₃⟩ := u₂.level hd .one (by simpa using hfew)
    refine ⟨st₃, h₂ + 1, st₂.next, ?_, u₃⟩
    simp only [newRoot, hkeys, hbuild]
    have hcreate : { st₂ with next := st₂.next + 1 }.create st₂.next (innerNode d ks₂ cs₂) =
        .ok st₃ := by
      simp only [innerSiblings, Store.createAll, List.length_singleton] at hok
      cases hc : { st₂ with next := st₂.next + 1 }.create st₂.next (innerNode d ks₂ cs₂) with
      | error e => rw [hc] at hok; cases hok
      | ok st' => rw [hc] at hok; exact hok
    change (do let st ← { st₂ with next := st₂.next + 1 }.create st₂.next (innerNode d ks₂ cs₂)
               Except.ok (st, st₂.next)) = _
    rw [hcreate]
    rfl

end Root

end Reboot.OrderedMap
