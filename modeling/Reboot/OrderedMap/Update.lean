import Reboot.OrderedMap.Tree

/-!
# What a call does to the trees it is given

`Updated` compares trees before a call with trees after it. Both are given by a list of nodes of
one height, since a call may turn one node into several. It says everything a caller needs: the
trees are well formed again; entries of touched keys are replaced by the new ones and the rest
is as it was; nodes elsewhere are as they were, and new nodes have new ids; the leaves are still
linked.

The links to next leaves always survive. The links to previous ones only do if `ok` holds,
which will be that no leaf with a next leaf was split: the next leaf keeps its link to the leaf
that was split, and misses the new ones. Where it leads is still a leaf of the tree, since no leaf
is ever taken away (`kept`), and one made earlier (`back`).

Three rules build an `Updated` of a node out of those of its children: `Updated.cons`, child by
child; `Updated.node`, from the children before to the node before; and `Updated.regroup`,
from the children after to the nodes they are put under.
-/

namespace Reboot.OrderedMap

open Reboot.Lib

variable {K S : Type} [LinearOrder K]

structure Updated (d : Nat) (lo hi : Option K) (st : Store K S) (h : Nat) (cs : List Nat)
    (new : List (K × S)) (touched : List K) (gained : Int) (ok : Prop) (st' : Store K S) (h' : Nat)
    (cs' : List Nat) (ks' : List K) : Prop where
  fresh : st'.Fresh
  next_le : st.next ≤ st'.next
  trees : Trees d st' h' lo hi cs' ks'
  ids : ∀ i ∈ allIds st' h' cs', i ∈ allIds st h cs ∨ st.next ≤ i
  frame : ∀ i < st.next, i ∉ allIds st h cs → st'.nodes i = st.nodes i
  mem : ∀ e, e ∈ stored st' h' cs' ↔ e ∈ new ∨ e ∈ stored st h cs ∧ e.1 ∉ touched
  count : ((stored st' h' cs').length : Int) = (stored st h cs).length + gained
  head : (leaves st' h' cs').head? = (leaves st h cs).head?
  nexts : ∀ e, Linked st.nextOf e (leaves st h cs) → Linked st'.nextOf e (leaves st' h' cs')
  prevs : ok → ∀ e e', Linked st.nextOf e (leaves st h cs) →
    Linked st.prevOf e' (leaves st h cs).reverse → Linked st'.prevOf e' (leaves st' h' cs').reverse
  last : ok → ∀ i, Linked st.nextOf (some i) (leaves st h cs) →
    (leaves st' h' cs').getLast? = (leaves st h cs).getLast?
  kept : ∀ i ∈ leaves st h cs, i ∈ leaves st' h' cs'
  back : ∀ i ∈ leaves st' h' cs', ∀ p, st'.prevOf i = some p →
    i ∈ leaves st h cs ∧ st.prevOf i = some p ∨ p < i ∧ p ∈ leaves st' h' cs'

variable {d : Nat} {lo hi : Option K} {st st₁ st₂ : Store K S} {h h' : Nat}

/-- Nothing happens. -/
theorem Updated.refl {cs : List Nat} {ks : List K} (ht : Trees d st h lo hi cs ks)
    (hfresh : st.Fresh) (ok : Prop) : Updated d lo hi st h cs [] [] 0 ok st h cs ks where
  fresh := hfresh
  next_le := le_refl _
  trees := ht
  ids := fun _ hi => Or.inl hi
  frame := fun _ _ _ => rfl
  mem := by simp
  count := by simp
  head := rfl
  nexts := fun _ hl => hl
  prevs := fun _ _ _ _ hl => hl
  last := fun _ _ _ => rfl
  kept := fun _ hi => hi
  back := fun _ hi _ hp => Or.inl ⟨hi, hp⟩

/-- Only which entries are new, and which keys touched, matters, not their order. -/
theorem Updated.congr {cs cs' : List Nat} {ks' : List K} {new new' : List (K × S)}
    {touched touched' : List K} {gained gained' : Int} {ok ok' : Prop}
    (u : Updated d lo hi st h cs new touched gained ok st₁ h' cs' ks')
    (hnew : ∀ e, e ∈ new' ↔ e ∈ new) (htouched : ∀ k, k ∈ touched' ↔ k ∈ touched)
    (hgained : gained' = gained) (hok : ok' → ok) :
    Updated d lo hi st h cs new' touched' gained' ok' st₁ h' cs' ks' :=
  { u with
    mem := fun e => by rw [u.mem e, hnew e, htouched e.1]
    count := by rw [hgained]; exact u.count
    prevs := fun hyes => u.prevs (hok hyes)
    last := fun hyes => u.last (hok hyes) }

/-! ## Child by child -/

/-- Trees on the two sides of a key. -/
theorem Trees.split {c : Nat} {cs : List Nat} {k : K} {ks : List K}
    (ht : Trees d st h lo hi (c :: cs) (k :: ks)) :
    Trees d st h lo (some k) [c] [] ∧ Between lo hi k ∧ Trees d st h (some k) hi cs ks ∧
      ∀ i ∈ nodeIds st h c, i ∉ allIds st h cs := by
  obtain ⟨hc, hk, hrest⟩ : Good d st h lo (some k) c ∧ Between lo hi k ∧
      Forest (Good d st h) (some k) hi cs ks := by
    cases ht.forest with
    | cons hc hk hrest => exact ⟨hc, hk, hrest⟩
  have hnodup := ht.nodup
  have hbelow := ht.below
  rw [allIds_cons, List.nodup_append] at hnodup
  rw [allIds_cons] at hbelow
  refine ⟨⟨.one hc, ?_, ?_⟩, hk, ⟨hrest, hnodup.2.1, ?_⟩, fun i hi hi' => hnodup.2.2 i hi i hi' rfl⟩
  · rw [allIds_singleton]
    exact hnodup.1
  · rw [allIds_singleton]
    exact fun i hi => hbelow i (List.mem_append_left _ hi)
  · exact fun i hi => hbelow i (List.mem_append_right _ hi)

section Cons

variable {c : Nat} {cs cs₁ cs₂ : List Nat} {k : K} {ks ks₁ ks₂ : List K}
  {new₁ new₂ : List (K × S)} {touched₁ touched₂ : List K} {gained₁ gained₂ : Int} {ok₁ ok₂ : Prop}

section One

variable (u₁ : Updated d lo (some k) st h [c] new₁ touched₁ gained₁ ok₁ st₁ h' cs₁ ks₁)
  (ht : Trees d st h lo hi (c :: cs) (k :: ks))
include u₁ ht

/-- What happened to the first child does not concern the others. -/
theorem Updated.others : ∀ i ∈ allIds st h cs, st₁.nodes i = st.nodes i := by
  intro i hi
  obtain ⟨-, -, hrest, hdisj⟩ := ht.split
  refine u₁.frame i (hrest.below i hi) fun hc => ?_
  rw [allIds_singleton] at hc
  exact hdisj i hc hi

/-- What the first child has become has no node of the others. -/
theorem Updated.apart : ∀ i ∈ allIds st₁ h' cs₁, i ∉ allIds st₁ h cs := by
  intro i hi hcs
  obtain ⟨-, -, hrest, hdisj⟩ := ht.split
  rw [allIds_congr (u₁.others ht)] at hcs
  rcases u₁.ids i hi with hc | hge
  · rw [allIds_singleton] at hc
    exact hdisj i hc hcs
  · have := hrest.below i hcs
    omega

/-- The first child ends where it ended: there are others, so it has a next leaf. -/
theorem Updated.first_last (hok : ok₁) {e : Option Nat}
    (hl : Linked st.nextOf e (leaves st h (c :: cs))) :
    (leaves st₁ h' cs₁).getLast? = (leafIds st h c).getLast? := by
  obtain ⟨-, -, hrest, -⟩ := ht.split
  rw [leaves_cons, linked_append] at hl
  obtain ⟨i, hi⟩ : ∃ i, (leaves st h cs).head? = some i :=
    Option.isSome_iff_exists.mp (List.isSome_head?.mpr (leaves_ne_nil hrest.forest))
  have hlast := u₁.last hok i
  rw [leaves_singleton] at hlast
  refine hlast ?_
  have hl := hl.1
  rw [hi, Option.some_or] at hl
  exact hl

end One

section Two

variable (u₁ : Updated d lo (some k) st h [c] new₁ touched₁ gained₁ ok₁ st₁ h' cs₁ ks₁)
  (u₂ : Updated d (some k) hi st₁ h cs new₂ touched₂ gained₂ ok₂ st₂ h' cs₂ ks₂)
  (ht : Trees d st h lo hi (c :: cs) (k :: ks))
include u₁ u₂ ht

/-- What happens to the others does not concern it. -/
theorem Updated.first : ∀ i ∈ allIds st₁ h' cs₁, st₂.nodes i = st₁.nodes i :=
  fun i hi => u₂.frame i (u₁.trees.below i hi) (u₁.apart ht i hi)

theorem Updated.cons_trees : Trees d st₂ h' lo hi (cs₁ ++ cs₂) (ks₁ ++ k :: ks₂) := by
  have hfirst := u₁.first u₂ ht
  obtain ⟨-, hk, -, -⟩ := ht.split
  refine ⟨(forest_congr hfirst u₁.trees.forest).append hk u₂.trees.forest, ?_, fun i hi => ?_⟩
  · rw [allIds_append, allIds_congr hfirst]
    refine List.nodup_append.mpr ⟨u₁.trees.nodup, u₂.trees.nodup, fun i hi j hj hij => ?_⟩
    subst hij
    rcases u₂.ids i hj with hcs | hge
    · exact u₁.apart ht i hi hcs
    · have := u₁.trees.below i hi
      omega
  · rw [allIds_append, allIds_congr hfirst] at hi
    rcases List.mem_append.mp hi with hi | hi
    · exact lt_of_lt_of_le (u₁.trees.below i hi) u₂.next_le
    · exact u₂.trees.below i hi

theorem Updated.cons_ids : ∀ i ∈ allIds st₂ h' (cs₁ ++ cs₂),
    i ∈ allIds st h (c :: cs) ∨ st.next ≤ i := by
  intro i hi
  rw [allIds_append, allIds_congr (u₁.first u₂ ht)] at hi
  rw [allIds_cons, List.mem_append]
  rcases List.mem_append.mp hi with hi | hi
  · rcases u₁.ids i hi with hc | hge
    · rw [allIds_singleton] at hc
      exact Or.inl (Or.inl hc)
    · exact Or.inr hge
  · rcases u₂.ids i hi with hcs | hge
    · rw [allIds_congr (u₁.others ht)] at hcs
      exact Or.inl (Or.inr hcs)
    · exact Or.inr (le_trans u₁.next_le hge)

theorem Updated.cons_frame : ∀ i < st.next, i ∉ allIds st h (c :: cs) →
    st₂.nodes i = st.nodes i := by
  intro i hi hnot
  rw [allIds_cons, List.mem_append, not_or] at hnot
  rw [← u₁.frame i hi (by rw [allIds_singleton]; exact hnot.1)]
  refine u₂.frame i (lt_of_lt_of_le hi u₁.next_le) ?_
  rw [allIds_congr (u₁.others ht)]
  exact hnot.2

theorem Updated.cons_mem (hin₁ : ∀ x ∈ touched₁, Within lo (some k) x)
    (hin₂ : ∀ x ∈ touched₂, Within (some k) hi x) (e : K × S) :
    e ∈ stored st₂ h' (cs₁ ++ cs₂) ↔
      e ∈ new₁ ++ new₂ ∨ e ∈ stored st h (c :: cs) ∧ e.1 ∉ touched₁ ++ touched₂ := by
  obtain ⟨hc, -, hrest, -⟩ := ht.split
  -- a key touched in one child is in no other
  have hleft : e ∈ contents st h c → e.1 ∉ touched₂ := by
    intro he ht₂
    rw [← stored_singleton] at he
    exact absurd ((stored_within hc.forest e he).2 k rfl) (not_lt.mpr ((hin₂ e.1 ht₂).1 k rfl))
  have hright : e ∈ stored st h cs → e.1 ∉ touched₁ := by
    intro he ht₁
    exact absurd ((hin₁ e.1 ht₁).2 k rfl) (not_lt.mpr ((stored_within hrest.forest e he).1 k rfl))
  have h₁ := u₁.mem e
  have h₂ := u₂.mem e
  rw [stored_singleton] at h₁
  rw [stored_congr (u₁.others ht)] at h₂
  rw [stored_append, stored_congr (u₁.first u₂ ht), stored_cons, List.mem_append, List.mem_append,
    List.mem_append, List.mem_append, h₁, h₂]
  clear h₁ h₂ hin₁ hin₂ u₁ u₂ ht hc hrest
  constructor
  · rintro ((hn | ⟨hm, hnot⟩) | hn | ⟨hm, hnot⟩)
    · exact Or.inl (Or.inl hn)
    · exact Or.inr ⟨Or.inl hm, not_or.mpr ⟨hnot, hleft hm⟩⟩
    · exact Or.inl (Or.inr hn)
    · exact Or.inr ⟨Or.inr hm, not_or.mpr ⟨hright hm, hnot⟩⟩
  · rintro ((hn | hn) | ⟨hm | hm, hnot⟩)
    · exact Or.inl (Or.inl hn)
    · exact Or.inr (Or.inl hn)
    · exact Or.inl (Or.inr ⟨hm, (not_or.mp hnot).1⟩)
    · exact Or.inr (Or.inr ⟨hm, (not_or.mp hnot).2⟩)

theorem Updated.cons_count : ((stored st₂ h' (cs₁ ++ cs₂)).length : Int) =
    (stored st h (c :: cs)).length + (gained₁ + gained₂) := by
  have h₁ := u₁.count
  have h₂ := u₂.count
  rw [stored_singleton] at h₁
  rw [stored_congr (u₁.others ht)] at h₂
  rw [stored_append, stored_congr (u₁.first u₂ ht), stored_cons, List.length_append,
    List.length_append]
  omega

theorem Updated.cons_head :
    (leaves st₂ h' (cs₁ ++ cs₂)).head? = (leaves st h (c :: cs)).head? := by
  have h₁ := u₁.head
  have h₂ := u₂.head
  rw [leaves_singleton] at h₁
  rw [leaves_congr (u₁.others ht)] at h₂
  rw [leaves_append, leaves_congr (u₁.first u₂ ht), leaves_cons, List.head?_append,
    List.head?_append, h₁, h₂]

theorem Updated.cons_nexts (e : Option Nat) (hl : Linked st.nextOf e (leaves st h (c :: cs))) :
    Linked st₂.nextOf e (leaves st₂ h' (cs₁ ++ cs₂)) := by
  have hothers := u₁.others ht
  have hfirst := u₁.first u₂ ht
  rw [leaves_cons, linked_append] at hl
  rw [leaves_append, leaves_congr hfirst, linked_append, u₂.head, leaves_congr hothers]
  refine ⟨?_, u₂.nexts e ?_⟩
  · refine (u₁.nexts _ ?_).congr fun i hi => ?_
    · rw [leaves_singleton]
      exact hl.1
    · simp only [Store.nextOf, hfirst i (leaves_subset hi)]
  · rw [leaves_congr hothers]
    exact hl.2.congr fun i hi => by simp only [Store.nextOf, hothers i (leaves_subset hi)]

theorem Updated.cons_prevs (hok : ok₁ ∧ ok₂) (e e' : Option Nat)
    (hl : Linked st.nextOf e (leaves st h (c :: cs)))
    (hl' : Linked st.prevOf e' (leaves st h (c :: cs)).reverse) :
    Linked st₂.prevOf e' (leaves st₂ h' (cs₁ ++ cs₂)).reverse := by
  have hothers := u₁.others ht
  have hfirst := u₁.first u₂ ht
  have hlast := u₁.first_last ht hok.1 hl
  rw [leaves_cons, linked_append] at hl
  rw [leaves_cons, linked_reverse_append] at hl'
  rw [leaves_append, leaves_congr hfirst, linked_reverse_append, hlast]
  refine ⟨u₂.prevs hok.2 e _ ?_ ?_, ?_⟩
  · rw [leaves_congr hothers]
    exact hl.2.congr fun i hi => by simp only [Store.nextOf, hothers i (leaves_subset hi)]
  · rw [leaves_congr hothers]
    refine hl'.1.congr fun i hi => ?_
    simp only [Store.prevOf, hothers i (leaves_subset (List.mem_reverse.mp hi))]
  · refine (u₁.prevs hok.1 ((leaves st h cs).head?.or e) e' ?_ ?_).congr fun i hi => ?_
    · rw [leaves_singleton]
      exact hl.1
    · rw [leaves_singleton]
      exact hl'.2
    · simp only [Store.prevOf, hfirst i (leaves_subset (List.mem_reverse.mp hi))]

theorem Updated.cons_last (hok : ok₁ ∧ ok₂) (i : Nat)
    (hl : Linked st.nextOf (some i) (leaves st h (c :: cs))) :
    (leaves st₂ h' (cs₁ ++ cs₂)).getLast? = (leaves st h (c :: cs)).getLast? := by
  have hothers := u₁.others ht
  have h₁ := u₁.first_last ht hok.1 hl
  rw [leaves_cons, linked_append] at hl
  have h₂ := u₂.last hok.2 i
  rw [leaves_congr hothers] at h₂
  rw [leaves_append, leaves_congr (u₁.first u₂ ht), leaves_cons, List.getLast?_append,
    List.getLast?_append, h₁]
  rw [h₂ (hl.2.congr fun j hj => by simp only [Store.nextOf, hothers j (leaves_subset hj)])]

theorem Updated.cons_kept : ∀ i ∈ leaves st h (c :: cs), i ∈ leaves st₂ h' (cs₁ ++ cs₂) := by
  intro i hi
  rw [leaves_cons] at hi
  rw [leaves_append, leaves_congr (u₁.first u₂ ht)]
  rcases List.mem_append.mp hi with hi | hi
  · exact List.mem_append_left _ (u₁.kept i (by rw [leaves_singleton]; exact hi))
  · rw [← leaves_congr (u₁.others ht)] at hi
    exact List.mem_append_right _ (u₂.kept i hi)

theorem Updated.cons_back : ∀ i ∈ leaves st₂ h' (cs₁ ++ cs₂), ∀ p, st₂.prevOf i = some p →
    i ∈ leaves st h (c :: cs) ∧ st.prevOf i = some p ∨ p < i ∧ p ∈ leaves st₂ h' (cs₁ ++ cs₂) := by
  have hothers := u₁.others ht
  have hfirst := u₁.first u₂ ht
  intro i hi p hp
  rw [leaves_append, leaves_congr hfirst] at hi ⊢
  rw [leaves_cons]
  rcases List.mem_append.mp hi with hi | hi
  · have hp₁ : st₁.prevOf i = some p := by
      rw [← hp]
      simp only [Store.prevOf, hfirst i (leaves_subset hi)]
    rcases u₁.back i hi p hp₁ with ⟨hold, hsame⟩ | ⟨hlt, hnew⟩
    · rw [leaves_singleton] at hold
      exact Or.inl ⟨List.mem_append_left _ hold, hsame⟩
    · exact Or.inr ⟨hlt, List.mem_append_left _ hnew⟩
  · rcases u₂.back i hi p hp with ⟨hold, hsame⟩ | ⟨hlt, hnew⟩
    · rw [leaves_congr hothers] at hold
      refine Or.inl ⟨List.mem_append_right _ hold, ?_⟩
      rw [← hsame]
      simp only [Store.prevOf, hothers i (leaves_subset hold)]
    · exact Or.inr ⟨hlt, List.mem_append_right _ hnew⟩

theorem Updated.cons (hin₁ : ∀ x ∈ touched₁, Within lo (some k) x)
    (hin₂ : ∀ x ∈ touched₂, Within (some k) hi x) :
    Updated d lo hi st h (c :: cs) (new₁ ++ new₂) (touched₁ ++ touched₂) (gained₁ + gained₂)
      (ok₁ ∧ ok₂) st₂ h' (cs₁ ++ cs₂) (ks₁ ++ k :: ks₂) where
  fresh := u₂.fresh
  next_le := le_trans u₁.next_le u₂.next_le
  trees := u₁.cons_trees u₂ ht
  ids := u₁.cons_ids u₂ ht
  frame := u₁.cons_frame u₂ ht
  mem := u₁.cons_mem u₂ ht hin₁ hin₂
  count := u₁.cons_count u₂ ht
  head := u₁.cons_head u₂ ht
  nexts := u₁.cons_nexts u₂ ht
  prevs := u₁.cons_prevs u₂ ht
  last := u₁.cons_last u₂ ht
  kept := u₁.cons_kept u₂ ht
  back := u₁.cons_back u₂ ht

end Two

end Cons

/-! ## Level by level -/

/-- From the children of a node to the node, before the call. -/
theorem Updated.node {id : Nat} {n : Node K S} {cs' : List Nat} {ks' : List K}
    {new : List (K × S)} {touched : List K} {gained : Int} {ok : Prop}
    (u : Updated d lo hi st h n.childrenIds new touched gained ok st₁ h' cs' ks')
    (hn : st.nodes id = some n) :
    Updated d lo hi st (h + 1) [id] new touched gained ok st₁ h' cs' ks' := by
  have hstored : stored st (h + 1) [id] = stored st h n.childrenIds := by
    rw [stored_singleton]
    simp only [contents, hn, Option.elim_some, stored]
  have hids : allIds st (h + 1) [id] = id :: allIds st h n.childrenIds := by
    rw [allIds_singleton]
    simp only [nodeIds, hn, Option.elim_some, allIds]
  have hleaves : leaves st (h + 1) [id] = leaves st h n.childrenIds := by
    rw [leaves_singleton]
    simp only [leafIds, hn, Option.elim_some, leaves]
  exact
    { u with
      ids := fun i hi => by
        rw [hids, List.mem_cons]
        rcases u.ids i hi with hi | hi
        · exact Or.inl (Or.inr hi)
        · exact Or.inr hi
      frame := fun i hi hnot => by
        rw [hids, List.mem_cons, not_or] at hnot
        exact u.frame i hi hnot.2
      mem := fun e => by rw [hstored]; exact u.mem e
      count := by rw [hstored]; exact u.count
      head := by rw [hleaves]; exact u.head
      nexts := fun e => by rw [hleaves]; exact u.nexts e
      prevs := fun hok e e' => by rw [hleaves]; exact u.prevs hok e e'
      last := fun hok i => by rw [hleaves]; exact u.last hok i
      kept := by rw [hleaves]; exact u.kept
      back := by rw [hleaves]; exact u.back }

omit [LinearOrder K] in
/-- The nodes `ids` are inner nodes with the keys and children of the groups. -/
def Layer (d : Nat) (st : Store K S) (ids : List Nat) (gs : List (List K × List Nat)) : Prop :=
  List.Forall₂ (fun id g => ∃ n, st.nodes id = some n ∧ GoodInner d n ∧ n.keys = g.1 ∧
    n.childrenIds = g.2) ids gs

section Layer

variable {ids : List Nat} {gs : List (List K × List Nat)} (hl : Layer d st ids gs)
include hl

omit [LinearOrder K] in
theorem Layer.stored_eq : stored st (h + 1) ids = stored st h (gs.flatMap Prod.snd) := by
  induction hl with
  | nil => rfl
  | cons hid _ ih =>
    obtain ⟨n, hn, -, -, hc⟩ := hid
    rw [stored_cons, ih, List.flatMap_cons, stored_append, ← hc]
    simp only [contents, hn, Option.elim_some, stored]

omit [LinearOrder K] in
theorem Layer.leaves_eq : leaves st (h + 1) ids = leaves st h (gs.flatMap Prod.snd) := by
  induction hl with
  | nil => rfl
  | cons hid _ ih =>
    obtain ⟨n, hn, -, -, hc⟩ := hid
    rw [leaves_cons, ih, List.flatMap_cons, leaves_append, ← hc]
    simp only [leafIds, hn, Option.elim_some, leaves]

omit [LinearOrder K] in
theorem Layer.allIds_perm :
    (allIds st (h + 1) ids).Perm (ids ++ allIds st h (gs.flatMap Prod.snd)) := by
  induction hl with
  | nil => exact .refl _
  | @cons id g ids gs hid _ ih =>
    obtain ⟨n, hn, -, -, hc⟩ := hid
    have hid : nodeIds st (h + 1) id = id :: allIds st h g.2 := by
      rw [← hc]
      simp only [nodeIds, hn, Option.elim_some, allIds]
    rw [allIds_cons, hid, List.flatMap_cons, allIds_append]
    refine (ih.append_left _).trans ?_
    rw [List.cons_append, List.cons_append, List.perm_cons, ← List.append_assoc, ← List.append_assoc]
    exact List.perm_append_comm.append_right _

theorem Layer.forest {seps ks : List K} {cs : List Nat} (hg : Grouped gs seps ks cs)
    (hf : Forest (Good d st h) lo hi cs ks) : Forest (Good d st (h + 1)) lo hi ids seps := by
  refine Forest.group hg hf (hl.imp fun id g hid lo' hi' hf' => ?_)
  obtain ⟨n, hn, hin, hk, hc⟩ := hid
  exact ⟨n, hn, hin, by rw [hk, hc]; exact hf'⟩

end Layer

/-- Put the trees under new nodes, or under an old one that is not among them. -/
theorem Updated.regroup {cs cs₁ ids : List Nat} {ks₁ seps : List K} {new : List (K × S)}
    {touched : List K} {gained : Int} {ok : Prop} {gs : List (List K × List Nat)}
    (u : Updated d lo hi st h cs new touched gained ok st₁ h' cs₁ ks₁)
    (hg : Grouped gs seps ks₁ cs₁) (hl : Layer d st₂ ids gs) (hfresh : st₂.Fresh)
    (hle : st₁.next ≤ st₂.next) (hframe : ∀ i, i ∉ ids → st₂.nodes i = st₁.nodes i)
    (hnodup : ids.Nodup) (hbelow : ∀ i ∈ ids, i < st₂.next)
    (hids : ∀ i ∈ ids, i ∉ allIds st₁ h' cs₁ ∧ (i ∈ allIds st h cs ∨ st.next ≤ i)) :
    Updated d lo hi st h cs new touched gained ok st₂ (h' + 1) ids seps := by
  have hsame : ∀ i ∈ allIds st₁ h' cs₁, st₂.nodes i = st₁.nodes i :=
    fun i hi => hframe i fun hi' => (hids i hi').1 hi
  have hstored : stored st₂ (h' + 1) ids = stored st₁ h' cs₁ := by
    rw [hl.stored_eq, hg.children, stored_congr hsame]
  have hleaves : leaves st₂ (h' + 1) ids = leaves st₁ h' cs₁ := by
    rw [hl.leaves_eq, hg.children, leaves_congr hsame]
  have hperm : (allIds st₂ (h' + 1) ids).Perm (ids ++ allIds st₁ h' cs₁) := by
    have := hl.allIds_perm (h := h')
    rwa [hg.children, allIds_congr hsame] at this
  have hlinks : ∀ i ∈ leaves st₁ h' cs₁, st₂.nodes i = st₁.nodes i :=
    fun i hi => hsame i (leaves_subset hi)
  refine
    { fresh := hfresh
      next_le := le_trans u.next_le hle
      trees := ⟨hl.forest hg (forest_congr hsame u.trees.forest), ?_, fun i hi => ?_⟩
      ids := fun i hi => ?_
      frame := fun i hi hnot => ?_
      mem := fun e => by rw [hstored]; exact u.mem e
      count := by rw [hstored]; exact u.count
      head := by rw [hleaves]; exact u.head
      nexts := fun e hl => ?_
      prevs := fun hok e e' hl hl' => ?_
      last := fun hok i => by rw [hleaves]; exact u.last hok i
      kept := by rw [hleaves]; exact u.kept
      back := fun i hi p hp => ?_ }
  · rw [hperm.nodup_iff]
    refine List.nodup_append.mpr ⟨hnodup, u.trees.nodup, fun i hi j hj hij => ?_⟩
    exact (hids i hi).1 (hij ▸ hj)
  · rcases List.mem_append.mp (hperm.mem_iff.mp hi) with hi | hi
    · exact hbelow i hi
    · exact lt_of_lt_of_le (u.trees.below i hi) hle
  · rcases List.mem_append.mp (hperm.mem_iff.mp hi) with hi | hi
    · exact (hids i hi).2
    · exact u.ids i hi
  · rw [hframe i, u.frame i hi hnot]
    intro hi'
    rcases (hids i hi').2 with hin | hge
    · exact hnot hin
    · omega
  · rw [hleaves]
    exact (u.nexts e hl).congr fun i hi => by simp only [Store.nextOf, hlinks i hi]
  · rw [hleaves]
    refine (u.prevs hok e e' hl hl').congr fun i hi => ?_
    simp only [Store.prevOf, hlinks i (List.mem_reverse.mp hi)]
  · rw [hleaves] at hi ⊢
    refine u.back i hi p ?_
    rw [← hp]
    simp only [Store.prevOf, hlinks i hi]

/-! ## Leaves -/

omit [LinearOrder K] in
/-- The nodes `ids` are leaves with the entries of the pieces. -/
def LeafLayer (d : Nat) (st : Store K S) (ids : List Nat) (ps : List (List (K × S))) : Prop :=
  List.Forall₂ (fun id p => ∃ n, st.nodes id = some n ∧ n.degree = d ∧ n.isLeaf = true ∧
    n.keys = p.map Prod.fst ∧ n.values = p.map Prod.snd) ids ps

omit [LinearOrder K] in
theorem LeafLayer.stored_eq {ids : List Nat} {ps : List (List (K × S))}
    (hl : LeafLayer d st ids ps) : stored st 0 ids = ps.flatten := by
  induction hl with
  | nil => rfl
  | cons hid _ ih =>
    obtain ⟨n, hn, -, -, hk, hv⟩ := hid
    rw [stored_cons, ih, List.flatten_cons]
    congr 1
    simp only [contents, hn, Option.elim_some, Node.entries, hk, hv]
    exact (List.zip_of_prod rfl rfl).symm

/-- Sorted entries, cut into pieces, are a forest whose keys are the first of each piece. -/
theorem LeafLayer.forest : ∀ {ps : List (List (K × S))} {p : List (K × S)} {ids : List Nat}
    {lo : Option K}, LeafLayer d st ids (p :: ps) → (∀ q ∈ p :: ps, q.length < d) →
    (ps = [] ∨ p ≠ []) → (∀ q ∈ ps, q ≠ []) →
    ((p :: ps).flatten.Pairwise fun a b => a.1 < b.1) →
    (∀ e ∈ (p :: ps).flatten, Within lo hi e.1) →
    Forest (Good d st 0) lo hi ids (ps.filterMap fun q => q.head?.map Prod.fst) := by
  intro ps
  induction ps with
  | nil =>
    intro p ids lo hl hfew _ _ hs hin
    obtain ⟨id, ids, ⟨n, hn, hd, hleaf, hk, hv⟩, hnil, rfl⟩ := List.forall₂_cons_right_iff.mp hl
    obtain rfl := List.forall₂_nil_right_iff.mp hnil
    rw [List.flatten_cons, List.flatten_nil, List.append_nil] at hs hin
    refine .one ⟨n, hn, ⟨hd, hleaf, by simp [hk, hv], ?_, ?_, ?_⟩⟩
    · rw [hk, List.length_map]
      exact hfew p (by simp)
    · rw [hk]
      exact List.pairwise_map.mpr hs
    · intro k hk'
      rw [hk] at hk'
      obtain ⟨e, he, rfl⟩ := List.mem_map.mp hk'
      exact hin e he
  | cons q ps ih =>
    intro p ids lo hl hfew hp hne hs hin
    obtain ⟨id, ids, ⟨n, hn, hd, hleaf, hk, hv⟩, hl', rfl⟩ := List.forall₂_cons_right_iff.mp hl
    obtain ⟨e, es, rfl⟩ := List.exists_cons_of_ne_nil (hne q (by simp))
    obtain ⟨a, as, rfl⟩ := List.exists_cons_of_ne_nil (hp.resolve_left (by simp))
    rw [List.flatten_cons] at hs hin
    obtain ⟨hs₁, hs₂, hlt⟩ := List.pairwise_append.mp hs
    have hmem : e ∈ ((e :: es) :: ps).flatten := by simp
    have hfirst := hlt a (by simp) e hmem
    refine .cons ⟨n, hn, ⟨hd, hleaf, by simp [hk, hv], ?_, ?_, ?_⟩⟩ ⟨?_, ?_⟩
      (ih hl' (fun q hq => hfew q (List.mem_cons_of_mem _ hq)) (Or.inr (by simp))
        (fun q hq => hne q (List.mem_cons_of_mem _ hq)) hs₂ fun e' he' => ?_)
    · rw [hk, List.length_map]
      exact hfew _ (by simp)
    · rw [hk]
      exact List.pairwise_map.mpr hs₁
    · intro k hk'
      rw [hk] at hk'
      obtain ⟨b, hb, rfl⟩ := List.mem_map.mp hk'
      exact (hin b (List.mem_append_left _ hb)).lt (hlt b hb e hmem)
    · intro l hl
      exact lt_of_le_of_lt ((hin a (by simp)).1 l hl) hfirst
    · exact (hin e (List.mem_append_right _ hmem)).2
    · refine (hin e' (List.mem_append_right _ he')).ge ?_
      rw [List.flatten_cons, List.cons_append] at hs₂ he'
      rcases List.mem_cons.mp he' with rfl | he'
      · exact le_refl _
      · exact le_of_lt ((List.pairwise_cons.mp hs₂).1 e' he')

/-- A leaf becomes leaves: the first in its place, the others new. -/
theorem Updated.leaf {id : Nat} {n : Node K S} {ids : List Nat} {p : List (K × S)}
    {ps : List (List (K × S))} {new : List (K × S)} {touched : List K} {gained : Int} {ok : Prop}
    (hn : st.nodes id = some n) (hfresh₁ : st₁.Fresh) (hle : st.next ≤ st₁.next)
    (hid : id < st.next) (hl : LeafLayer d st₁ (id :: ids) (p :: ps))
    (hforest : Forest (Good d st₁ 0) lo hi (id :: ids) (ps.filterMap fun q => q.head?.map Prod.fst))
    (hids : ids.Pairwise (· < ·)) (hnew : ∀ i ∈ ids, st.next ≤ i ∧ i < st₁.next)
    (hframe : ∀ i < st.next, i ≠ id → st₁.nodes i = st.nodes i)
    (hmem : ∀ e, e ∈ (p :: ps).flatten ↔ e ∈ new ∨ e ∈ n.entries ∧ e.1 ∉ touched)
    (hcount : ((p :: ps).flatten.length : Int) = n.entries.length + gained)
    (hnext : Linked st₁.nextOf n.nextId (id :: ids))
    (hprev : Linked st₁.prevOf n.prevId (id :: ids).reverse)
    (hok : ok → n.nextId ≠ none → ids = []) :
    Updated d lo hi st 0 [id] new touched gained ok st₁ 0 (id :: ids)
      (ps.filterMap fun q => q.head?.map Prod.fst) := by
  have hstored : stored st 0 [id] = n.entries := by
    rw [stored_singleton]
    simp only [contents, hn, Option.elim_some]
  have hleaves : ∀ (st : Store K S) (cs : List Nat), leaves st 0 cs = cs :=
    fun st cs => List.flatMap_singleton' cs
  have hall : ∀ (st : Store K S) (cs : List Nat), allIds st 0 cs = cs :=
    fun st cs => List.flatMap_singleton' cs
  have hlinked : ∀ e, Linked st.nextOf e [id] → n.nextId = e := by
    intro e hl
    have := hl.1
    simpa [Store.nextOf, hn] using this
  have hlinked' : ∀ e, Linked st.prevOf e [id].reverse → n.prevId = e := by
    intro e hl
    have := hl.1
    simpa [Store.prevOf, hn] using this
  refine
    { fresh := hfresh₁
      next_le := hle
      trees := ⟨hforest, ?_, ?_⟩
      ids := ?_
      frame := ?_
      mem := fun e => by rw [hl.stored_eq, hstored]; exact hmem e
      count := by rw [hl.stored_eq, hstored]; exact hcount
      head := by rw [hleaves, hleaves]; rfl
      nexts := fun e he => ?_
      prevs := fun _ e e' he he' => ?_
      last := fun hyes i he => ?_
      kept := ?_
      back := fun i hi p hp => ?_ }
  · rw [hall]
    refine List.nodup_cons.mpr ⟨fun hi => ?_, hids.imp fun hlt => ne_of_lt hlt⟩
    have := (hnew id hi).1
    omega
  · intro i hi
    rw [hall] at hi
    rcases List.mem_cons.mp hi with rfl | hi
    · omega
    · exact (hnew i hi).2
  · intro i hi
    rw [hall] at hi ⊢
    rcases List.mem_cons.mp hi with rfl | hi
    · exact Or.inl (by simp)
    · exact Or.inr (hnew i hi).1
  · intro i hi hnot
    rw [hall] at hnot
    exact hframe i hi (by simpa using hnot)
  · rw [hleaves] at he ⊢
    rw [← hlinked e he]
    exact hnext
  · rw [hleaves] at he' ⊢
    rw [← hlinked' e' he']
    exact hprev
  · rw [hleaves] at he ⊢
    rw [hleaves, hok hyes (by rw [hlinked _ he]; simp)]
  · intro i hi
    rw [hleaves] at hi ⊢
    obtain rfl := List.mem_singleton.mp hi
    exact List.mem_cons_self
  · rw [hleaves] at hi ⊢
    -- from right to left the leaves go down to the one that was split
    have hdesc : (id :: ids).reverse.Pairwise (· > ·) :=
      List.pairwise_reverse.mpr (List.pairwise_cons.mpr
        ⟨fun i hi => lt_of_lt_of_le hid (hnew i hi).1, hids⟩)
    rcases hprev.next_or_end hdesc (List.mem_reverse.mpr hi) hp with ⟨hlt, hmem⟩ | ⟨hlast, hold⟩
    · rw [hleaves]
      exact Or.inr ⟨hlt, List.mem_reverse.mp hmem⟩
    · rw [List.getLast?_reverse, List.head?_cons] at hlast
      obtain rfl := Option.some.inj hlast
      rw [hleaves]
      refine Or.inl ⟨List.mem_singleton_self _, ?_⟩
      simp only [Store.prevOf, hn, Option.bind_some, hold]

end Reboot.OrderedMap
