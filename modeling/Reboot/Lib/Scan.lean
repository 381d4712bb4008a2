import Mathlib.Data.List.Pairwise
import Mathlib.Data.List.Sort
import Mathlib.Data.List.TakeWhile
import Mathlib.Order.Cover
import Reboot.Lib.SortedAssoc

/-!
# Range scans of a sorted association list

An ordered store is read by seeking to a key and going on, forwards or backwards, until a
bound is passed. On the list of entries both scans are a `dropWhile` followed by a
`takeWhile`, and as long as the list is sorted they are a filter: `scanAssoc_eq_filter`
and `scanBackAssoc_eq_filter`, both from `takeWhile_dropWhile_eq_filter`.

The bounds of a scan over string keys are made by hand, by appending a character to a
prefix. `isPrefix_of_between_covBy` and `eq_of_between_snoc` say what lies between such
bounds.

A store that keeps its keys in some encoding scans in the order of the encoding.
`take_eq_iff_of_ordered` says when every page of such a scan is the page that was meant:
the two readings of the bounds pick the same elements, and the two orders agree on them.
-/

namespace Reboot.Lib

/-! ## Scans are filters -/

/-- If nothing after an element that is kept is dropped, and nothing after an element that
stops the scan would be taken, the scan is a filter. -/
theorem takeWhile_dropWhile_eq_filter {α : Type*} {p q : α → Bool} : ∀ {l : List α},
    l.Pairwise (fun a b => (p b = true → p a = true) ∧ (q b = true → q a = true)) →
    (l.dropWhile p).takeWhile q = l.filter fun a => !p a && q a
  | [], _ => rfl
  | a :: l, h => by
    obtain ⟨hhd, htl⟩ := List.pairwise_cons.mp h
    have ih := takeWhile_dropWhile_eq_filter htl
    by_cases hp : p a = true
    · simpa [hp] using ih
    · -- from here on nothing is dropped
      have hkeep : ∀ b ∈ l, p b = false := fun b hb =>
        Bool.eq_false_iff.mpr fun h' => hp ((hhd b hb).1 h')
      have hstay : l.dropWhile p = l := by
        cases l with
        | nil => rfl
        | cons b l => simp [hkeep b (List.mem_cons_self ..)]
      rw [hstay] at ih
      by_cases hq : q a = true
      · simp [hp, hq, ih]
      · have hnone : l.filter (fun b => !p b && q b) = [] := by
          rw [List.filter_eq_nil_iff]
          intro b hb hpq
          rw [Bool.and_eq_true] at hpq
          exact hq ((hhd b hb).2 hpq.2)
        simp [hp, hq, hnone]

/-- Nothing after an element that stops the scan would be taken. -/
theorem takeWhile_eq_filter {α : Type*} {q : α → Bool} {l : List α}
    (h : l.Pairwise fun a b => q b = true → q a = true) : l.takeWhile q = l.filter q := by
  have hscan := takeWhile_dropWhile_eq_filter (p := fun _ => false) (q := q)
    (h.imp fun hab => ⟨id, hab⟩)
  have hstay : l.dropWhile (fun _ => false) = l := by cases l <;> rfl
  simpa only [hstay, Bool.not_false, Bool.true_and] using hscan

/-- Nothing after an element that is kept would be dropped. -/
theorem dropWhile_eq_filter {α : Type*} {p : α → Bool} {l : List α}
    (h : l.Pairwise fun a b => p b = true → p a = true) :
    l.dropWhile p = l.filter fun a => !p a := by
  have hscan := takeWhile_dropWhile_eq_filter (p := p) (q := fun _ => true)
    (h.imp fun hab => ⟨hab, id⟩)
  have hall : (l.dropWhile p).takeWhile (fun _ => true) = l.dropWhile p :=
    List.takeWhile_eq_self_iff.mpr fun _ _ => rfl
  simpa only [hall, Bool.and_true] using hscan

section Scans

variable {κ ν : Type*} [LinearOrder κ]

/-- Seek to `lo` and go on below `hi`. -/
def scanAssoc (lo hi : κ) (l : List (κ × ν)) : List (κ × ν) :=
  (seekAssoc lo l).takeWhile fun e => decide (e.1 < hi)

/-- Seek to the last key at or before `target` and go back down to `lo`. -/
def scanBackAssoc (target lo : κ) (l : List (κ × ν)) : List (κ × ν) :=
  (l.reverse.dropWhile fun e => decide (target < e.1)).takeWhile fun e => decide (lo ≤ e.1)

theorem scanAssoc_eq_filter {lo hi : κ} {l : List (κ × ν)} (h : KeysSorted l) :
    scanAssoc lo hi l = l.filter fun e => decide (lo ≤ e.1 ∧ e.1 < hi) := by
  have hmono : l.Pairwise fun a b => (decide (b.1 < lo) = true → decide (a.1 < lo) = true) ∧
      (decide (b.1 < hi) = true → decide (a.1 < hi) = true) := by
    refine List.Pairwise.imp ?_ h
    intro a b hab
    simp only [decide_eq_true_eq]
    exact ⟨fun hb => hab.trans hb, fun hb => hab.trans hb⟩
  rw [scanAssoc, seekAssoc, takeWhile_dropWhile_eq_filter hmono]
  refine List.filter_congr fun e _ => ?_
  by_cases h1 : e.1 < lo
  · simp [h1, not_le.mpr h1]
  · simp [h1, not_lt.mp h1]

theorem scanBackAssoc_eq_filter {target lo : κ} {l : List (κ × ν)} (h : KeysSorted l) :
    scanBackAssoc target lo l = l.reverse.filter fun e => decide (lo ≤ e.1 ∧ e.1 ≤ target) := by
  have hmono : l.reverse.Pairwise fun a b =>
      (decide (target < b.1) = true → decide (target < a.1) = true) ∧
      (decide (lo ≤ b.1) = true → decide (lo ≤ a.1) = true) := by
    rw [List.pairwise_reverse]
    refine List.Pairwise.imp ?_ h
    intro a b hab
    simp only [decide_eq_true_eq]
    exact ⟨fun ha => ha.trans hab, fun ha => ha.trans hab.le⟩
  rw [scanBackAssoc, takeWhile_dropWhile_eq_filter hmono]
  refine List.filter_congr fun e _ => ?_
  by_cases h1 : target < e.1
  · simp [h1, not_le.mpr h1]
  · simp [h1, not_lt.mp h1]

theorem mem_scanAssoc_iff {lo hi : κ} {e : κ × ν} {l : List (κ × ν)} (h : KeysSorted l) :
    e ∈ scanAssoc lo hi l ↔ e ∈ l ∧ lo ≤ e.1 ∧ e.1 < hi := by
  rw [scanAssoc_eq_filter h, List.mem_filter, decide_eq_true_eq]

theorem mem_scanBackAssoc_iff {target lo : κ} {e : κ × ν} {l : List (κ × ν)} (h : KeysSorted l) :
    e ∈ scanBackAssoc target lo l ↔ e ∈ l ∧ lo ≤ e.1 ∧ e.1 ≤ target := by
  rw [scanBackAssoc_eq_filter h, List.mem_filter, List.mem_reverse, decide_eq_true_eq]

theorem scanAssoc_sorted {lo hi : κ} {l : List (κ × ν)} (h : KeysSorted l) :
    (scanAssoc lo hi l).Pairwise fun a b => a.1 < b.1 := by
  rw [scanAssoc_eq_filter h]
  exact List.Pairwise.filter _ h

theorem scanBackAssoc_sorted {target lo : κ} {l : List (κ × ν)} (h : KeysSorted l) :
    (scanBackAssoc target lo l).Pairwise fun a b => b.1 < a.1 := by
  rw [scanBackAssoc_eq_filter h]
  exact List.Pairwise.filter _ (List.pairwise_reverse.mpr h)

end Scans

/-! ## Hand-made bounds -/

section Bounds

variable {α : Type*} [LinearOrder α]

/-- A common prefix does not matter to the order. -/
theorem append_lt_append_iff {p x y : List α} : p ++ x < p ++ y ↔ x < y := by
  have hmono : StrictMono fun x : List α => p ++ x := fun _ _ h => List.append_left_lt h
  exact hmono.lt_iff_lt

theorem append_le_append_iff {p x y : List α} : p ++ x ≤ p ++ y ↔ x ≤ y := by
  rw [← not_lt, ← not_lt, append_lt_append_iff]

/-- With `b` the next character after `a`, what lies between `p` with `a` and `p` with `b`
begins with `p` and `a`. -/
theorem isPrefix_of_between_covBy {a b : α} (hab : a ⋖ b) : ∀ (p : List α) {x : List α},
    p ++ [a] ≤ x → x < p ++ [b] → p ++ [a] <+: x
  | [], [], h, _ => absurd h (by simp)
  | [], c :: x, h1, h2 => by
    rw [List.nil_append, ← not_lt, List.cons_lt_cons_iff, not_or, not_lt] at h1
    rw [List.nil_append, List.cons_lt_cons_iff] at h2
    have hcb : c < b := by
      rcases h2 with h | ⟨-, h⟩
      · exact h
      · exact absurd h (List.not_lt_nil _)
    have hac : a = c := by
      by_contra hne
      exact hab.2 (lt_of_le_of_ne h1.1 hne) hcb
    exact ⟨x, by rw [hac]; rfl⟩
  | d :: p, [], h, _ => absurd h (by simp)
  | d :: p, c :: x, h1, h2 => by
    rw [List.cons_append, ← not_lt, List.cons_lt_cons_iff, not_or, not_lt] at h1
    rw [List.cons_append, List.cons_lt_cons_iff] at h2
    have hdc : c = d := by
      rcases h2 with h | ⟨h, -⟩
      · exact absurd h (not_lt.mpr h1.1)
      · exact h
    subst hdc
    have h1' : p ++ [a] ≤ x := not_lt.mp fun hlt => h1.2 ⟨rfl, hlt⟩
    have h2' : x < p ++ [b] := by
      rcases h2 with h | ⟨-, h⟩
      · exact absurd h (lt_irrefl _)
      · exact h
    exact List.cons_prefix_cons.mpr ⟨rfl, isPrefix_of_between_covBy hab p h1' h2'⟩

/-- If no character of `x` is below `c`, the only way to lie between `p` and `p` with `c` is
to be `p`. -/
theorem eq_of_between_snoc {c : α} {p x : List α} (hx : ∀ a ∈ x, c ≤ a) (h1 : p ≤ x)
    (h2 : x < p ++ [c]) : x = p := by
  obtain ⟨y, rfl⟩ := isPrefix_of_between p h1 h2.le
  rw [append_lt_append_iff] at h2
  cases y with
  | nil => exact List.append_nil p
  | cons a y =>
    have hca : c ≤ a := hx a (by simp)
    rw [List.cons_lt_cons_iff] at h2
    rcases h2 with h | ⟨-, h⟩
    · exact absurd h (not_lt.mpr hca)
    · exact absurd h (List.not_lt_nil _)

/-- Appending the least character gives the next string. -/
theorem snoc_le_iff {c : α} (hc : ∀ a, c ≤ a) {p x : List α} : p ++ [c] ≤ x ↔ p < x := by
  constructor
  · intro h
    have hlt : p < p ++ [c] := by
      conv_lhs => rw [← List.append_nil p]
      exact append_lt_append_iff.mpr (List.nil_lt_cons _ _)
    exact hlt.trans_le h
  · intro h
    by_contra hle
    have heq := eq_of_between_snoc (fun a _ => hc a) h.le (not_le.mp hle)
    exact absurd h (heq ▸ lt_irrefl _)

end Bounds

/-! ## A cursor

An iterator that is put on a key and moved on from there, in the order `r`: whether or not the
key itself is skipped, what is ahead of it is a filter. Reading on from behind the last element
of a page leaves what is behind the page.
-/

section Cursor

variable {κ : Type*} {r : κ → κ → Prop} [DecidableRel r] [Std.Asymm r]

/-- Moving on from the key where the iterator stands on it. -/
theorem tail_eq_filter {α : Type*} [DecidableEq κ] {f : α → κ} {k : κ} : ∀ {l : List α},
    l.Pairwise (fun a b => r (f a) (f b)) → (∀ x ∈ l, f x = k ∨ r k (f x)) →
    (if l.head?.map f = some k then l.tail else l) = l.filter fun x => decide (r k (f x))
  | [], _, _ => rfl
  | a :: l, hl, hk => by
    obtain ⟨hhd, -⟩ := List.pairwise_cons.mp hl
    by_cases ha : f a = k
    · subst ha
      have hself : ¬ r (f a) (f a) := fun h => Std.Asymm.asymm _ _ h h
      rw [List.head?_cons, Option.map_some, if_pos rfl, List.tail_cons,
        List.filter_cons_of_neg (by simpa using hself), List.filter_eq_self.mpr]
      exact fun x hx => decide_eq_true (hhd x hx)
    · have hka : r k (f a) := (hk a List.mem_cons_self).resolve_left ha
      have hall : ∀ x ∈ a :: l, decide (r k (f x)) = true := by
        intro x hx
        refine decide_eq_true ((hk x hx).resolve_left fun hxk => ?_)
        rcases List.mem_cons.mp hx with rfl | hx'
        · exact ha hxk
        · exact Std.Asymm.asymm _ _ (hhd x hx') (hxk ▸ hka)
      rw [List.head?_cons, Option.map_some, if_neg fun h => ha (Option.some.inj h),
        List.filter_eq_self.mpr hall]

/-- Behind the last element of the first `n` is the rest. -/
theorem filter_behind_last {l : List κ} (hl : l.Pairwise r) {n : Nat} {c : κ}
    (hc : (l.take n).getLast? = some c) : l.filter (fun x => decide (r c x)) = l.drop n := by
  obtain ⟨front, hfront⟩ := List.getLast?_eq_some_iff.mp hc
  have hsplit : l = front ++ c :: l.drop n := by
    conv_lhs => rw [← List.take_append_drop n l, hfront]
    rw [List.append_assoc, List.singleton_append]
  generalize l.drop n = rest at hsplit
  subst hsplit
  obtain ⟨-, hback, hcross⟩ := List.pairwise_append.mp hl
  obtain ⟨hbehind, -⟩ := List.pairwise_cons.mp hback
  have hnone : front.filter (fun x => decide (r c x)) = [] := by
    rw [List.filter_eq_nil_iff]
    intro x hx hrx
    exact Std.Asymm.asymm x c (hcross x hx c List.mem_cons_self) (of_decide_eq_true hrx)
  have hself : ¬ r c c := fun h => Std.Asymm.asymm c c h h
  rw [List.filter_append, hnone, List.nil_append,
    List.filter_cons_of_neg (by simpa using hself), List.filter_eq_self]
  exact fun x hx => decide_eq_true (hbehind x hx)

end Cursor

/-! ## Pages in another order -/

/-- `l` in the order `r` is what was meant: its elements with `P`. `m` holds the elements of
`l` with `Q`, in the order `s`. Every page of `m` is the page that was meant exactly if `P`
and `Q` pick the same elements and the two orders agree on them. -/
theorem take_eq_iff_of_ordered {α : Type*} {r s : α → α → Prop} [Std.Asymm r] [Std.Asymm s]
    {l m : List α} {P Q : α → Prop} [DecidablePred P] (hl : l.Pairwise r) (hm : m.Pairwise s)
    (hmem : ∀ x, x ∈ m ↔ x ∈ l ∧ Q x) :
    (∀ n, n ≠ 0 → m.take n = (l.filter P).take n) ↔
      (∀ x ∈ l, P x ↔ Q x) ∧ ∀ x ∈ l, ∀ y ∈ l, P x → P y → (r x y ↔ s x y) := by
  have hlP : (l.filter P).Pairwise r := List.Pairwise.filter _ hl
  have hmemP : ∀ x, x ∈ l.filter P ↔ x ∈ l ∧ P x := by simp
  constructor
  · intro h
    -- a page that is long enough is the whole list
    have heq : m = l.filter P := by
      have hn := h (m.length + (l.filter P).length + 1) (by omega)
      rwa [List.take_of_length_le (by omega), List.take_of_length_le (by omega)] at hn
    refine ⟨fun x hx => ?_, fun x hx y hy hPx hPy => ?_⟩
    · have hiff := hmem x
      rw [heq, hmemP x] at hiff
      exact ⟨fun hP => (hiff.mp ⟨hx, hP⟩).2, fun hQ => (hiff.mpr ⟨hx, hQ⟩).2⟩
    · rw [heq] at hm
      have hboth : (l.filter P).Pairwise fun a b => (r a b ↔ s a b) ∧ (r b a ↔ s b a) := by
        refine List.Pairwise.imp₂ ?_ hlP hm
        intro a b hr hs
        exact ⟨iff_of_true hr hs, iff_of_false (Std.Asymm.asymm a b hr) (Std.Asymm.asymm a b hs)⟩
      have hsymm : Std.Symm fun a b => (r a b ↔ s a b) ∧ (r b a ↔ s b a) :=
        ⟨fun a b hab => ⟨hab.2, hab.1⟩⟩
      have hself : ∀ z ∈ l.filter P, (r z z ↔ s z z) ∧ (r z z ↔ s z z) := by
        intro z _
        have hiff : r z z ↔ s z z := iff_of_false (fun h' => Std.Asymm.asymm z z h' h')
          (fun h' => Std.Asymm.asymm z z h' h')
        exact ⟨hiff, hiff⟩
      exact (List.Pairwise.forall_of_forall hself hboth ((hmemP x).mpr ⟨hx, hPx⟩)
        ((hmemP y).mpr ⟨hy, hPy⟩)).1
  · rintro ⟨hPQ, horder⟩ n -
    have hsorted : (l.filter P).Pairwise s := by
      refine List.Pairwise.imp_of_mem ?_ hlP
      intro a b ha hb hab
      obtain ⟨hal, haP⟩ := (hmemP a).mp ha
      obtain ⟨hbl, hbP⟩ := (hmemP b).mp hb
      exact (horder a hal b hbl haP hbP).mp hab
    have heq : m = l.filter P := by
      refine hm.eq_of_mem_iff hsorted fun x => ?_
      rw [hmem, hmemP]
      exact and_congr_right fun hx => (hPQ x hx).symm
    rw [heq]

end Reboot.Lib
