import Mathlib.Data.List.Sort
import Mathlib.Order.Defs.LinearOrder

/-!
# Sorting by a key, and binary search

The half-open binary search that Python's `bisect`, the C++ `<algorithm>` header
and hand-written loops share: probe the middle of `[lo, hi)`, keep the half that
still contains the answer. `bisectLoop` is the loop itself, over an arbitrary
test `goRight` on positions, and `bisectLoop_eq` is its only specification: if the
test is true exactly below some boundary inside the window, the loop returns the
boundary. `upperBound` is what the boundary is for the test `xs[i] ≤ x` on a
sorted list, and `lowerBound` for the test `xs[i] < x`.

`sortBy` is a stable sort by a key, as Python's `list.sort(key=..)`. All that is
needed of it is that it restores a strictly sorted list from any permutation
(`sortBy_eq_of_perm`).
-/

namespace Reboot.Lib

/-- The binary search loop on `[lo, hi)`. Fuel `hi - lo` is always enough. -/
def bisectLoop (goRight : Nat → Bool) : Nat → Nat → Nat → Nat
  | 0, lo, _ => lo
  | fuel + 1, lo, hi =>
    if lo < hi then
      let mid := (lo + hi) / 2
      if goRight mid then bisectLoop goRight fuel (mid + 1) hi
      else bisectLoop goRight fuel lo mid
    else lo

/-- If `goRight` holds exactly below `b` in the window, the loop returns `b`. -/
theorem bisectLoop_eq {goRight : Nat → Bool} {b : Nat} :
    ∀ (fuel : Nat) {lo hi : Nat}, hi - lo ≤ fuel → lo ≤ b → b ≤ hi →
      (∀ i, lo ≤ i → i < hi → (goRight i = true ↔ i < b)) →
      bisectLoop goRight fuel lo hi = b := by
  intro fuel
  induction fuel with
  | zero =>
    intro lo hi hf hlo hhi _
    simp only [bisectLoop]
    omega
  | succ fuel ih =>
    intro lo hi hf hlo hhi hb
    simp only [bisectLoop]
    split
    next hlt =>
      have hmid : lo ≤ (lo + hi) / 2 ∧ (lo + hi) / 2 < hi := by omega
      have hiff := hb ((lo + hi) / 2) hmid.1 hmid.2
      split
      next hr =>
        have hlt' := hiff.mp hr
        exact ih (by omega) (by omega) hhi (fun i h1 h2 => hb i (by omega) h2)
      next hr =>
        have hge : ¬ (lo + hi) / 2 < b := fun h => hr (hiff.mpr h)
        exact ih (by omega) hlo (by omega) (fun i h1 h2 => hb i h1 (by omega))
    next hge => omega

variable {κ : Type*} [LinearOrder κ]

/-- The number of leading elements `≤ x`: `std::upper_bound`, as a position. -/
def upperBound (xs : List κ) (x : κ) : Nat := (xs.takeWhile (fun k => decide (k ≤ x))).length

/-- The number of leading elements `< x`. -/
def lowerBound (xs : List κ) (x : κ) : Nat := (xs.takeWhile (fun k => decide (k < x))).length

theorem upperBound_le_length (xs : List κ) (x : κ) : upperBound xs x ≤ xs.length :=
  (List.takeWhile_prefix _).length_le

/-- A downward closed test on a sorted list holds exactly on its `takeWhile`. -/
theorem getElem?_iff_lt_takeWhile {p : κ → Bool} {xs : List κ}
    (hp : ∀ a b, a ≤ b → p b = true → p a = true) (hs : xs.Pairwise (· ≤ ·)) :
    ∀ {i : Nat} {k : κ}, xs[i]? = some k → (p k = true ↔ i < (xs.takeWhile p).length) := by
  induction xs with
  | nil => intro i k h; simp at h
  | cons a xs ih =>
    obtain ⟨hhd, htl⟩ := List.pairwise_cons.mp hs
    intro i k h
    by_cases ha : p a = true
    · rw [List.takeWhile_cons_of_pos ha]
      cases i with
      | zero =>
        simp only [List.getElem?_cons_zero, Option.some.injEq] at h
        subst h
        simp [ha]
      | succ i =>
        rw [List.getElem?_cons_succ] at h
        rw [ih htl h, List.length_cons]
        omega
    · rw [List.takeWhile_cons_of_neg ha]
      have hk : ¬ p k = true := by
        intro hk
        refine ha (hp a k ?_ hk)
        rcases List.mem_cons.mp (List.mem_of_getElem? h) with rfl | hmem
        · exact le_refl _
        · exact hhd k hmem
      simp [hk]

/-- Python's `bisect.bisect_right(xs, x)`. -/
def bisectRight (xs : List κ) (x : κ) : Nat :=
  bisectLoop (fun mid => match xs[mid]? with
    | some k => decide (¬ x < k)
    | none => false) xs.length 0 xs.length

/-- Python's `bisect.bisect_left(xs, x)`. -/
def bisectLeft (xs : List κ) (x : κ) : Nat :=
  bisectLoop (fun mid => match xs[mid]? with
    | some k => decide (k < x)
    | none => false) xs.length 0 xs.length

/-- A binary search on a sorted list finds where its test stops to hold. -/
theorem bisectLoop_takeWhile {p : κ → Bool} {xs : List κ}
    (hp : ∀ a b, a ≤ b → p b = true → p a = true) (hs : xs.Pairwise (· ≤ ·)) :
    bisectLoop (fun mid => match xs[mid]? with
      | some k => p k
      | none => false) xs.length 0 xs.length = (xs.takeWhile p).length := by
  refine bisectLoop_eq _ (by omega) (Nat.zero_le _) (List.takeWhile_prefix _).length_le ?_
  intro i _ hi
  have hget : xs[i]? = some xs[i] := List.getElem?_eq_getElem hi
  simp only [hget]
  exact getElem?_iff_lt_takeWhile hp hs hget

theorem bisectRight_eq {xs : List κ} (hs : xs.Pairwise (· ≤ ·)) (x : κ) :
    bisectRight xs x = upperBound xs x := by
  unfold bisectRight upperBound
  simp only [not_lt]
  exact bisectLoop_takeWhile
    (fun a b hab hb => decide_eq_true (le_trans hab (of_decide_eq_true hb))) hs

theorem bisectLeft_eq {xs : List κ} (hs : xs.Pairwise (· ≤ ·)) (x : κ) :
    bisectLeft xs x = lowerBound xs x := by
  unfold bisectLeft lowerBound
  exact bisectLoop_takeWhile
    (fun a b hab hb => decide_eq_true (lt_of_le_of_lt hab (of_decide_eq_true hb))) hs

/-! ## Sorting by a key -/

/-- Sort by `f`, stably. -/
def sortBy {α : Type*} (f : α → κ) (l : List α) : List α :=
  l.insertionSort (fun a b => f a ≤ f b)

/-- A list in strictly increasing order of `f` is what every permutation of it sorts
to. -/
theorem sortBy_eq_of_perm {α : Type*} {f : α → κ} {l l' : List α} (hp : l.Perm l')
    (hs : l'.Pairwise (fun a b => f a < f b)) : sortBy f l = l' := by
  have hnodup : (l'.map f).Nodup := List.pairwise_map.mpr (hs.imp ne_of_lt)
  have : Std.Total (fun a b : α => f a ≤ f b) := ⟨fun a b => le_total (f a) (f b)⟩
  have : IsTrans α (fun a b => f a ≤ f b) := ⟨fun _ _ _ => le_trans⟩
  have hperm := (List.perm_insertionSort (fun a b => f a ≤ f b) l).trans hp
  have hanti : ∀ a b, a ∈ l.insertionSort (fun a b => f a ≤ f b) → b ∈ l' →
      f a ≤ f b → f b ≤ f a → a = b := by
    intro a b ha hb hab hba
    exact List.inj_on_of_nodup_map hnodup (hperm.mem_iff.mp ha) hb (le_antisymm hab hba)
  exact List.Perm.eq_of_pairwise hanti (List.pairwise_insertionSort _ l) (hs.imp le_of_lt) hperm

theorem sortBy_perm {α : Type*} (f : α → κ) (l : List α) : (sortBy f l).Perm l :=
  List.perm_insertionSort _ l

/-- The elements are in order afterwards. -/
theorem sortBy_pairwise_le {α : Type*} (f : α → κ) (l : List α) :
    (sortBy f l).Pairwise fun a b => f a ≤ f b := by
  have : Std.Total (fun a b : α => f a ≤ f b) := ⟨fun a b => le_total (f a) (f b)⟩
  have : IsTrans α (fun a b => f a ≤ f b) := ⟨fun _ _ _ => le_trans⟩
  exact List.pairwise_insertionSort _ l

/-- Elements with different keys are in strict order. -/
theorem sortBy_pairwise_lt {α : Type*} {f : α → κ} {l : List α} (h : (l.map f).Nodup) :
    (sortBy f l).Pairwise fun a b => f a < f b := by
  have hne : ((sortBy f l).map f).Nodup := ((sortBy_perm f l).map f).nodup_iff.mpr h
  exact ((sortBy_pairwise_le f l).and (List.pairwise_map.mp hne)).imp fun h =>
    lt_of_le_of_ne h.1 h.2

/-- Keys in strict order, of which the first is at or before `x`: the ranges from one key to the
next have `x` in exactly one of them. -/
theorem existsUnique_range {xs : List κ} (hs : xs.Pairwise (· < ·)) {first x : κ}
    (hhead : xs.head? = some first) (hfirst : first ≤ x) :
    ∃! i, (∃ k, xs[i]? = some k ∧ k ≤ x) ∧ ∀ k, xs[i + 1]? = some k → x < k := by
  have hbelow : ∀ {i : Nat} {k : κ}, xs[i]? = some k → (k ≤ x ↔ i < upperBound xs x) := by
    intro i k hk
    have h := getElem?_iff_lt_takeWhile (p := fun k => decide (k ≤ x))
      (fun a b hab hb => decide_eq_true (le_trans hab (of_decide_eq_true hb)))
      (hs.imp le_of_lt) hk
    rwa [decide_eq_true_iff] at h
  have hpos : 0 < upperBound xs x := by
    rw [List.head?_eq_getElem?] at hhead
    exact (hbelow hhead).mp hfirst
  have hlen := upperBound_le_length xs x
  have hsome : ∀ i < xs.length, ∃ k, xs[i]? = some k :=
    fun i hi => ⟨_, List.getElem?_eq_getElem hi⟩
  obtain ⟨last, hget⟩ := hsome (upperBound xs x - 1) (by omega)
  refine ⟨upperBound xs x - 1, ⟨⟨last, hget, (hbelow hget).mpr (by omega)⟩, fun k hk => ?_⟩, ?_⟩
  · rw [Nat.sub_add_cancel hpos] at hk
    exact lt_of_not_ge fun hle => Nat.lt_irrefl _ ((hbelow hk).mp hle)
  · rintro i ⟨⟨k, hk, hle⟩, hnext⟩
    have hi := (hbelow hk).mp hle
    by_cases hlast : i + 1 < upperBound xs x
    · obtain ⟨next, hget'⟩ := hsome (i + 1) (by omega)
      exact absurd ((hbelow hget').mpr hlast) (not_le_of_gt (hnext _ hget'))
    · omega

end Reboot.Lib
