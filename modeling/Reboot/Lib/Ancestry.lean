import Mathlib.Data.List.Infix
import Mathlib.Data.List.Nodup

/-!
# Paths from the root of a tree

A tree given by the path of every node: the list of its ancestors from the root down,
the node itself last. The path of an ancestor is a prefix of the path of the node, so
"is an ancestor of" is membership in the path, and the ancestors of a node are a chain.

The lemmas say what cutting a path does: a beginning of a path holds the whole path of
each of its members (`path_isPrefix`), and what stands before a member is the path of the
member without it (`take_idxOf`), that is the path of its parent (`path_parent`).
-/

namespace Reboot.Lib

/-- A tree over `ι`, by the path of every node. -/
structure Ancestry (ι : Type) where
  root : ι
  path : ι → List ι
  nodup : ∀ n, (path n).Nodup
  head : ∀ n, (path n).head? = some root
  last : ∀ n, (path n).getLast? = some n
  closed : ∀ n m, m ∈ path n → path m <+: path n

/-- A prefix that has the last element of a list without repetitions is all of it. -/
theorem eq_of_prefix_of_last_mem {α : Type} {l l' : List α} {x : α} (h : l' <+: l)
    (hnd : l.Nodup) (hlast : l.getLast? = some x) (hx : x ∈ l') : l' = l := by
  obtain ⟨rest, rfl⟩ := h
  cases rest with
  | nil => exact (List.append_nil l').symm
  | cons y rest =>
    have hmem : x ∈ y :: rest := by
      rw [List.getLast?_append_of_ne_nil _ (List.cons_ne_nil y rest)] at hlast
      exact List.mem_of_getLast? hlast
    exact absurd rfl ((List.nodup_append.mp hnd).2.2 x hx x hmem)

namespace Ancestry

variable {ι : Type} (A : Ancestry ι)

theorem self_mem (n : ι) : n ∈ A.path n := List.mem_of_getLast? (A.last n)

theorem root_mem (n : ι) : A.root ∈ A.path n := List.mem_of_head? (A.head n)

theorem path_ne_nil (n : ι) : A.path n ≠ [] := List.ne_nil_of_mem (A.self_mem n)

theorem mem_trans {a b c : ι} (hab : a ∈ A.path b) (hbc : b ∈ A.path c) : a ∈ A.path c :=
  (A.closed c b hbc).subset hab

/-- Inside any beginning of a path, the path of a member is a beginning again. -/
theorem path_isPrefix {l : List ι} {n m : ι} (h : l <+: A.path n) (hm : m ∈ l) :
    A.path m <+: l := by
  have hmn : A.path m <+: A.path n := A.closed n m (h.subset hm)
  rcases List.prefix_or_prefix_of_prefix hmn h with hp | hp
  · exact hp
  · rw [eq_of_prefix_of_last_mem hp (A.nodup m) (A.last m) hm]

/-- The ancestors of a node are a chain. -/
theorem linear {a b n : ι} (ha : a ∈ A.path n) (hb : b ∈ A.path n) :
    a ∈ A.path b ∨ b ∈ A.path a := by
  rcases List.prefix_or_prefix_of_prefix (A.closed n a ha) (A.closed n b hb) with h | h
  · exact .inl (h.subset (A.self_mem a))
  · exact .inr (h.subset (A.self_mem b))

theorem path_eq (n : ι) : A.path n = (A.path n).dropLast ++ [n] := by
  have hget := List.dropLast_append_getLast (A.path_ne_nil n)
  have hlast : (A.path n).getLast (A.path_ne_nil n) = n := by
    have h := A.last n
    rw [List.getLast?_eq_getLast_of_ne_nil (A.path_ne_nil n)] at h
    exact Option.some.inj h
  rw [hlast] at hget
  exact hget.symm

theorem notMem_dropLast (n : ι) : n ∉ (A.path n).dropLast := by
  intro h
  have hnd := A.nodup n
  rw [A.path_eq n] at hnd
  exact absurd rfl ((List.nodup_append.mp hnd).2.2 n h n (List.mem_singleton_self n))

/-- The proper ancestors. -/
theorem mem_dropLast {a n : ι} : a ∈ (A.path n).dropLast ↔ a ∈ A.path n ∧ a ≠ n := by
  constructor
  · intro h
    exact ⟨List.mem_of_mem_dropLast h, fun ha => A.notMem_dropLast n (ha ▸ h)⟩
  · rintro ⟨h, hne⟩
    rw [A.path_eq n] at h
    rcases List.mem_append.mp h with h | h
    · exact h
    · exact absurd (List.mem_singleton.mp h) hne

theorem dropLast_ne_nil {n : ι} (h : n ≠ A.root) : (A.path n).dropLast ≠ [] := by
  intro hnil
  have hhead := A.head n
  rw [A.path_eq n, hnil] at hhead
  exact h (Option.some.inj hhead)

theorem path_root : A.path A.root = [A.root] := by
  have hmem : (A.path A.root).dropLast = [] := by
    by_contra hne
    obtain ⟨x, rest, hx⟩ := List.exists_cons_of_ne_nil hne
    have hhead := A.head A.root
    rw [A.path_eq A.root, hx, List.cons_append, List.head?_cons, Option.some.injEq] at hhead
    exact A.notMem_dropLast A.root (by rw [hx, hhead]; exact List.mem_cons_self)
  rw [A.path_eq A.root, hmem, List.nil_append]

/-- Below the root there are at least two nodes on the path. -/
theorem one_lt_length_path {n : ι} : 1 < (A.path n).length ↔ n ≠ A.root := by
  constructor
  · rintro h rfl
    rw [A.path_root] at h
    exact absurd h (by simp)
  · intro h
    have hpos := List.length_pos_iff.mpr (A.dropLast_ne_nil h)
    rw [List.length_dropLast] at hpos
    omega

/-- The path of the parent. -/
theorem path_parent {p n : ι} (h : (A.path n).dropLast.getLast? = some p) :
    A.path p = (A.path n).dropLast := by
  have hpre : (A.path n).dropLast <+: A.path n := List.dropLast_prefix _
  have hnd : (A.path n).dropLast.Nodup := (List.dropLast_sublist _).nodup (A.nodup n)
  exact eq_of_prefix_of_last_mem (A.path_isPrefix hpre (List.mem_of_getLast? h)) hnd h
    (A.self_mem p)

section Cut

variable [DecidableEq ι]

theorem idxOf_path {n m : ι} (hm : m ∈ A.path n) :
    (A.path n).idxOf m = (A.path m).dropLast.length := by
  obtain ⟨rest, hrest⟩ := A.closed n m hm
  have hidx : (A.path m).idxOf m = (A.path m).dropLast.length := by
    nth_rewrite 1 [A.path_eq m]
    rw [List.idxOf_append_of_notMem (A.notMem_dropLast m)]
    simp
  rw [← hrest, List.idxOf_append_of_mem (A.self_mem m), hidx]

/-- What stands before a member is the member's path without it. -/
theorem take_idxOf {n m : ι} (hm : m ∈ A.path n) :
    (A.path n).take ((A.path n).idxOf m) = (A.path m).dropLast := by
  obtain ⟨rest, hrest⟩ := A.closed n m hm
  have hsplit : A.path n = (A.path m).dropLast ++ ([m] ++ rest) := by
    rw [← hrest, ← List.append_assoc, ← A.path_eq m]
  rw [A.idxOf_path hm, hsplit, List.take_left]

/-- What stands right before a member is its parent. -/
theorem get_before {n m : ι} (hm : m ∈ A.path n) (hroot : m ≠ A.root) :
    ∃ p, (A.path n)[(A.path n).idxOf m - 1]? = some p ∧ A.path p = (A.path m).dropLast := by
  have hne : (A.path m).dropLast ≠ [] := A.dropLast_ne_nil hroot
  refine ⟨(A.path m).dropLast.getLast hne, ?_, A.path_parent (List.getLast?_eq_getLast_of_ne_nil hne)⟩
  have hpos : 0 < (A.path m).dropLast.length := List.length_pos_iff.mpr hne
  rw [← List.getLast?_eq_getLast_of_ne_nil hne, List.getLast?_eq_getElem?, A.idxOf_path hm,
    ← A.take_idxOf hm, List.getElem?_take_of_lt]
  rw [A.take_idxOf hm, A.idxOf_path hm]
  omega

end Cut

end Ancestry

end Reboot.Lib
