import Mathlib.Data.List.Basic

/-!
# Segments of a linked list

`Linked f e l`: starting at the head of `l`, the links `f` visit exactly `l` in order, and the
link of the last element is `e`. The other end of a doubly linked segment needs no notion of its
own: the back links of `l` are the links of `l.reverse`.

A segment can be cut and put together anywhere (`linked_append`), which is how one part of a
list can be replaced: only where it meets the rest has to be looked at.
-/

namespace Reboot.Lib

variable {ι : Type*} {f g : ι → Option ι} {e : Option ι} {l m : List ι} {a : ι}

def Linked (f : ι → Option ι) (e : Option ι) : List ι → Prop
  | [] => True
  | a :: l => f a = l.head?.or e ∧ Linked f e l

theorem linked_append :
    Linked f e (l ++ m) ↔ Linked f (m.head?.or e) l ∧ Linked f e m := by
  induction l with
  | nil => simp [Linked]
  | cons a l ih =>
    simp only [List.cons_append, Linked, List.head?_append, Option.or_assoc]
    rw [ih, and_assoc]

theorem Linked.congr (h : Linked f e l) (hfg : ∀ a ∈ l, g a = f a) : Linked g e l := by
  induction l with
  | nil => trivial
  | cons a l ih =>
    exact ⟨(hfg a (by simp)).trans h.1, ih h.2 fun b hb => hfg b (List.mem_cons_of_mem _ hb)⟩

/-- A link goes on to a later element of the segment, or it is the one at its end. -/
theorem Linked.next_or_end {r : ι → ι → Prop} (h : Linked f e l) (hr : l.Pairwise r) {b : ι}
    (ha : a ∈ l) (hf : f a = some b) : (r a b ∧ b ∈ l) ∨ l.getLast? = some a ∧ e = some b := by
  induction l with
  | nil => exact absurd ha List.not_mem_nil
  | cons c l ih =>
    rw [List.pairwise_cons] at hr
    rcases List.mem_cons.mp ha with rfl | ha
    · have hlink := hf.symm.trans h.1
      cases l with
      | nil => exact .inr ⟨rfl, hlink.symm⟩
      | cons d l =>
        obtain rfl := Option.some.inj hlink
        exact .inl ⟨hr.1 _ List.mem_cons_self, List.mem_cons_of_mem _ List.mem_cons_self⟩
    · rcases ih h.2 hr.2 ha with ⟨hab, hb⟩ | ⟨hlast, he⟩
      · exact .inl ⟨hab, List.mem_cons_of_mem _ hb⟩
      · obtain ⟨d, m, rfl⟩ := List.exists_cons_of_ne_nil (List.ne_nil_of_mem ha)
        exact .inr ⟨by rw [List.getLast?_cons_cons]; exact hlast, he⟩

/-- The back links of two segments in a row. -/
theorem linked_reverse_append :
    Linked f e (l ++ m).reverse ↔
      Linked f (l.getLast?.or e) m.reverse ∧ Linked f e l.reverse := by
  rw [List.reverse_append, linked_append, List.head?_reverse]

end Reboot.Lib
