import Mathlib.Data.Finset.Max
import Mathlib.Data.Finset.Range
import Mathlib.Order.Monotone.Basic

/-!
# Cycles

A cycle of a relation is walked for ever: a function on the natural numbers that comes
back to where it was after `period` steps and whose consecutive values are related.
Written like this no index has to wrap around, and two facts are all that an argument
"there is no such cycle, because …" needs: nothing can grow along every edge
(`Cycle.not_ascending`), and some node is the greatest (`Cycle.exists_max`).
-/

namespace Reboot.Lib

variable {α : Type*}

/-- A closed walk along the edges of `R`. -/
structure Cycle (R : α → α → Prop) where
  node : ℕ → α
  period : ℕ
  period_pos : 0 < period
  comes_back : ∀ i, node (i + period) = node i
  edge : ∀ i, R (node i) (node (i + 1))

namespace Cycle

variable {R : α → α → Prop} (c : Cycle R)

theorem node_add_mul (i : ℕ) : ∀ k, c.node (i + k * c.period) = c.node i
  | 0 => by rw [Nat.zero_mul, Nat.add_zero]
  | k + 1 => by rw [Nat.succ_mul, ← Nat.add_assoc, c.comes_back, node_add_mul i k]

theorem node_mod (i : ℕ) : c.node (i % c.period) = c.node i := by
  conv_rhs => rw [← Nat.mod_add_div i c.period, Nat.mul_comm, c.node_add_mul]

/-- Nothing grows along every edge from some point on. -/
theorem not_ascending {β : Type*} [Preorder β] (f : α → β) (m : ℕ) :
    ∃ i, m ≤ i ∧ ¬ f (c.node i) < f (c.node (i + 1)) := by
  by_contra hno
  push Not at hno
  have hmono : StrictMono fun i => f (c.node (m + i)) :=
    strictMono_nat_of_lt_succ fun i => hno (m + i) (Nat.le_add_right m i)
  have hlt : f (c.node (m + 0)) < f (c.node (m + c.period)) := hmono c.period_pos
  rw [c.comes_back, Nat.add_zero] at hlt
  exact lt_irrefl _ hlt

/-- Some node is the greatest. -/
theorem exists_max {β : Type*} [LinearOrder β] (f : α → β) :
    ∃ m, ∀ i, f (c.node i) ≤ f (c.node m) := by
  obtain ⟨m, -, hmax⟩ := Finset.exists_max_image (Finset.range c.period) (fun i => f (c.node i))
    ⟨0, Finset.mem_range.mpr c.period_pos⟩
  refine ⟨m, fun i => ?_⟩
  have hi := hmax (i % c.period) (Finset.mem_range.mpr (Nat.mod_lt i c.period_pos))
  rw [c.node_mod] at hi
  exact hi

end Cycle

end Reboot.Lib
