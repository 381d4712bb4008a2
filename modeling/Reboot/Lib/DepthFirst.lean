import Mathlib.Data.List.Nodup
import Mathlib.Data.List.Dedup
import Mathlib.Logic.Relation
import Mathlib.Tactic.Common

/-!
# Depth-first walks that go to every key once

A walk over the nodes of a graph that records the key of each node it goes to, and leaves out a
node whose key is recorded already. Keys may be coarser than nodes, so what is left out need not
have been visited: `Walk cs recorded visited recorded'` says that going to the nodes `cs` in order,
with `recorded` at the start, visits `visited` in this order.

`exists_walk`: there is such a walk where the keys are finitely many. `Walk.reachable`: what is
visited is reachable. `Walk.closed`: what is below a visited node is recorded.
-/

namespace Reboot.Lib.DepthFirst

variable {ν κ : Type*}

/-- Go to the nodes of a list in order, and below each before the next one. -/
inductive Walk (children : ν → List ν) (key : ν → κ) :
    List ν → List κ → List ν → List κ → Prop
  | nil {recorded : List κ} : Walk children key [] recorded [] recorded
  | skip {c : ν} {cs visited : List ν} {recorded recorded' : List κ} (hc : key c ∈ recorded)
    (hcs : Walk children key cs recorded visited recorded') :
    Walk children key (c :: cs) recorded visited recorded'
  | visit {c : ν} {cs below visited : List ν} {recorded recorded₁ recorded₂ : List κ}
    (hc : key c ∉ recorded)
    (hbelow : Walk children key (children c) (recorded ++ [key c]) below recorded₁)
    (hcs : Walk children key cs recorded₁ visited recorded₂) :
    Walk children key (c :: cs) recorded (c :: below ++ visited) recorded₂

section

variable {children : ν → List ν} {key : ν → κ} {cs visited visited' : List ν}
  {recorded recorded' recorded'' : List κ}

/-- What is recorded in the end is what was recorded, and the keys of what is visited. -/
theorem Walk.recorded_eq (h : Walk children key cs recorded visited recorded') :
    recorded' = recorded ++ visited.map key := by
  induction h with
  | nil => simp
  | skip hc hcs ih => exact ih
  | visit hc hbelow hcs ihbelow ihcs =>
    rw [ihcs, ihbelow]
    simp

/-- No key is gone to twice, and none that was recorded. -/
theorem Walk.nodup (h : Walk children key cs recorded visited recorded') :
    (visited.map key).Nodup ∧ ∀ v ∈ visited, key v ∉ recorded := by
  induction h with
  | nil => simp
  | skip hc hcs ih => exact ih
  | @visit c cs below visited recorded recorded₁ recorded₂ hc hbelow hcs ihbelow ihcs =>
    have hrecorded := hbelow.recorded_eq
    have hlater : ∀ v ∈ visited, key v ∉ recorded ++ [key c] ++ below.map key :=
      fun v hv => hrecorded ▸ ihcs.2 v hv
    constructor
    · rw [List.map_append, List.map_cons, List.cons_append, List.nodup_cons]
      constructor
      · intro hmem
        rcases List.mem_append.mp hmem with hmem | hmem
        · obtain ⟨v, hv, hkey⟩ := List.mem_map.mp hmem
          exact ihbelow.2 v hv (by simp [hkey])
        · obtain ⟨v, hv, hkey⟩ := List.mem_map.mp hmem
          exact hlater v hv (by simp [hkey])
      · refine List.Nodup.append ihbelow.1 ihcs.1 fun k hk hk' => ?_
        obtain ⟨v, hv, rfl⟩ := List.mem_map.mp hk'
        exact hlater v hv (List.mem_append_right _ hk)
    · intro v hv
      rcases List.mem_append.mp hv with hv | hv
      · rcases List.mem_cons.mp hv with rfl | hv
        · exact hc
        · exact fun hmem => ihbelow.2 v hv (List.mem_append_left _ hmem)
      · exact fun hmem => hlater v hv (List.mem_append_left _ (List.mem_append_left _ hmem))

/-- The nodes gone to and what is below the visited ones are recorded in the end. -/
theorem Walk.closed (h : Walk children key cs recorded visited recorded') :
    (∀ c ∈ cs, key c ∈ recorded') ∧ ∀ v ∈ visited, ∀ c ∈ children v, key c ∈ recorded' := by
  induction h with
  | nil => exact ⟨fun c hc => absurd hc List.not_mem_nil, fun v hv => absurd hv List.not_mem_nil⟩
  | skip hc hcs ih =>
    refine ⟨fun c hmem => ?_, ih.2⟩
    rcases List.mem_cons.mp hmem with rfl | hmem
    · rw [hcs.recorded_eq]
      exact List.mem_append_left _ hc
    · exact ih.1 c hmem
  | @visit c cs below visited recorded recorded₁ recorded₂ hc hbelow hcs ihbelow ihcs =>
    have hlater : ∀ k ∈ recorded₁, k ∈ recorded₂ := fun k hk => by
      rw [hcs.recorded_eq]
      exact List.mem_append_left _ hk
    refine ⟨fun d hmem => ?_, fun v hv => ?_⟩
    · rcases List.mem_cons.mp hmem with rfl | hmem
      · refine hlater _ ?_
        rw [hbelow.recorded_eq]
        simp
      · exact ihcs.1 d hmem
    · rcases List.mem_append.mp hv with hv | hv
      · rcases List.mem_cons.mp hv with rfl | hv
        · exact fun d hd => hlater _ (ihbelow.1 d hd)
        · exact fun d hd => hlater _ (ihbelow.2 v hv d hd)
      · exact ihcs.2 v hv

/-- What is visited is one of the nodes gone to, or below one. -/
theorem Walk.reachable (h : Walk children key cs recorded visited recorded') :
    ∀ v ∈ visited, ∃ c ∈ cs, Relation.ReflTransGen (fun a b => b ∈ children a) c v := by
  induction h with
  | nil => exact fun v hv => absurd hv List.not_mem_nil
  | skip hc hcs ih =>
    intro v hv
    obtain ⟨c, hmem, hreach⟩ := ih v hv
    exact ⟨c, List.mem_cons_of_mem _ hmem, hreach⟩
  | @visit c cs below visited recorded recorded₁ recorded₂ hc hbelow hcs ihbelow ihcs =>
    intro v hv
    rcases List.mem_append.mp hv with hv | hv
    · rcases List.mem_cons.mp hv with rfl | hv
      · exact ⟨v, List.mem_cons_self, .refl⟩
      · obtain ⟨d, hd, hreach⟩ := ihbelow v hv
        exact ⟨c, List.mem_cons_self, .head hd hreach⟩
    · obtain ⟨d, hd, hreach⟩ := ihcs v hv
      exact ⟨d, List.mem_cons_of_mem _ hd, hreach⟩

end

/-- Where the keys are finitely many, there is a walk. -/
theorem exists_walk [DecidableEq κ] (children : ν → List ν) (key : ν → κ) (keys : List κ)
    (hkeys : ∀ v, key v ∈ keys) (cs : List ν) (recorded : List κ) :
    ∃ visited recorded', Walk children key cs recorded visited recorded' := by
  -- by the keys that are not recorded yet, and then by what is left of the list
  induction hn : (keys.filter (· ∉ recorded)).length using Nat.strongRecOn
    generalizing cs recorded with
  | ind n ih =>
    induction cs generalizing recorded n with
    | nil => exact ⟨_, _, .nil⟩
    | cons c cs ihcs =>
      by_cases hc : key c ∈ recorded
      · obtain ⟨visited, recorded', hwalk⟩ := ihcs n ih recorded hn
        exact ⟨_, _, .skip hc hwalk⟩
      · -- the key of `c` is recorded, so fewer are left below it and after it
        have hfewer : ∀ more : List κ,
            (keys.filter (· ∉ recorded ++ [key c] ++ more)).length < n := by
          intro more
          have hfilter : keys.filter (· ∉ recorded ++ [key c] ++ more) =
              (keys.filter (· ∉ recorded)).filter (· ∉ key c :: more) := by
            rw [List.filter_filter]
            refine List.filter_congr fun k _ => ?_
            simp only [List.append_assoc, List.singleton_append, List.mem_append, not_or,
              Bool.decide_and, Bool.and_comm]
          rw [hfilter, ← hn]
          refine List.length_filter_lt_length_iff_exists.mpr ⟨key c, ?_, by simp⟩
          exact List.mem_filter.mpr ⟨hkeys c, by simpa using hc⟩
        obtain ⟨below, recorded₁, hbelow⟩ :=
          ih _ (hfewer []) (children c) (recorded ++ [key c]) (by simp)
        have hlt := hfewer (below.map key)
        rw [← hbelow.recorded_eq] at hlt
        obtain ⟨visited, recorded₂, hwalk⟩ := ih _ hlt cs recorded₁ rfl
        exact ⟨_, _, .visit hc hbelow hwalk⟩

end Reboot.Lib.DepthFirst
