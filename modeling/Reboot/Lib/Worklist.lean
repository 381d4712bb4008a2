import Mathlib.Data.List.Dedup
import Mathlib.Data.List.Perm.Basic
import Mathlib.Logic.Relation
import Mathlib.Tactic.Common

/-!
# Reverse traversals with a set of what is unprocessed

Elements are found from seeds along `next`: one of the unprocessed is taken out, whichever `pop`
says, and what is next to it and was not found before is found and becomes unprocessed.

`mem_worklist_iff`: what is found in the end is what the seeds reach, in whatever order the elements
are taken out. `worklist_isSome`: where what is next lies in a finite universe there is an end.
-/

namespace Reboot.Lib

variable {α : Type*} [DecidableEq α]

/-- What is next to `x` and not found yet, each once. -/
def unfound (next : α → List α) (found : List α) (x : α) : List α :=
  ((next x).filter (· ∉ found)).dedup

/-- Which of the unprocessed is taken out. -/
def popped (pop : List α → Nat) (x : α) (xs : List α) : Fin (x :: xs).length :=
  ⟨pop (x :: xs) % (x :: xs).length, Nat.mod_lt _ (Nat.succ_pos _)⟩

def worklist (next : α → List α) (pop : List α → Nat) : Nat → List α → List α → Option (List α)
  | 0, _, _ => none
  | _ + 1, found, [] => some found
  | fuel + 1, found, x :: xs =>
    let new := unfound next found ((x :: xs).get (popped pop x xs))
    worklist next pop fuel (found ++ new) ((x :: xs).eraseIdx (popped pop x xs) ++ new)

section

variable {next : α → List α} {pop : List α → Nat} {found : List α} {x y z : α}

theorem mem_unfound : y ∈ unfound next found x ↔ y ∈ next x ∧ y ∉ found := by
  unfold unfound
  rw [List.mem_dedup, List.mem_filter, decide_eq_true_iff]

omit [DecidableEq α] in
theorem mem_of_mem_eraseIdx {l : List α} {i : Fin l.length} (h : y ∈ l) :
    y = l.get i ∨ y ∈ l.eraseIdx i :=
  List.mem_cons.mp ((List.getElem_cons_eraseIdx_perm i.isLt).mem_iff.mpr h)

/-- Everything found is kept, in the end what is next to it is found too, and all of it was reached. -/
theorem worklist_spec {fuel : Nat} {todo r : List α} (h : worklist next pop fuel found todo = some r)
    (hsub : ∀ y ∈ todo, y ∈ found) (hclosed : ∀ y ∈ found, y ∈ todo ∨ ∀ z ∈ next y, z ∈ found) :
    (∀ y ∈ found, y ∈ r) ∧ (∀ y ∈ r, ∀ z ∈ next y, z ∈ r) ∧
      ∀ z ∈ r, ∃ y ∈ found, Relation.ReflTransGen (fun a b => b ∈ next a) y z := by
  induction fuel generalizing found todo with
  | zero => cases h
  | succ fuel ih =>
    cases todo with
    | nil =>
      cases h
      refine ⟨fun _ hy => hy, fun y hy => ?_, fun z hz => ⟨z, hz, .refl⟩⟩
      exact (hclosed y hy).resolve_left List.not_mem_nil
    | cons x xs =>
      simp only [worklist] at h
      have hpopped : (x :: xs).get (popped pop x xs) ∈ found := hsub _ (List.get_mem _ _)
      obtain ⟨hkept, hnext, hreach⟩ := ih h
        (fun y hy => by
          rcases List.mem_append.mp hy with hy | hy
          · exact List.mem_append_left _ (hsub y (List.mem_of_mem_eraseIdx hy))
          · exact List.mem_append_right _ hy)
        (fun y hy => by
          rcases List.mem_append.mp hy with hy | hy
          · rcases hclosed y hy with htodo | hdone
            · rcases mem_of_mem_eraseIdx (i := popped pop x xs) htodo with rfl | hrest
              · -- the one that is taken out: what is next to it was found before or is now
                refine .inr fun z hz => ?_
                by_cases hzf : z ∈ found
                · exact List.mem_append_left _ hzf
                · exact List.mem_append_right _ (mem_unfound.mpr ⟨hz, hzf⟩)
              · exact .inl (List.mem_append_left _ hrest)
            · exact .inr fun z hz => List.mem_append_left _ (hdone z hz)
          · exact .inl (List.mem_append_right _ hy))
      refine ⟨fun y hy => hkept y (List.mem_append_left _ hy), hnext, fun z hz => ?_⟩
      obtain ⟨y, hy, hyz⟩ := hreach z hz
      rcases List.mem_append.mp hy with hy | hy
      · exact ⟨y, hy, hyz⟩
      · exact ⟨_, hpopped, .head (mem_unfound.mp hy).1 hyz⟩

/-- What is found from seeds is what they reach. -/
theorem mem_worklist_iff {fuel : Nat} {seeds r : List α}
    (h : worklist next pop fuel seeds seeds = some r) :
    z ∈ r ↔ ∃ y ∈ seeds, Relation.ReflTransGen (fun a b => b ∈ next a) y z := by
  obtain ⟨hkept, hnext, hreach⟩ := worklist_spec h (fun _ hy => hy) fun _ hy => .inl hy
  refine ⟨hreach z, ?_⟩
  rintro ⟨y, hy, hyz⟩
  induction hyz with
  | refl => exact hkept y hy
  | tail _ hlast ih => exact hnext _ ih _ hlast

/-- What is found is no longer to be found. -/
theorem length_filter_unfound (found : List α) (x : α) {all : List α} (hall : ∀ x, ∀ y ∈ next x, y ∈ all) :
    (all.filter (· ∉ found ++ unfound next found x)).length + (unfound next found x).length ≤
      (all.filter (· ∉ found)).length := by
  have hsplit : all.filter (· ∉ found ++ unfound next found x) =
      (all.filter (· ∉ found)).filter (fun y => !decide (y ∈ unfound next found x)) := by
    rw [List.filter_filter]
    refine List.filter_congr fun y _ => ?_
    simp only [List.mem_append, not_or, Bool.decide_and, decide_not, Bool.and_comm]
  have hle : (unfound next found x).length ≤
      ((all.filter (· ∉ found)).filter (fun y => decide (y ∈ unfound next found x))).length := by
    refine (List.subperm_of_subset (List.nodup_dedup _) fun y hy => ?_).length_le
    obtain ⟨hnext, hy'⟩ := mem_unfound.mp hy
    exact List.mem_filter.mpr ⟨List.mem_filter.mpr ⟨hall x y hnext, by simpa using hy'⟩,
      decide_eq_true hy⟩
  have hlength := List.length_eq_length_filter_add (l := all.filter (· ∉ found))
    (fun y => decide (y ∈ unfound next found x))
  rw [hsplit]
  omega

/-- Within a finite universe there is an end. -/
theorem worklist_isSome (all : List α) (hall : ∀ x, ∀ y ∈ next x, y ∈ all) {fuel : Nat}
    {todo : List α} (hfuel : todo.length + (all.filter (· ∉ found)).length < fuel) :
    ∃ r, worklist next pop fuel found todo = some r := by
  induction fuel generalizing found todo with
  | zero => omega
  | succ fuel ih =>
    cases todo with
    | nil => exact ⟨found, rfl⟩
    | cons x xs =>
      simp only [worklist]
      refine ih ?_
      have hlength := length_filter_unfound found ((x :: xs).get (popped pop x xs)) hall
      rw [List.length_append, List.length_eraseIdx_of_lt (popped pop x xs).isLt]
      rw [List.length_cons] at hfuel ⊢
      omega

end

end Reboot.Lib
