import Mathlib.Logic.Relation

/-!
# Runs of a partial step function

A system here is a type of states `σ`, a type of actions `α` and a function
`step : σ → α → Option σ`: `none` means that the action is not enabled. All
nondeterminism — which coroutine is resumed, whether a message is delivered,
where a process dies — is in the choice of the next action, so one step
function describes every interleaving and still evaluates on concrete runs.

Two notions of "run" are used side by side:

* `exec` folds the step function over a list of actions, for concrete runs;
* `Reach step ok s₀ s` says that `s` is reached from `s₀` by a run in which
  every step meets `ok` *in the state before it*. With `ok := fun _ _ => True`
  this is plain reachability; a narrower `ok` is how a result says "as long as
  no crash falls into that window".

`Reach.invariant` is the one induction on runs: an invariant that holds at the
start and is preserved by every step that meets `ok` holds in every state
reached. `reach_last` turns a concrete run into a `Reach`.
-/

namespace Reboot.Lib

variable {σ α : Type*}

/-- Fold a step function over a list of actions. -/
def exec (step : σ → α → Option σ) : σ → List α → Option σ
  | s, [] => some s
  | s, a :: as =>
    match step s a with
    | none => none
    | some s' => exec step s' as

/-- `s` is reached from `s₀` by steps that all meet `ok`. -/
inductive Reach (step : σ → α → Option σ) (ok : σ → α → Prop) (s₀ : σ) : σ → Prop
  | init : Reach step ok s₀ s₀
  | step {s s' : σ} {a : α} (hr : Reach step ok s₀ s) (hok : ok s a)
      (hs : step s a = some s') : Reach step ok s₀ s'

/-- The invariant rule: initially true and preserved by every step that meets
`ok`, hence true in every state reached. -/
theorem Reach.invariant {step : σ → α → Option σ} {ok : σ → α → Prop} {s₀ s : σ}
    (I : σ → Prop) (h0 : I s₀)
    (hstep : ∀ s a s', I s → ok s a → step s a = some s' → I s')
    (h : Reach step ok s₀ s) : I s := by
  induction h with
  | init => exact h0
  | step _ hok hs ih => exact hstep _ _ _ ih hok hs

/-- Every step of the run of `as` from `s` is enabled and meets `ok`. -/
def RunOk (step : σ → α → Option σ) (ok : σ → α → Prop) : σ → List α → Prop
  | _, [] => True
  | s, a :: as =>
    ok s a ∧
      match step s a with
      | none => False
      | some s' => RunOk step ok s' as

instance RunOk.decidable (step : σ → α → Option σ) (ok : σ → α → Prop)
    [∀ s a, Decidable (ok s a)] : ∀ (s : σ) (as : List α), Decidable (RunOk step ok s as)
  | _, [] => isTrue trivial
  | s, a :: as =>
    have : Decidable (match step s a with
        | none => False
        | some s' => RunOk step ok s' as) :=
      match step s a with
      | none => isFalse id
      | some s' => RunOk.decidable step ok s' as
    inferInstanceAs (Decidable (_ ∧ _))

/-- The last state of a concrete run, or the first one if the run gets stuck. -/
def last (step : σ → α → Option σ) (s : σ) (as : List α) : σ := (exec step s as).getD s

theorem exec_eq_last {step : σ → α → Option σ} {s : σ} {as : List α}
    (h : (exec step s as).isSome = true) : exec step s as = some (last step s as) := by
  obtain ⟨s', hs'⟩ := Option.isSome_iff_exists.mp h
  rw [last, hs', Option.getD_some]

/-- A concrete run whose steps meet `ok` reaches its last state. -/
theorem reach_last {step : σ → α → Option σ} {ok : σ → α → Prop} {s₀ : σ} :
    ∀ (as : List α) {s : σ}, Reach step ok s₀ s → RunOk step ok s as →
      Reach step ok s₀ (last step s as) := by
  intro as
  induction as with
  | nil =>
    intro s hr _
    exact hr
  | cons a as ih =>
    intro s hr hok
    simp only [RunOk] at hok
    simp only [last, exec]
    cases hs : step s a with
    | none =>
      rw [hs] at hok
      exact hok.2.elim
    | some s1 =>
      rw [hs] at hok
      have hlast := ih (hr.step hok.1 hs) hok.2
      show Reach step ok s₀ ((exec step s1 as).getD s)
      cases he : exec step s1 as with
      | none => exact hr
      | some s2 =>
        simp only [last, he, Option.getD_some] at hlast
        exact hlast

/-- A run that meets more meets less. -/
theorem Reach.mono {step : σ → α → Option σ} {ok ok' : σ → α → Prop} {s₀ s : σ}
    (hok : ∀ s a, ok s a → ok' s a) (h : Reach step ok s₀ s) : Reach step ok' s₀ s := by
  induction h with
  | init => exact .init
  | step _ ha hs ih => exact ih.step (hok _ _ ha) hs

/-- Where a concrete run ends. -/
theorem reach_of_exec {step : σ → α → Option σ} {s₀ : σ} : ∀ (as : List α) {s s' : σ},
    Reach step (fun _ _ => True) s₀ s → exec step s as = some s' →
      Reach step (fun _ _ => True) s₀ s'
  | [], s, s', hr, h => by
    cases h
    exact hr
  | a :: as, s, s', hr, h => by
    simp only [exec] at h
    split at h
    next => cases h
    next s1 hs => exact reach_of_exec as (hr.step trivial hs) h

end Reboot.Lib
