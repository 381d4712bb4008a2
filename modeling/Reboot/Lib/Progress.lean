import Reboot.Lib.Run

/-!
# Runs that get somewhere

`Reach.invariant` says what no run can leave; this file is about what some run can do. A
progress proof plays a schedule: a step, then another one, then the same few steps for every
member of a list. `Reach.now` is one step, `Reach.append` puts two schedules one after the
other, and `Reach.each` is the turn of everybody in a list: an invariant keeps each turn
possible, and what a turn achieved is not undone by the turns of the others.
-/

namespace Reboot.Lib

variable {σ α β : Type*} {step : σ → α → Option σ} {ok : σ → α → Prop}

/-- One step. -/
theorem Reach.now {s s' : σ} {a : α} (hok : ok s a) (hs : step s a = some s') :
    Reach step ok s s' :=
  Reach.init.step hok hs

/-- One run after another. -/
theorem Reach.append {s₀ s s' : σ} (h : Reach step ok s₀ s) (h' : Reach step ok s s') :
    Reach step ok s₀ s' := by
  induction h' with
  | init => exact h
  | step _ hok hs ih => exact ih.step hok hs

/-- Everybody in a list has a turn. `I` makes a turn possible and holds again after it; a turn
of `b` achieves `Q b` and undoes nothing. -/
theorem Reach.each (bs : List β) (I : σ → Prop) (Q : β → σ → Prop)
    (hturn : ∀ b ∈ bs, ∀ s, I s →
      ∃ s', Reach step ok s s' ∧ I s' ∧ Q b s' ∧ ∀ c ∈ bs, Q c s → Q c s') :
    ∀ s, I s → ∃ s', Reach step ok s s' ∧ I s' ∧ ∀ b ∈ bs, Q b s' := by
  suffices hall : ∀ turns : List β, (∀ b ∈ turns, b ∈ bs) → ∀ s, I s →
      ∃ s', Reach step ok s s' ∧ I s' ∧ (∀ b ∈ turns, Q b s') ∧
        ∀ c ∈ bs, Q c s → Q c s' by
    intro s hi
    obtain ⟨s', hreach, hi', hq, _⟩ := hall bs (fun _ hb => hb) s hi
    exact ⟨s', hreach, hi', hq⟩
  intro turns
  induction turns with
  | nil =>
    intro _ s hi
    exact ⟨s, .init, hi, fun _ hb => absurd hb List.not_mem_nil, fun _ _ hq => hq⟩
  | cons b turns ih =>
    intro hsub s hi
    obtain ⟨s₁, hreach₁, hi₁, hq₁, hkeep₁⟩ := hturn b (hsub b List.mem_cons_self) s hi
    obtain ⟨s₂, hreach₂, hi₂, hq₂, hkeep₂⟩ :=
      ih (fun c hc => hsub c (List.mem_cons_of_mem _ hc)) s₁ hi₁
    refine ⟨s₂, hreach₁.append hreach₂, hi₂, ?_, fun c hc hq => hkeep₂ c hc (hkeep₁ c hc hq)⟩
    intro c hc
    rcases List.mem_cons.mp hc with rfl | hc
    · exact hkeep₂ c (hsub c List.mem_cons_self) hq₁
    · exact hq₂ c hc

end Reboot.Lib
