import Mathlib.Data.List.Forall2

/-!
# Patterns of pieces

A pattern is a list of languages, and it accepts the words that are words of its languages one after
another (`accepts_cons_iff`). More liberal pieces make a more liberal pattern (`accepts_mono`), and
pieces that are single letters accept one word (`accepts_letters`).
-/

namespace Reboot.Lib

variable {α : Type}

/-- Whether the word is one word of each language after another. -/
def accepts : List (List α → Bool) → List α → Bool
  | [], word => word.isEmpty
  | language :: languages, word =>
    (List.range (word.length + 1)).any fun i =>
      language (word.take i) && accepts languages (word.drop i)

theorem accepts_nil_iff {word : List α} : accepts [] word = true ↔ word = [] :=
  List.isEmpty_iff

theorem accepts_cons (language : List α → Bool) (languages : List (List α → Bool))
    (word : List α) : accepts (language :: languages) word =
      (List.range (word.length + 1)).any fun i =>
        language (word.take i) && accepts languages (word.drop i) := rfl

theorem accepts_cons_iff {language : List α → Bool} {languages : List (List α → Bool)}
    {word : List α} : accepts (language :: languages) word = true ↔
      ∃ front back, word = front ++ back ∧ language front = true ∧
        accepts languages back = true := by
  rw [accepts_cons, List.any_eq_true]
  constructor
  · rintro ⟨i, -, hi⟩
    rw [Bool.and_eq_true] at hi
    exact ⟨word.take i, word.drop i, (List.take_append_drop i word).symm, hi⟩
  · rintro ⟨front, back, rfl, hfront, hback⟩
    refine ⟨front.length, ?_, ?_⟩
    · rw [List.mem_range, List.length_append]
      omega
    · rw [List.take_left', List.drop_left', hfront, hback]
      · rfl
      · rfl
      · rfl

/-- A pattern of more liberal pieces. -/
theorem accepts_mono {languages languages' : List (List α → Bool)}
    (h : List.Forall₂ (fun l l' => ∀ word, l word = true → l' word = true) languages languages')
    {word : List α} (hword : accepts languages word = true) : accepts languages' word = true := by
  induction h generalizing word with
  | nil => exact hword
  | cons hhead _ ih =>
    obtain ⟨front, back, rfl, hfront, hback⟩ := accepts_cons_iff.mp hword
    exact accepts_cons_iff.mpr ⟨front, back, rfl, hhead front hfront, ih hback⟩

/-- Letters that are in a word are in a word of one of the pieces. -/
theorem accepts_forall {p : α → Prop} {languages : List (List α → Bool)}
    (h : ∀ language ∈ languages, ∀ word, language word = true → ∀ a ∈ word, p a) {word : List α}
    (hword : accepts languages word = true) : ∀ a ∈ word, p a := by
  induction languages generalizing word with
  | nil =>
    rw [accepts_nil_iff.mp hword]
    exact fun a ha => (nomatch ha)
  | cons language languages ih =>
    rw [List.forall_mem_cons] at h
    obtain ⟨front, back, rfl, hfront, hback⟩ := accepts_cons_iff.mp hword
    intro a ha
    rcases List.mem_append.mp ha with hmem | hmem
    · exact h.1 front hfront a hmem
    · exact ih h.2 hback a hmem

section Letters

variable [DecidableEq α]

/-- The language of one letter. -/
def letter (a : α) : List α → Bool := fun word => word = [a]

/-- A letter is the first of the word. -/
theorem accepts_letter_cons_iff {a : α} {languages : List (List α → Bool)} {word : List α} :
    accepts (letter a :: languages) word = true ↔
      ∃ back, word = a :: back ∧ accepts languages back = true := by
  rw [accepts_cons_iff]
  constructor
  · rintro ⟨front, back, rfl, hfront, hback⟩
    have heq : front = [a] := of_decide_eq_true hfront
    exact ⟨back, by rw [heq]; rfl, hback⟩
  · rintro ⟨back, rfl, hback⟩
    exact ⟨[a], back, rfl, decide_eq_true rfl, hback⟩

/-- Letters accept the word that they spell. -/
theorem accepts_letters {letters word : List α} :
    accepts (letters.map letter) word = true ↔ word = letters := by
  induction letters generalizing word with
  | nil => exact accepts_nil_iff
  | cons a letters ih =>
    rw [List.map_cons, accepts_letter_cons_iff]
    constructor
    · rintro ⟨back, rfl, hback⟩
      rw [ih.mp hback]
    · rintro rfl
      exact ⟨letters, rfl, ih.mpr rfl⟩

end Letters

end Reboot.Lib
