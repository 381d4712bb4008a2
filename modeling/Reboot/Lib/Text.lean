import Mathlib.Data.List.Basic

/-!
# Strings as lists of characters

`Str` is a string as the list of its characters, so that the list library applies
to it. `List.splitOn` is Python's `s.split(c)`; what is added here is the split at
the first separator only, with the lemmas both directions of a parser need: what a
cut yields, and how a string that was put together is cut again.
-/

namespace Reboot.Lib

/-- A string. -/
abbrev Str := List Char

/-- What is asked of every character of a string is decided character by character,
and not by going through all characters there are. -/
instance (priority := 2000) decidableForallMem (s : Str) (p : Char → Prop) [DecidablePred p] :
    Decidable (∀ c ∈ s, p c) :=
  List.decidableBAll p s

instance (priority := 2000) decidableForallHead (o : Option Char) (p : Char → Prop)
    [DecidablePred p] : Decidable (∀ c ∈ o, p c) :=
  Option.decidableForallMem o

instance (priority := 2000) decidableExistsHead (o : Option Char) (p : Char → Prop)
    [DecidablePred p] : Decidable (∃ c ∈ o, p c) :=
  Option.decidableExistsMem o

/-- Equality of strings by `==` is equality, which is what `s ∈ l` is decided by. -/
instance (priority := 2000) lawfulBEqStr :
    @LawfulBEq (List Char) (@List.instBEq Char instBEqOfDecidableEq) :=
  inferInstance

/-- Cut a string at the first `c`, which is dropped; `none` if there is none. -/
def cutFirst (c : Char) : Str → Option (Str × Str)
  | [] => none
  | a :: s => if a = c then some ([], s) else (cutFirst c s).map fun p => (a :: p.1, p.2)

theorem cutFirst_eq_none {c : Char} : ∀ {s : Str}, cutFirst c s = none ↔ c ∉ s
  | [] => by simp [cutFirst]
  | a :: s => by
    by_cases h : a = c
    · simp [cutFirst, h]
    · have h' : ¬ c = a := fun e => h e.symm
      simp [cutFirst, h, h', cutFirst_eq_none (s := s)]

/-- A string put together at a separator is cut at that place. -/
theorem cutFirst_append {c : Char} {b : Str} : ∀ {a : Str}, c ∉ a →
    cutFirst c (a ++ c :: b) = some (a, b)
  | [], _ => by simp [cutFirst]
  | x :: a, h => by
    have hx : ¬ x = c := fun e => h (e ▸ List.mem_cons_self ..)
    have ha : c ∉ a := fun e => h (List.mem_cons_of_mem _ e)
    simp [cutFirst, hx, cutFirst_append ha]

/-- What a cut yields, put together, is the string. -/
theorem cutFirst_eq_some {c : Char} : ∀ {s a b : Str}, cutFirst c s = some (a, b) →
    s = a ++ c :: b ∧ c ∉ a
  | [], a, b, h => by simp [cutFirst] at h
  | x :: s, a, b, h => by
    by_cases hx : x = c
    · simp only [cutFirst, hx, if_true, Option.some.injEq, Prod.mk.injEq] at h
      obtain ⟨rfl, rfl⟩ := h
      exact ⟨by simp [hx], by simp⟩
    · simp only [cutFirst, hx, if_false, Option.map_eq_some_iff] at h
      obtain ⟨⟨a', b'⟩, h', he⟩ := h
      obtain ⟨rfl, hn⟩ := cutFirst_eq_some h'
      cases he
      refine ⟨rfl, ?_⟩
      rw [List.mem_cons, not_or]
      exact ⟨fun e => hx e.symm, hn⟩

/-- A string that holds the separator splits into at least two parts, of which the
first is free of it. -/
theorem splitOn_of_mem {c : Char} {s : Str} (h : c ∈ s) :
    ∃ a b rest, s.splitOn c = a :: b :: rest ∧ c ∉ a := by
  cases hc : cutFirst c s with
  | none => exact absurd h (cutFirst_eq_none.mp hc)
  | some p =>
    obtain ⟨a, b⟩ := p
    obtain ⟨rfl, hn⟩ := cutFirst_eq_some hc
    rw [List.splitOn_append_cons_self_of_not_mem hn]
    cases hb : b.splitOn c with
    | nil => exact absurd hb (List.splitOn_ne_nil c b)
    | cons b' rest => exact ⟨a, b', rest, rfl, hn⟩

/-- Every other character of a string is in one of the parts. -/
theorem exists_mem_splitOn {c x : Char} (hx : x ≠ c) : ∀ {s : Str}, x ∈ s →
    ∃ p ∈ s.splitOn c, x ∈ p
  | [], h => absurd h (List.not_mem_nil)
  | a :: s, h => by
    rw [List.splitOn_cons_eq_if_modifyHead]
    split
    next ha =>
      have hs : x ∈ s := by
        rcases List.mem_cons.mp h with rfl | hs
        · exact absurd (beq_iff_eq.mp ha) hx
        · exact hs
      obtain ⟨p, hp, hxp⟩ := exists_mem_splitOn hx hs
      exact ⟨p, List.mem_cons_of_mem _ hp, hxp⟩
    next ha =>
      cases hsp : s.splitOn c with
      | nil => exact absurd hsp (List.splitOn_ne_nil c s)
      | cons p ps =>
        rw [List.modifyHead_cons]
        rcases List.mem_cons.mp h with rfl | hs
        · exact ⟨x :: p, List.mem_cons_self .., List.mem_cons_self ..⟩
        · obtain ⟨q, hq, hxq⟩ := exists_mem_splitOn hx hs
          rw [hsp] at hq
          rcases List.mem_cons.mp hq with rfl | hq'
          · exact ⟨a :: q, List.mem_cons_self .., List.mem_cons_of_mem _ hxq⟩
          · exact ⟨q, List.mem_cons_of_mem _ hq', hxq⟩

/-- The parts are free of the separator. -/
theorem not_mem_of_mem_splitOn {c : Char} : ∀ {s p : Str}, p ∈ s.splitOn c → c ∉ p
  | [], p, hp => by
    rw [List.splitOn_nil, List.mem_singleton] at hp
    exact hp ▸ List.not_mem_nil
  | a :: s, p, hp => by
    rw [List.splitOn_cons_eq_if_modifyHead] at hp
    split at hp
    next =>
      rcases List.mem_cons.mp hp with rfl | hp
      · exact List.not_mem_nil
      · exact not_mem_of_mem_splitOn hp
    next ha =>
      have hne : c ≠ a := fun e => ha (beq_iff_eq.mpr e.symm)
      have hparts : ∀ q ∈ s.splitOn c, c ∉ q := fun q hq => not_mem_of_mem_splitOn hq
      cases hsp : s.splitOn c with
      | nil => exact absurd hsp (List.splitOn_ne_nil c s)
      | cons q qs =>
        rw [hsp] at hp hparts
        rw [List.modifyHead_cons] at hp
        rw [List.forall_mem_cons] at hparts
        rcases List.mem_cons.mp hp with rfl | hp
        · exact List.not_mem_cons_of_ne_of_not_mem hne hparts.1
        · exact hparts.2 p hp

/-- Joined parts are the last part, or end in the separator and the last part. -/
theorem intercalate_concat (c : Char) (last : Str) : ∀ parts : List Str,
    [c].intercalate (parts ++ [last]) = last ∨
      ∃ front, [c].intercalate (parts ++ [last]) = front ++ c :: last
  | [] => .inl List.intercalate_singleton
  | p :: parts => by
    have hne : parts ++ [last] ≠ [] := by simp
    rw [List.cons_append, List.intercalate_cons_of_ne_nil hne, List.append_assoc,
      List.singleton_append]
    rcases intercalate_concat c last parts with heq | ⟨front, heq⟩
    · exact .inr ⟨p, by rw [heq]⟩
    · exact .inr ⟨p ++ c :: front, by rw [heq, List.append_assoc, List.cons_append]⟩

/-- The digits tell the number. -/
theorem toDigits_injective {n n' : Nat} (h : Nat.toDigits 10 n = Nat.toDigits 10 n') : n = n' := by
  rw [← Nat.ofDigitChars_toDigits (b := 10) (n := n) (by decide) (by decide), h,
    Nat.ofDigitChars_toDigits (by decide) (by decide)]

end Reboot.Lib
