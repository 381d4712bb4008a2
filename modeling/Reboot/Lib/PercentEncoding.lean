import Mathlib.Data.List.Infix
import Reboot.Lib.Json

/-!
# Percent encoding

`encodeURIComponent` of an ASCII text, and the decoder that replaces each `%` with two hexadecimal
digits behind it by the byte, from left to right, and leaves everything else. `percentDecode_encode`
is the round trip, in front of any other text.

A `%` is no hexadecimal digit, so no escape begins inside another one: `mem_percentDecode_iff` says
that a character that is no digit is in a decoded text if and only if it is in the text itself, or an
escape of it is somewhere in it.
-/

namespace Reboot.Lib

/-- The upper-case hexadecimal digit. -/
def hexUpper (n : Nat) : Char := "0123456789ABCDEF".toList.getD n '0'

/-- The escape of a byte. -/
def percentByte (n : Nat) : Str := ['%', hexUpper (n / 16), hexUpper (n % 16)]

/-- What `encodeURIComponent` leaves as it is. -/
def isUnreserved (c : Char) : Bool := c.isAlphanum || c ∈ "-_.!~*'()".toList

/-- `encodeURIComponent` of an ASCII text. -/
def encodeURIComponent (s : Str) : Str :=
  s.flatMap fun c => if isUnreserved c then [c] else percentByte c.toNat

/-- The byte that two hexadecimal digits stand for, as a character. -/
def hexPair (a b : Char) : Option Char :=
  match hexValue a, hexValue b with
  | some x, some y => some (Char.ofNat (16 * x + y))
  | _, _ => none

/-- Each `%XX` is replaced by its byte. -/
def percentDecode : Str → Str
  | [] => []
  | '%' :: a :: b :: rest =>
    match hexPair a b with
    | some c => c :: percentDecode rest
    | none => '%' :: percentDecode (a :: b :: rest)
  | c :: rest => c :: percentDecode rest

/-! ## Round trip -/

theorem percentDecode_cons {c : Char} (hc : c ≠ '%') (rest : Str) :
    percentDecode (c :: rest) = c :: percentDecode rest := by
  rw [percentDecode]
  intro a b rest' heq
  exact absurd heq hc

/-- A text without `%` is left as it is. -/
theorem percentDecode_append {front : Str} (h : '%' ∉ front) (rest : Str) :
    percentDecode (front ++ rest) = front ++ percentDecode rest := by
  induction front with
  | nil => rfl
  | cons c front ih =>
    rw [List.mem_cons, not_or] at h
    rw [List.cons_append, percentDecode_cons (Ne.symm h.1), ih h.2, List.cons_append]

theorem hexValue_hexUpper : ∀ n < 16, hexValue (hexUpper n) = some n := by decide

theorem percentDecode_byte {c : Char} (hc : c.toNat < 256) (rest : Str) :
    percentDecode (percentByte c.toNat ++ rest) = c :: percentDecode rest := by
  have hpair : hexPair (hexUpper (c.toNat / 16)) (hexUpper (c.toNat % 16)) = some c := by
    unfold hexPair
    rw [hexValue_hexUpper _ (by omega), hexValue_hexUpper _ (Nat.mod_lt _ (by decide))]
    show some (Char.ofNat (16 * (c.toNat / 16) + c.toNat % 16)) = _
    rw [Nat.div_add_mod, Char.ofNat_toNat]
  show percentDecode ('%' :: hexUpper (c.toNat / 16) :: hexUpper (c.toNat % 16) :: rest) = _
  rw [percentDecode, hpair]

theorem isUnreserved_ne_percent {c : Char} (h : isUnreserved c = true) : c ≠ '%' := by
  rintro rfl
  revert h
  decide

/-- An encoded text is decoded again, and what follows it after it. -/
theorem percentDecode_encode {s : Str} (h : ∀ c ∈ s, c.toNat < 128) (rest : Str) :
    percentDecode (encodeURIComponent s ++ rest) = s ++ percentDecode rest := by
  induction s with
  | nil => rfl
  | cons c s ih =>
    have hc : c.toNat < 128 := h c List.mem_cons_self
    have ih := ih fun d hd => h d (List.mem_cons_of_mem _ hd)
    unfold encodeURIComponent at ih ⊢
    rw [List.flatMap_cons, List.append_assoc]
    split
    · next hunreserved =>
      rw [List.singleton_append, percentDecode_cons (isUnreserved_ne_percent hunreserved), ih,
        List.cons_append]
    · rw [percentDecode_byte (by omega), ih, List.cons_append]

/-- The characters of an encoded text. -/
theorem mem_encodeURIComponent {s : Str} {d : Char} (h : d ∈ encodeURIComponent s) :
    isUnreserved d = true ∨ d = '%' ∨ ∃ n, d = hexUpper n := by
  obtain ⟨c, -, hd⟩ := List.mem_flatMap.mp h
  split at hd
  · next hunreserved =>
    obtain rfl := List.mem_singleton.mp hd
    exact .inl hunreserved
  · unfold percentByte at hd
    simp only [List.mem_cons, List.not_mem_nil, or_false] at hd
    rcases hd with rfl | rfl | rfl
    · exact .inr (.inl rfl)
    · exact .inr (.inr ⟨_, rfl⟩)
    · exact .inr (.inr ⟨_, rfl⟩)

/-! ## What a decoded text contains -/

/-- An escape of a character is in a text. -/
def HasEscape (s : Str) (c : Char) : Prop :=
  ∃ a b, ['%', a, b] <:+: s ∧ hexPair a b = some c

theorem hexPair_isSome {a b c : Char} (h : hexPair a b = some c) :
    (hexValue a).isSome = true ∧ (hexValue b).isSome = true := by
  unfold hexPair at h
  split at h
  · next hx hy =>
    rw [hx, hy]
    exact ⟨rfl, rfl⟩
  · cases h

theorem ne_percent_of_hexValue {a : Char} (h : (hexValue a).isSome = true) : a ≠ '%' := by
  rintro rfl
  revert h
  decide

/-- No escape begins with another character. -/
theorem hasEscape_cons {d : Char} (hd : d ≠ '%') {s : Str} {c : Char} :
    HasEscape (d :: s) c ↔ HasEscape s c := by
  unfold HasEscape
  refine exists_congr fun a => exists_congr fun b => and_congr_left' ?_
  rw [List.infix_cons_iff]
  refine or_iff_right fun hstart => hd ?_
  obtain ⟨rest, heq⟩ := hstart
  exact (List.cons.inj heq).1.symm

/-- An escape begins with `%` if what follows is one. -/
theorem hasEscape_percent {a b : Char} {s : Str} {c : Char} :
    HasEscape ('%' :: a :: b :: s) c ↔ hexPair a b = some c ∨ HasEscape (a :: b :: s) c := by
  unfold HasEscape
  constructor
  · rintro ⟨x, y, hwithin, hpair⟩
    rcases List.infix_cons_iff.mp hwithin with ⟨rest, heq⟩ | hwithin
    · simp only [List.cons_append, List.nil_append, List.cons.injEq, true_and] at heq
      obtain ⟨rfl, rfl, -⟩ := heq
      exact .inl hpair
    · exact .inr ⟨x, y, hwithin, hpair⟩
  · rintro (hpair | ⟨x, y, hwithin, hpair⟩)
    · exact ⟨a, b, ⟨[], s, rfl⟩, hpair⟩
    · exact ⟨x, y, hwithin.trans (List.suffix_cons _ _).isInfix, hpair⟩

/-- A character that is neither `%` nor a hexadecimal digit is in a decoded text if and only if it, or an
escape of it, is in the text. -/
theorem mem_percentDecode_iff {c : Char} (hpercent : c ≠ '%') (hhex : hexValue c = none) (s : Str) :
    c ∈ percentDecode s ↔ c ∈ s ∨ HasEscape s c := by
  have hdigit : ∀ {d : Char}, (hexValue d).isSome = true → c ≠ d := fun hd heq => by
    rw [← heq, hhex] at hd
    cases hd
  induction s using percentDecode.induct with
  | case1 => simp [percentDecode, HasEscape]
  | case2 a b rest d hpair ih =>
    have ih : c ∈ percentDecode rest ↔ c ∈ rest ∨ HasEscape rest c := ih
    obtain ⟨ha, hb⟩ := hexPair_isSome hpair
    rw [percentDecode, hpair]
    show c ∈ d :: percentDecode rest ↔ _
    rw [hasEscape_percent, hasEscape_cons (ne_percent_of_hexValue ha),
      hasEscape_cons (ne_percent_of_hexValue hb), hpair, List.mem_cons, ih, Option.some.injEq]
    simp only [List.mem_cons, hpercent, hdigit ha, hdigit hb, false_or]
    rw [eq_comm (a := c)]
    exact or_left_comm
  | case3 a b rest hpair ih =>
    have ih : c ∈ percentDecode (a :: b :: rest) ↔
        c ∈ a :: b :: rest ∨ HasEscape (a :: b :: rest) c := ih
    rw [percentDecode, hpair]
    show c ∈ '%' :: percentDecode (a :: b :: rest) ↔ _
    rw [hasEscape_percent, hpair, List.mem_cons, ih, List.mem_cons (b := '%')]
    simp [hpercent]
  | case4 d rest hnot ih =>
    have ih : c ∈ percentDecode rest ↔ c ∈ rest ∨ HasEscape rest c := ih
    rw [percentDecode]
    · rw [List.mem_cons, List.mem_cons, ih, or_assoc]
      refine or_congr_right (or_congr_right ?_)
      by_cases hd : d = '%'
      · subst hd
        refine ⟨fun ⟨a, b, hwithin, hpair⟩ =>
          ⟨a, b, hwithin.trans (List.suffix_cons _ _).isInfix, hpair⟩, ?_⟩
        rintro ⟨a, b, hwithin, hpair⟩
        rcases List.infix_cons_iff.mp hwithin with ⟨rest', heq⟩ | hwithin
        · simp only [List.cons_append, List.nil_append, List.cons.injEq, true_and] at heq
          exact absurd heq.symm (hnot a b rest' rfl)
        · exact ⟨a, b, hwithin, hpair⟩
      · exact (hasEscape_cons hd).symm
    · exact hnot

end Reboot.Lib
