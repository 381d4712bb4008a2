import Mathlib.Algebra.GroupWithZero.Nat
import Mathlib.Data.Fintype.Basic
import Mathlib.Data.Char
import Reboot.Lib.Text

/-!
# URL-safe base64

Python's `base64.urlsafe_b64encode` and `base64.urlsafe_b64decode` on strings and
byte strings as lists. The decoder is CPython's non-strict state machine, which is
more permissive than the encoding: characters outside the alphabet are skipped, and
padding ends the input only once it completes a quad. `urlsafeB64decode_encode` is
the round trip.

`urlsafe_b64decode` maps `-` and `_` to `+` and `/` before decoding, so both
spellings of the last two digits are accepted.
-/

namespace Reboot.Lib

/-- A byte. -/
abbrev Byte := Fin 256

/-- The literals of a byte are read modulo a number that is not zero. -/
instance (priority := 2000) neZeroByte : NeZero 256 := ⟨by decide⟩

/-- The digits, in order. -/
def base64Alphabet : List Char :=
  "ABCDEFGHIJKLMNOPQRSTUVWXYZabcdefghijklmnopqrstuvwxyz0123456789-_".toList

/-- The digit for a value below 64. -/
def base64Char (n : Nat) : Char := base64Alphabet.getD n 'A'

/-- The value of a digit, in either spelling of the last two. -/
def base64Value (c : Char) : Option Nat :=
  if 'A' ≤ c ∧ c ≤ 'Z' then some (c.toNat - 65)
  else if 'a' ≤ c ∧ c ≤ 'z' then some (c.toNat - 97 + 26)
  else if '0' ≤ c ∧ c ≤ '9' then some (c.toNat - 48 + 52)
  else if c = '-' ∨ c = '+' then some 62
  else if c = '_' ∨ c = '/' then some 63
  else none

/-- `base64.urlsafe_b64encode`. -/
def urlsafeB64encode : List Byte → List Char
  | [] => []
  | [a] => [base64Char (a / 4), base64Char (a % 4 * 16), '=', '=']
  | [a, b] =>
    [base64Char (a / 4), base64Char (a % 4 * 16 + b / 16), base64Char (b % 16 * 4), '=']
  | a :: b :: c :: rest =>
    base64Char (a / 4) :: base64Char (a % 4 * 16 + b / 16) ::
      base64Char (b % 16 * 4 + c / 64) :: base64Char (c % 64) :: urlsafeB64encode rest

/-- `binascii.a2b_base64` without `strict_mode`: `quadPos` counts the digits of the
current quad, `leftchar` holds the bits not yet written. -/
def a2bBase64 : List Char → (quadPos leftchar pads : Nat) → List Nat → Option (List Nat)
  | [], quadPos, _, _, out => if quadPos = 0 then some out else none
  | c :: cs, quadPos, leftchar, pads, out =>
    if c = '=' then
      -- `pads` is only counted once two digits of the quad are there
      if quadPos ≥ 2 then
        if quadPos + (pads + 1) ≥ 4 then some out
        else a2bBase64 cs quadPos leftchar (pads + 1) out
      else a2bBase64 cs quadPos leftchar pads out
    else
      match base64Value c with
      | none => a2bBase64 cs quadPos leftchar pads out
      | some v =>
        match quadPos with
        | 0 => a2bBase64 cs 1 v 0 out
        | 1 => a2bBase64 cs 2 (v % 16) 0 (out ++ [leftchar * 4 + v / 16])
        | 2 => a2bBase64 cs 3 (v % 4) 0 (out ++ [leftchar * 16 + v / 4])
        | _ => a2bBase64 cs 0 0 0 (out ++ [leftchar * 64 + v])

/-- `base64.urlsafe_b64decode`; `none` is `binascii.Error`. -/
def urlsafeB64decode (s : List Char) : Option (List Nat) := a2bBase64 s 0 0 0 []

/-! ## The round trip -/

theorem base64Char_spec : ∀ n : Fin 64,
    base64Value (base64Char n) = some n.val ∧ base64Char n ≠ '=' := by
  decide +kernel

theorem base64Value_char {n : Nat} (h : n < 64) : base64Value (base64Char n) = some n :=
  (base64Char_spec ⟨n, h⟩).1

theorem base64Char_ne_pad {n : Nat} (h : n < 64) : base64Char n ≠ '=' :=
  (base64Char_spec ⟨n, h⟩).2

section

variable {cs : List Char} {n l p : Nat} {out : List Nat}

theorem a2bBase64_digit0 (h : n < 64) :
    a2bBase64 (base64Char n :: cs) 0 l p out = a2bBase64 cs 1 n 0 out := by
  simp only [a2bBase64, base64Char_ne_pad h, base64Value_char h, if_false]

theorem a2bBase64_digit1 (h : n < 64) :
    a2bBase64 (base64Char n :: cs) 1 l p out =
      a2bBase64 cs 2 (n % 16) 0 (out ++ [l * 4 + n / 16]) := by
  simp only [a2bBase64, base64Char_ne_pad h, base64Value_char h, if_false]

theorem a2bBase64_digit2 (h : n < 64) :
    a2bBase64 (base64Char n :: cs) 2 l p out =
      a2bBase64 cs 3 (n % 4) 0 (out ++ [l * 16 + n / 4]) := by
  simp only [a2bBase64, base64Char_ne_pad h, base64Value_char h, if_false]

theorem a2bBase64_digit3 (h : n < 64) :
    a2bBase64 (base64Char n :: cs) 3 l p out =
      a2bBase64 cs 0 0 0 (out ++ [l * 64 + n]) := by
  simp only [a2bBase64, base64Char_ne_pad h, base64Value_char h, if_false]

end

/-- Decoding an encoding appends the bytes to what was decoded before. -/
theorem a2bBase64_encode (bs : List Byte) : ∀ out : List Nat,
    a2bBase64 (urlsafeB64encode bs) 0 0 0 out = some (out ++ bs.map Fin.val) := by
  induction bs using urlsafeB64encode.induct with
  | case1 => intro out; simp [urlsafeB64encode, a2bBase64]
  | case2 a =>
    intro out
    have ha := a.isLt
    rw [urlsafeB64encode, a2bBase64_digit0 (by omega), a2bBase64_digit1 (by omega)]
    simp only [a2bBase64]
    simp
    omega
  | case3 a b =>
    intro out
    have ha := a.isLt
    have hb := b.isLt
    rw [urlsafeB64encode, a2bBase64_digit0 (by omega), a2bBase64_digit1 (by omega),
      a2bBase64_digit2 (by omega)]
    simp only [a2bBase64]
    simp
    omega
  | case4 a b c rest ih =>
    intro out
    have ha := a.isLt
    have hb := b.isLt
    have hc := c.isLt
    rw [urlsafeB64encode, a2bBase64_digit0 (by omega), a2bBase64_digit1 (by omega),
      a2bBase64_digit2 (by omega), a2bBase64_digit3 (by omega), ih]
    simp
    omega

/-- Decoding undoes encoding. -/
theorem urlsafeB64decode_encode (bs : List Byte) :
    urlsafeB64decode (urlsafeB64encode bs) = some (bs.map Fin.val) := by
  simpa [urlsafeB64decode] using a2bBase64_encode bs []

end Reboot.Lib
