import Mathlib.Algebra.Group.Nat.Defs
import Mathlib.Data.List.Lex
import Mathlib.Data.Fin.Basic
import Mathlib.Order.Defs.LinearOrder
import Reboot.Lib.Base64
import Reboot.Lib.Text

/-!
# Numbers in a fixed width

Big-endian bytes of a fixed length, as `int.to_bytes(length, "big")` and `setUint32` write them,
hexadecimal digits of a fixed length, as in `'%032x' % n`, and decimal digits padded with zeros, as
in `f"{n:06d}"`. Bytes and digits of one length are in the order of the numbers (`digitsBig_lt`),
so different numbers have different bytes, and `int.from_bytes` reads the first of them as the high
part of the number (`ofBytesBig_take`); padded digits tell numbers apart even where they are longer
than the width (`zeroPad_injective`).
-/

namespace Reboot.Lib

/-! ## Digits in a base -/

/-- The last `length` digits of `n` in a base, most significant first. -/
def digitsBig {α : Type*} (digit : Nat → α) (base : Nat) : (length n : Nat) → List α
  | 0, _ => []
  | length + 1, n =>
    digit (n / base ^ length) :: digitsBig digit base length (n % base ^ length)

@[simp] theorem length_digitsBig {α : Type*} (digit : Nat → α) (base : Nat) :
    ∀ length n : Nat, (digitsBig digit base length n).length = length
  | 0, _ => rfl
  | length + 1, n => by rw [digitsBig, List.length_cons, length_digitsBig]

/-- Digits of one length are ordered as their numbers are. -/
theorem digitsBig_lt {α : Type*} [LT α] {digit : Nat → α} {base : Nat} (hbase : 0 < base)
    (hdigit : ∀ i j, i < j → j < base → digit i < digit j) : ∀ {length n m : Nat}, n < m →
    m < base ^ length → digitsBig digit base length n < digitsBig digit base length m
  | 0, n, m, hnm, hm => by
    rw [Nat.pow_zero] at hm
    omega
  | length + 1, n, m, hnm, hm => by
    have hpos : 0 < base ^ length := Nat.pow_pos hbase
    have hhead : m / base ^ length < base := Nat.div_lt_of_lt_mul (by rwa [← Nat.pow_succ])
    have hle : n / base ^ length ≤ m / base ^ length := Nat.div_le_div_right (Nat.le_of_lt hnm)
    rw [digitsBig, digitsBig, List.cons_lt_cons_iff]
    rcases Nat.lt_or_eq_of_le hle with hlt | heq
    · exact .inl (hdigit _ _ hlt hhead)
    · right
      refine ⟨congrArg digit heq, digitsBig_lt hbase hdigit ?_ (Nat.mod_lt _ hpos)⟩
      have hn := Nat.div_add_mod n (base ^ length)
      have hm' := Nat.div_add_mod m (base ^ length)
      rw [heq] at hn
      omega

/-! ## Bytes -/

/-- The low `8 * length` bits of `n`, most significant byte first. -/
def toBytesBig : (length n : Nat) → List Byte
  | 0, _ => []
  | length + 1, n => Fin.ofNat 256 (n / 256 ^ length) :: toBytesBig length (n % 256 ^ length)

theorem toBytesBig_eq_digitsBig : ∀ length n : Nat,
    toBytesBig length n = digitsBig (Fin.ofNat 256) 256 length n
  | 0, _ => rfl
  | length + 1, n => by rw [toBytesBig, digitsBig, toBytesBig_eq_digitsBig]

@[simp] theorem length_toBytesBig (length n : Nat) : (toBytesBig length n).length = length := by
  rw [toBytesBig_eq_digitsBig, length_digitsBig]

/-- Bytes of one length are ordered as their numbers are. -/
theorem toBytesBig_lt {length n m : Nat} (hnm : n < m) (hm : m < 256 ^ length) :
    toBytesBig length n < toBytesBig length m := by
  have hdigit : ∀ i j, i < j → j < 256 → (Fin.ofNat 256 i : Byte) < Fin.ofNat 256 j := by
    intro i j hij hj
    show i % 256 < j % 256
    omega
  rw [toBytesBig_eq_digitsBig, toBytesBig_eq_digitsBig]
  exact digitsBig_lt (by decide) hdigit hnm hm

/-- Numbers that fit into the length are told apart. -/
theorem toBytesBig_inj {length n m : Nat} (hn : n < 256 ^ length) (hm : m < 256 ^ length)
    (h : toBytesBig length n = toBytesBig length m) : n = m := by
  rcases Nat.lt_trichotomy n m with hlt | heq | hlt
  · exact absurd (toBytesBig_lt hlt hm) (h ▸ lt_irrefl _)
  · exact heq
  · exact absurd (toBytesBig_lt hlt hn) (h ▸ lt_irrefl _)

/-- `int.from_bytes(bs, "big")` -/
def ofBytesBig (bs : List Byte) : Nat := bs.foldl (fun n (b : Byte) => n * 256 + b.val) 0

theorem foldl_toBytesBig (acc : Nat) : ∀ {length n : Nat}, n < 256 ^ length →
    (toBytesBig length n).foldl (fun n (b : Byte) => n * 256 + b.val) acc = acc * 256 ^ length + n
  | 0, n, hn => by
    have : n = 0 := by omega
    rw [this]
    simp [toBytesBig]
  | length + 1, n, hn => by
    have hhead : n / 256 ^ length < 256 := Nat.div_lt_of_lt_mul (by rwa [← Nat.pow_succ])
    have hval : ((Fin.ofNat 256 (n / 256 ^ length) : Byte) : Nat) = n / 256 ^ length :=
      Nat.mod_eq_of_lt hhead
    have hn' := Nat.div_add_mod n (256 ^ length)
    rw [toBytesBig, List.foldl_cons, foldl_toBytesBig _ (Nat.mod_lt _ (Nat.pow_pos (by decide))),
      hval, Nat.add_mul, Nat.pow_succ, Nat.mul_comm (n / _), Nat.add_assoc, hn', Nat.mul_assoc,
      Nat.mul_comm 256]

/-- The first bytes are those of the high part of the number. -/
theorem take_toBytesBig (low : Nat) : ∀ high n : Nat,
    (toBytesBig (high + low) n).take high = toBytesBig high (n / 256 ^ low)
  | 0, n => rfl
  | high + 1, n => by
    have hlength : high + 1 + low = high + low + 1 := by omega
    rw [hlength, toBytesBig, List.take_succ_cons, take_toBytesBig, toBytesBig,
      Nat.div_div_eq_div_mul, Nat.pow_add, Nat.mod_mul_left_div_self, Nat.mul_comm]

theorem ofBytesBig_take {high low n : Nat} (hn : n < 256 ^ (high + low)) :
    ofBytesBig ((toBytesBig (high + low) n).take high) = n / 256 ^ low := by
  have hhigh : n / 256 ^ low < 256 ^ high :=
    Nat.div_lt_of_lt_mul (by rwa [Nat.mul_comm, ← Nat.pow_add])
  rw [take_toBytesBig, ofBytesBig, foldl_toBytesBig 0 hhigh, Nat.zero_mul, Nat.zero_add]

/-! ## Hexadecimal digits -/

/-- The last `length` hexadecimal digits of `n`. -/
def toHexBig (length n : Nat) : Str := digitsBig Nat.digitChar 16 length n

@[simp] theorem length_toHexBig (length n : Nat) : (toHexBig length n).length = length :=
  length_digitsBig _ _ _ _

theorem toHexBig_lt {length n m : Nat} (hnm : n < m) (hm : m < 16 ^ length) :
    toHexBig length n < toHexBig length m := by
  have hdigit : ∀ j < 16, ∀ i < j, Nat.digitChar i < Nat.digitChar j := by decide
  exact digitsBig_lt (by decide) (fun i j hij hj => hdigit j hj i hij) hnm hm

/-! ## Decimal digits -/

/-- The decimal digits of `n`, with zeros in front up to a width. -/
def zeroPad (width n : Nat) : Str :=
  List.replicate (width - (Nat.toDigits 10 n).length) '0' ++ Nat.toDigits 10 n

theorem ofDigitChars_zeroPad (width n : Nat) : Nat.ofDigitChars 10 (zeroPad width n) 0 = n := by
  have hzeros : ∀ k : Nat, Nat.ofDigitChars 10 (List.replicate k '0') 0 = 0 := by
    intro k
    induction k with
    | zero => rfl
    | succ k ih =>
      rw [List.replicate_succ]
      exact ih
  have hdigits := Nat.ofDigitChars_toDigits (b := 10) (n := n) (by decide) (by decide)
  rw [zeroPad]
  unfold Nat.ofDigitChars at hzeros hdigits ⊢
  rw [List.foldl_append, hzeros, hdigits]

theorem zeroPad_injective (width : Nat) : Function.Injective (zeroPad width) := by
  intro n m h
  have hn := ofDigitChars_zeroPad width n
  rw [h, ofDigitChars_zeroPad] at hn
  exact hn.symm

end Reboot.Lib
