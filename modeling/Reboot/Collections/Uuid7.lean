import Mathlib.Data.List.Chain
import Mathlib.Data.Nat.Bitwise
import Reboot.Lib.BigEndian

/-!
# UUIDs in the order of time

`uuid7` (`reboot/uuidv7.py`) packs a timestamp in milliseconds, a counter of 42 bits and 32 random
bits around the version and the variant. Without an explicit timestamp it uses the clock, and the
module keeps the last timestamp and counter it used: while the clock stands still the counter goes
up, and when the clock goes back or the counter is used up, the timestamp is advanced beyond the
last one.

The bits are packed most significant first, so UUIDs are in the order of timestamp and counter
(`uuidInt_lt`), and so are their texts (`uuidStr_lt`). Nothing keeps the advanced timestamp from
passing its 48 bits, and the mask then takes it back to zero: `uuid7_increasing_iff` says that the
UUIDs of a process increase for as long as that does not happen, and no longer.

Mirroring notes:
- A UUID is its integer. `uuidInt_lt_two_pow` is the assertion on its range.
- `os.urandom(n)` is any number of `8 * n` bits; a call is given the ten bytes and the four bytes
  that it may draw.
- `2 ^ 48 - 1` is the mask `0xffff_ffff_ffff`, and likewise for the others.
-/

namespace Reboot.Collections

open Reboot.Lib

/-! ## The packing -/

/-- `_RFC_4122_VERSION_7_FLAGS` -/
def rfc4122Version7Flags : Nat := 7 <<< 76 ||| 0x8000 <<< 48

/-- The integer of the UUID. -/
def uuidInt (timestampMs counter tail : Nat) : Nat :=
  let unixTsMs := timestampMs &&& (2 ^ 48 - 1)
  let counterMsbs := counter >>> 30
  let counterHi := counterMsbs &&& (2 ^ 12 - 1)
  let counterLo := counter &&& (2 ^ 30 - 1)
  let tail := tail &&& (2 ^ 32 - 1)
  unixTsMs <<< 80 ||| counterHi <<< 64 ||| counterLo <<< 32 ||| tail ||| rfc4122Version7Flags

/-- `UUID.bytes` -/
def uuidBytes (int : Nat) : List Byte := toBytesBig 16 int

/-- `UUID.__str__` -/
def uuidStr (int : Nat) : Str :=
  let hex := toHexBig 32 int
  hex.take 8 ++ '-' :: ((hex.drop 8).take 4 ++ '-' :: ((hex.drop 12).take 4 ++
    '-' :: ((hex.drop 16).take 4 ++ '-' :: hex.drop 20)))

/-- `UUID.variant` -/
inductive Variant
  | reservedNcs | rfc4122 | reservedMicrosoft | reservedFuture
  deriving DecidableEq

def uuidVariant (int : Nat) : Variant :=
  if int &&& 0x8000 <<< 48 = 0 then .reservedNcs
  else if int &&& 0x4000 <<< 48 = 0 then .rfc4122
  else if int &&& 0x2000 <<< 48 = 0 then .reservedMicrosoft
  else .reservedFuture

/-- `UUID.version` -/
def uuidVersion (int : Nat) : Option Nat :=
  if uuidVariant int = .rfc4122 then some (int >>> 76 &&& 0xf) else none

/-- `uuid7_timestamp_ms`; `none` is the assertion on the version. -/
def uuid7TimestampMs (int : Nat) : Option Nat :=
  if uuidVersion int = some 7 then some (ofBytesBig ((uuidBytes int).take 6)) else none

/-! ## The generator -/

/-- `_uuid7_get_counter_and_tail` -/
def uuid7GetCounterAndTail (rand : Fin (2 ^ 80)) : Nat × Nat :=
  ((rand.val >>> 32) &&& (2 ^ 41 - 1), rand.val &&& (2 ^ 32 - 1))

/-- `_last_timestamp_v7` and `_last_counter_v7`. -/
structure Globals where
  lastTimestamp : Option Nat
  lastCounter : Nat
  deriving DecidableEq

/-- As the module is loaded. -/
def Globals.init : Globals := ⟨none, 0⟩

/-- A call of `uuid7`, with what the clock and the random source give it. -/
inductive Call
  | auto (nanoseconds : Nat) (rand10 : Fin (2 ^ 80)) (rand4 : Fin (2 ^ 32))
  | explicit (timestampMs : Nat) (rand10 : Fin (2 ^ 80))
  deriving DecidableEq

/-- Timestamp, counter and tail of a call without a timestamp. -/
def autoFields (g : Globals) (nanoseconds : Nat) (rand10 : Fin (2 ^ 80)) (rand4 : Fin (2 ^ 32)) :
    Nat × Nat × Nat :=
  let timestampMs := nanoseconds / 1000000
  match g.lastTimestamp with
  | none => (timestampMs, uuid7GetCounterAndTail rand10)
  | some lastTimestamp =>
    if lastTimestamp < timestampMs then (timestampMs, uuid7GetCounterAndTail rand10)
    else
      let timestampMs := if timestampMs < lastTimestamp then lastTimestamp + 1 else timestampMs
      let counter := g.lastCounter + 1
      if 2 ^ 42 - 1 < counter then (timestampMs + 1, uuid7GetCounterAndTail rand10)
      else (timestampMs, counter, rand4.val)

/-- `uuid7` -/
def uuid7 (g : Globals) : Call → Globals × Nat
  | .auto nanoseconds rand10 rand4 =>
    let (timestampMs, counter, tail) := autoFields g nanoseconds rand10 rand4
    (⟨some timestampMs, counter⟩, uuidInt timestampMs counter tail)
  | .explicit timestampMs rand10 =>
    let (counter, tail) := uuid7GetCounterAndTail rand10
    (g, uuidInt timestampMs counter tail)

/-- What the calls without a timestamp return, in a sequence of calls. -/
def autoUuids (g : Globals) : List Call → List Nat
  | [] => []
  | .auto nanoseconds rand10 rand4 :: calls =>
    let (g', int) := uuid7 g (.auto nanoseconds rand10 rand4)
    int :: autoUuids g' calls
  | .explicit timestampMs rand10 :: calls =>
    autoUuids (uuid7 g (.explicit timestampMs rand10)).1 calls

/-- And the timestamps that they pack. -/
def autoTimestamps (g : Globals) : List Call → List Nat
  | [] => []
  | .auto nanoseconds rand10 rand4 :: calls =>
    (autoFields g nanoseconds rand10 rand4).1 ::
      autoTimestamps (uuid7 g (.auto nanoseconds rand10 rand4)).1 calls
  | .explicit timestampMs rand10 :: calls =>
    autoTimestamps (uuid7 g (.explicit timestampMs rand10)).1 calls

/-! ## Packing in arithmetic -/

/-- A field in front of one of `i` bits. -/
theorem shiftLeft_or {i a b : Nat} (h : b < 2 ^ i) : a <<< i ||| b = a * 2 ^ i + b := by
  rw [← Nat.shiftLeft_add_eq_or_of_lt h, Nat.shiftLeft_eq]

/-- Version and variant with the fields around them. -/
theorem pack_eq {ts hi low : Nat} (hhi : hi < 2 ^ 12) (hlow : low < 2 ^ 62) :
    ts <<< 80 ||| (7 <<< 76 ||| (hi <<< 64 ||| (1 <<< 63 ||| low))) =
      ts * 2 ^ 80 + (7 * 2 ^ 76 + (hi * 2 ^ 64 + (2 ^ 63 + low))) := by
  have hvariant : 2 ^ 63 + low < 2 ^ 64 := by omega
  have hcounter : hi * 2 ^ 64 + (2 ^ 63 + low) < 2 ^ 76 := by omega
  have hversion : 7 * 2 ^ 76 + (hi * 2 ^ 64 + (2 ^ 63 + low)) < 2 ^ 80 :=
    Nat.lt_of_lt_of_le (Nat.add_lt_add_left hcounter _) (by decide)
  rw [shiftLeft_or (show low < 2 ^ 63 by omega), Nat.one_mul, shiftLeft_or hvariant,
    shiftLeft_or hcounter, shiftLeft_or hversion]

/-- The fields do not overlap, so packing them is adding them. -/
theorem uuidInt_eq (timestampMs counter tail : Nat) :
    uuidInt timestampMs counter tail =
      timestampMs % 2 ^ 48 * 2 ^ 80 + (7 * 2 ^ 76 + (counter / 2 ^ 30 % 2 ^ 12 * 2 ^ 64 +
        (2 ^ 63 + (counter % 2 ^ 30 * 2 ^ 32 + tail % 2 ^ 32)))) := by
  have hflags : rfc4122Version7Flags = 7 <<< 76 ||| 1 <<< 63 := by decide
  -- most significant field first
  have horder : ∀ a b c d e f : Nat, a ||| b ||| c ||| d ||| (e ||| f) =
      a ||| (e ||| (b ||| (f ||| (c ||| d)))) := by
    intro a b c d e f
    ac_rfl
  have hlow : counter % 2 ^ 30 * 2 ^ 32 + tail % 2 ^ 32 < 2 ^ 62 := by omega
  simp only [uuidInt, hflags, Nat.and_two_pow_sub_one_eq_mod, Nat.shiftRight_eq_div_pow]
  rw [horder, shiftLeft_or (Nat.mod_lt tail (by decide : 2 ^ 32 > 0)),
    pack_eq (Nat.mod_lt _ (by decide)) hlow]

theorem uuidInt_lt_two_pow (timestampMs counter tail : Nat) :
    uuidInt timestampMs counter tail < 2 ^ 128 := by
  rw [uuidInt_eq]
  omega

/-- The order of timestamp and counter is that of the UUIDs. -/
theorem uuidInt_lt {timestampMs timestampMs' counter counter' tail tail' : Nat}
    (ht : timestampMs' < 2 ^ 48) (hc : counter' < 2 ^ 42)
    (h : timestampMs < timestampMs' ∨ timestampMs = timestampMs' ∧ counter < counter') :
    uuidInt timestampMs counter tail < uuidInt timestampMs' counter' tail' := by
  rw [uuidInt_eq, uuidInt_eq]
  rcases h with h | ⟨rfl, h⟩
  · omega
  · omega

/-! ## Texts -/

/-- What comes first decides, and then what comes behind. -/
theorem lt_take_drop {α : Type*} [LinearOrder α] : ∀ (k : Nat) {a b : List α}, a.length = b.length →
    a < b → a.take k < b.take k ∨ a.take k = b.take k ∧ a.drop k < b.drop k
  | 0, a, b, _, h => .inr ⟨rfl, h⟩
  | k + 1, [], b, hlength, h => by
    obtain rfl := List.length_eq_zero_iff.mp hlength.symm
    exact absurd h (lt_irrefl _)
  | k + 1, x :: a, [], hlength, h => by cases hlength
  | k + 1, x :: a, y :: b, hlength, h => by
    rw [List.take_succ_cons, List.take_succ_cons, List.drop_succ_cons, List.drop_succ_cons,
      List.cons_lt_cons_iff]
    rcases List.cons_lt_cons_iff.mp h with hxy | ⟨rfl, hab⟩
    · exact .inl (.inl hxy)
    · rcases lt_take_drop k (Nat.succ.inj hlength) hab with hlt | ⟨heq, hlt⟩
      · exact .inl (.inr ⟨rfl, hlt⟩)
      · exact .inr ⟨by rw [heq], hlt⟩

/-- Texts of one length in front decide over what is put together. -/
theorem append_lt_append {α : Type*} [LinearOrder α] : ∀ {a b c d : List α}, a.length = b.length →
    (a < b ∨ a = b ∧ c < d) → a ++ c < b ++ d
  | [], b, c, d, hlength, h => by
    obtain rfl := List.length_eq_zero_iff.mp hlength.symm
    rcases h with h | ⟨-, h⟩
    · exact absurd h (lt_irrefl _)
    · exact h
  | x :: a, [], c, d, hlength, h => by cases hlength
  | x :: a, y :: b, c, d, hlength, h => by
    rw [List.cons_append, List.cons_append, List.cons_lt_cons_iff]
    rcases h with h | ⟨h, hcd⟩
    · rcases List.cons_lt_cons_iff.mp h with hxy | ⟨rfl, hab⟩
      · exact .inl hxy
      · exact .inr ⟨rfl, append_lt_append (Nat.succ.inj hlength) (.inl hab)⟩
    · obtain ⟨rfl, rfl⟩ := List.cons.inj h
      exact .inr ⟨rfl, append_lt_append rfl (.inr ⟨rfl, hcd⟩)⟩

/-- A dash at the same place of two texts leaves their order. -/
theorem dash_lt_dash {k : Nat} {a b c d : Str} (hlength : a.length = b.length) (h : a < b)
    (hrest : a.drop k < b.drop k → c < d) :
    a.take k ++ '-' :: c < b.take k ++ '-' :: d := by
  refine append_lt_append (by rw [List.length_take, List.length_take, hlength]) ?_
  rcases lt_take_drop k hlength h with hlt | ⟨heq, hlt⟩
  · exact .inl hlt
  · exact .inr ⟨heq, List.cons_lt_cons_iff.mpr (.inr ⟨rfl, hrest hlt⟩)⟩

/-- Texts of UUIDs are in the order of their integers. -/
theorem uuidStr_lt {n m : Nat} (hnm : n < m) (hm : m < 2 ^ 128) : uuidStr n < uuidStr m := by
  have hhex : toHexBig 32 n < toHexBig 32 m := toHexBig_lt hnm hm
  have hlength : ∀ k, ((toHexBig 32 n).drop k).length = ((toHexBig 32 m).drop k).length := by
    intro k
    rw [List.length_drop, List.length_drop, length_toHexBig, length_toHexBig]
  refine dash_lt_dash (hlength 0) hhex fun h8 => ?_
  refine dash_lt_dash (hlength 8) h8 fun h12 => ?_
  rw [List.drop_drop, List.drop_drop] at h12
  refine dash_lt_dash (hlength 12) h12 fun h16 => ?_
  rw [List.drop_drop, List.drop_drop] at h16
  refine dash_lt_dash (hlength 16) h16 fun h20 => ?_
  rw [List.drop_drop, List.drop_drop] at h20
  exact h20

/-! ## What is read back -/

/-- A mask of one bit. -/
theorem and_two_pow_eq_zero_iff (n i : Nat) : n &&& 2 ^ i = 0 ↔ n / 2 ^ i % 2 = 0 := by
  rw [Nat.and_two_pow, Nat.testBit_eq_decide_div_mod_eq]
  by_cases h : n / 2 ^ i % 2 = 1
  · simp [h]
  · have : n / 2 ^ i % 2 = 0 := by omega
    simp [this]

/-- The two bits of the variant are one and zero. -/
theorem uuidVariant_of_lt {high low : Nat} (hlow : low < 2 ^ 62) :
    uuidVariant (high * 2 ^ 64 + (2 ^ 63 + low)) = .rfc4122 := by
  have hone : (0x8000 : Nat) <<< 48 = 2 ^ 63 := by decide
  have hzero : (0x4000 : Nat) <<< 48 = 2 ^ 62 := by decide
  rw [uuidVariant, hone, hzero, if_neg (by rw [and_two_pow_eq_zero_iff]; omega),
    if_pos (by rw [and_two_pow_eq_zero_iff]; omega)]

theorem uuidVariant_uuidInt (timestampMs counter tail : Nat) :
    uuidVariant (uuidInt timestampMs counter tail) = .rfc4122 := by
  have hlow : counter % 2 ^ 30 * 2 ^ 32 + tail % 2 ^ 32 < 2 ^ 62 := by omega
  have hhigh : ∀ ts hi x : Nat, ts * 2 ^ 80 + (7 * 2 ^ 76 + (hi * 2 ^ 64 + x)) =
      (ts * 2 ^ 16 + 7 * 2 ^ 12 + hi) * 2 ^ 64 + x := by omega
  rw [uuidInt_eq, hhigh, uuidVariant_of_lt hlow]

theorem uuidVersion_uuidInt (timestampMs counter tail : Nat) :
    uuidVersion (uuidInt timestampMs counter tail) = some 7 := by
  have hmask : (0xf : Nat) = 2 ^ 4 - 1 := rfl
  rw [uuidVersion, if_pos (uuidVariant_uuidInt _ _ _), hmask, Nat.and_two_pow_sub_one_eq_mod,
    Nat.shiftRight_eq_div_pow, uuidInt_eq]
  congr 1
  omega

/-- The timestamp is read back, up to its 48 bits. -/
theorem uuid7TimestampMs_uuidInt (timestampMs counter tail : Nat) :
    uuid7TimestampMs (uuidInt timestampMs counter tail) = some (timestampMs % 2 ^ 48) := by
  have hread := @ofBytesBig_take 6 10 _
    (uuidInt_lt_two_pow timestampMs counter tail)
  rw [uuid7TimestampMs, if_pos (uuidVersion_uuidInt _ _ _), uuidBytes, hread, uuidInt_eq]
  congr 1
  omega

/-! ## The order of a run -/

theorem uuid7GetCounterAndTail_lt (rand : Fin (2 ^ 80)) :
    (uuid7GetCounterAndTail rand).1 < 2 ^ 42 := by
  rw [uuid7GetCounterAndTail, Nat.and_two_pow_sub_one_eq_mod]
  dsimp only
  omega

/-- What a call without a timestamp packs: a later timestamp, at most two milliseconds beyond the
last one or that of the clock, or the last one with a higher counter. -/
theorem autoFields_cases (t counter nanoseconds : Nat) (rand10 : Fin (2 ^ 80))
    (rand4 : Fin (2 ^ 32)) :
    let r := autoFields ⟨some t, counter⟩ nanoseconds rand10 rand4
    r.2.1 < 2 ^ 42 ∧ (t < r.1 ∨ t = r.1 ∧ counter < r.2.1) ∧
      (r.1 ≤ t + 2 ∨ r.1 = nanoseconds / 1000000) := by
  have hrand := uuid7GetCounterAndTail_lt rand10
  dsimp only [autoFields]
  by_cases hlater : t < nanoseconds / 1000000
  · simp only [if_pos hlater]
    exact ⟨hrand, .inl hlater, .inr trivial⟩
  · -- the clock stands still or went back
    have htime : t ≤ (if nanoseconds / 1000000 < t then t + 1 else nanoseconds / 1000000) ∧
        (if nanoseconds / 1000000 < t then t + 1 else nanoseconds / 1000000) ≤ t + 1 := by
      split <;> omega
    generalize (if nanoseconds / 1000000 < t then t + 1 else nanoseconds / 1000000) = now at htime
    simp only [if_neg hlater]
    split
    next hused => exact ⟨hrand, .inl (by dsimp only; omega), .inl (by dsimp only; omega)⟩
    next hused =>
      dsimp only
      exact ⟨by omega, by omega, .inl (by omega)⟩

/-- The clock of a call stays below `2 ^ 48` milliseconds. -/
def Call.ClockInRange : Call → Prop
  | .auto nanoseconds _ _ => nanoseconds / 1000000 < 2 ^ 48
  | .explicit _ _ => True

/-- After a UUID with a timestamp of 48 bits, all that follow increase if and only if their
timestamps have 48 bits, too. -/
theorem chain_autoUuids_iff (calls : List Call) : ∀ {t counter tail : Nat}, t < 2 ^ 48 →
    (∀ c ∈ calls, c.ClockInRange) →
    ((uuidInt t counter tail :: autoUuids ⟨some t, counter⟩ calls).IsChain (· < ·) ↔
      ∀ t' ∈ autoTimestamps ⟨some t, counter⟩ calls, t' < 2 ^ 48) := by
  induction calls with
  | nil => simp [autoUuids, autoTimestamps]
  | cons c calls ih =>
    intro t counter tail ht hclock
    have hclock' := fun c hc => hclock c (List.mem_cons_of_mem _ hc)
    cases c with
    | explicit timestampMs rand10 => exact ih ht hclock'
    | auto nanoseconds rand10 rand4 =>
      have hc : nanoseconds / 1000000 < 2 ^ 48 := hclock _ List.mem_cons_self
      obtain ⟨hcounter, hlater, hbound⟩ := autoFields_cases t counter nanoseconds rand10 rand4
      rw [autoUuids, autoTimestamps, uuid7]
      generalize autoFields ⟨some t, counter⟩ nanoseconds rand10 rand4 = r at hcounter hlater hbound
      obtain ⟨t', counter', tail'⟩ := r
      dsimp only at hcounter hlater hbound ⊢
      rw [List.isChain_cons_cons, List.forall_mem_cons]
      by_cases ht' : t' < 2 ^ 48
      · rw [ih ht' hclock']
        exact and_congr_left fun _ => iff_of_true (uuidInt_lt ht' hcounter hlater) ht'
      · -- the mask takes the timestamp back to zero or one
        have hnot : ¬ uuidInt t counter tail < uuidInt t' counter' tail' := by
          rw [uuidInt_eq, uuidInt_eq]
          omega
        exact iff_of_false (fun h => hnot h.1) (fun h => ht' h.1)

/-- So it is from the start of the process. -/
theorem pairwise_autoUuids_iff (calls : List Call) (hclock : ∀ c ∈ calls, c.ClockInRange) :
    (autoUuids .init calls).Pairwise (· < ·) ↔ ∀ t ∈ autoTimestamps .init calls, t < 2 ^ 48 := by
  induction calls with
  | nil => simp [autoUuids, autoTimestamps]
  | cons c calls ih =>
    have hclock' := fun c hc => hclock c (List.mem_cons_of_mem _ hc)
    cases c with
    | explicit timestampMs rand10 => exact ih hclock'
    | auto nanoseconds rand10 rand4 =>
      have hc : nanoseconds / 1000000 < 2 ^ 48 := hclock _ List.mem_cons_self
      rw [← List.isChain_iff_pairwise]
      refine (chain_autoUuids_iff calls hc hclock').trans ?_
      rw [autoTimestamps, List.forall_mem_cons]
      exact (and_iff_right hc).symm

theorem autoUuids_lt_two_pow (calls : List Call) : ∀ g, ∀ int ∈ autoUuids g calls,
    int < 2 ^ 128 := by
  induction calls with
  | nil => exact fun g int h => absurd h List.not_mem_nil
  | cons c calls ih =>
    intro g
    cases c with
    | explicit timestampMs rand10 => exact ih _
    | auto nanoseconds rand10 rand4 =>
      rw [autoUuids]
      exact List.forall_mem_cons.mpr ⟨uuidInt_lt_two_pow _ _ _, ih _⟩

/-- Whatever the clock does below `2 ^ 48` milliseconds and the random source gives, the UUIDs of
a process increase, as integers and as texts, if and only if no timestamp is advanced beyond 48
bits; and an explicit timestamp below `2 ^ 48` is read back from a UUID of version 7. -/
theorem uuid7_increasing_iff :
    (∀ calls : List Call, (∀ c ∈ calls, c.ClockInRange) →
      ((autoUuids .init calls).Pairwise (· < ·) ∧
          ((autoUuids .init calls).map uuidStr).Pairwise (· < ·) ↔
        ∀ t ∈ autoTimestamps .init calls, t < 2 ^ 48)) ∧
    ∀ (g : Globals) (t : Nat) (rand10 : Fin (2 ^ 80)), t < 2 ^ 48 →
      uuid7TimestampMs (uuid7 g (.explicit t rand10)).2 = some t ∧
      uuidVersion (uuid7 g (.explicit t rand10)).2 = some 7 ∧
      uuidVariant (uuid7 g (.explicit t rand10)).2 = .rfc4122 := by
  constructor
  · intro calls hclock
    rw [← pairwise_autoUuids_iff calls hclock, and_iff_left_iff_imp, List.pairwise_map]
    intro hpairwise
    refine hpairwise.imp_of_mem fun {n m} hn hm hlt => ?_
    exact uuidStr_lt hlt (autoUuids_lt_two_pow calls _ m hm)
  · intro g t rand10 ht
    refine ⟨?_, uuidVersion_uuidInt _ _ _, uuidVariant_uuidInt _ _ _⟩
    rw [uuid7, uuid7TimestampMs_uuidInt, Nat.mod_eq_of_lt ht]

/-- A clock that stands still and then goes back, with an explicit timestamp in between. -/
theorem uuid7_increasing_back :
    (autoUuids .init [.auto 1700000000000000000 7 0, .auto 1700000000000000000 7 0,
      .explicit 5 0, .auto 0 7 0]).Pairwise (· < ·) ∧
    uuid7TimestampMs (uuid7 .init (.explicit 5 0)).2 = some 5 := by
  obtain ⟨hincreasing, hexplicit⟩ := uuid7_increasing_iff
  refine ⟨((hincreasing _ ?_).mpr (by decide +kernel)).1, (hexplicit .init 5 0 (by decide)).1⟩
  intro c hc
  simp only [List.mem_cons, List.not_mem_nil, or_false] at hc
  rcases hc with rfl | rfl | rfl | rfl <;> simp [Call.ClockInRange]

/-- A clock at the last millisecond of 48 bits that goes back: the advanced timestamp is zero. -/
theorem uuid7_wraps :
    (∀ c ∈ [Call.auto 281474976710655000000 0 0, .auto 0 0 0], c.ClockInRange) ∧
    ¬ (autoUuids .init [.auto 281474976710655000000 0 0, .auto 0 0 0]).Pairwise (· < ·) := by
  refine ⟨fun c hc => ?_, by decide +kernel⟩
  simp only [List.mem_cons, List.not_mem_nil, or_false] at hc
  rcases hc with rfl | rfl <;> simp [Call.ClockInRange]

end Reboot.Collections
