import Mathlib.Algebra.GroupWithZero.Nat
import Mathlib.Algebra.Order.Group.Nat
import Mathlib.Tactic.Common
import Reboot.Lib.Bisect
import Reboot.Schema.Descriptors

/-!
# Reserved field numbers that an update drops

`_compare_reserved_field_numbers` of `reboot/server/service_descriptor_validator.py`. Both lists
of ranges are sorted by where they start, and then merged: the current original range is held
against the current updated one. What lies before the updated range is missing and is reported,
what the updated range covers is cut off, and an updated range that ends before is left behind.

Every number of the original is looked at once because what is cut off always lies at its start:
`missingLoop_covers` says which numbers the loop reports, and `missingLoop_pairwise` that it
reports none twice.

Mirroring notes:
- The loop changes `start` of the range it works on; here that range goes on in the list with its
  new start. An iterator is the list of what is left of it.
- The assertion on the schema type stands where the first missing range is found.
-/

namespace Reboot.Schemas

open Reboot.Lib

/-- What the check raises besides the errors it reports. -/
inductive Failure
  /-- `assert schema_type == SchemaType.PROTO` -/
  | assertion
  /-- The fuel of the model is used up. -/
  | outOfFuel
  deriving DecidableEq

/-- A reported range, with an inclusive end. -/
structure MissingRange where
  start : Nat
  endInclusive : Nat
  deriving DecidableEq

def MissingRange.Covers (r : MissingRange) (n : Nat) : Prop := r.start ≤ n ∧ n ≤ r.endInclusive

instance (r : MissingRange) (n : Nat) : Decidable (r.Covers n) :=
  inferInstanceAs (Decidable (_ ∧ _))

/-- What is missing of an original range that starts before the updated one. -/
def missingBefore (original updated : ReservedRange) : MissingRange :=
  ⟨original.start, min (original.stop - 1) (updated.start - 1)⟩

/-- The loop over both iterators. -/
def missingLoop : List ReservedRange → List ReservedRange → List MissingRange
  | [], _ => []
  | original :: originals, [] =>
    ⟨original.start, original.stop - 1⟩ :: missingLoop originals []
  | original :: originals, updated :: updateds =>
    if original.start < updated.start then
      if h : original.stop ≤ updated.start then
        missingBefore original updated :: missingLoop originals (updated :: updateds)
      else
        -- Only part of the original range was missing.
        missingBefore original updated :: missingLoop (⟨updated.start, original.stop, by omega⟩ :: originals)
          (updated :: updateds)
    else if updated.stop ≤ original.start then missingLoop (original :: originals) updateds
    else if h : updated.stop < original.stop then
      missingLoop (⟨updated.stop, original.stop, h⟩ :: originals) (updated :: updateds)
    else missingLoop originals (updated :: updateds)
  termination_by originals updateds =>
    (originals.map fun r => r.stop - r.start).sum + originals.length + updateds.length
  decreasing_by
    all_goals simp only [List.map_cons, List.sum_cons, List.length_cons]
    all_goals have := original.start_lt_stop
    all_goals omega

/-- The reserved numbers that the update drops. -/
def missingRanges (originals updateds : List ReservedRange) : List MissingRange :=
  missingLoop (sortBy (·.start) originals) (sortBy (·.start) updateds)

def noLongerReserved (originalMessageName whereMessage : String) (r : MissingRange) : String :=
  let missingStart := r.start
  let missingEndInclusive := r.endInclusive
  s!"Field numbers {missingStart} to {missingEndInclusive} are no longer `reserved` in message " ++
    s!"`{originalMessageName}` ({whereMessage})."

/-- `_compare_reserved_field_numbers`. -/
def compareReservedFieldNumbers (originals updateds : List ReservedRange)
    (originalMessageName whereMessage : String) (schemaType : SchemaType) :
    Except Failure (List String) :=
  match missingRanges originals updateds with
  | [] => .ok []
  | r :: missing =>
    if schemaType = .proto then
      .ok ((r :: missing).map (noLongerReserved originalMessageName whereMessage))
    else .error .assertion

/-! ## What the loop reports -/

/-- The number is in one of the ranges. -/
def Reserved (ranges : List ReservedRange) (n : Nat) : Prop := ∃ r ∈ ranges, r.Covers n

theorem reserved_cons {r : ReservedRange} {ranges : List ReservedRange} {n : Nat} :
    Reserved (r :: ranges) n ↔ r.Covers n ∨ Reserved ranges n := by
  simp [Reserved]

theorem not_reserved_nil {n : Nat} : ¬ Reserved [] n := by simp [Reserved]

/-- A bound on where the ranges start is one on their numbers. -/
theorem le_of_reserved {ranges : List ReservedRange} {lo n : Nat}
    (hlo : ∀ r ∈ ranges, lo ≤ r.start) (hn : Reserved ranges n) : lo ≤ n := by
  obtain ⟨r, hr, hcovers⟩ := hn
  exact Nat.le_trans (hlo r hr) hcovers.1

/-- The numbers of sorted ranges lie behind the first start. -/
theorem le_of_reserved_sorted {r : ReservedRange} {ranges : List ReservedRange} {n : Nat}
    (hsorted : (r :: ranges).Pairwise fun a b => a.start ≤ b.start)
    (hn : Reserved (r :: ranges) n) : r.start ≤ n := by
  refine le_of_reserved (fun b hb => ?_) hn
  rcases List.mem_cons.mp hb with rfl | hb
  · exact Nat.le_refl _
  · exact List.rel_of_pairwise_cons hsorted hb

/-- Each range ends before the next one starts. -/
def Apart (ranges : List ReservedRange) : Prop :=
  ranges.Pairwise fun a b => a.stop ≤ b.start

/-- The first range may be cut off at its start. -/
theorem Apart.cut {r r' : ReservedRange} {ranges : List ReservedRange} (h : Apart (r :: ranges))
    (hstop : r'.stop = r.stop) : Apart (r' :: ranges) := by
  unfold Apart at h ⊢
  rw [List.pairwise_cons] at h ⊢
  exact ⟨fun b hb => hstop ▸ h.1 b hb, h.2⟩

/-- The loop reports the numbers of the original ranges that no updated range has. -/
theorem missingLoop_covers (originals updateds : List ReservedRange) (happart : Apart originals)
    (hsorted : updateds.Pairwise fun a b => a.start ≤ b.start) (n : Nat) :
    (∃ r ∈ missingLoop originals updateds, r.Covers n) ↔
      Reserved originals n ∧ ¬ Reserved updateds n := by
  fun_induction missingLoop originals updateds with
  | case1 updateds => simp [Reserved]
  | case2 original originals ih =>
    have hlt := original.start_lt_stop
    rw [List.exists_mem_cons_iff, ih happart.of_cons hsorted, reserved_cons]
    simp only [MissingRange.Covers, ReservedRange.Covers, not_reserved_nil, not_false_iff, and_true]
    refine or_congr_left ?_
    omega
  | case3 original originals updated updateds hlt h ih =>
    -- The whole range lies before the first updated one.
    have ho := original.start_lt_stop
    rw [List.exists_mem_cons_iff, ih happart.of_cons hsorted, reserved_cons (r := original)]
    simp only [missingBefore, MissingRange.Covers, ReservedRange.Covers]
    by_cases hr : Reserved (updated :: updateds) n
    · have := le_of_reserved_sorted hsorted hr
      simp only [hr, not_true, and_false, or_false, iff_false]
      omega
    · simp only [hr, not_false_iff, and_true]
      have heq : (original.start ≤ n ∧ n ≤ min (original.stop - 1) (updated.start - 1)) ↔
          (original.start ≤ n ∧ n < original.stop) := by omega
      rw [heq]
  | case4 original originals updated updateds hlt h ih =>
    rw [List.exists_mem_cons_iff, ih (happart.cut rfl) hsorted, reserved_cons (r := original),
      reserved_cons (r := ⟨updated.start, original.stop, _⟩)]
    simp only [missingBefore, MissingRange.Covers, ReservedRange.Covers]
    by_cases hr : Reserved (updated :: updateds) n
    · have := le_of_reserved_sorted hsorted hr
      simp only [hr, not_true, and_false, or_false, iff_false]
      omega
    · simp only [hr, not_false_iff, and_true]
      by_cases ho : Reserved originals n
      · simp only [ho, or_true]
      · simp only [ho, or_false]
        omega
  | case5 original originals updated updateds hlt hstop ih =>
    -- The updated range ends before all that is left of the original ones.
    have hlo : ∀ r ∈ original :: originals, updated.stop ≤ r.start := by
      intro r hr
      rcases List.mem_cons.mp hr with rfl | hr
      · exact hstop
      · have := List.rel_of_pairwise_cons happart hr
        have := original.start_lt_stop
        omega
    rw [ih happart hsorted.of_cons, reserved_cons (r := updated)]
    refine and_congr_right fun hn => not_congr ?_
    have := le_of_reserved hlo hn
    constructor
    · exact .inr
    · rintro (hc | hr)
      · exact absurd hc.2 (by omega)
      · exact hr
  | case6 original originals updated updateds hlt hstop h ih =>
    rw [ih (happart.cut rfl) hsorted, reserved_cons, reserved_cons (r := original),
      reserved_cons (r := updated)]
    simp only [ReservedRange.Covers]
    by_cases ho : Reserved originals n
    · simp only [ho, or_true]
    · by_cases hr : Reserved updateds n
      · simp only [hr, or_true, not_true, and_false]
      · simp only [ho, hr, or_false]
        omega
  | case7 original originals updated updateds hlt hstop h ih =>
    rw [ih happart.of_cons hsorted, reserved_cons (r := original)]
    refine and_congr_left fun hr => ?_
    constructor
    · exact .inr
    · rintro (hc | ho)
      · have hc' : updated.Covers n := ⟨by have := hc.1; omega, by have := hc.2; omega⟩
        exact absurd (reserved_cons.mpr (.inl hc')) hr
      · exact ho

/-- What is reported holds a number. -/
theorem missingLoop_le (originals updateds : List ReservedRange) :
    ∀ r ∈ missingLoop originals updateds, r.start ≤ r.endInclusive := by
  fun_induction missingLoop originals updateds with
  | case1 updateds => exact fun r hr => absurd hr List.not_mem_nil
  | case2 original originals ih =>
    have hlt := original.start_lt_stop
    exact List.forall_mem_cons.mpr ⟨by dsimp only; omega, ih⟩
  | case3 original originals updated updateds hlt h ih =>
    have := original.start_lt_stop
    exact List.forall_mem_cons.mpr ⟨by dsimp only [missingBefore]; omega, ih⟩
  | case4 original originals updated updateds hlt h ih =>
    have := original.start_lt_stop
    exact List.forall_mem_cons.mpr ⟨by dsimp only [missingBefore]; omega, ih⟩
  | case5 original originals updated updateds hlt hstop ih => exact ih
  | case6 original originals updated updateds hlt hstop h ih => exact ih
  | case7 original originals updated updateds hlt hstop h ih => exact ih

/-- What the loop reports starts where its original ranges do, or after. -/
theorem le_start_of_mem {originals updateds : List ReservedRange} (happart : Apart originals)
    (hsorted : updateds.Pairwise fun a b => a.start ≤ b.start) {lo : Nat}
    (hlo : ∀ r ∈ originals, lo ≤ r.start) {r : MissingRange}
    (hr : r ∈ missingLoop originals updateds) : lo ≤ r.start := by
  have hcovers : r.Covers r.start := ⟨Nat.le_refl _, missingLoop_le originals updateds r hr⟩
  have hreserved := (missingLoop_covers originals updateds happart hsorted r.start).mp
    ⟨r, hr, hcovers⟩
  exact le_of_reserved hlo hreserved.1

/-- The reported ranges are in order and have no number in common. -/
theorem missingLoop_pairwise (originals updateds : List ReservedRange) (happart : Apart originals)
    (hsorted : updateds.Pairwise fun a b => a.start ≤ b.start) :
    (missingLoop originals updateds).Pairwise fun a b => a.endInclusive < b.start := by
  fun_induction missingLoop originals updateds with
  | case1 updateds => exact List.Pairwise.nil
  | case2 original originals ih =>
    refine List.pairwise_cons.mpr ⟨fun r hr => ?_, ih happart.of_cons hsorted⟩
    have := le_start_of_mem happart.of_cons hsorted
      (fun b hb => List.rel_of_pairwise_cons happart hb) hr
    have := original.start_lt_stop
    dsimp only
    omega
  | case3 original originals updated updateds hlt h ih =>
    refine List.pairwise_cons.mpr ⟨fun r hr => ?_, ih happart.of_cons hsorted⟩
    have := le_start_of_mem happart.of_cons hsorted
      (fun b hb => List.rel_of_pairwise_cons happart hb) hr
    have := original.start_lt_stop
    dsimp only [missingBefore]
    omega
  | case4 original originals updated updateds hlt h ih =>
    refine List.pairwise_cons.mpr ⟨fun r hr => ?_, ih (happart.cut rfl) hsorted⟩
    -- The rest starts where the updated range does, and all others after the original one.
    have hlo : ∀ b ∈ (⟨updated.start, original.stop, by omega⟩ : ReservedRange) :: originals,
        updated.start ≤ b.start := by
      refine List.forall_mem_cons.mpr ⟨Nat.le_refl _, fun b hb => ?_⟩
      have := List.rel_of_pairwise_cons happart hb
      omega
    have happart' : Apart (⟨updated.start, original.stop, by omega⟩ :: originals) :=
      happart.cut rfl
    have := le_start_of_mem happart' hsorted hlo hr
    dsimp only [missingBefore]
    omega
  | case5 original originals updated updateds hlt hstop ih => exact ih happart hsorted.of_cons
  | case6 original originals updated updateds hlt hstop h ih => exact ih (happart.cut rfl) hsorted
  | case7 original originals updated updateds hlt hstop h ih => exact ih happart.of_cons hsorted

/-! ## The comparison -/

/-- Disjoint ranges, sorted by their start, end before the next one starts. -/
theorem apart_sortBy {ranges : List ReservedRange} (h : ranges.Pairwise ReservedRange.Disjoint) :
    Apart (sortBy (·.start) ranges) := by
  have hnodup : (ranges.map (·.start)).Nodup :=
    List.pairwise_map.mpr (h.imp fun {a b} hab he =>
      hab b.start ⟨by
        rw [← (show a.start = b.start from he)]
        exact a.covers_start, b.covers_start⟩)
  have hlt := sortBy_pairwise_lt hnodup
  have hdisjoint : (sortBy (·.start) ranges).Pairwise ReservedRange.Disjoint :=
    (sortBy_perm _ ranges).symm.pairwise h fun hab => hab.symm
  refine (hlt.and hdisjoint).imp fun {a b} hab => ?_
  by_contra hstop
  exact hab.2 b.start ⟨⟨by have := hab.1; omega, by omega⟩, b.covers_start⟩

theorem reserved_sortBy {ranges : List ReservedRange} {n : Nat} :
    Reserved (sortBy (·.start) ranges) n ↔ Reserved ranges n :=
  exists_congr fun _ => and_congr_left fun _ => (sortBy_perm _ ranges).mem_iff

/-- Exactly the numbers that the update no longer reserves are missing. -/
theorem missingRanges_covers {originals : List ReservedRange} (updateds : List ReservedRange)
    (h : originals.Pairwise ReservedRange.Disjoint) (n : Nat) :
    (∃ r ∈ missingRanges originals updateds, r.Covers n) ↔
      Reserved originals n ∧ ¬ Reserved updateds n := by
  rw [missingRanges, missingLoop_covers _ _ (apart_sortBy h) (sortBy_pairwise_le _ updateds) n,
    reserved_sortBy, reserved_sortBy]

/-- Nothing is missing where the update reserves all that the original does. -/
theorem missingRanges_eq_nil {originals updateds : List ReservedRange}
    (h : originals.Pairwise ReservedRange.Disjoint) :
    missingRanges originals updateds = [] ↔
      ∀ n, Reserved originals n → Reserved updateds n := by
  constructor
  · intro hnil n hn
    by_contra hnot
    obtain ⟨r, hr, -⟩ := (missingRanges_covers updateds h n).mpr ⟨hn, hnot⟩
    rw [hnil] at hr
    exact absurd hr List.not_mem_nil
  · intro hsuperset
    refine List.eq_nil_iff_forall_not_mem.mpr fun r hr => ?_
    have hcovers : r.Covers r.start := ⟨Nat.le_refl _, missingLoop_le _ _ r hr⟩
    obtain ⟨ho, hu⟩ := (missingRanges_covers updateds h r.start).mp ⟨r, hr, hcovers⟩
    exact hu (hsuperset r.start ho)

theorem compareReservedFieldNumbers_proto (originals updateds : List ReservedRange)
    (originalMessageName whereMessage : String) :
    compareReservedFieldNumbers originals updateds originalMessageName whereMessage .proto =
      .ok ((missingRanges originals updateds).map
        (noLongerReserved originalMessageName whereMessage)) := by
  unfold compareReservedFieldNumbers
  split
  next hnil => rw [hnil, List.map_nil]
  next r missing hcons => rw [hcons, if_pos rfl]

theorem compareReservedFieldNumbers_eq_nil {originals updateds : List ReservedRange}
    {originalMessageName whereMessage : String} {schemaType : SchemaType} :
    compareReservedFieldNumbers originals updateds originalMessageName whereMessage schemaType =
      .ok [] ↔ missingRanges originals updateds = [] := by
  unfold compareReservedFieldNumbers
  split
  next hnil => simp [hnil]
  next r missing hcons => split <;> simp [hcons]

/-- Of disjoint ranges exactly the numbers that the update no longer reserves are reported, each
in one range. -/
theorem reserved_ranges_exact (originals updateds : List ReservedRange)
    (originalMessageName whereMessage : String)
    (hdisjoint : originals.Pairwise ReservedRange.Disjoint) :
    ∃ missing : List MissingRange,
      compareReservedFieldNumbers originals updateds originalMessageName whereMessage .proto =
        .ok (missing.map (noLongerReserved originalMessageName whereMessage)) ∧
      (∀ r ∈ missing, r.start ≤ r.endInclusive) ∧
      (missing.Pairwise fun a b => ∀ n, ¬ (a.Covers n ∧ b.Covers n)) ∧
      (∀ n, (∃ r ∈ missing, r.Covers n) ↔ Reserved originals n ∧ ¬ Reserved updateds n) ∧
      ∀ schemaType, compareReservedFieldNumbers originals updateds originalMessageName whereMessage
        schemaType = .ok [] ↔ ∀ n, Reserved originals n → Reserved updateds n := by
  refine ⟨missingRanges originals updateds, compareReservedFieldNumbers_proto _ _ _ _,
    missingLoop_le _ _, ?_, missingRanges_covers updateds hdisjoint, fun schemaType => ?_⟩
  · have hpairwise := missingLoop_pairwise _ _ (apart_sortBy hdisjoint) (sortBy_pairwise_le _ updateds)
    refine hpairwise.imp fun {a b} hlt n hn => ?_
    have := hn.1.2
    have := hn.2.1
    omega
  · rw [compareReservedFieldNumbers_eq_nil, missingRanges_eq_nil hdisjoint]

/-- `2 to 9, 15` against `4, 6 to 7, 12 to 20`. -/
theorem reserved_ranges_exact_pieces :
    ∃ missing : List MissingRange,
      compareReservedFieldNumbers [⟨15, 16, by decide⟩, ⟨2, 10, by decide⟩]
        [⟨12, 21, by decide⟩, ⟨6, 8, by decide⟩, ⟨4, 5, by decide⟩] "Chat" "in `chat.v1.Chat`"
        .proto = .ok (missing.map (noLongerReserved "Chat" "in `chat.v1.Chat`")) ∧
      (∃ r ∈ missing, r.Covers 5) ∧ ¬ ∃ r ∈ missing, r.Covers 6 := by
  have hdisjoint : ([⟨15, 16, by decide⟩, ⟨2, 10, by decide⟩] : List ReservedRange).Pairwise
      ReservedRange.Disjoint := by
    simp only [ReservedRange.Disjoint, ReservedRange.Covers, List.pairwise_cons,
      List.mem_singleton, forall_eq, List.not_mem_nil, false_imp_iff, implies_true,
      List.Pairwise.nil, and_true]
    omega
  obtain ⟨missing, hcompare, -, -, hcovers, -⟩ :=
    reserved_ranges_exact _ [⟨12, 21, by decide⟩, ⟨6, 8, by decide⟩, ⟨4, 5, by decide⟩] "Chat"
      "in `chat.v1.Chat`" hdisjoint
  refine ⟨missing, hcompare, (hcovers 5).mpr ?_, fun h => ((hcovers 6).mp h).2 ?_⟩
  · simp [Reserved, ReservedRange.Covers]
  · simp [Reserved, ReservedRange.Covers]

end Reboot.Schemas
