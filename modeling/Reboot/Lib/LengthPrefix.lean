import Reboot.Lib.BigEndian

/-!
# UTF-8, and fields with their length in front

`utf8` are the bytes of a string. `lengthPrefixed` puts the length of a field in front of it, in a
fixed number of big-endian bytes, so that fields can be written one after another and no field can
be taken for the beginning of another: `flatMap_lengthPrefixed_inj`, by induction on the fields,
each of which is read off the front.
-/

namespace Reboot.Lib

/-! ## UTF-8 -/

/-- The bytes of a string. -/
def utf8 (s : Str) : List Byte := (s.flatMap String.utf8EncodeChar).map UInt8.toFin

theorem utf8_injective : Function.Injective utf8 := by
  intro s t h
  have hbytes : s.flatMap String.utf8EncodeChar = t.flatMap String.utf8EncodeChar :=
    List.map_injective_iff.mpr (fun a b hab => UInt8.toFin_inj.mp hab) h
  have hencode : s.utf8Encode = t.utf8Encode := by
    unfold List.utf8Encode
    rw [hbytes]
  have hs := List.utf8Decode?_utf8Encode (l := s)
  rw [hencode, List.utf8Decode?_utf8Encode, Option.some.injEq] at hs
  exact (congrArg Array.toList hs).symm

/-! ## Fields -/

section

variable (width : Nat)

/-- A field behind its length. -/
def lengthPrefixed (field : List Byte) : List Byte := toBytesBig width field.length ++ field

variable {width}

theorem length_lengthPrefixed (field : List Byte) :
    (lengthPrefixed width field).length = width + field.length := by
  rw [lengthPrefixed, List.length_append, length_toBytesBig]

/-- A field is read off the front. -/
theorem lengthPrefixed_append_inj {a b x y : List Byte} (ha : a.length < 256 ^ width)
    (hb : b.length < 256 ^ width)
    (h : lengthPrefixed width a ++ x = lengthPrefixed width b ++ y) : a = b ∧ x = y := by
  rw [lengthPrefixed, lengthPrefixed, List.append_assoc, List.append_assoc] at h
  obtain ⟨hlen, hrest⟩ := List.append_inj h (by rw [length_toBytesBig, length_toBytesBig])
  exact List.append_inj hrest (toBytesBig_inj ha hb hlen)

/-- Fields that are written one after another are told apart. -/
theorem flatMap_lengthPrefixed_inj (hwidth : 0 < width) : ∀ {as bs : List (List Byte)},
    (∀ a ∈ as, a.length < 256 ^ width) → (∀ b ∈ bs, b.length < 256 ^ width) →
    as.flatMap (lengthPrefixed width) = bs.flatMap (lengthPrefixed width) → as = bs
  | [], [], _, _, _ => rfl
  | [], b :: bs, _, _, h => by
    have hlen := congrArg List.length h
    rw [List.flatMap_cons, List.length_append, length_lengthPrefixed, List.flatMap_nil,
      List.length_nil] at hlen
    omega
  | a :: as, [], _, _, h => by
    have hlen := congrArg List.length h
    rw [List.flatMap_cons, List.length_append, length_lengthPrefixed, List.flatMap_nil,
      List.length_nil] at hlen
    omega
  | a :: as, b :: bs, has, hbs, h => by
    rw [List.forall_mem_cons] at has hbs
    rw [List.flatMap_cons, List.flatMap_cons] at h
    obtain ⟨rfl, hrest⟩ := lengthPrefixed_append_inj has.1 hbs.1 h
    rw [flatMap_lengthPrefixed_inj hwidth has.2 hbs.2 hrest]

end

end Reboot.Lib
