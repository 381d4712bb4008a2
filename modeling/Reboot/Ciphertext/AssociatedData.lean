import Mathlib.Algebra.GroupWithZero.Nat
import Reboot.Lib.Bisect
import Reboot.Lib.Dict
import Reboot.Lib.Json
import Reboot.Lib.LengthPrefix

/-!
# Associated data in two languages

A value is encrypted with associated data, and decrypted only with the same bytes. The bytes are
made of a map of strings by `make_associated_data` (`reboot/std/ciphertext/v1/ciphertext.py`) and
by `makeAssociatedData` (`index.ts` beside it): the keys are sorted, and each key and each value is
written in UTF-8 behind its length.

The two sort differently. Python compares strings by their code points, and JavaScript by their
UTF-16 units, which puts what is above the first plane before the end of it. On ASCII keys the
orders are one (`units_lt`), and so are the bytes. In both languages different maps have different
bytes, whatever their keys are.

> `associatedData_canonical`: the same bytes from both languages for the same map with ASCII keys,
> and in each of them the same bytes for the same maps only, as long as no key or value has
> 2^32 bytes.

Mirroring notes:
- A map is a dictionary in some order: the insertion order of Python, and what `Object.keys` makes
  of it in JavaScript. Two maps are the same if they have the same values under the same keys.
- A string is a list of characters, so it is well-formed. A missing key is a `KeyError` in Python,
  and `TextEncoder` encodes `undefined` as nothing.
- `to_bytes` raises for a length that does not fit, where `setUint32` writes the low 32 bits.
-/

namespace Reboot.Ciphertext

open Reboot.Lib

/-! ## Python -/

namespace Python

/-- What `make_associated_data` can raise. -/
inductive AssociatedDataError
  | keyError
  | overflowError
  deriving DecidableEq

/-- `length.to_bytes(4, "big")`. -/
def lengthToBytes (length : Nat) : Except AssociatedDataError (List Byte) :=
  if length < 256 ^ 4 then .ok (toBytesBig 4 length) else .error .overflowError

/-- The loop over the sorted keys. -/
def parts (fields : Dict Str Str) : List Str → Except AssociatedDataError (List (List Byte))
  | [] => .ok []
  | key :: keys =>
    match fields.find? key with
    | none => .error .keyError
    | some value =>
      let keyBytes := utf8 key
      let valueBytes := utf8 value
      match lengthToBytes keyBytes.length with
      | .error e => .error e
      | .ok keyLength =>
        match lengthToBytes valueBytes.length with
        | .error e => .error e
        | .ok valueLength =>
          match parts fields keys with
          | .error e => .error e
          | .ok rest => .ok ((keyLength ++ keyBytes ++ valueLength ++ valueBytes) :: rest)

/-- `make_associated_data`. -/
def makeAssociatedData (fields : Dict Str Str) : Except AssociatedDataError (List Byte) :=
  (parts fields (sortBy id (fields.items.map Prod.fst))).map List.flatten

end Python

/-! ## TypeScript -/

namespace TypeScript

/-- What strings are compared by. -/
def units (s : Str) : List Nat := s.flatMap utf16Units

/-- `uint32BigEndian`. -/
def uint32BigEndian (value : Nat) : List Byte := toBytesBig 4 (value % 2 ^ 32)

/-- The loop over the sorted keys: the chunks, and their length. -/
def chunkLoop (fields : Dict Str Str) : List Str → List (List Byte) → Nat → List (List Byte) × Nat
  | [], chunks, length => (chunks, length)
  | key :: keys, chunks, length =>
    let keyBytes := utf8 key
    let valueBytes := utf8 ((fields.find? key).getD [])
    let pushed := [uint32BigEndian keyBytes.length, keyBytes,
      uint32BigEndian valueBytes.length, valueBytes]
    chunkLoop fields keys (chunks ++ pushed) (length + (pushed.map List.length).sum)

/-- `result.set(chunk, offset)`. -/
def setBytes (result chunk : List Byte) (offset : Nat) : List Byte :=
  result.take offset ++ chunk ++ result.drop (offset + chunk.length)

/-- The loop that fills the result. -/
def fill : List (List Byte) → List Byte → Nat → List Byte
  | [], result, _ => result
  | chunk :: chunks, result, offset =>
    fill chunks (setBytes result chunk offset) (offset + chunk.length)

/-- `makeAssociatedData`. -/
def makeAssociatedData (fields : Dict Str Str) : List Byte :=
  let r := chunkLoop fields (sortBy units (fields.items.map Prod.fst)) [] 0
  fill r.1 (List.replicate r.2 0) 0

end TypeScript

/-! ## Fields one after another -/

/-- Keys and values in turn, each behind its length. -/
def encodeFields (items : List (Str × Str)) : List Byte :=
  (items.flatMap fun e => [utf8 e.1, utf8 e.2]).flatMap (lengthPrefixed 4)

/-- The lengths of keys and values fit into four bytes. -/
def Short (items : List (Str × Str)) : Prop :=
  ∀ e ∈ items, (utf8 e.1).length < 2 ^ 32 ∧ (utf8 e.2).length < 2 ^ 32

/-- Keys and values are told from their bytes. -/
theorem flatMap_utf8_inj : ∀ {as bs : List (Str × Str)},
    (as.flatMap fun e => [utf8 e.1, utf8 e.2]) = (bs.flatMap fun e => [utf8 e.1, utf8 e.2]) →
    as = bs
  | [], [], _ => rfl
  | [], _ :: _, h => nomatch h
  | _ :: _, [], h => nomatch h
  | a :: as, b :: bs, h => by
    rw [List.flatMap_cons, List.flatMap_cons] at h
    obtain ⟨hkey, hrest⟩ := List.cons.inj h
    obtain ⟨hvalue, hrest⟩ := List.cons.inj hrest
    rw [Prod.ext (utf8_injective hkey) (utf8_injective hvalue), flatMap_utf8_inj hrest]

theorem encodeFields_inj {as bs : List (Str × Str)} (has : Short as) (hbs : Short bs)
    (h : encodeFields as = encodeFields bs) : as = bs := by
  have hlen : ∀ {items : List (Str × Str)}, Short items →
      ∀ field ∈ items.flatMap (fun e => [utf8 e.1, utf8 e.2]), field.length < 256 ^ 4 := by
    intro items hshort field hfield
    have hbound : 256 ^ 4 = 2 ^ 32 := by decide
    obtain ⟨e, he, hmem⟩ := List.mem_flatMap.mp hfield
    rw [hbound]
    rcases List.mem_cons.mp hmem with rfl | hmem
    · exact (hshort e he).1
    · rw [List.mem_singleton] at hmem
      subst hmem
      exact (hshort e he).2
  exact flatMap_utf8_inj
    (flatMap_lengthPrefixed_inj (by decide) (hlen has) (hlen hbs) h)

theorem encodeFields_cons (e : Str × Str) (items : List (Str × Str)) :
    encodeFields (e :: items) =
      lengthPrefixed 4 (utf8 e.1) ++ lengthPrefixed 4 (utf8 e.2) ++ encodeFields items := by
  rw [encodeFields, List.flatMap_cons, List.flatMap_append]
  simp only [List.flatMap_cons, List.flatMap_nil, List.append_nil]
  rfl

/-! ## What each language writes -/

/-- The items of a map in strict order of their keys, which sorting the keys gives. -/
theorem sortBy_keys {κ : Type*} [LinearOrder κ] (f : Str → κ) (fields : Dict Str Str)
    (hf : ∀ k ∈ fields.items.map Prod.fst, ∀ k' ∈ fields.items.map Prod.fst, f k = f k' → k = k') :
    ∃ items : List (Str × Str), items.Perm fields.items ∧
      items.Pairwise (fun a b => f a.1 < f b.1) ∧
      sortBy f (fields.items.map Prod.fst) = items.map Prod.fst := by
  have hnodup : (fields.items.map fun e => f e.1).Nodup := by
    have hmap := List.Nodup.map_on (fun k hk k' hk' => hf k hk k' hk') fields.nodup
    rwa [List.map_map] at hmap
  have hperm := sortBy_perm (fun e : Str × Str => f e.1) fields.items
  have hsorted := sortBy_pairwise_lt hnodup
  refine ⟨_, hperm, hsorted, sortBy_eq_of_perm (hperm.map Prod.fst).symm ?_⟩
  exact List.pairwise_map.mpr hsorted

namespace Python

theorem lengthToBytes_of_lt {field : List Byte} (h : field.length < 2 ^ 32) :
    lengthToBytes field.length = .ok (toBytesBig 4 field.length) :=
  if_pos (Nat.lt_of_lt_of_eq h (by decide))

theorem parts_eq (fields : Dict Str Str) : ∀ {items : List (Str × Str)}, Short items →
    (∀ e ∈ items, e ∈ fields.items) →
    (parts fields (items.map Prod.fst)).map List.flatten = .ok (encodeFields items)
  | [], _, _ => rfl
  | e :: items, hshort, hmem => by
    unfold Short at hshort
    rw [List.forall_mem_cons] at hshort hmem
    have hfind : fields.find? e.1 = some e.2 := Dict.find?_eq_some_iff.mpr hmem.1
    have ih := parts_eq fields hshort.2 hmem.2
    rw [List.map_cons, parts, hfind]
    dsimp only
    rw [lengthToBytes_of_lt hshort.1.1, lengthToBytes_of_lt hshort.1.2]
    dsimp only
    cases hrest : parts fields (items.map Prod.fst) with
    | error error =>
      rw [hrest] at ih
      cases ih
    | ok rest =>
      rw [hrest] at ih
      have hflat : rest.flatten = encodeFields items := Except.ok.inj ih
      rw [encodeFields_cons, ← hflat]
      refine congrArg Except.ok ?_
      rw [List.flatten_cons, lengthPrefixed, lengthPrefixed]
      simp only [List.append_assoc]

/-- The fields of a map, in the order of its keys. -/
theorem makeAssociatedData_eq {fields : Dict Str Str} (hshort : Short fields.items) :
    ∃ items : List (Str × Str), items.Perm fields.items ∧
      items.Pairwise (fun a b => a.1 < b.1) ∧
      makeAssociatedData fields = .ok (encodeFields items) := by
  obtain ⟨items, hperm, hsorted, hkeys⟩ := sortBy_keys id fields (fun _ _ _ _ h => h)
  refine ⟨items, hperm, hsorted, ?_⟩
  rw [makeAssociatedData, hkeys]
  exact parts_eq fields (fun e he => hshort e (hperm.mem_iff.mp he)) fun e he => hperm.mem_iff.mp he

end Python

namespace TypeScript

theorem units_injective : Function.Injective units := by
  intro s t h
  have hs := fromUtf16_units s
  rw [show s.flatMap utf16Units = t.flatMap utf16Units from h, fromUtf16_units] at hs
  exact (Option.some.inj hs).symm

theorem uint32BigEndian_eq {n : Nat} (h : n < 2 ^ 32) : uint32BigEndian n = toBytesBig 4 n := by
  rw [uint32BigEndian, Nat.mod_eq_of_lt h]

/-- The chunks put together are the fields, and the length is theirs. -/
theorem chunkLoop_eq (fields : Dict Str Str) : ∀ {items : List (Str × Str)}
    (chunks : List (List Byte)), Short items → (∀ e ∈ items, e ∈ fields.items) →
    ∃ rest, rest.flatten = encodeFields items ∧
      chunkLoop fields (items.map Prod.fst) chunks chunks.flatten.length =
        (chunks ++ rest, (chunks ++ rest).flatten.length)
  | [], chunks, _, _ => ⟨[], rfl, by rw [List.append_nil]; rfl⟩
  | e :: items, chunks, hshort, hmem => by
    unfold Short at hshort
    rw [List.forall_mem_cons] at hshort hmem
    have hfind : fields.find? e.1 = some e.2 := Dict.find?_eq_some_iff.mpr hmem.1
    rw [List.map_cons, chunkLoop, hfind]
    dsimp only [Option.getD_some]
    rw [uint32BigEndian_eq hshort.1.1, uint32BigEndian_eq hshort.1.2, ← List.length_flatten,
      ← List.length_append, ← List.flatten_append]
    obtain ⟨rest, hrest, hloop⟩ := chunkLoop_eq fields (chunks ++
      [toBytesBig 4 (utf8 e.1).length, utf8 e.1, toBytesBig 4 (utf8 e.2).length, utf8 e.2])
      hshort.2 hmem.2
    refine ⟨[toBytesBig 4 (utf8 e.1).length, utf8 e.1, toBytesBig 4 (utf8 e.2).length, utf8 e.2] ++
      rest, ?_, by rw [hloop, List.append_assoc]⟩
    rw [List.flatten_append, hrest, encodeFields_cons, lengthPrefixed, lengthPrefixed]
    simp [List.flatten_cons]

/-- Chunks that fill the rest of a result, one behind the other. -/
theorem fill_eq : ∀ (chunks : List (List Byte)) (front : List Byte),
    fill chunks (front ++ List.replicate chunks.flatten.length 0) front.length =
      front ++ chunks.flatten
  | [], front => by rw [fill]; simp
  | chunk :: chunks, front => by
    have hset : setBytes (front ++ List.replicate (chunk :: chunks).flatten.length 0) chunk
        front.length = front ++ chunk ++ List.replicate chunks.flatten.length 0 := by
      unfold setBytes
      rw [List.take_left, List.drop_append, List.drop_replicate, List.flatten_cons,
        List.length_append]
      simp
    rw [fill, hset, ← List.length_append, fill_eq chunks (front ++ chunk), List.flatten_cons,
      List.append_assoc]

/-- The fields of a map, in the order of the units of its keys. -/
theorem makeAssociatedData_eq {fields : Dict Str Str} (hshort : Short fields.items) :
    ∃ items : List (Str × Str), items.Perm fields.items ∧
      items.Pairwise (fun a b => units a.1 < units b.1) ∧
      makeAssociatedData fields = encodeFields items := by
  obtain ⟨items, hperm, hsorted, hkeys⟩ := sortBy_keys units fields
    (fun _ _ _ _ h => units_injective h)
  obtain ⟨rest, hrest, hloop⟩ := chunkLoop_eq fields []
    (fun e he => hshort e (hperm.mem_iff.mp he)) (fun e he => hperm.mem_iff.mp he)
  refine ⟨items, hperm, hsorted, ?_⟩
  have hfill := fill_eq rest []
  rw [List.nil_append, List.nil_append, List.length_nil] at hfill
  have hrun : chunkLoop fields (items.map Prod.fst) [] 0 = (rest, rest.flatten.length) := hloop
  unfold makeAssociatedData
  rw [hkeys, hrun, ← hrest]
  exact hfill

/-- ASCII strings are ordered by their units as they are by their characters. -/
theorem units_lt : ∀ {s t : Str}, (∀ c ∈ s, c.toNat < 128) → (∀ c ∈ t, c.toNat < 128) → s < t →
    units s < units t
  | _, [], _, _, h => absurd h (List.not_lt_nil _)
  | [], c :: t, _, ht, _ => by
    rw [List.forall_mem_cons] at ht
    rw [units, units, List.flatMap_cons, utf16Units, if_pos (by omega)]
    exact List.nil_lt_cons _ _
  | c :: s, d :: t, hs, ht, h => by
    rw [List.forall_mem_cons] at hs ht
    have hcons : ∀ {a : Char} {u : Str}, a.toNat < 128 → units (a :: u) = a.toNat :: units u := by
      intro a u ha
      rw [units, List.flatMap_cons, utf16Units, if_pos (by omega)]
      rfl
    rw [hcons hs.1, hcons ht.1, List.cons_lt_cons_iff]
    rcases List.cons_lt_cons_iff.mp h with hlt | ⟨rfl, hlt⟩
    · exact .inl hlt
    · exact .inr ⟨rfl, units_lt hs.2 ht.2 hlt⟩

end TypeScript

/-! ## Both languages -/

/-- Two maps have the same values under the same keys. -/
def SameMap (a b : Dict Str Str) : Prop := ∀ k, a.find? k = b.find? k

/-- The same maps have the same items, in some order. -/
theorem sameMap_iff_perm {a b : Dict Str Str} : SameMap a b ↔ a.items.Perm b.items := by
  rw [List.perm_ext_iff_of_nodup (List.Nodup.of_map _ a.nodup) (List.Nodup.of_map _ b.nodup)]
  constructor
  · rintro h ⟨k, v⟩
    rw [← Dict.find?_eq_some_iff, ← Dict.find?_eq_some_iff, h k]
  · intro h k
    refine Option.ext fun v => ?_
    rw [Dict.find?_eq_some_iff, Dict.find?_eq_some_iff, h (k, v)]

/-- Items in strict order are those of a map, whatever the order of the map is. -/
theorem eq_of_perm_of_pairwise_lt {κ : Type*} [LinearOrder κ] {f : Str → κ}
    {as bs : List (Str × Str)} (hperm : as.Perm bs)
    (has : as.Pairwise fun a b => f a.1 < f b.1) (hbs : bs.Pairwise fun a b => f a.1 < f b.1) :
    as = bs := by
  rw [← sortBy_eq_of_perm (f := fun e : Str × Str => f e.1) hperm hbs]
  exact (sortBy_eq_of_perm (f := fun e : Str × Str => f e.1) (List.Perm.refl as) has).symm

/-- What is written in order of some key determines the map, and is determined by it. -/
theorem encodeFields_eq_iff {κ : Type*} [LinearOrder κ] {f : Str → κ} {a b : Dict Str Str}
    {as bs : List (Str × Str)} (hshort : Short a.items) (hshort' : Short b.items)
    (ha : as.Perm a.items) (hb : bs.Perm b.items) (has : as.Pairwise fun x y => f x.1 < f y.1)
    (hbs : bs.Pairwise fun x y => f x.1 < f y.1) :
    encodeFields as = encodeFields bs ↔ SameMap a b := by
  rw [sameMap_iff_perm]
  constructor
  · intro h
    have heq := encodeFields_inj (fun e he => hshort e (ha.mem_iff.mp he))
      (fun e he => hshort' e (hb.mem_iff.mp he)) h
    subst heq
    exact ha.symm.trans hb
  · intro h
    rw [eq_of_perm_of_pairwise_lt (ha.trans (h.trans hb.symm)) has hbs]

/-- The keys are ASCII. -/
def AsciiKeys (fields : Dict Str Str) : Prop := ∀ e ∈ fields.items, ∀ c ∈ e.1, c.toNat < 128

/-- One map with ASCII keys has the same bytes in both languages, and in each of them only the same
maps have the same bytes. -/
theorem associatedData_canonical (a b : Dict Str Str) (ha : Short a.items) (hb : Short b.items) :
    (AsciiKeys a → SameMap a b →
      Python.makeAssociatedData a = .ok (TypeScript.makeAssociatedData b)) ∧
    (Python.makeAssociatedData a = Python.makeAssociatedData b ↔ SameMap a b) ∧
    (TypeScript.makeAssociatedData a = TypeScript.makeAssociatedData b ↔ SameMap a b) := by
  obtain ⟨as, haperm, hasorted, hapy⟩ := Python.makeAssociatedData_eq ha
  obtain ⟨bs, hbperm, hbsorted, hbpy⟩ := Python.makeAssociatedData_eq hb
  obtain ⟨as', haperm', hasorted', hats⟩ := TypeScript.makeAssociatedData_eq ha
  obtain ⟨bs', hbperm', hbsorted', hbts⟩ := TypeScript.makeAssociatedData_eq hb
  refine ⟨fun hascii hsame => ?_, ?_, ?_⟩
  · -- on ASCII keys the order of Python is the order of the units as well
    have hunits : as.Pairwise fun x y => TypeScript.units x.1 < TypeScript.units y.1 := by
      refine hasorted.imp_of_mem fun {x y} hx hy hlt => ?_
      exact TypeScript.units_lt (hascii x (haperm.mem_iff.mp hx))
        (hascii y (haperm.mem_iff.mp hy)) hlt
    have hperm := haperm.trans ((sameMap_iff_perm.mp hsame).trans hbperm'.symm)
    rw [hapy, hbts, eq_of_perm_of_pairwise_lt hperm hunits hbsorted']
  · rw [hapy, hbpy, Except.ok.injEq]
    exact encodeFields_eq_iff (f := id) ha hb haperm hbperm hasorted hbsorted
  · rw [hats, hbts]
    exact encodeFields_eq_iff ha hb haperm' hbperm' hasorted' hbsorted'

/-- The example of the docstrings, written in two orders. -/
def userFields : Dict Str Str := ⟨[("user_id".toList, "42".toList), ("purpose".toList, "ssn".toList)],
  by decide⟩

def userFieldsReversed : Dict Str Str :=
  ⟨[("purpose".toList, "ssn".toList), ("user_id".toList, "42".toList)], by decide⟩

theorem associatedData_user :
    Python.makeAssociatedData userFields = .ok (TypeScript.makeAssociatedData userFieldsReversed) ∧
    (TypeScript.makeAssociatedData userFieldsReversed).take 12 =
      [0, 0, 0, 7, 112, 117, 114, 112, 111, 115, 101, 0] := by
  have hshort : ∀ e ∈ userFields.items, (utf8 e.1).length < 2 ^ 32 ∧ (utf8 e.2).length < 2 ^ 32 := by
    decide +kernel
  have hshort' : ∀ e ∈ userFieldsReversed.items,
      (utf8 e.1).length < 2 ^ 32 ∧ (utf8 e.2).length < 2 ^ 32 := by
    decide +kernel
  have hascii : ∀ e ∈ userFields.items, ∀ c ∈ e.1, c.toNat < 128 := by decide +kernel
  have hsame : SameMap userFields userFieldsReversed :=
    sameMap_iff_perm.mpr (List.Perm.swap _ _ _)
  exact ⟨(associatedData_canonical userFields userFieldsReversed hshort hshort').1 hascii hsame,
    by decide +kernel⟩

end Reboot.Ciphertext
