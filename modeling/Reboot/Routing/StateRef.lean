import Mathlib.Data.List.TakeWhile
import Reboot.Lib.Base64
import Reboot.Lib.Text

/-!
# State refs

`StateRef` (`reboot/aio/types.py`): a `/`-separated compound id whose components
are each a state type tag and an id, separated by the first `:`. A ref may also be
written with the names of its state types, and `from_maybe_readable` turns such a
candidate into the encoded form. A candidate that already is encoded is returned
as it is; whether it is, `is_state_ref` decides from the *last* component alone.

The results here say when a candidate is accepted (`fromMaybeReadable_of_not`) and
that a tag made by `state_type_tag_for_name` is recognized as one
(`isStateRef_tagged`), which is what makes `from_maybe_readable` idempotent on
simple refs.

Mirroring notes:
- SHA-1 is a parameter from strings to 20-byte digests; `str.encode` is part of it.
- `_state_type_tags` is a cache of a pure function and is left out. The two
  assertions on the padding and the length of a tag are `tagEncoding_eq` and
  `stateTypeTagForName_length`.
- `is_state_ref` can raise: a tag in which no character is a base64 digit decodes
  to nothing, and `state_type_tag[0]` is then outside the `try`.
-/

namespace Reboot.Routing

open Reboot.Lib

/-- What a Python function raises. -/
inductive PyError
  | valueError (message : Str)
  | indexError
  | keyError
  | assertionError
  | unknownApplicationError (applicationId : Str)
  deriving DecidableEq

/-- A SHA-1 digest. -/
structure Digest where
  bytes : List Byte
  length_eq : bytes.length = 20
  deriving DecidableEq

/-- The digest that begins with some bytes, filled up with zeros. -/
def Digest.ofBytes (bytes : List Byte) : Digest :=
  ⟨(bytes ++ List.replicate 20 0).take 20, by simp⟩

/-- `_STATE_TYPE_TAG_LENGTH`. -/
def stateTypeTagLength : Nat := 14

/-- A `StateRef`, or a `ReadableStateRef` when `readableRef` is given. -/
structure StateRef where
  ref : Str
  readableRef : Option Str
  deriving DecidableEq

/-- `StateRef.components`, as strings. -/
def StateRef.components (r : StateRef) : List Str := r.ref.splitOn '/'

/-- `candidate.rfind(c) + 1`: the position after the last `c`, or 0. -/
def rfindNext (c : Char) (s : Str) : Nat :=
  s.length - (s.reverse.takeWhile (fun a => decide (a ≠ c))).length

/-- `StateRef.is_state_ref`. -/
def isStateRef (candidate : Str) : Except PyError Bool :=
  let lastIdStartIdx := rfindNext '/' candidate
  let stateTagEnd := lastIdStartIdx + stateTypeTagLength
  if candidate.length < stateTagEnd + 1 ∨ candidate[stateTagEnd]? ≠ some ':' then .ok false
  else
    let stateTypeTagStr := (candidate.drop lastIdStartIdx).take stateTypeTagLength ++ "==".toList
    match urlsafeB64decode stateTypeTagStr with
    | none => .ok false
    | some [] => .error .indexError
    | some (b :: _) => .ok (decide (b = 0))

section

variable (sha1 : Str → Digest)

/-- The bytes a tag encodes: the first half of the digest, high-order byte zeroed. -/
def stateTypeBytes (stateType : Str) : List Byte :=
  ((sha1 stateType).bytes.take ((sha1 stateType).bytes.length / 2)).set 0 0

/-- `state_type_tag_for_name`: the encoding without its last two characters. -/
def stateTypeTagForName (stateType : Str) : Str :=
  (urlsafeB64encode (stateTypeBytes sha1 stateType)).dropLast.dropLast

/-- The text of the `ValueError` for a component. -/
def invalidComponentMessage (component candidate : Str) : Str :=
  "Invalid state reference component `".toList ++ component ++ "` in `".toList ++ candidate ++
  ("`: must contain either an encoded state type or state type string, separated from an id " ++
    "by a `:`. If your state ID contains slashes (`/`), remember to replace them with their " ++
    "escape character: a backslash (`\\`).").toList

/-- The loop of `from_maybe_readable`: the encoded components and `readable`. -/
def readableComponents (candidate : Str) : List Str → Except PyError (List Str × Bool)
  | [] => .ok ([], false)
  | component :: rest =>
    match cutFirst ':' component with
    | none => .error (.valueError (invalidComponentMessage component candidate))
    | some (ty, stateId) =>
      if ty = [] then .error (.valueError (invalidComponentMessage component candidate))
      else
        let tag := stateTypeTagForName sha1 ty
        match readableComponents candidate rest with
        | .error e => .error e
        | .ok (result, readable) =>
          .ok ((tag ++ ':' :: stateId) :: result, decide (tag ≠ ty) || readable)

/-- `StateRef.from_maybe_readable`. -/
def fromMaybeReadable (candidate : Str) : Except PyError StateRef :=
  match isStateRef candidate with
  | .error e => .error e
  | .ok true => .ok ⟨candidate, none⟩
  | .ok false =>
    match readableComponents sha1 candidate (candidate.splitOn '/') with
    | .error e => .error e
    | .ok (result, readable) =>
      if result = [] then .error (.valueError "Cannot create empty StateRef.".toList)
      else
        let ref := ['/'].intercalate result
        if readable then .ok ⟨ref, some candidate⟩ else .ok ⟨ref, none⟩

end

/-! ## Tags -/

section

variable {sha1 : Str → Digest}

variable (sha1) in
/-- The ten bytes, with the zero first. -/
theorem stateTypeBytes_eq (ty : Str) :
    ∃ b1 b2 b3 b4 b5 b6 b7 b8 b9 : Byte,
      stateTypeBytes sha1 ty = [0, b1, b2, b3, b4, b5, b6, b7, b8, b9] := by
  have hlen : ((sha1 ty).bytes.take ((sha1 ty).bytes.length / 2)).length = 10 := by
    simp [(sha1 ty).length_eq]
  unfold stateTypeBytes
  generalize (sha1 ty).bytes.take ((sha1 ty).bytes.length / 2) = bs at hlen
  match bs, hlen with
  | [_, b1, b2, b3, b4, b5, b6, b7, b8, b9], _ =>
    exact ⟨b1, b2, b3, b4, b5, b6, b7, b8, b9, rfl⟩

/-- The encoding of the ten bytes ends in the padding the source asserts, and the
tag is what stands before it. -/
theorem tagEncoding_eq (ty : Str) :
    urlsafeB64encode (stateTypeBytes sha1 ty) = stateTypeTagForName sha1 ty ++ ['=', '='] := by
  obtain ⟨b1, b2, b3, b4, b5, b6, b7, b8, b9, h⟩ := stateTypeBytes_eq sha1 ty
  unfold stateTypeTagForName
  rw [h]
  rfl

/-- A tag is made of base64 digits. -/
theorem stateTypeTagForName_digits (ty : Str) :
    ∀ c ∈ stateTypeTagForName sha1 ty, ∃ n < 64, c = base64Char n := by
  obtain ⟨b1, b2, b3, b4, b5, b6, b7, b8, b9, h⟩ := stateTypeBytes_eq sha1 ty
  unfold stateTypeTagForName
  rw [h]
  intro c hc
  simp only [urlsafeB64encode, List.dropLast_cons_cons, List.dropLast_singleton,
    List.mem_cons, List.not_mem_nil, or_false] at hc
  rcases hc with h | h | h | h | h | h | h | h | h | h | h | h | h | h <;>
    exact ⟨_, by omega, h⟩

variable (sha1) in
theorem stateTypeTagForName_length (ty : Str) :
    (stateTypeTagForName sha1 ty).length = stateTypeTagLength := by
  obtain ⟨b1, b2, b3, b4, b5, b6, b7, b8, b9, h⟩ := stateTypeBytes_eq sha1 ty
  unfold stateTypeTagForName
  rw [h]
  rfl

theorem base64Char_not_special : ∀ n : Fin 64,
    base64Char n ≠ '/' ∧ base64Char n ≠ ':' ∧ base64Char n ≠ '.' := by
  decide +kernel

variable (sha1) in
/-- The characters the ref syntax gives a meaning to do not occur in a tag. -/
theorem not_mem_stateTypeTagForName {c : Char} (hc : c = '/' ∨ c = ':' ∨ c = '.') (ty : Str) :
    c ∉ stateTypeTagForName sha1 ty := by
  intro h
  obtain ⟨n, hn, rfl⟩ := stateTypeTagForName_digits ty c h
  obtain ⟨h1, h2, h3⟩ := base64Char_not_special ⟨n, hn⟩
  rcases hc with h | h | h
  · exact h1 h
  · exact h2 h
  · exact h3 h

theorem rfindNext_of_not_mem {c : Char} {s : Str} (h : c ∉ s) : rfindNext c s = 0 := by
  have hall : s.reverse.takeWhile (fun a => decide (a ≠ c)) = s.reverse := by
    rw [List.takeWhile_eq_self_iff]
    intro a ha
    exact decide_eq_true fun e => h (e ▸ List.mem_reverse.mp ha)
  rw [rfindNext, hall, List.length_reverse, Nat.sub_self]

variable (sha1) in
/-- A simple ref made of a tag and an id is recognized as a state ref. -/
theorem isStateRef_tagged (ty : Str) {stateId : Str} (h : '/' ∉ stateId) :
    isStateRef (stateTypeTagForName sha1 ty ++ ':' :: stateId) = .ok true := by
  have hlen := stateTypeTagForName_length sha1 ty
  have hslash : '/' ∉ stateTypeTagForName sha1 ty ++ ':' :: stateId := by
    simp only [List.mem_append, List.mem_cons, not_or]
    exact ⟨not_mem_stateTypeTagForName sha1 (Or.inl rfl) ty, by decide, h⟩
  have htake : (stateTypeTagForName sha1 ty ++ ':' :: stateId).take stateTypeTagLength =
      stateTypeTagForName sha1 ty := by
    rw [← hlen, List.take_left]
  have hget : (stateTypeTagForName sha1 ty ++ ':' :: stateId)[stateTypeTagLength]? = some ':' := by
    rw [← hlen]; simp
  obtain ⟨b1, b2, b3, b4, b5, b6, b7, b8, b9, hb⟩ := stateTypeBytes_eq sha1 ty
  have hdec := urlsafeB64decode_encode (stateTypeBytes sha1 ty)
  rw [tagEncoding_eq, hb] at hdec
  unfold isStateRef
  simp only [rfindNext_of_not_mem hslash, Nat.zero_add, hget, List.drop_zero, htake]
  rw [if_neg (by simp [hlen])]
  have heq : "==".toList = ['=', '='] := rfl
  rw [heq, hdec]
  rfl

/-! ## Accepted candidates -/

/-- What both parsers ask of a component: a `:`, and something before it. -/
def ValidComponent (component : Str) : Prop :=
  ∃ ty stateId, cutFirst ':' component = some (ty, stateId) ∧ ty ≠ []

/-- A component with its state type replaced by the tag of that name. -/
def tagComponent (sha1 : Str → Digest) (component : Str) : Str :=
  match cutFirst ':' component with
  | some (ty, stateId) => stateTypeTagForName sha1 ty ++ ':' :: stateId
  | none => component

variable (sha1) in
theorem not_mem_tagComponent {c : Str} (h : '/' ∉ c) : '/' ∉ tagComponent sha1 c := by
  unfold tagComponent
  split
  next ty stateId hcut =>
    obtain ⟨rfl, -⟩ := cutFirst_eq_some hcut
    simp only [List.mem_append, List.mem_cons, not_or] at h ⊢
    exact ⟨not_mem_stateTypeTagForName sha1 (Or.inl rfl) ty, h.2⟩
  next => exact h

variable (sha1) in
theorem readableComponents_ok (candidate : Str) : ∀ {cs : List Str},
    (∀ c ∈ cs, ValidComponent c) →
    ∃ readable, readableComponents sha1 candidate cs = .ok (cs.map (tagComponent sha1), readable)
  | [], _ => ⟨false, rfl⟩
  | c :: cs, h => by
    obtain ⟨ty, stateId, hc, hty⟩ := h c (List.mem_cons_self ..)
    obtain ⟨readable, ih⟩ := readableComponents_ok candidate
      fun c' hc' => h c' (List.mem_cons_of_mem _ hc')
    simp [readableComponents, hc, hty, ih, tagComponent]

theorem readableComponents_valid {candidate : Str} : ∀ {cs : List Str} {r : List Str × Bool},
    readableComponents sha1 candidate cs = .ok r → ∀ c ∈ cs, ValidComponent c
  | [], _, _, _, hc => absurd hc (List.not_mem_nil)
  | c :: cs, r, h, c', hc' => by
    simp only [readableComponents] at h
    split at h
    next => cases h
    next ty stateId hcut =>
      split at h
      next => cases h
      next hty =>
        split at h
        next => cases h
        next heq =>
          rcases List.mem_cons.mp hc' with rfl | hm
          · exact ⟨ty, stateId, hcut, hty⟩
          · exact readableComponents_valid heq c' hm

/-- A candidate is accepted when it is encoded, or when all of its components are
valid. SHA-1 has no part in it. -/
def Accepts (candidate : Str) : Prop :=
  isStateRef candidate = .ok true ∨
    isStateRef candidate = .ok false ∧ ∀ c ∈ candidate.splitOn '/', ValidComponent c

theorem fromMaybeReadable_of_isStateRef {candidate : Str} (h : isStateRef candidate = .ok true) :
    fromMaybeReadable sha1 candidate = .ok ⟨candidate, none⟩ := by
  simp [fromMaybeReadable, h]

variable (sha1) in
/-- A candidate that is not encoded has every one of its types replaced by a tag. -/
theorem fromMaybeReadable_of_not {candidate : Str} (h : isStateRef candidate = .ok false)
    (hv : ∀ c ∈ candidate.splitOn '/', ValidComponent c) :
    ∃ readableRef, fromMaybeReadable sha1 candidate =
      .ok ⟨['/'].intercalate ((candidate.splitOn '/').map (tagComponent sha1)), readableRef⟩ := by
  obtain ⟨readable, hok⟩ := readableComponents_ok sha1 candidate hv
  have hne : ¬ (candidate.splitOn '/').map (tagComponent sha1) = [] := by simp
  simp only [fromMaybeReadable, h, hok, if_neg hne]
  split
  · exact ⟨_, rfl⟩
  · exact ⟨_, rfl⟩

/-- `from_maybe_readable` returns exactly on the accepted candidates. -/
theorem fromMaybeReadable_ok_iff {candidate : Str} :
    (∃ r, fromMaybeReadable sha1 candidate = .ok r) ↔ Accepts candidate := by
  constructor
  · rintro ⟨r, hr⟩
    simp only [fromMaybeReadable] at hr
    split at hr
    next => cases hr
    next h => exact Or.inl h
    next h =>
      split at hr
      next => cases hr
      next hok => exact Or.inr ⟨h, readableComponents_valid hok⟩
  · rintro (h | ⟨h, hv⟩)
    · exact ⟨_, fromMaybeReadable_of_isStateRef h⟩
    · obtain ⟨rr, hr⟩ := fromMaybeReadable_of_not sha1 h hv
      exact ⟨_, hr⟩

end

end Reboot.Routing
