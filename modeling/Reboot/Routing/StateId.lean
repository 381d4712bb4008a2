import Reboot.Routing.StateRef

/-!
# State ids and colocated refs

The part of `reboot/aio/types.py` that turns an id into a ref and back: `from_id` checks
the id, encodes it and puts the tag of its type in front; `colocate` puts such a ref under
a parent; `id` and `state_type_tag` read the last component again.

An id may contain `/`, which separates the components of a ref, so `_state_id_encode`
rewrites it to `\`, which an id may not contain. That makes the encoding injective on the
accepted ids (`stateIdEncode_injOn`) and a ref readable again (`refId_colocated`). It does
not make it monotone: `/` comes before the digits and the upper-case letters and `\` after
them, so encoding can turn two ids around. `stateIdEncode_of_noSlash` is the easy case.

Mirroring notes:
- An id is a `str`, so the checks of `validate_ascii` on `None`, on a `uuid.UUID` and on
  other types are left out. The constructors of `InvalidStateRefError` stand for its four
  texts and carry what is interpolated.
-/

namespace Reboot.Routing

open Reboot.Lib

/-- The texts of an `InvalidStateRefError` raised for a `state_id`. -/
inductive InvalidStateRefError
  /-- "… must be at most {length_max} characters long; the given value is {…} …" -/
  | tooLong (lengthMax length : Nat)
  /-- "… must be at least {length_min} character(s) long; the given value is {…} …" -/
  | tooShort (lengthMin length : Nat)
  /-- "… must be an ASCII string; the given value '{value}' is not ASCII" -/
  | notAscii (value : Str)
  /-- "… contained illegal characters: {found!r}. The value was: {value!r}" -/
  | illegalCharacters (found value : Str)
  deriving DecidableEq

/-- `MIN_ACTOR_ID_LENGTH`. -/
def minActorIdLength : Nat := 1

/-- `MAX_ACTOR_ID_LENGTH`. -/
def maxActorIdLength : Nat := 128

/-- `ILLEGAL_STATE_ID_CHARACTERS`. -/
def illegalStateIdCharacters : Str := ['\x00', '\n', '\\']

/-- `validate_ascii`. -/
def validateAscii (value : Str) (lengthMax lengthMin : Nat) (illegalCharacters : Str) :
    Except InvalidStateRefError Unit :=
  if value.length > lengthMax then .error (.tooLong lengthMax value.length)
  else if value.length < lengthMin then .error (.tooShort lengthMin value.length)
  else if ¬ value.all fun c => decide (c.toNat < 128) then .error (.notAscii value)
  else
    let found := value.filter fun c => illegalCharacters.contains c
    if found.length > 0 then .error (.illegalCharacters found value) else .ok ()

/-- `_state_id_encode`. -/
def stateIdEncode (stateId : Str) : Str := stateId.map fun c => if c = '/' then '\\' else c

/-- `_state_id_decode`. -/
def stateIdDecode (stateIdEncoded : Str) : Str :=
  stateIdEncoded.map fun c => if c = '\\' then '/' else c

/-- `_last_component`. -/
def lastComponent (ref : Str) : Str := ref.drop (rfindNext '/' ref)

/-- `StateRef.id`. -/
def refId (ref : Str) : Str := stateIdDecode ((lastComponent ref).drop (stateTypeTagLength + 1))

/-- `StateRef.state_type_tag`: what stands before the first `:` of the last component, with
the assertion on its length. -/
def refStateTypeTag (ref : Str) : Except PyError Str :=
  let tag := (lastComponent ref).takeWhile fun c => decide (c ≠ ':')
  if tag.length = stateTypeTagLength then .ok tag else .error .assertionError

section

variable (sha1 : Str → Digest)

/-- What `from_id` returns for an id that passes the check. -/
def refOf (stateType stateId : Str) : Str :=
  stateTypeTagForName sha1 stateType ++ ':' :: stateIdEncode stateId

/-- `StateRef.from_id`. -/
def fromId (stateType stateId : Str) : Except InvalidStateRefError Str :=
  match validateAscii stateId maxActorIdLength minActorIdLength illegalStateIdCharacters with
  | .error e => .error e
  | .ok () => .ok (refOf sha1 stateType stateId)

/-- `StateRef.colocate`. -/
def colocate (ref colocatedStateType colocatedStateId : Str) : Except InvalidStateRefError Str :=
  match fromId sha1 colocatedStateType colocatedStateId with
  | .error e => .error e
  | .ok colocatedId => .ok (ref ++ '/' :: colocatedId)

/-- `StateRef.matches_state_type`. -/
def matchesStateType (ref stateType : Str) : Except PyError Bool :=
  (refStateTypeTag ref).map fun tag => decide (tag = stateTypeTagForName sha1 stateType)

end

/-! ## The ids that are accepted -/

/-- The ids `from_id` accepts. -/
structure IsStateId (stateId : Str) : Prop where
  le_max : stateId.length ≤ maxActorIdLength
  min_le : minActorIdLength ≤ stateId.length
  ascii : ∀ c ∈ stateId, c.toNat < 128
  legal : ∀ c ∈ stateId, c ∉ illegalStateIdCharacters

instance (stateId : Str) : Decidable (IsStateId stateId) :=
  decidable_of_iff (stateId.length ≤ maxActorIdLength ∧ minActorIdLength ≤ stateId.length ∧
      (stateId.all fun c => decide (c.toNat < 128)) = true ∧
      (stateId.all fun c => decide (c ∉ illegalStateIdCharacters)) = true) <| by
    simp only [List.all_eq_true, decide_eq_true_eq]
    exact ⟨fun h => ⟨h.1, h.2.1, h.2.2.1, h.2.2.2⟩, fun h => ⟨h.1, h.2, h.3, h.4⟩⟩

theorem validateAscii_ok_iff {stateId : Str} :
    validateAscii stateId maxActorIdLength minActorIdLength illegalStateIdCharacters = .ok () ↔
      IsStateId stateId := by
  have hfound : (stateId.filter fun c => illegalStateIdCharacters.contains c).length > 0 ↔
      ∃ c ∈ stateId, c ∈ illegalStateIdCharacters := by
    rw [gt_iff_lt, List.length_pos_iff_exists_mem]
    simp
  constructor
  · intro h
    unfold validateAscii at h
    split at h
    next => cases h
    next hmax =>
      split at h
      next => cases h
      next hmin =>
        split at h
        next => cases h
        next hascii =>
          simp only [hfound] at h
          split at h
          next => cases h
          next hno =>
            have hascii : ∀ c ∈ stateId, c.toNat < 128 := by simpa using hascii
            exact ⟨not_lt.mp hmax, not_lt.mp hmin, hascii, fun c hc hill => hno ⟨c, hc, hill⟩⟩
  · intro h
    have hno : ¬ ∃ c ∈ stateId, c ∈ illegalStateIdCharacters :=
      fun ⟨c, hc, hill⟩ => h.legal c hc hill
    have hascii : (stateId.all fun c => decide (c.toNat < 128)) = true := by simpa using h.ascii
    unfold validateAscii
    rw [if_neg (not_lt.mpr h.le_max), if_neg (not_lt.mpr h.min_le), if_neg (not_not.mpr hascii)]
    simp only [hfound, if_neg hno]

section

variable {sha1 : Str → Digest} {ty stateId : Str}

variable (sha1) in
theorem fromId_of_isStateId (ty : Str) (h : IsStateId stateId) :
    fromId sha1 ty stateId = .ok (refOf sha1 ty stateId) := by
  rw [fromId, validateAscii_ok_iff.mpr h]

theorem fromId_ok_iff {ref : Str} :
    fromId sha1 ty stateId = .ok ref ↔ IsStateId stateId ∧ ref = refOf sha1 ty stateId := by
  constructor
  · intro h
    by_cases hid : IsStateId stateId
    · rw [fromId_of_isStateId sha1 ty hid] at h
      cases h
      exact ⟨hid, rfl⟩
    · rw [← validateAscii_ok_iff] at hid
      unfold fromId at h
      split at h
      next => cases h
      next hok => exact absurd hok hid
  · intro h
    rw [fromId_of_isStateId sha1 ty h.1, h.2]

/-! ## The encoding -/

theorem IsStateId.noBackslash (h : IsStateId stateId) : '\\' ∉ stateId :=
  fun hc => h.legal _ hc (by decide)

theorem stateIdDecode_encode (h : '\\' ∉ stateId) : stateIdDecode (stateIdEncode stateId) = stateId := by
  unfold stateIdDecode stateIdEncode
  rw [List.map_map]
  conv_rhs => rw [← List.map_id stateId]
  refine List.map_congr_left fun c hc => ?_
  by_cases hs : c = '/'
  · simp [hs]
  · have hb : c ≠ '\\' := fun e => h (e ▸ hc)
    simp [hs, hb]

/-- Two accepted ids have different encodings. -/
theorem stateIdEncode_injOn {a b : Str} (ha : IsStateId a) (hb : IsStateId b)
    (h : stateIdEncode a = stateIdEncode b) : a = b := by
  rw [← stateIdDecode_encode ha.noBackslash, h, stateIdDecode_encode hb.noBackslash]

theorem slash_not_mem_encode (stateId : Str) : '/' ∉ stateIdEncode stateId := by
  unfold stateIdEncode
  rw [List.mem_map]
  rintro ⟨c, -, hc⟩
  split at hc
  next => exact absurd hc (by decide)
  next hne => exact hne hc

theorem stateIdEncode_append (a b : Str) :
    stateIdEncode (a ++ b) = stateIdEncode a ++ stateIdEncode b :=
  List.map_append ..

/-- Without `/` there is nothing to encode. -/
theorem stateIdEncode_of_noSlash (h : '/' ∉ stateId) : stateIdEncode stateId = stateId := by
  unfold stateIdEncode
  conv_rhs => rw [← List.map_id stateId]
  refine List.map_congr_left fun c hc => ?_
  have hs : c ≠ '/' := fun e => h (e ▸ hc)
  simp [hs]

/-- No character of an accepted id is encoded as `\0`. -/
theorem IsStateId.one_le_encode (h : IsStateId stateId) : ∀ c ∈ stateIdEncode stateId, '\x01' ≤ c := by
  intro c hc
  unfold stateIdEncode at hc
  obtain ⟨a, ha, rfl⟩ := List.mem_map.mp hc
  split
  next => decide
  next =>
    have hne : a ≠ '\x00' := fun e => h.legal a ha (by rw [e]; decide)
    rw [Char.le_def, UInt32.le_iff_toNat_le]
    have h0 : a.val.toNat ≠ 0 := fun e =>
      hne (Char.ext (UInt32.toNat_inj.mp e))
    show 1 ≤ a.val.toNat
    omega

/-! ## Reading a ref -/

variable (sha1) in
theorem slash_not_mem_refOf (ty stateId : Str) : '/' ∉ refOf sha1 ty stateId := by
  unfold refOf
  simp only [List.mem_append, List.mem_cons, not_or]
  exact ⟨not_mem_stateTypeTagForName sha1 (Or.inl rfl) ty, by decide, slash_not_mem_encode stateId⟩

/-- The component under a parent begins behind the last slash. -/
theorem rfindNext_append {parent component : Str} (h : '/' ∉ component) :
    rfindNext '/' (parent ++ '/' :: component) = (parent ++ ['/']).length := by
  have htake : (parent ++ '/' :: component).reverse.takeWhile (fun a => decide (a ≠ '/')) =
      component.reverse := by
    have hall : ∀ a ∈ component.reverse, decide (a ≠ '/') = true := by
      intro a ha
      exact decide_eq_true fun e => h (e ▸ List.mem_reverse.mp ha)
    rw [List.reverse_append, List.reverse_cons, List.append_assoc,
      List.takeWhile_append_of_pos hall]
    simp
  rw [rfindNext, htake]
  simp only [List.length_append, List.length_cons, List.length_reverse, List.length_nil]
  omega

/-- The component under a parent is the last one. -/
theorem lastComponent_append {parent component : Str} (h : '/' ∉ component) :
    lastComponent (parent ++ '/' :: component) = component := by
  have hsplit : parent ++ '/' :: component = (parent ++ ['/']) ++ component := by simp
  rw [lastComponent, rfindNext_append h, hsplit, List.drop_left]

/-- Only the last component decides whether a ref is one. -/
theorem isStateRef_append {parent component : Str} (h : '/' ∉ component) :
    isStateRef (parent ++ '/' :: component) = isStateRef component := by
  have hsplit : parent ++ '/' :: component = (parent ++ ['/']) ++ component := by simp
  have hlen : (parent ++ '/' :: component).length < (parent ++ ['/']).length +
      stateTypeTagLength + 1 ↔ component.length < stateTypeTagLength + 1 := by
    rw [hsplit, List.length_append, Nat.add_assoc, Nat.add_lt_add_iff_left]
  have hget : (parent ++ '/' :: component)[(parent ++ ['/']).length + stateTypeTagLength]? =
      component[stateTypeTagLength]? := by
    rw [hsplit, List.getElem?_append_right (Nat.le_add_right _ _), Nat.add_sub_cancel_left]
  have hdrop : (parent ++ '/' :: component).drop (parent ++ ['/']).length = component := by
    rw [hsplit, List.drop_left]
  unfold isStateRef
  simp only [rfindNext_append h, rfindNext_of_not_mem h, hlen, hget, hdrop, Nat.zero_add,
    List.drop_zero]

theorem lastComponent_of_noSlash {ref : Str} (h : '/' ∉ ref) : lastComponent ref = ref := by
  rw [lastComponent, rfindNext_of_not_mem h, List.drop_zero]

variable (sha1) in
theorem drop_tag_refOf (ty stateId : Str) :
    (refOf sha1 ty stateId).drop (stateTypeTagLength + 1) = stateIdEncode stateId := by
  have hsplit : refOf sha1 ty stateId =
      (stateTypeTagForName sha1 ty ++ [':']) ++ stateIdEncode stateId := by simp [refOf]
  have hlen : (stateTypeTagForName sha1 ty ++ [':']).length = stateTypeTagLength + 1 := by
    rw [List.length_append, stateTypeTagForName_length, List.length_singleton]
  rw [hsplit, ← hlen, List.drop_left]

/-- The id of a ref is the id it was made with. -/
theorem refId_refOf (h : IsStateId stateId) : refId (refOf sha1 ty stateId) = stateId := by
  rw [refId, lastComponent_of_noSlash (slash_not_mem_refOf sha1 ty stateId), drop_tag_refOf,
    stateIdDecode_encode h.noBackslash]

/-- The id of a colocated ref is the id it was made with. -/
theorem refId_colocated (parent : Str) (h : IsStateId stateId) :
    refId (parent ++ '/' :: refOf sha1 ty stateId) = stateId := by
  rw [refId, lastComponent_append (slash_not_mem_refOf sha1 ty stateId), drop_tag_refOf,
    stateIdDecode_encode h.noBackslash]

variable (sha1) in
/-- A colocated ref has the type it was made with. -/
theorem matchesStateType_colocated (parent ty stateId : Str) :
    matchesStateType sha1 (parent ++ '/' :: refOf sha1 ty stateId) ty = .ok true := by
  have htag : (refOf sha1 ty stateId).takeWhile (fun c => decide (c ≠ ':')) =
      stateTypeTagForName sha1 ty := by
    have hall : ∀ c ∈ stateTypeTagForName sha1 ty, decide (c ≠ ':') = true := by
      intro c hc
      exact decide_eq_true fun e =>
        not_mem_stateTypeTagForName sha1 (Or.inr (Or.inl rfl)) ty (e ▸ hc)
    rw [refOf, List.takeWhile_append_of_pos hall]
    simp
  unfold matchesStateType refStateTypeTag
  rw [lastComponent_append (slash_not_mem_refOf sha1 ty stateId), htag,
    if_pos (stateTypeTagForName_length sha1 ty)]
  simp [Except.map]

/-- The ref of an accepted id determines it. -/
theorem refOf_injOn {a b : Str} (ha : IsStateId a) (hb : IsStateId b)
    (h : refOf sha1 ty a = refOf sha1 ty b) : a = b := by
  unfold refOf at h
  have henc : stateIdEncode a = stateIdEncode b := by
    simpa using h
  exact stateIdEncode_injOn ha hb henc

end

end Reboot.Routing
