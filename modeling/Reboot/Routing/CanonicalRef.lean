import Reboot.Routing.StateId

/-!
# Is every accepted ref canonical?

`from_maybe_readable` (`reboot/aio/types.py`) is what every string that should be a state ref goes
through, and returns a ref or raises a `ValueError`. What it returns should be the encoded form: a
type tag in front of each component, the tags that were there kept, and nothing left to do for a
second call.

It asks `is_state_ref` first, which decides from the last component alone, and takes any text that
decodes to a zero byte for a tag:

* the text may decode to nothing at all, and the first byte is then looked for in vain;
* a ref whose last component is encoded is returned as it is, whatever the other components are;
* a ref whose last component is readable has every type hashed, and an encoded tag is then the
  name of a type like any other.

> `canonical_iff`: these three aside, the function is total, canonical and stable. What
> `from_id` and `colocate` make has none of them.

Mirroring notes:
- A `str` has no lone surrogates here; `str.encode` would raise a `UnicodeEncodeError` for them,
  which is a `ValueError`.
- A tag is valid if `state_type_tag_for_name` could have made it: fourteen digits that encode ten
  bytes, the first of them zero.
-/

namespace Reboot.Routing

open Reboot.Lib

/-! ## Tags -/

/-- A text that `state_type_tag_for_name` could have returned. -/
def IsTypeTag (tag : Str) : Prop :=
  ∃ bs : List Byte, bs.length = 9 ∧ urlsafeB64encode (0 :: bs) = tag ++ ['=', '=']

/-- A component that begins with a valid tag. -/
def StartsWithTag (component : Str) : Prop :=
  ∃ tag stateId, component = tag ++ ':' :: stateId ∧ IsTypeTag tag

section

variable {sha1 : Str → Digest}

variable (sha1) in
theorem isTypeTag_stateTypeTagForName (ty : Str) : IsTypeTag (stateTypeTagForName sha1 ty) := by
  obtain ⟨b1, b2, b3, b4, b5, b6, b7, b8, b9, hb⟩ := stateTypeBytes_eq sha1 ty
  refine ⟨[b1, b2, b3, b4, b5, b6, b7, b8, b9], rfl, ?_⟩
  rw [← hb]
  exact tagEncoding_eq ty

/-- The bytes of a digest that begins with the given ones. -/
def digestOf (bs : List Byte) (h : bs.length = 9) : Digest :=
  ⟨0 :: bs ++ List.replicate 10 0, by rw [List.length_append, List.length_cons, h]; rfl⟩

/-- A valid tag is the tag of any type with a suitable digest, so it has all properties of tags. -/
theorem IsTypeTag.eq_stateTypeTagForName {tag : Str} (h : IsTypeTag tag) :
    ∃ sha1, tag = stateTypeTagForName sha1 [] := by
  obtain ⟨bs, hlen, htag⟩ := h
  refine ⟨fun _ => digestOf bs hlen, ?_⟩
  have hbytes : stateTypeBytes (fun _ => digestOf bs hlen) [] = 0 :: bs := by
    have hten : (0 :: bs).length = 20 / 2 := by rw [List.length_cons, hlen]
    unfold stateTypeBytes
    rw [(digestOf bs hlen).length_eq, digestOf, List.take_left' hten]
    rfl
  have henc := @tagEncoding_eq (fun _ => digestOf bs hlen) []
  rw [hbytes, htag] at henc
  exact List.append_cancel_right henc

theorem IsTypeTag.length_eq {tag : Str} (h : IsTypeTag tag) : tag.length = stateTypeTagLength := by
  obtain ⟨sha1, rfl⟩ := h.eq_stateTypeTagForName
  exact stateTypeTagForName_length sha1 []

theorem IsTypeTag.no_colon {tag : Str} (h : IsTypeTag tag) : ':' ∉ tag := by
  obtain ⟨sha1, rfl⟩ := h.eq_stateTypeTagForName
  exact not_mem_stateTypeTagForName sha1 (.inr (.inl rfl)) []

/-- A component with a tag has its colon in the fifteenth place. -/
theorem StartsWithTag.getElem_colon {component : Str} (h : StartsWithTag component) :
    component[stateTypeTagLength]? = some ':' := by
  obtain ⟨tag, stateId, rfl, htag⟩ := h
  rw [← htag.length_eq]
  simp

theorem IsTypeTag.cutFirst_eq {tag : Str} (h : IsTypeTag tag) (stateId : Str) :
    cutFirst ':' (tag ++ ':' :: stateId) = some (tag, stateId) :=
  cutFirst_append h.no_colon

/-! ## Refs that are not encoded -/

variable (sha1) in
/-- What a valid component becomes begins with a tag. -/
theorem startsWithTag_tagComponent {c : Str} (h : ValidComponent c) :
    StartsWithTag (tagComponent sha1 c) := by
  obtain ⟨ty, stateId, hcut, -⟩ := h
  refine ⟨stateTypeTagForName sha1 ty, stateId, ?_, isTypeTag_stateTypeTagForName sha1 ty⟩
  rw [tagComponent, hcut]

variable (sha1) in
/-- A valid component without a slash becomes one that is recognized. -/
theorem isStateRef_tagComponent {c : Str} (h : ValidComponent c) (hslash : '/' ∉ c) :
    isStateRef (tagComponent sha1 c) = .ok true := by
  obtain ⟨ty, stateId, hcut, -⟩ := h
  obtain ⟨rfl, -⟩ := cutFirst_eq_some hcut
  rw [tagComponent, hcut]
  refine isStateRef_tagged sha1 ty fun hmem => hslash ?_
  exact List.mem_append_right _ (List.mem_cons_of_mem _ hmem)

/-- Joined components are recognized by the last of them. -/
theorem isStateRef_intercalate {cs : List Str} (hne : cs ≠ [])
    (h : ∀ c ∈ cs, '/' ∉ c ∧ isStateRef c = .ok true) :
    isStateRef (['/'].intercalate cs) = .ok true := by
  obtain ⟨hslash, hlast⟩ := h _ (List.getLast_mem hne)
  rw [← List.dropLast_append_getLast hne]
  rcases intercalate_concat '/' (cs.getLast hne) cs.dropLast with heq | ⟨front, heq⟩
  · rw [heq]
    exact hlast
  · rw [heq, isStateRef_append hslash]
    exact hlast

/-- A ref whose type names were replaced, with its components. -/
theorem fromMaybeReadable_readable {candidate : Str} {r : StateRef}
    (hnot : isStateRef candidate = .ok false) (h : fromMaybeReadable sha1 candidate = .ok r) :
    (∀ c ∈ candidate.splitOn '/', ValidComponent c) ∧
      r.components = (candidate.splitOn '/').map (tagComponent sha1) ∧
      isStateRef r.ref = .ok true := by
  have hvalid : ∀ c ∈ candidate.splitOn '/', ValidComponent c := by
    rcases fromMaybeReadable_ok_iff.mp ⟨r, h⟩ with htrue | ⟨-, hv⟩
    · rw [htrue] at hnot
      cases hnot
    · exact hv
  obtain ⟨readableRef, hr⟩ := fromMaybeReadable_of_not sha1 hnot hvalid
  rw [hr] at h
  cases h
  have hslash : ∀ c ∈ (candidate.splitOn '/').map (tagComponent sha1), '/' ∉ c := by
    intro c hc
    obtain ⟨c', hc', rfl⟩ := List.mem_map.mp hc
    exact not_mem_tagComponent sha1 (not_mem_of_mem_splitOn hc')
  have hne : (candidate.splitOn '/').map (tagComponent sha1) ≠ [] := by simp
  refine ⟨hvalid, List.splitOn_intercalate '/' hslash hne, isStateRef_intercalate hne ?_⟩
  intro c hc
  obtain ⟨c', hc', rfl⟩ := List.mem_map.mp hc
  exact ⟨hslash _ hc,
    isStateRef_tagComponent sha1 (hvalid c' hc') (not_mem_of_mem_splitOn hc')⟩

/-- The loop over the components raises nothing but a `ValueError`. -/
theorem readableComponents_error {candidate : Str} {e : PyError} : ∀ {cs : List Str},
    readableComponents sha1 candidate cs = .error e → ∃ message, e = .valueError message
  | [], h => nomatch h
  | c :: cs, h => by
    unfold readableComponents at h
    split at h
    next =>
      cases h
      exact ⟨_, rfl⟩
    next =>
      split at h
      next =>
        cases h
        exact ⟨_, rfl⟩
      next =>
        dsimp only at h
        split at h
        next hrest =>
          cases h
          exact readableComponents_error hrest
        next => cases h

/-! ## Canonical -/

/-- What is asked of `from_maybe_readable` for a candidate. -/
structure Canonical (sha1 : Str → Digest) (candidate : Str) : Prop where
  total : ∀ e, fromMaybeReadable sha1 candidate = .error e → ∃ message, e = .valueError message
  tagged : ∀ r, fromMaybeReadable sha1 candidate = .ok r → ∀ c ∈ r.components, StartsWithTag c
  stable : ∀ r, fromMaybeReadable sha1 candidate = .ok r →
    ∃ r', fromMaybeReadable sha1 r.ref = .ok r' ∧ r'.ref = r.ref
  keeps : ∀ r, fromMaybeReadable sha1 candidate = .ok r → ∀ (i : Nat) (tag stateId : Str),
    (candidate.splitOn '/')[i]? = some (tag ++ ':' :: stateId) → IsTypeTag tag →
    ∃ stateId', r.components[i]? = some (tag ++ ':' :: stateId')

/-- The candidates that are taken for what they are: all components are encoded if the last is
taken for encoded; if it is not, none is (or the tags that are there are the tags of themselves),
or one has no type. -/
def Consistent (sha1 : Str → Digest) (candidate : Str) : Prop :=
  (isStateRef candidate = .ok true ∧ ∀ c ∈ candidate.splitOn '/', StartsWithTag c) ∨
  (isStateRef candidate = .ok false ∧
    ((∃ c ∈ candidate.splitOn '/', ¬ ValidComponent c) ∨
      ∀ tag stateId, tag ++ ':' :: stateId ∈ candidate.splitOn '/' → IsTypeTag tag →
        stateTypeTagForName sha1 tag = tag))

/-- An encoded candidate is returned as it is. -/
theorem canonical_iff_of_isStateRef {candidate : Str} (h : isStateRef candidate = .ok true) :
    Canonical sha1 candidate ↔ ∀ c ∈ candidate.splitOn '/', StartsWithTag c := by
  have hok : fromMaybeReadable sha1 candidate = .ok ⟨candidate, none⟩ :=
    fromMaybeReadable_of_isStateRef h
  constructor
  · exact fun hcanonical => hcanonical.tagged _ hok
  · intro hall
    refine ⟨fun e he => ?_, fun r hr => ?_, fun r hr => ?_, fun r hr i tag stateId hi _ => ?_⟩
    · rw [hok] at he
      cases he
    · rw [hok] at hr
      cases hr
      exact hall
    · rw [hok] at hr
      cases hr
      exact ⟨_, hok, rfl⟩
    · rw [hok] at hr
      cases hr
      exact ⟨stateId, hi⟩

/-- A candidate that is not encoded: the tags in it have to be the tags of themselves. -/
theorem canonical_iff_of_not {candidate : Str} (h : isStateRef candidate = .ok false) :
    Canonical sha1 candidate ↔
      (∃ c ∈ candidate.splitOn '/', ¬ ValidComponent c) ∨
      ∀ tag stateId, tag ++ ':' :: stateId ∈ candidate.splitOn '/' → IsTypeTag tag →
        stateTypeTagForName sha1 tag = tag := by
  constructor
  · intro hcanonical
    by_cases hinvalid : ∃ c ∈ candidate.splitOn '/', ¬ ValidComponent c
    · exact .inl hinvalid
    · have hvalid : ∀ c ∈ candidate.splitOn '/', ValidComponent c :=
        fun c hc => by_contra fun hno => hinvalid ⟨c, hc, hno⟩
      obtain ⟨readableRef, hr⟩ := fromMaybeReadable_of_not sha1 h hvalid
      refine .inr fun tag stateId hmem htag => ?_
      obtain ⟨i, hi⟩ := List.mem_iff_getElem?.mp hmem
      obtain ⟨stateId', hkeep⟩ := hcanonical.keeps _ hr i tag stateId hi htag
      rw [(fromMaybeReadable_readable h hr).2.1, List.getElem?_map, hi, Option.map_some,
        tagComponent, htag.cutFirst_eq] at hkeep
      have heq := congrArg (List.take stateTypeTagLength) (Option.some.inj hkeep)
      dsimp only at heq
      rwa [List.take_left' (stateTypeTagForName_length sha1 tag), List.take_left' htag.length_eq]
        at heq
  · intro hcond
    refine ⟨fun e he => ?_, fun r hr => ?_, fun r hr => ?_, fun r hr i tag stateId hi htag => ?_⟩
    · unfold fromMaybeReadable at he
      rw [h] at he
      dsimp only at he
      split at he
      next hloop =>
        cases he
        exact readableComponents_error hloop
      next =>
        split at he
        next =>
          cases he
          exact ⟨_, rfl⟩
        next => split at he <;> cases he
    · obtain ⟨hvalid, hcomponents, -⟩ := fromMaybeReadable_readable h hr
      intro c hc
      rw [hcomponents] at hc
      obtain ⟨c', hc', rfl⟩ := List.mem_map.mp hc
      exact startsWithTag_tagComponent sha1 (hvalid c' hc')
    · exact ⟨_, fromMaybeReadable_of_isStateRef (fromMaybeReadable_readable h hr).2.2, rfl⟩
    · obtain ⟨hvalid, hcomponents, -⟩ := fromMaybeReadable_readable h hr
      rcases hcond with ⟨c, hc, hinvalid⟩ | hfixed
      · exact absurd (hvalid c hc) hinvalid
      · refine ⟨stateId, ?_⟩
        rw [hcomponents, List.getElem?_map, hi, Option.map_some, tagComponent, htag.cutFirst_eq]
        dsimp only
        rw [hfixed tag stateId (List.mem_of_getElem? hi) htag]

/-- All that `is_state_ref` raises is an `IndexError`. -/
theorem isStateRef_error {candidate : Str} {e : PyError} (h : isStateRef candidate = .error e) :
    e = .indexError := by
  unfold isStateRef at h
  dsimp only at h
  split at h
  next => cases h
  next =>
    split at h
    next => cases h
    next =>
      cases h
      rfl
    next => cases h

theorem canonical_iff (candidate : Str) :
    Canonical sha1 candidate ↔ Consistent sha1 candidate := by
  unfold Consistent
  cases h : isStateRef candidate with
  | error e =>
    refine iff_of_false (fun hcanonical => ?_) ?_
    · have hraise : fromMaybeReadable sha1 candidate = .error .indexError := by
        rw [fromMaybeReadable, h, isStateRef_error h]
      obtain ⟨message, hvalue⟩ := hcanonical.total _ hraise
      cases hvalue
    · rintro (⟨htrue, -⟩ | ⟨hfalse, -⟩)
      · cases htrue
      · cases hfalse
  | ok encoded =>
    cases encoded with
    | true =>
      rw [canonical_iff_of_isStateRef h]
      refine ⟨fun hall => .inl ⟨rfl, hall⟩, ?_⟩
      rintro (⟨-, hall⟩ | ⟨hfalse, -⟩)
      · exact hall
      · cases hfalse
    | false =>
      rw [canonical_iff_of_not h]
      refine ⟨fun hcond => .inr ⟨rfl, hcond⟩, ?_⟩
      rintro (⟨htrue, -⟩ | ⟨-, hcond⟩)
      · cases htrue
      · exact hcond

/-! ## Refs that are made from ids -/

/-- The components of a ref under a parent. -/
theorem components_colocated (parent component : Str) (h : '/' ∉ component) :
    (StateRef.mk (parent ++ '/' :: component) none).components =
      (StateRef.mk parent none).components ++ [component] := by
  unfold StateRef.components
  rw [List.splitOn_append_cons_self, List.splitOn_eq_singleton h]

variable (sha1) in
/-- Candidates are canonical exactly if they are consistent; a ref made from an id has that id, and
under a parent it is the last component behind those of the parent. -/
theorem refs_canonical_iff :
    (∀ candidate, Canonical sha1 candidate ↔ Consistent sha1 candidate) ∧
    (∀ ty stateId, IsStateId stateId →
      ∃ ref, fromId sha1 ty stateId = .ok ref ∧ refId ref = stateId) ∧
    ∀ parent ty stateId, IsStateId stateId →
      ∃ component ref, fromId sha1 ty stateId = .ok component ∧
        colocate sha1 parent ty stateId = .ok ref ∧
        (StateRef.mk ref none).components =
          (StateRef.mk parent none).components ++ [component] := by
  refine ⟨canonical_iff, fun ty stateId hid => ?_, fun parent ty stateId hid => ?_⟩
  · exact ⟨_, fromId_of_isStateId sha1 ty hid, refId_refOf hid⟩
  · refine ⟨_, _, fromId_of_isStateId sha1 ty hid, ?_,
      components_colocated parent _ (slash_not_mem_refOf sha1 ty stateId)⟩
    rw [colocate, fromId_of_isStateId sha1 ty hid]

end

/-- SHA-1 on the type of rooms, of messages, and on the tag of rooms. -/
def chatSha1 (s : Str) : Digest :=
  if s = "chat.Room".toList then
    .ofBytes [249, 2, 110, 238, 16, 186, 49, 193, 78, 58, 207, 74, 124, 182, 62, 109, 54, 122,
      66, 249]
  else if s = "chat.Message".toList then
    .ofBytes [214, 25, 135, 38, 208, 217, 223, 44, 96, 154, 83, 126, 136, 241, 138, 69, 195, 32,
      237, 89]
  else if s = "AAJu7hC6McFOOg".toList then
    .ofBytes [55, 3, 18, 123, 73, 9, 72, 11, 97, 249, 87, 158, 18, 28, 0, 54, 53, 16, 142, 133]
  else .ofBytes []

/-- A message in a room, both by the names of their types. -/
theorem canonical_message :
    fromMaybeReadable chatSha1 "chat.Room:attic/chat.Message:1".toList =
      .ok ⟨"AAJu7hC6McFOOg:attic/ABmHJtDZ3yxgmg:1".toList,
        some "chat.Room:attic/chat.Message:1".toList⟩ ∧
    Canonical chatSha1 "chat.Room:attic/chat.Message:1".toList ∧
    ∃ ref, fromId chatSha1 "chat.Room".toList "attic".toList = .ok ref ∧
      refId ref = "attic".toList := by
  obtain ⟨hcanonical, hid, -⟩ := refs_canonical_iff chatSha1
  refine ⟨by decide +kernel, (hcanonical _).mpr (.inr ⟨by decide +kernel, .inr ?_⟩),
    hid _ _ (by decide)⟩
  intro tag stateId hmem htag
  -- neither component has its colon where a tag ends
  have hcolon : ∀ part ∈ "chat.Room:attic/chat.Message:1".toList.splitOn '/',
      part[stateTypeTagLength]? ≠ some ':' := by
    decide +kernel
  exact absurd (StartsWithTag.getElem_colon ⟨tag, stateId, rfl, htag⟩) (hcolon _ hmem)

/-- A text without digits raises an `IndexError`; a name in front of a tag stays; a tag in front of
a name is hashed again. -/
theorem not_canonical :
    (fromMaybeReadable chatSha1 "!!!!!!!!!!!!!!:attic".toList = .error .indexError ∧
      ¬ Canonical chatSha1 "!!!!!!!!!!!!!!:attic".toList) ∧
    (fromMaybeReadable chatSha1 "chat.Room:attic/ABmHJtDZ3yxgmg:1".toList =
        .ok ⟨"chat.Room:attic/ABmHJtDZ3yxgmg:1".toList, none⟩ ∧
      ¬ Canonical chatSha1 "chat.Room:attic/ABmHJtDZ3yxgmg:1".toList) ∧
    (fromMaybeReadable chatSha1 "AAJu7hC6McFOOg:attic/chat.Message:1".toList =
        .ok ⟨"AAMSe0kJSAth-Q:attic/ABmHJtDZ3yxgmg:1".toList,
          some "AAJu7hC6McFOOg:attic/chat.Message:1".toList⟩ ∧
      ¬ Canonical chatSha1 "AAJu7hC6McFOOg:attic/chat.Message:1".toList) := by
  have hraise : fromMaybeReadable chatSha1 "!!!!!!!!!!!!!!:attic".toList = .error .indexError := by
    decide +kernel
  have hname : fromMaybeReadable chatSha1 "chat.Room:attic/ABmHJtDZ3yxgmg:1".toList =
      .ok ⟨"chat.Room:attic/ABmHJtDZ3yxgmg:1".toList, none⟩ := by
    decide +kernel
  have htag : fromMaybeReadable chatSha1 "AAJu7hC6McFOOg:attic/chat.Message:1".toList =
      .ok ⟨"AAMSe0kJSAth-Q:attic/ABmHJtDZ3yxgmg:1".toList,
        some "AAJu7hC6McFOOg:attic/chat.Message:1".toList⟩ := by
    decide +kernel
  refine ⟨⟨hraise, fun h => ?_⟩, ⟨hname, fun h => ?_⟩, ⟨htag, fun h => ?_⟩⟩
  · obtain ⟨message, hvalue⟩ := h.total _ hraise
    cases hvalue
  · have hstarts := h.tagged _ hname "chat.Room:attic".toList (by decide +kernel)
    exact absurd hstarts.getElem_colon (by decide)
  · have hroom := isTypeTag_stateTypeTagForName chatSha1 "chat.Room".toList
    have heq : stateTypeTagForName chatSha1 "chat.Room".toList = "AAJu7hC6McFOOg".toList := by
      decide +kernel
    rw [heq] at hroom
    obtain ⟨stateId', hkeep⟩ := h.keeps _ htag 0 "AAJu7hC6McFOOg".toList "attic".toList
      (by decide +kernel) hroom
    -- the tag in front is the hash of the tag that was there
    have hhashed : (StateRef.components ⟨"AAMSe0kJSAth-Q:attic/ABmHJtDZ3yxgmg:1".toList,
        some "AAJu7hC6McFOOg:attic/chat.Message:1".toList⟩)[0]? =
        some "AAMSe0kJSAth-Q:attic".toList := by
      decide +kernel
    rw [hhashed, Option.some.injEq] at hkeep
    have hfirst := congrArg (List.take stateTypeTagLength) hkeep
    rw [List.take_left' hroom.length_eq] at hfirst
    exact absurd hfirst (by decide +kernel)

end Reboot.Routing
