import Reboot.Lib.PercentEncoding
import Reboot.Routing.CanonicalRef

/-!
# State ids in a path

A browser names a state in the path of its request: `stateIdToRef` (`rbt/v1alpha1/index.ts`) puts the
name of the type in front of the encoded id, the filter of `mangled_http_path.lua` takes the piece out
of the path again, decodes it and writes it into the header `x-reboot-state-ref`, and the server reads
that with `StateRef.from_maybe_readable`.

* The encodings undo each other, so what is in the header is the name of the type and the escaped id
  (`mangledPath_stateIdToRef`). But `from_maybe_readable` asks `is_state_ref` first whether it is a tag
  that is in front, and takes some names for one.
* The filter decodes whatever there is in the path, also into what a header may not contain; and a
  carriage return is in an id that is accepted.

> `reaches_iff`: an id reaches its state exactly where `is_state_ref` does not take the readable ref
> for an encoded one, and the filter writes a legal value exactly where the piece of the path has no
> such character and no escape of one.

Mirroring notes:
- A Lua string is bytes; each is the character with its number here.
- After `respond` the script does not go on.
- `s.length` counts UTF-16 units. It is that of the list for an ASCII string, and no other is accepted.
- A name of a state type is a full name of a message: letters, digits and underscores, with dots.
-/

namespace Reboot.Routing

open Reboot.Lib

/-! ## The client -/

/-- The errors of `validateASCII`, in its order. -/
inductive StateIdError
  | tooShort (lengthMin length : Nat)
  | tooLong (lengthMax length : Nat)
  | notAscii (value : Str)
  | illegalCharacters (value found : Str)
  deriving DecidableEq

/-- `validateASCII` -/
def validateASCII (s : Str) (lengthMin lengthMax : Nat) (illegalCharacters : Str) :
    Except StateIdError Unit :=
  if s.length < lengthMin then .error (.tooShort lengthMin s.length)
  else if s.length > lengthMax then .error (.tooLong lengthMax s.length)
  else if s.any fun c => decide (c.toNat > 127) then .error (.notAscii s)
  else
    let found := s.filter fun c => illegalCharacters.contains c
    if found.length > 0 then .error (.illegalCharacters s found) else .ok ()

/-- `stateIdToRef` -/
def stateIdToRef (stateType id : Str) : Except StateIdError Str :=
  match validateASCII id 1 128 illegalStateIdCharacters with
  | .error e => .error e
  | .ok () =>
    let escapedKey := id.map fun c => if c = '/' then '\\' else c
    .ok (stateType ++ ':' :: encodeURIComponent escapedKey)

/-! ## The filter -/

def rebootPrefix : Str := "/__/reboot/rpc/".toList

/-- `split`: the pieces that are not empty. -/
def split (s : Str) (separator : Char) : List Str := (s.splitOn separator).filter (· ≠ [])

/-- What the filter does to a request. -/
inductive Filtered
  | untouched
  | badRequest
  /-- The header and the path are replaced. -/
  | replaced (stateRef path : Str)
  deriving DecidableEq

/-- The piece of the path that names the state. -/
def stateRefPiece (path : Str) : Option Str :=
  if rebootPrefix.isPrefixOf path then (split path '/')[3]? else none

/-- The filter of `mangled_http_path.lua`. -/
def mangledPath (path : Str) : Filtered :=
  if rebootPrefix.isPrefixOf path then
    match (split path '/')[3]? with
    | none => .badRequest
    | some stateRef =>
      .replaced (percentDecode stateRef) ('/' :: ['/'].intercalate ((split path '/').drop 4))
  else .untouched

/-- The value that is written into `x-reboot-state-ref`. -/
def Filtered.header : Filtered → Option Str
  | .replaced stateRef _ => some stateRef
  | _ => none

/-! ## What a state id goes through -/

/-- A name of a state type. -/
structure IsStateTypeName (ty : Str) : Prop where
  nonempty : ty ≠ []
  chars : ∀ c ∈ ty, c.isAlphanum = true ∨ c = '_' ∨ c = '.'

instance (ty : Str) : Decidable (IsStateTypeName ty) :=
  decidable_of_iff (ty ≠ [] ∧ ∀ c ∈ ty, c.isAlphanum = true ∨ c = '_' ∨ c = '.')
    ⟨fun h => ⟨h.1, h.2⟩, fun h => ⟨h.1, h.2⟩⟩

/-- The readable ref of an id. -/
def readableRef (ty stateId : Str) : Str := ty ++ ':' :: stateIdEncode stateId

/-- The header of a request for the state is turned into the ref of the state, with the id. -/
def Reaches (sha1 : Str → Digest) (ty stateId rest : Str) : Prop :=
  ∃ ref value ref', stateIdToRef ty stateId = .ok ref ∧
    (mangledPath (rebootPrefix ++ ref ++ rest)).header = some value ∧
    fromMaybeReadable sha1 value = .ok ref' ∧ fromId sha1 ty stateId = .ok ref'.ref ∧
    refId ref'.ref = stateId

/-- What a header may not contain. -/
def headerIllegal : Str := ['\x00', '\x0a', '\x0d']

/-- What the filter writes has no such character. -/
def WritesLegal (path : Str) : Prop :=
  ∀ value ∈ (mangledPath path).header, ∀ c ∈ headerIllegal, c ∉ value

/-- Neither such a character nor an escape of one is in the piece. -/
def PieceLegal (path : Str) : Prop :=
  ∀ piece ∈ stateRefPiece path, ∀ c ∈ headerIllegal, c ∉ piece ∧ ¬ HasEscape piece c

theorem IsStateTypeName.not_mem {ty : Str} (h : IsStateTypeName ty) {c : Char}
    (hc : c = '%' ∨ c = '/' ∨ c = ':') : c ∉ ty := by
  intro hmem
  have hchar := h.chars c hmem
  rcases hc with rfl | rfl | rfl <;> revert hchar <;> decide

/-- The ids that are accepted are those that `from_id` accepts. -/
theorem validateASCII_ok_iff {stateId : Str} :
    validateASCII stateId 1 128 illegalStateIdCharacters = .ok () ↔ IsStateId stateId := by
  have hascii : (stateId.any fun c => decide (c.toNat > 127)) = true ↔
      ¬ ∀ c ∈ stateId, c.toNat < 128 := by
    rw [List.any_eq_true]
    push Not
    simp only [decide_eq_true_eq, gt_iff_lt, Nat.lt_iff_add_one_le, Nat.reduceAdd]
  have hfound : (stateId.filter fun c => illegalStateIdCharacters.contains c).length > 0 ↔
      ¬ ∀ c ∈ stateId, c ∉ illegalStateIdCharacters := by
    rw [gt_iff_lt, List.length_pos_iff_exists_mem]
    simp
  unfold validateASCII
  simp only [hascii, hfound]
  constructor
  · intro h
    split at h
    · cases h
    · next hmin =>
      split at h
      · cases h
      · next hmax =>
        split at h
        · cases h
        · next hall =>
          split at h
          · cases h
          · next hlegal =>
            exact ⟨not_lt.mp hmax, not_lt.mp hmin, not_not.mp hall, not_not.mp hlegal⟩
  · intro h
    have hmin : ¬ stateId.length < 1 := not_lt.mpr h.min_le
    have hmax : ¬ stateId.length > 128 := not_lt.mpr h.le_max
    rw [if_neg hmin, if_neg hmax, if_neg (not_not.mpr h.ascii), if_neg (not_not.mpr h.legal)]

theorem stateIdToRef_ok {stateId : Str} (ty : Str) (h : IsStateId stateId) :
    stateIdToRef ty stateId = .ok (ty ++ ':' :: encodeURIComponent (stateIdEncode stateId)) := by
  unfold stateIdToRef
  rw [validateASCII_ok_iff.mpr h]
  rfl

/-! ## The piece of the path -/

theorem slash_not_mem_encodeURIComponent (s : Str) : '/' ∉ encodeURIComponent s := by
  intro hmem
  rcases mem_encodeURIComponent hmem with hunreserved | hpercent | ⟨n, hn⟩
  · exact absurd hunreserved (by decide)
  · exact absurd hpercent (by decide)
  · have hdigits : ∀ m < 16, hexUpper m ≠ '/' := by decide
    by_cases h : n < 16
    · exact hdigits n h hn.symm
    · have hlarge : hexUpper n = '0' := by
        unfold hexUpper
        rw [List.getD_eq_getElem?_getD, List.getElem?_eq_none (by simpa using h)]
        rfl
      rw [hlarge] at hn
      exact absurd hn (by decide)

/-- The fourth piece of a path that begins with the prefix is what follows it. -/
theorem split_rebootPrefix {piece rest : Str} (hne : piece ≠ []) (hslash : '/' ∉ piece)
    (hrest : rest = [] ∨ ∃ tail, rest = '/' :: tail) :
    (split (rebootPrefix ++ piece ++ rest) '/')[3]? = some piece := by
  have hpieces : ∃ pieces, (piece ++ rest).splitOn '/' = piece :: pieces := by
    rcases hrest with rfl | ⟨tail, rfl⟩
    · rw [List.append_nil]
      exact ⟨[], List.splitOn_eq_singleton hslash⟩
    · exact ⟨_, List.splitOn_append_cons_self_of_not_mem hslash tail⟩
  obtain ⟨pieces, hpieces⟩ := hpieces
  have hbegins : rebootPrefix = [] ++ '/' :: ("__".toList ++ '/' :: ("reboot".toList ++
      '/' :: ("rpc".toList ++ ['/']))) := by decide
  have hsplit : (rebootPrefix ++ piece ++ rest).splitOn '/' =
      [] :: "__".toList :: "reboot".toList :: "rpc".toList :: piece :: pieces := by
    rw [hbegins]
    simp only [List.append_assoc, List.cons_append]
    rw [List.splitOn_append_cons_self_of_not_mem (by decide),
      List.splitOn_append_cons_self_of_not_mem (by decide),
      List.splitOn_append_cons_self_of_not_mem (by decide),
      List.splitOn_append_cons_self_of_not_mem (by decide), List.nil_append, hpieces]
  have hfront : ["__".toList, "reboot".toList, "rpc".toList].filter (· ≠ []) =
      ["__".toList, "reboot".toList, "rpc".toList] := by decide
  unfold split
  rw [hsplit, List.filter_cons_of_neg (by simp)]
  show ((["__".toList, "reboot".toList, "rpc".toList] ++ piece :: pieces).filter (· ≠ []))[3]? = _
  rw [List.filter_append, hfront, List.filter_cons_of_pos (by simpa using hne)]
  rfl

theorem isPrefixOf_rebootPrefix (s : Str) : rebootPrefix.isPrefixOf (rebootPrefix ++ s) = true :=
  List.isPrefixOf_iff_prefix.mpr (List.prefix_append _ _)

theorem ascii_stateIdEncode {stateId : Str} (h : IsStateId stateId) :
    ∀ c ∈ stateIdEncode stateId, c.toNat < 128 := by
  intro c hc
  obtain ⟨d, hd, rfl⟩ := List.mem_map.mp hc
  split
  · decide
  · exact h.ascii d hd

/-- The header is the readable ref. -/
theorem mangledPath_stateIdToRef {ty stateId ref rest : Str} (hty : IsStateTypeName ty)
    (hid : IsStateId stateId) (href : stateIdToRef ty stateId = .ok ref)
    (hrest : rest = [] ∨ ∃ tail, rest = '/' :: tail) :
    (mangledPath (rebootPrefix ++ ref ++ rest)).header = some (readableRef ty stateId) := by
  rw [stateIdToRef_ok ty hid] at href
  cases href
  have hslash : '/' ∉ ty ++ ':' :: encodeURIComponent (stateIdEncode stateId) := by
    simp only [List.mem_append, List.mem_cons, not_or]
    exact ⟨hty.not_mem (.inr (.inl rfl)), by decide, slash_not_mem_encodeURIComponent _⟩
  have hpercent : '%' ∉ ty ++ [':'] := by
    simp only [List.mem_append, List.mem_cons, List.not_mem_nil, or_false, not_or]
    exact ⟨hty.not_mem (.inl rfl), by decide⟩
  have hdecode : percentDecode (ty ++ ':' :: encodeURIComponent (stateIdEncode stateId)) =
      readableRef ty stateId := by
    have hsplit : ty ++ ':' :: encodeURIComponent (stateIdEncode stateId) =
        (ty ++ [':']) ++ (encodeURIComponent (stateIdEncode stateId) ++ []) := by simp
    rw [hsplit, percentDecode_append hpercent, percentDecode_encode (ascii_stateIdEncode hid)]
    simp [readableRef, percentDecode]
  unfold mangledPath
  rw [List.append_assoc, isPrefixOf_rebootPrefix, if_pos rfl, ← List.append_assoc,
    split_rebootPrefix (by simp) hslash hrest]
  exact congrArg some hdecode

/-! ## The ref -/

/-- A readable ref that is not taken for an encoded one becomes the ref of the id. -/
theorem fromMaybeReadable_readableRef (sha1 : Str → Digest) {ty stateId : Str}
    (hty : IsStateTypeName ty) (hnot : isStateRef (readableRef ty stateId) = .ok false) :
    ∃ readable, fromMaybeReadable sha1 (readableRef ty stateId) =
      .ok ⟨refOf sha1 ty stateId, readable⟩ := by
  have hslash : '/' ∉ readableRef ty stateId := by
    unfold readableRef
    simp only [List.mem_append, List.mem_cons, not_or]
    exact ⟨hty.not_mem (.inr (.inl rfl)), by decide, slash_not_mem_encode stateId⟩
  have hcut : cutFirst ':' (readableRef ty stateId) = some (ty, stateIdEncode stateId) :=
    cutFirst_append (hty.not_mem (.inr (.inr rfl)))
  have hsplit : (readableRef ty stateId).splitOn '/' = [readableRef ty stateId] :=
    List.splitOn_eq_singleton hslash
  obtain ⟨readable, hok⟩ := fromMaybeReadable_of_not sha1 hnot fun c hc => by
    rw [hsplit, List.mem_singleton] at hc
    exact ⟨ty, stateIdEncode stateId, hc ▸ hcut, hty.nonempty⟩
  refine ⟨readable, hok.trans ?_⟩
  rw [hsplit, List.map_singleton, List.intercalate_singleton, tagComponent, hcut]
  rfl

/-- A readable ref is the ref of the id only if the name of the type is its own tag. -/
theorem readableRef_eq_refOf {sha1 : Str → Digest} {ty stateId : Str}
    (h : readableRef ty stateId = refOf sha1 ty stateId) : stateTypeTagForName sha1 ty = ty := by
  unfold readableRef refOf at h
  exact (List.append_cancel_right h).symm

/-- An accepted id reaches its state if and only if `is_state_ref` does not take the readable ref for
an encoded one, or the name of the type is its own tag. -/
theorem reaches_iff_isStateRef (sha1 : Str → Digest) {ty stateId rest : Str}
    (hty : IsStateTypeName ty) (hid : IsStateId stateId)
    (hrest : rest = [] ∨ ∃ tail, rest = '/' :: tail) : Reaches sha1 ty stateId rest ↔
      isStateRef (readableRef ty stateId) = .ok false ∨ stateTypeTagForName sha1 ty = ty := by
  have hheader := mangledPath_stateIdToRef hty hid (stateIdToRef_ok ty hid) hrest
  have hfrom := fromId_of_isStateId sha1 ty hid
  constructor
  · rintro ⟨ref, value, ref', href, hvalue, hread, hfromId, -⟩
    rw [stateIdToRef_ok ty hid] at href
    cases href
    rw [hheader] at hvalue
    cases hvalue
    rw [hfrom] at hfromId
    cases htest : isStateRef (readableRef ty stateId) with
    | error e =>
      unfold fromMaybeReadable at hread
      rw [htest] at hread
      cases hread
    | ok encoded =>
      cases encoded with
      | false => exact .inl rfl
      | true =>
        rw [fromMaybeReadable_of_isStateRef htest] at hread
        cases hread
        exact .inr (readableRef_eq_refOf (Except.ok.inj hfromId).symm)
  · rintro (hnot | htag)
    · obtain ⟨readable, hread⟩ := fromMaybeReadable_readableRef sha1 hty hnot
      exact ⟨_, _, _, stateIdToRef_ok ty hid, hheader, hread, hfrom, refId_refOf hid⟩
    · have heq : readableRef ty stateId = refOf sha1 ty stateId := by
        unfold readableRef refOf
        rw [htag]
      have htest : isStateRef (readableRef ty stateId) = .ok true := by
        rw [heq]
        exact isStateRef_tagged sha1 ty (slash_not_mem_encode stateId)
      refine ⟨_, _, _, stateIdToRef_ok ty hid, hheader, fromMaybeReadable_of_isStateRef htest, ?_, ?_⟩
      · rw [hfrom, heq]
      · rw [heq]
        exact refId_refOf hid

theorem header_mangledPath (path : Str) :
    (mangledPath path).header = (stateRefPiece path).map percentDecode := by
  unfold mangledPath stateRefPiece
  split
  · cases (split path '/')[3]? <;> rfl
  · rfl

/-- The filter writes a legal value if and only if neither an illegal character nor an escape of one is
in the piece. -/
theorem writesLegal_iff (path : Str) : WritesLegal path ↔ PieceLegal path := by
  have hillegal : ∀ c ∈ headerIllegal, c ≠ '%' ∧ hexValue c = none := by decide
  unfold WritesLegal PieceLegal
  rw [header_mangledPath]
  cases stateRefPiece path with
  | none => simp
  | some piece =>
    simp only [Option.map_some, Option.mem_def, Option.some.injEq, forall_eq']
    refine forall₂_congr fun c hc => ?_
    obtain ⟨hpercent, hhex⟩ := hillegal c hc
    rw [mem_percentDecode_iff hpercent hhex, not_or]

/-- An id reaches its state from every client exactly where its readable ref is not taken for an encoded
one; and the value of the header is legal exactly where the piece of the path is. -/
theorem reaches_iff (sha1 : Str → Digest) :
    (∀ ty stateId rest : Str, IsStateTypeName ty → (∃ ref, stateIdToRef ty stateId = .ok ref) →
      (rest = [] ∨ ∃ tail, rest = '/' :: tail) →
      (Reaches sha1 ty stateId rest ↔
        isStateRef (readableRef ty stateId) = .ok false ∨ stateTypeTagForName sha1 ty = ty)) ∧
    ∀ path : Str, WritesLegal path ↔ PieceLegal path := by
  refine ⟨fun ty stateId rest hty hok hrest => reaches_iff_isStateRef sha1 hty ?_ hrest, writesLegal_iff⟩
  obtain ⟨ref, href⟩ := hok
  refine validateASCII_ok_iff.mp ?_
  unfold stateIdToRef at href
  split at href
  · cases href
  · next hvalid => exact hvalid

theorem reaches_room :
    Reaches chatSha1 "chat.Room".toList "attic/north%".toList "/chat.RoomMethods/Get".toList ∧
      WritesLegal "/__/reboot/rpc/chat.Room:attic%5Cnorth%25/chat.RoomMethods/Get".toList := by
  obtain ⟨hreaches, hlegal⟩ := reaches_iff chatSha1
  constructor
  · refine (hreaches _ _ _ (by decide) ⟨_, rfl⟩ (.inr ⟨_, rfl⟩)).mpr (.inl ?_)
    decide +kernel
  · have hpiece : stateRefPiece
        "/__/reboot/rpc/chat.Room:attic%5Cnorth%25/chat.RoomMethods/Get".toList =
        some "chat.Room:attic%5Cnorth%25".toList := by decide +kernel
    refine (hlegal _).mpr fun piece hmem c hc => ?_
    rw [hpiece] at hmem
    cases hmem
    have hdecoded : ∀ d ∈ headerIllegal, d ∉ percentDecode "chat.Room:attic%5Cnorth%25".toList := by
      decide +kernel
    have hillegal : ∀ d ∈ headerIllegal, d ≠ '%' ∧ hexValue d = none := by decide
    obtain ⟨hpercent, hhex⟩ := hillegal c hc
    rw [← not_or, ← mem_percentDecode_iff hpercent hhex]
    exact hdecoded c hc

/-- A name that is taken for a tag, and a carriage return in an accepted id. -/
theorem not_reaches :
    (∀ sha1, ¬ Reaches sha1 "AI.chat.v1.Bot".toList "attic".toList []) ∧
      (∃ ref, stateIdToRef "chat.Room".toList "a\rb".toList = .ok ref ∧
        ¬ WritesLegal (rebootPrefix ++ ref)) ∧
      ¬ ∀ path, WritesLegal path := by
  have hwrites : ¬ WritesLegal (rebootPrefix ++ "chat.Room:a%0Db".toList) := by
    intro h
    have hheader : (mangledPath (rebootPrefix ++ "chat.Room:a%0Db".toList)).header =
        some "chat.Room:a\rb".toList := by decide +kernel
    exact h _ hheader '\r' (by decide) (by decide)
  refine ⟨fun sha1 h => ?_, ⟨_, rfl, hwrites⟩, fun h => hwrites (h _)⟩
  rcases (reaches_iff_isStateRef sha1 (by decide) (by decide) (.inl rfl)).mp h with hnot | htag
  · have htest : isStateRef (readableRef "AI.chat.v1.Bot".toList "attic".toList) =
        .ok true := by decide +kernel
    rw [htest] at hnot
    cases hnot
  · -- a tag has no dot
    have hdot : '.' ∈ "AI.chat.v1.Bot".toList := by decide
    rw [← htag] at hdot
    exact not_mem_stateTypeTagForName sha1 (.inr (.inr rfl)) _ hdot

end Reboot.Routing
