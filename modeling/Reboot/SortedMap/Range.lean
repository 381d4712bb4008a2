import Reboot.SortedMap.FiniteMap

/-!
# Reading a SortedMap

A scan yields the entries of one map, and of no other, in the order of the *encoded* keys
and within the *encoded* bounds (`scan_bounds_iff`, `scanBack_bounds_iff`). So `Range` and
`ReverseRange` return what they should exactly if the encoding keeps the entries on their
side of the bounds and in their order, `EncodingKeeps`. For keys without `/` it does
(`encodingKeeps_of_noSlash`). With `/` it may not: `/` is encoded as `\`, which comes after
the digits and the upper-case letters instead of before them.

`Get` scans up to the key with one more character. That is exact for every key, but the
longer key has to pass the check on the length of an id.
-/

namespace Reboot.SortedMap

open Reboot.Lib Reboot.Routing

variable {τ ν : Type} {sha1 : Str → Digest}

/-! ## What a scan reads -/

/-- Between the bounds of a range: `start` inclusive, `end_` exclusive. -/
def Within (start end_ : Option Str) (key : Str) : Prop :=
  (∀ s ∈ start, s ≤ key) ∧ ∀ e ∈ end_, key < e

/-- Between the bounds of a reverse range. -/
def WithinReverse (start end_ : Option Str) (key : Str) : Prop :=
  (∀ s ∈ start, key ≤ s) ∧ ∀ e ∈ end_, e < key

instance (start end_ : Option Str) (key : Str) : Decidable (Within start end_ key) :=
  inferInstanceAs (Decidable (_ ∧ _))

instance (start end_ : Option Str) (key : Str) : Decidable (WithinReverse start end_ key) :=
  inferInstanceAs (Decidable (_ ∧ _))

/-- `0` is the character after `/`. -/
theorem slash_covBy : '/' ⋖ '0' := by
  refine ⟨by decide, fun c h1 h2 => ?_⟩
  rw [Char.lt_def, UInt32.lt_iff_toNat_lt] at h1 h2
  have h1' : 47 < c.val.toNat := h1
  have h2' : c.val.toNat < 48 := h2
  omega

theorem nul_le (c : Char) : '\x00' ≤ c := by
  rw [Char.le_def, UInt32.le_iff_toNat_le]
  exact Nat.zero_le _

variable (sha1) in
/-- The refs of the bounds, as they are sent to the database. -/
def boundRef (bound : Option Str) : Option Str := bound.map (refOf sha1 sortedMapEntryTypeName)

theorem boundKey_some (id : Str) (c : Char) (key : Str) :
    boundKey (mapRef sha1 id) c (boundRef sha1 (some key)) = entryKey sha1 id key :=
  (entryKey_eq sha1 id key).symm

theorem boundKey_none (id : Str) (c : Char) :
    boundKey (mapRef sha1 id) c (boundRef sha1 none) = makeActorStateKey (mapRef sha1 id) ++ [c] := by
  simp [boundKey, boundRef, makeActorStateKey]

variable (sha1) in
/-- Every entry of a map is at or after the map's key with `/`. -/
theorem slash_le_entryKey (id key : Str) :
    makeActorStateKey (mapRef sha1 id) ++ ['/'] ≤ entryKey sha1 id key := by
  have hsplit : entryKey sha1 id key = (makeActorStateKey (mapRef sha1 id) ++ ['/']) ++
      refOf sha1 sortedMapEntryTypeName key := by
    simp [entryKey_split]
  rw [hsplit]
  exact le_append_self _ _

variable (sha1) in
/-- Every entry of a map is before the map's key with `0`. -/
theorem entryKey_lt_zero (id key : Str) :
    entryKey sha1 id key < makeActorStateKey (mapRef sha1 id) ++ ['0'] := by
  rw [entryKey_split, append_lt_append_iff, List.cons_lt_cons_iff]
  exact Or.inl (by decide)

/-- What lies between a map's key with `/` and its key with `0` is an entry of the map. -/
theorem id_of_between {id id' key : Str} (hid : IsStateId id) (hid' : IsStateId id')
    (h1 : makeActorStateKey (mapRef sha1 id) ++ ['/'] ≤ entryKey sha1 id' key)
    (h2 : entryKey sha1 id' key < makeActorStateKey (mapRef sha1 id) ++ ['0']) : id' = id :=
  id_of_isPrefix hid hid' (isPrefix_of_between_covBy slash_covBy _ h1 h2)

/-- The bounds of a forward scan, on an entry of any map. -/
theorem scan_bounds_iff {id id' key : Str} (hid : IsStateId id) (hid' : IsStateId id')
    (start end_ : Option Str) :
    (boundKey (mapRef sha1 id) '/' (boundRef sha1 start) ≤ entryKey sha1 id' key ∧
      entryKey sha1 id' key < boundKey (mapRef sha1 id) '0' (boundRef sha1 end_)) ↔
    id' = id ∧ Within (start.map stateIdEncode) (end_.map stateIdEncode) (stateIdEncode key) := by
  constructor
  · rintro ⟨h1, h2⟩
    have hge : makeActorStateKey (mapRef sha1 id) ++ ['/'] ≤ entryKey sha1 id' key := by
      cases start with
      | none => rwa [boundKey_none] at h1
      | some s =>
        rw [boundKey_some] at h1
        exact (slash_le_entryKey sha1 id s).trans h1
    have hlt : entryKey sha1 id' key < makeActorStateKey (mapRef sha1 id) ++ ['0'] := by
      cases end_ with
      | none => rwa [boundKey_none] at h2
      | some e =>
        rw [boundKey_some] at h2
        exact h2.trans (entryKey_lt_zero sha1 id e)
    have hsame : id' = id := id_of_between hid hid' hge hlt
    subst hsame
    refine ⟨rfl, fun s hs => ?_, fun e he => ?_⟩
    · obtain ⟨s', rfl, rfl⟩ := Option.map_eq_some_iff.mp hs
      rw [boundKey_some] at h1
      exact append_le_append_iff.mp h1
    · obtain ⟨e', rfl, rfl⟩ := Option.map_eq_some_iff.mp he
      rw [boundKey_some] at h2
      exact append_lt_append_iff.mp h2
  · rintro ⟨rfl, h1, h2⟩
    constructor
    · cases start with
      | none =>
        rw [boundKey_none]
        exact slash_le_entryKey sha1 id' key
      | some s =>
        rw [boundKey_some]
        exact append_le_append_iff.mpr (h1 _ rfl)
    · cases end_ with
      | none =>
        rw [boundKey_none]
        exact entryKey_lt_zero sha1 id' key
      | some e =>
        rw [boundKey_some]
        exact append_lt_append_iff.mpr (h2 _ rfl)

/-- The lower bound of a backward scan, on an entry of the same map. -/
theorem lowerKey_le_iff {id key : Str} (end_ : Option Str) :
    lowerKey (mapRef sha1 id) (boundRef sha1 end_) ≤ entryKey sha1 id key ↔
      ∀ e ∈ end_.map stateIdEncode, e < stateIdEncode key := by
  cases end_ with
  | none =>
    have hle : lowerKey (mapRef sha1 id) (boundRef sha1 none) ≤ entryKey sha1 id key := by
      have h := slash_le_entryKey sha1 id key
      rw [← boundKey_none] at h
      exact h
    exact iff_of_true hle (by simp)
  | some e =>
    have hkey : lowerKey (mapRef sha1 id) (boundRef sha1 (some e)) = entryKey sha1 id e ++ ['\x00'] := by
      rw [entryKey_eq]
      rfl
    rw [hkey, snoc_le_iff nul_le, entryKey, entryKey, append_lt_append_iff]
    simp

/-- The bounds of a backward scan, on an entry of any map. -/
theorem scanBack_bounds_iff {id id' key : Str} (hid : IsStateId id) (hid' : IsStateId id')
    (start end_ : Option Str) :
    (lowerKey (mapRef sha1 id) (boundRef sha1 end_) ≤ entryKey sha1 id' key ∧
      entryKey sha1 id' key ≤ boundKey (mapRef sha1 id) '0' (boundRef sha1 start)) ↔
    id' = id ∧
      WithinReverse (start.map stateIdEncode) (end_.map stateIdEncode) (stateIdEncode key) := by
  constructor
  · rintro ⟨h1, h2⟩
    have hge : makeActorStateKey (mapRef sha1 id) ++ ['/'] ≤ entryKey sha1 id' key := by
      cases end_ with
      | none =>
        rw [← boundKey_none]
        exact h1
      | some e =>
        have hle : entryKey sha1 id e ≤ lowerKey (mapRef sha1 id) (boundRef sha1 (some e)) := by
          rw [entryKey_eq]
          exact le_append_self _ _
        exact (slash_le_entryKey sha1 id e).trans (hle.trans h1)
    have hlt : entryKey sha1 id' key < makeActorStateKey (mapRef sha1 id) ++ ['0'] := by
      cases start with
      | none =>
        rw [boundKey_none] at h2
        refine lt_of_le_of_ne h2 fun heq => ?_
        -- an entry's key has a slash
        have hslash : '/' ∈ makeActorStateKey (mapRef sha1 id) ++ ['0'] := by
          rw [← heq, entryKey_split]
          simp
        rw [List.mem_append] at hslash
        rcases hslash with h | h
        · exact slash_not_mem_mapKey sha1 id h
        · exact absurd h (by decide)
      | some s =>
        rw [boundKey_some] at h2
        exact h2.trans_lt (entryKey_lt_zero sha1 id s)
    have hsame : id' = id := id_of_between hid hid' hge hlt
    subst hsame
    refine ⟨rfl, fun s hs => ?_, (lowerKey_le_iff end_).mp h1⟩
    obtain ⟨s', rfl, rfl⟩ := Option.map_eq_some_iff.mp hs
    rw [boundKey_some] at h2
    exact append_le_append_iff.mp h2
  · rintro ⟨rfl, h1, h2⟩
    refine ⟨(lowerKey_le_iff end_).mpr h2, ?_⟩
    cases start with
    | none =>
      rw [boundKey_none]
      exact (entryKey_lt_zero sha1 id' key).le
    | some s =>
      rw [boundKey_some]
      exact append_le_append_iff.mpr (h1 _ rfl)

/-! ## Pages -/

/-- What the state manager makes of a raw entry. -/
def decoded (e : Str × ν) : Str × ν := (refId (e.1.drop stateKeyPrefix.length), e.2)

theorem drop_entryKey (id key : Str) :
    (entryKey sha1 id key).drop stateKeyPrefix.length =
      mapRef sha1 id ++ '/' :: refOf sha1 sortedMapEntryTypeName key := by
  rw [entryKey_eq, makeActorStateKey, List.drop_left]

variable (sha1) in
theorem decoded_entryKey (id : Str) {key : Str} (hkey : IsStateId key) (v : ν) :
    decoded (entryKey sha1 id key, v) = (key, v) := by
  simp only [decoded, drop_entryKey, refId_colocated _ hkey]

/-- Pages of entries of a map are decoded without an error. -/
theorem decodePage_page {id : Str} : ∀ {l : List (Str × ν)},
    (∀ e ∈ l, ∃ key, IsStateId key ∧ e.1 = entryKey sha1 id key) → ∀ limit,
    decodePage sha1 (page limit l) = .ok ((l.map decoded).take limit)
  | [], _, limit => by simp [page, decodePage]
  | e :: l, h, 0 => by simp [page, decodePage]
  | e :: l, h, limit + 1 => by
    have ih := decodePage_page (fun e' he' => h e' (List.mem_cons_of_mem _ he')) limit
    obtain ⟨key, hkey, he⟩ := h e (List.mem_cons_self ..)
    have hdec : decodeKey sha1 (e.1.drop stateKeyPrefix.length) =
        .ok (refId (e.1.drop stateKeyPrefix.length)) := by
      rw [he, drop_entryKey, decodeKey, matchesStateType_colocated]
    show decodePage sha1 ((e.1.drop stateKeyPrefix.length, e.2) :: page limit l) = _
    rw [decodePage, hdec, ih]
    rfl

/-- The entries of `l` are those of the map `id` whose keys have `Q`. -/
structure Lists (sha1 : Str → Digest) (l : List (Str × ν)) (id : Str) (m : SortedAssoc Str ν)
    (Q : Str → Prop) : Prop where
  mem_iff : ∀ x v, (x, v) ∈ l ↔ ∃ key, IsStateId key ∧ x = entryKey sha1 id key ∧
    (key, v) ∈ m.entries ∧ Q key
  valid : ∀ e ∈ m.entries, IsStateId e.1

namespace Lists

variable {l : List (Str × ν)} {id : Str} {m : SortedAssoc Str ν} {Q : Str → Prop}

theorem decodePage_eq (h : Lists sha1 l id m Q) (limit : Nat) :
    decodePage sha1 (page limit l) = .ok ((l.map decoded).take limit) := by
  have hkeys : ∀ e ∈ l, ∃ key, IsStateId key ∧ e.1 = entryKey sha1 id key := by
    intro e he
    obtain ⟨key, hkey, hx, -⟩ := (h.mem_iff e.1 e.2).mp he
    exact ⟨key, hkey, hx⟩
  exact decodePage_page hkeys limit

theorem mem_decoded_iff (h : Lists sha1 l id m Q) (e : Str × ν) :
    e ∈ l.map decoded ↔ e ∈ m.entries ∧ Q e.1 := by
  rw [List.mem_map]
  constructor
  · rintro ⟨⟨x, v⟩, hx, rfl⟩
    obtain ⟨key, hkey, rfl, hm, hQ⟩ := (h.mem_iff x v).mp hx
    rw [decoded_entryKey sha1 id hkey]
    exact ⟨hm, hQ⟩
  · rintro ⟨hm, hQ⟩
    have hkey := h.valid e hm
    exact ⟨(entryKey sha1 id e.1, e.2), (h.mem_iff _ _).mpr ⟨e.1, hkey, rfl, hm, hQ⟩,
      decoded_entryKey sha1 id hkey e.2⟩

/-- An order of the raw keys is the order of the encoded ones. -/
theorem pairwise_decoded (h : Lists sha1 l id m Q) {r : Str → Str → Prop}
    (hr : ∀ p x y, r (p ++ x) (p ++ y) → r x y) (hl : l.Pairwise fun a b => r a.1 b.1) :
    (l.map decoded).Pairwise fun a b => r (stateIdEncode a.1) (stateIdEncode b.1) := by
  rw [List.pairwise_map]
  refine List.Pairwise.imp_of_mem ?_ hl
  intro a b ha hb hab
  obtain ⟨ka, hka, hxa, -⟩ := (h.mem_iff a.1 a.2).mp ha
  obtain ⟨kb, hkb, hxb, -⟩ := (h.mem_iff b.1 b.2).mp hb
  have hda : decoded a = (ka, a.2) := by
    rw [← decoded_entryKey sha1 id hka, ← hxa]
  have hdb : decoded b = (kb, b.2) := by
    rw [← decoded_entryKey sha1 id hkb, ← hxb]
  rw [hda, hdb]
  rw [hxa, hxb] at hab
  exact hr _ _ _ hab

end Lists

theorem scan_lists {c : SortedAssoc Str ν} {f : Str → SortedAssoc Str ν} (h : Holds sha1 c f)
    {id : Str} (hid : IsStateId id) (start end_ : Option Str) :
    Lists sha1 (scanAssoc (boundKey (mapRef sha1 id) '/' (boundRef sha1 start))
        (boundKey (mapRef sha1 id) '0' (boundRef sha1 end_)) c.entries) id (f id)
      fun key => Within (start.map stateIdEncode) (end_.map stateIdEncode) (stateIdEncode key) where
  mem_iff x v := by
    rw [mem_scanAssoc_iff c.sorted, h.mem_iff]
    constructor
    · rintro ⟨⟨id', key, hid', hkey, rfl, hm⟩, hb⟩
      obtain ⟨rfl, hw⟩ := (scan_bounds_iff hid hid' start end_).mp hb
      exact ⟨key, hkey, rfl, hm, hw⟩
    · rintro ⟨key, hkey, rfl, hm, hw⟩
      exact ⟨⟨id, key, hid, hkey, rfl, hm⟩, (scan_bounds_iff hid hid start end_).mpr ⟨rfl, hw⟩⟩
  valid := h.valid id hid

theorem scanBack_lists {c : SortedAssoc Str ν} {f : Str → SortedAssoc Str ν} (h : Holds sha1 c f)
    {id : Str} (hid : IsStateId id) (start end_ : Option Str) :
    Lists sha1 (scanBackAssoc (boundKey (mapRef sha1 id) '0' (boundRef sha1 start))
        (lowerKey (mapRef sha1 id) (boundRef sha1 end_)) c.entries) id (f id)
      fun key =>
        WithinReverse (start.map stateIdEncode) (end_.map stateIdEncode) (stateIdEncode key) where
  mem_iff x v := by
    rw [mem_scanBackAssoc_iff c.sorted, h.mem_iff]
    constructor
    · rintro ⟨⟨id', key, hid', hkey, rfl, hm⟩, hb⟩
      obtain ⟨rfl, hw⟩ := (scanBack_bounds_iff hid hid' start end_).mp hb
      exact ⟨key, hkey, rfl, hm, hw⟩
    · rintro ⟨key, hkey, rfl, hm, hw⟩
      exact ⟨⟨id, key, hid, hkey, rfl, hm⟩, (scanBack_bounds_iff hid hid start end_).mpr ⟨rfl, hw⟩⟩
  valid := h.valid id hid

/-! ## The readers -/

variable (sha1) in
theorem entryRef_of_valid {bound : Option Str} (h : ∀ k ∈ bound, IsStateId k) :
    entryRef sha1 bound = .ok (boundRef sha1 bound) := by
  cases bound with
  | none => rfl
  | some k =>
    rw [entryRef, fromId_of_isStateId sha1 _ (h k rfl)]
    rfl

section Readers

variable {d : Database τ ν} {h : History ν} {id : Str} {inTransaction : Bool}
  {start end_ : Option Str}

/-- A forward scan yields pages of one list: the visible entries within the encoded bounds,
in the order of the encoded keys. -/
theorem colocatedRange_listing (hR : Represents sha1 d h) (hid : IsStateId id)
    (hin : inTransaction = true → (d.txns (mapRef sha1 id)).isSome = true)
    (hstart : ∀ s ∈ start, IsStateId s) (hend : ∀ e ∈ end_, IsStateId e) :
    ∃ l : List (Str × ν),
      (∀ limit, colocatedOmnidirectionalRange sha1 d (mapRef sha1 id) inTransaction start end_
        limit false = .ok (l.take limit)) ∧
      (l.Pairwise fun a b => stateIdEncode a.1 < stateIdEncode b.1) ∧
      ∀ e, e ∈ l ↔ e ∈ (contents (h.visible id inTransaction)).entries ∧
        Within (start.map stateIdEncode) (end_.map stateIdEncode) (stateIdEncode e.1) := by
  obtain ⟨c, f, hview, hholds, hf⟩ := view_holds hR hid hin
  have hlists := scan_lists hholds hid start end_
  rw [hf] at hlists
  refine ⟨_, fun limit => ?_, ?_, hlists.mem_decoded_iff⟩
  · rw [← hlists.decodePage_eq limit, colocatedOmnidirectionalRange, entryRef_of_valid sha1 hstart,
      entryRef_of_valid sha1 hend, hview]
    rfl
  · exact hlists.pairwise_decoded (fun p x y => append_lt_append_iff.mp) (scanAssoc_sorted c.sorted)

/-- The same of a backward scan. -/
theorem colocatedReverseRange_listing (hR : Represents sha1 d h) (hid : IsStateId id)
    (hin : inTransaction = true → (d.txns (mapRef sha1 id)).isSome = true)
    (hstart : ∀ s ∈ start, IsStateId s) (hend : ∀ e ∈ end_, IsStateId e) :
    ∃ l : List (Str × ν),
      (∀ limit, colocatedOmnidirectionalRange sha1 d (mapRef sha1 id) inTransaction start end_
        limit true = .ok (l.take limit)) ∧
      (l.Pairwise fun a b => stateIdEncode b.1 < stateIdEncode a.1) ∧
      ∀ e, e ∈ l ↔ e ∈ (contents (h.visible id inTransaction)).entries ∧
        WithinReverse (start.map stateIdEncode) (end_.map stateIdEncode) (stateIdEncode e.1) := by
  obtain ⟨c, f, hview, hholds, hf⟩ := view_holds hR hid hin
  have hlists := scanBack_lists hholds hid start end_
  rw [hf] at hlists
  refine ⟨_, fun limit => ?_, ?_, hlists.mem_decoded_iff⟩
  · rw [← hlists.decodePage_eq limit, colocatedOmnidirectionalRange, entryRef_of_valid sha1 hstart,
      entryRef_of_valid sha1 hend, hview]
    rfl
  · exact hlists.pairwise_decoded (r := fun a b => b < a) (fun p x y => append_lt_append_iff.mp)
      (scanBackAssoc_sorted c.sorted)

end Readers

/-! ## When the readers are exact -/

section Exact

variable (sha1) (d : Database τ ν) (us : List (Upsert ν)) (id : Str) (inTransaction : Bool)

/-- `Get` returns the value last inserted under the key and not removed since. -/
def GetExact (key : Str) : Prop := get sha1 d id inTransaction key = .ok (lastInserted us key)

/-- With any limit, `Range` returns the first entries within the bounds in the order of the
keys. -/
def RangeExact (start end_ : Option Str) : Prop :=
  ∀ limit, limit ≠ 0 → range sha1 d id inTransaction ⟨start, end_, limit⟩ =
    .ok (((contents us).entries.filter fun e => decide (Within start end_ e.1)).take limit)

/-- With any limit, `ReverseRange` returns the last entries within the bounds, backwards. -/
def ReverseRangeExact (start end_ : Option Str) : Prop :=
  ∀ limit, limit ≠ 0 → reverseRange sha1 d id inTransaction ⟨start, end_, limit⟩ =
    .ok (((contents us).entries.reverse.filter fun e =>
      decide (WithinReverse start end_ e.1)).take limit)

end Exact

/-- Encoding the keys moves no entry across the bounds, and does not change the order of the
entries within them. -/
structure EncodingKeeps (m : SortedAssoc Str ν) (within : Option Str → Option Str → Str → Prop)
    (start end_ : Option Str) : Prop where
  bounds : ∀ e ∈ m.entries, within start end_ e.1 ↔
    within (start.map stateIdEncode) (end_.map stateIdEncode) (stateIdEncode e.1)
  order : ∀ e ∈ m.entries, ∀ e' ∈ m.entries, within start end_ e.1 → within start end_ e'.1 →
    (e.1 < e'.1 ↔ stateIdEncode e.1 < stateIdEncode e'.1)

/-- Without `/` in the bounds and in the keys there is nothing to encode. -/
theorem encodingKeeps_of_noSlash {m : SortedAssoc Str ν}
    {within : Option Str → Option Str → Str → Prop} {start end_ : Option Str}
    (hm : ∀ e ∈ m.entries, '/' ∉ e.1) (hstart : ∀ s ∈ start, '/' ∉ s) (hend : ∀ e ∈ end_, '/' ∉ e) :
    EncodingKeeps m within start end_ := by
  have hbound : ∀ {b : Option Str}, (∀ k ∈ b, '/' ∉ k) → b.map stateIdEncode = b := by
    intro b hb
    cases b with
    | none => rfl
    | some k => rw [Option.map_some, stateIdEncode_of_noSlash (hb k rfl)]
  refine ⟨fun e he => ?_, fun e he e' he' _ _ => ?_⟩
  · rw [hbound hstart, hbound hend, stateIdEncode_of_noSlash (hm e he)]
  · rw [stateIdEncode_of_noSlash (hm e he), stateIdEncode_of_noSlash (hm e' he')]

section ExactIff

variable {d : Database τ ν} {h : History ν} {id : Str} {inTransaction : Bool}
  {start end_ : Option Str}

theorem range_eq {limit : Nat} (hl : limit ≠ 0) (hlt : ∀ s ∈ start, ∀ e ∈ end_, s < e) :
    range sha1 d id inTransaction ⟨start, end_, limit⟩ =
      colocatedOmnidirectionalRange sha1 d (mapRef sha1 id) inTransaction start end_ limit
        false := by
  unfold range
  rw [if_neg hl]
  cases start with
  | none => rfl
  | some s =>
    cases end_ with
    | none => rfl
    | some e => exact if_neg (not_le.mpr (hlt s rfl e rfl))

theorem reverseRange_eq {limit : Nat} (hl : limit ≠ 0) (hlt : ∀ s ∈ start, ∀ e ∈ end_, e < s) :
    reverseRange sha1 d id inTransaction ⟨start, end_, limit⟩ =
      colocatedOmnidirectionalRange sha1 d (mapRef sha1 id) inTransaction start end_ limit
        true := by
  unfold reverseRange
  rw [if_neg hl]
  cases start with
  | none => rfl
  | some s =>
    cases end_ with
    | none => rfl
    | some e => exact if_neg (not_le.mpr (hlt s rfl e rfl))

theorem rangeExact_iff (hR : Represents sha1 d h) (hid : IsStateId id)
    (hin : inTransaction = true → (d.txns (mapRef sha1 id)).isSome = true)
    (hstart : ∀ s ∈ start, IsStateId s) (hend : ∀ e ∈ end_, IsStateId e)
    (hlt : ∀ s ∈ start, ∀ e ∈ end_, s < e) :
    RangeExact sha1 d (h.visible id inTransaction) id inTransaction start end_ ↔
      EncodingKeeps (contents (h.visible id inTransaction)) Within start end_ := by
  obtain ⟨l, hpage, hsorted, hmem⟩ := colocatedRange_listing hR hid hin hstart hend
  have hexact : RangeExact sha1 d (h.visible id inTransaction) id inTransaction start end_ ↔
      ∀ limit, limit ≠ 0 → l.take limit =
        ((contents (h.visible id inTransaction)).entries.filter fun e =>
          decide (Within start end_ e.1)).take limit := by
    refine forall_congr' fun limit => imp_congr_right fun hl => ?_
    rw [range_eq hl hlt, hpage, Except.ok.injEq]
  have horder : Std.Asymm fun a b : Str × ν => a.1 < b.1 := ⟨fun _ _ h h' => lt_asymm h h'⟩
  have hcoded : Std.Asymm fun a b : Str × ν => stateIdEncode a.1 < stateIdEncode b.1 :=
    ⟨fun _ _ h h' => lt_asymm h h'⟩
  rw [hexact, take_eq_iff_of_ordered (contents (h.visible id inTransaction)).sorted hsorted hmem]
  exact ⟨fun hk => ⟨hk.1, hk.2⟩, fun hk => ⟨hk.bounds, hk.order⟩⟩

theorem reverseRangeExact_iff (hR : Represents sha1 d h) (hid : IsStateId id)
    (hin : inTransaction = true → (d.txns (mapRef sha1 id)).isSome = true)
    (hstart : ∀ s ∈ start, IsStateId s) (hend : ∀ e ∈ end_, IsStateId e)
    (hlt : ∀ s ∈ start, ∀ e ∈ end_, e < s) :
    ReverseRangeExact sha1 d (h.visible id inTransaction) id inTransaction start end_ ↔
      EncodingKeeps (contents (h.visible id inTransaction)) WithinReverse start end_ := by
  obtain ⟨l, hpage, hsorted, hmem⟩ := colocatedReverseRange_listing hR hid hin hstart hend
  have hexact : ReverseRangeExact sha1 d (h.visible id inTransaction) id inTransaction start end_ ↔
      ∀ limit, limit ≠ 0 → l.take limit =
        ((contents (h.visible id inTransaction)).entries.reverse.filter fun e =>
          decide (WithinReverse start end_ e.1)).take limit := by
    refine forall_congr' fun limit => imp_congr_right fun hl => ?_
    rw [reverseRange_eq hl hlt, hpage, Except.ok.injEq]
  have horder : Std.Asymm fun a b : Str × ν => b.1 < a.1 := ⟨fun _ _ h h' => lt_asymm h h'⟩
  have hcoded : Std.Asymm fun a b : Str × ν => stateIdEncode b.1 < stateIdEncode a.1 :=
    ⟨fun _ _ h h' => lt_asymm h h'⟩
  have hback : (contents (h.visible id inTransaction)).entries.reverse.Pairwise
      fun a b => b.1 < a.1 :=
    List.pairwise_reverse.mpr (contents (h.visible id inTransaction)).sorted
  have hmem' : ∀ e, e ∈ l ↔ e ∈ (contents (h.visible id inTransaction)).entries.reverse ∧
      WithinReverse (start.map stateIdEncode) (end_.map stateIdEncode) (stateIdEncode e.1) := by
    intro e
    rw [hmem, List.mem_reverse]
  rw [hexact, take_eq_iff_of_ordered hback hsorted hmem']
  simp only [List.mem_reverse]
  exact ⟨fun hk => ⟨hk.1, fun e he e' he' hw hw' => hk.2 e' he' e he hw' hw⟩,
    fun hk => ⟨hk.bounds, fun e he e' he' hw hw' => hk.order e' he' e he hw' hw⟩⟩

/-- The key with `\x01` appended is accepted unless it is too long. -/
theorem isStateId_snoc {key : Str} (hkey : IsStateId key) :
    IsStateId (key ++ ['\x01']) ↔ key.length < maxActorIdLength := by
  constructor
  · intro hk
    have hle := hk.le_max
    rw [List.length_append, List.length_singleton] at hle
    omega
  · intro hl
    refine ⟨?_, ?_, fun c hc => ?_, fun c hc => ?_⟩
    · rw [List.length_append, List.length_singleton]
      omega
    · have hmin := hkey.min_le
      rw [List.length_append]
      omega
    · rcases List.mem_append.mp hc with hc | hc
      · exact hkey.ascii c hc
      · rw [List.mem_singleton.mp hc]
        decide
    · rcases List.mem_append.mp hc with hc | hc
      · exact hkey.legal c hc
      · rw [List.mem_singleton.mp hc]
        decide

/-- Between a key and the key with `\x01` there is only the key. -/
theorem within_snoc_iff {key k : Str} (hkey : IsStateId key) (hk : IsStateId k) :
    Within ((some key).map stateIdEncode) ((some (key ++ ['\x01'])).map stateIdEncode)
      (stateIdEncode k) ↔ k = key := by
  have hsnoc : stateIdEncode (key ++ ['\x01']) = stateIdEncode key ++ ['\x01'] := by
    rw [stateIdEncode_append]
    rfl
  simp only [Option.map_some, Within, Option.mem_def, Option.some.injEq, forall_eq', hsnoc]
  constructor
  · rintro ⟨h1, h2⟩
    exact stateIdEncode_injOn hk hkey (eq_of_between_snoc hk.one_le_encode h1 h2)
  · rintro rfl
    refine ⟨le_refl _, ?_⟩
    conv_lhs => rw [← List.append_nil (stateIdEncode k)]
    exact append_lt_append_iff.mpr (List.nil_lt_cons _ _)

variable (sha1) in
theorem entryRef_of_invalid {key : Str} (hk : ¬ IsStateId key) :
    ∃ e, entryRef sha1 (some key) = .error e := by
  cases hf : fromId sha1 sortedMapEntryTypeName key with
  | error e => exact ⟨.invalidStateRef e, by rw [entryRef, hf]; rfl⟩
  | ok ref => exact absurd (fromId_ok_iff.mp hf).1 hk

theorem getExact_iff (hR : Represents sha1 d h) (hid : IsStateId id)
    (hin : inTransaction = true → (d.txns (mapRef sha1 id)).isSome = true) {key : Str}
    (hkey : IsStateId key) :
    GetExact sha1 d (h.visible id inTransaction) id inTransaction key ↔
      key.length < maxActorIdLength := by
  have hstart : ∀ s ∈ some key, IsStateId s := fun s hs => Option.some.inj hs ▸ hkey
  rw [← isStateId_snoc hkey]
  constructor
  · intro hget
    by_contra hlong
    obtain ⟨e, he⟩ := entryRef_of_invalid sha1 hlong
    unfold GetExact get colocatedOmnidirectionalRange at hget
    rw [entryRef_of_valid sha1 hstart, he] at hget
    exact nomatch hget
  · intro hsnoc
    obtain ⟨c, f, -, hholds, hf⟩ := view_holds hR hid hin
    have hvalid := hholds.valid id hid
    rw [hf] at hvalid
    have hend : ∀ e ∈ some (key ++ ['\x01']), IsStateId e :=
      fun e he => Option.some.inj he ▸ hsnoc
    obtain ⟨l, hpage, hsorted, hmem⟩ := colocatedRange_listing hR hid hin hstart hend
    have hmem' : ∀ e, e ∈ l ↔
        e ∈ (contents (h.visible id inTransaction)).entries ∧ e.1 = key := by
      intro e
      rw [hmem]
      exact and_congr_right fun he => within_snoc_iff hkey (hvalid e he)
    -- the order is strict, so there is no second entry
    have hval : l.head?.map Prod.snd = lastInserted (h.visible id inTransaction) key ∧ l.length ≤ 1 := by
      rw [← contents_get]
      match l, hsorted, hmem' with
      | [], _, hmem' =>
        refine ⟨?_, Nat.zero_le _⟩
        cases hg : (contents (h.visible id inTransaction)).get key with
        | none => rfl
        | some v =>
          exact absurd ((hmem' (key, v)).mpr ⟨SortedAssoc.get_eq_some_iff.mp hg, rfl⟩)
            (List.not_mem_nil)
      | [(k, v)], _, hmem' =>
        obtain ⟨hm, hk⟩ := (hmem' (k, v)).mp (List.mem_singleton.mpr rfl)
        have hk' : k = key := hk
        subst hk'
        exact ⟨(SortedAssoc.get_eq_some_iff.mpr hm).symm, le_refl _⟩
      | e :: e' :: l, hsorted, hmem' =>
        have hk : e.1 = key := ((hmem' e).mp (by simp)).2
        have hk' : e'.1 = key := ((hmem' e').mp (by simp)).2
        have hlt := (List.pairwise_cons.mp hsorted).1 e' (List.mem_cons_self ..)
        rw [hk, hk'] at hlt
        exact absurd hlt (lt_irrefl _)
    unfold GetExact get
    rw [hpage 1, ← hval.1]
    match l, hval.2 with
    | [], _ => rfl
    | [_], _ => rfl

end ExactIff

/-- The readers are exact on the finite map that the calls of a run leave, exactly if: for
`Get`, the key is not of maximal length; for `Range` and `ReverseRange`, the encoding of `/`
moves no entry of the map across the bounds of the request and does not change the order of
the entries within them. The reader is outside of a transaction, or inside one that joined
the map. -/
theorem readers_exact_iff [DecidableEq τ] {actions : List (Action τ ν)} {d : Database τ ν}
    (hrun : exec (step sha1) .empty actions = some d) {id : Str} (hid : IsStateId id)
    {inTransaction : Bool}
    (hin : inTransaction = true → (d.txns (mapRef sha1 id)).isSome = true) :
    (∀ key, IsStateId key →
      (GetExact sha1 d ((history actions).visible id inTransaction) id inTransaction key ↔
        key.length < maxActorIdLength)) ∧
    (∀ start end_, (∀ s ∈ start, IsStateId s) → (∀ e ∈ end_, IsStateId e) →
      (∀ s ∈ start, ∀ e ∈ end_, s < e) →
      (RangeExact sha1 d ((history actions).visible id inTransaction) id inTransaction start end_ ↔
        EncodingKeeps (contents ((history actions).visible id inTransaction)) Within
          start end_)) ∧
    (∀ start end_, (∀ s ∈ start, IsStateId s) → (∀ e ∈ end_, IsStateId e) →
      (∀ s ∈ start, ∀ e ∈ end_, e < s) →
      (ReverseRangeExact sha1 d ((history actions).visible id inTransaction) id inTransaction
          start end_ ↔
        EncodingKeeps (contents ((history actions).visible id inTransaction)) WithinReverse
          start end_)) := by
  have hR : Represents sha1 d (history actions) := run_represents hrun empty_represents
  exact ⟨fun _ hkey => getExact_iff hR hid hin hkey,
    fun _ _ hstart hend hlt => rangeExact_iff hR hid hin hstart hend hlt,
    fun _ _ hstart hend hlt => reverseRangeExact_iff hR hid hin hstart hend hlt⟩

/-- SHA-1 on the names of the two state types. -/
def sortedMapSha1 (s : Str) : Digest :=
  if s = sortedMapTypeName then
    .ofBytes [139, 244, 120, 222, 247, 45, 19, 165, 150, 45, 153, 189, 251, 48, 227, 214, 53,
      185, 219, 137]
  else if s = sortedMapEntryTypeName then
    .ofBytes [142, 64, 118, 195, 138, 162, 134, 146, 44, 236, 182, 13, 191, 245, 139, 101, 177,
      81, 94, 161]
  else .ofBytes []

/-- Two maps, one of them written inside a transaction that is still open. -/
def plainKeys : List (Action Nat Nat) :=
  [.call "m".toList none (.insert [("b".toList, 1), ("a".toList, 2)]),
    .call "m2".toList none (.insert [("a".toList, 3)]),
    .join "m".toList 7,
    .call "m".toList (some 7) (.remove ["a".toList])]

theorem plainKeys_exact :
    GetExact sortedMapSha1 (last (step sortedMapSha1) .empty plainKeys)
      ((history plainKeys).visible "m".toList true) "m".toList true "b".toList ∧
    RangeExact sortedMapSha1 (last (step sortedMapSha1) .empty plainKeys)
      ((history plainKeys).visible "m".toList true) "m".toList true (some "a".toList) none ∧
    ReverseRangeExact sortedMapSha1 (last (step sortedMapSha1) .empty plainKeys)
      ((history plainKeys).visible "m".toList true) "m".toList true (some "c".toList)
      (some "a".toList) := by
  have hrun : exec (step sortedMapSha1) .empty plainKeys =
      some (last (step sortedMapSha1) .empty plainKeys) := exec_eq_last (by decide +kernel)
  have hid : IsStateId "m".toList := by decide
  have hin : true = true → ((last (step sortedMapSha1) .empty plainKeys).txns
      (mapRef sortedMapSha1 "m".toList)).isSome = true := by decide +kernel
  obtain ⟨hget, hrange, hreverse⟩ := readers_exact_iff hrun hid hin
  refine ⟨(hget _ (by decide)).mpr (by decide), (hrange _ _ ?_ ?_ ?_).mpr ?_,
    (hreverse _ _ ?_ ?_ ?_).mpr ?_⟩
  · decide
  · decide
  · decide
  · exact encodingKeeps_of_noSlash (by decide) (by decide) (by decide)
  · decide
  · decide
  · decide
  · exact encodingKeeps_of_noSlash (by decide) (by decide) (by decide)

/-- A key with a slash before the place where the other has a digit, and a key of maximal
length. -/
def slashAndLong : List (Action Nat Nat) :=
  [.call "m".toList none (.insert [("a/b".toList, 1), ("a0".toList, 2)]),
    .call "m2".toList none (.insert [(List.replicate 128 'k', 3)])]

/-- `Range` returns `a0` before `a/b`, and nothing at all from `a/b` up to `a0`;
`ReverseRange` returns `a/b` first; `Get` fails on the long key. -/
theorem slashAndLong_not_exact :
    exec (step sortedMapSha1) .empty slashAndLong =
      some (last (step sortedMapSha1) .empty slashAndLong) ∧
    ¬ RangeExact sortedMapSha1 (last (step sortedMapSha1) .empty slashAndLong)
      ((history slashAndLong).visible "m".toList false) "m".toList false none none ∧
    ¬ RangeExact sortedMapSha1 (last (step sortedMapSha1) .empty slashAndLong)
      ((history slashAndLong).visible "m".toList false) "m".toList false
      (some "a/b".toList) (some "a0".toList) ∧
    ¬ ReverseRangeExact sortedMapSha1 (last (step sortedMapSha1) .empty slashAndLong)
      ((history slashAndLong).visible "m".toList false) "m".toList false none none ∧
    IsStateId (List.replicate 128 'k') ∧
    ¬ GetExact sortedMapSha1 (last (step sortedMapSha1) .empty slashAndLong)
      ((history slashAndLong).visible "m2".toList false) "m2".toList false
      (List.replicate 128 'k') := by
  refine ⟨exec_eq_last (by decide +kernel), fun h => ?_, fun h => ?_, fun h => ?_,
    by decide +kernel, ?_⟩
  · exact absurd (h 2 (by decide)) (by decide +kernel)
  · exact absurd (h 2 (by decide)) (by decide +kernel)
  · exact absurd (h 2 (by decide)) (by decide +kernel)
  · unfold GetExact
    decide +kernel

end Reboot.SortedMap
