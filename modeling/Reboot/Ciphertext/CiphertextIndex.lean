import Mathlib.Data.Finset.Sort
import Reboot.Ciphertext.KeyRotation
import Reboot.OrderedMap.Range

/-!
# The ciphertexts of a wrapping key

A `WrappingKey` keeps an `OrderedMap` of the ids of the ciphertexts it wraps: `Wrap` inserts an id,
and `Ciphertexts` pages through them. What a ciphertext is wrapped by is in its own state, and
`Rescope` changes it by a `Wrap` of the new key. The old key hears nothing of it and keeps the id.

So a key lists what it has ever wrapped (`pages_eq`), page by page, once and in order, and
`lists_exactly_iff` says when that is what it wraps: as long as no ciphertext has been moved away
from it. A limit of `2 ^ 32 - 1` cannot be asked for again: the page after the first is read with
one more, which is no `uint32`.

Mirroring notes:
- This is `KeyRotation` with the indices added, and `everWrapped` remembers what each key has
  wrapped. `step` there allows `Encrypt` of any ciphertext; here the ciphertext is not constructed
  yet, as a constructor demands, and has an id that is not empty.
- The id of an index is drawn at the first `Wrap` of a key and never changes, so an index is known by
  its key. It is there when the key has one.
- A page of a key that is not constructed, and an error of the map, is `none`.
- A client asks for pages until one is empty, each after the last id of the one before.
-/

namespace Reboot.Ciphertext

open Reboot.Lib
open Reboot.OrderedMap (Codec InRange IsRange Item)

variable {μ σ V B A S : Type}

/-! ## Model -/

/-- The application with the index of each wrapping key. -/
structure Indexed (μ σ S : Type) where
  base : System Str μ σ
  index : μ → σ → OrderedMap.World S
  /-- The ids that each key has wrapped, at any time. -/
  everWrapped : μ → σ → List Str

namespace Indexed

def init (config : List Nat) : Indexed μ σ S :=
  ⟨.init config, fun _ _ => .empty, fun _ _ => []⟩

/-- What an action wraps: the ciphertext, and the manager and the scope of the key. -/
def wraps (s : Indexed μ σ S) : Action Str μ σ → Option (Str × μ × σ)
  | .encrypt c m scope _ => some (c, m, scope)
  | .rescope c scope _ => (s.base.ciphertexts c).map fun key => (c, key.1, scope)
  | _ => none

/-- Whether a constructor may be called with the id. -/
def constructs (s : Indexed μ σ S) : Action Str μ σ → Bool
  | .encrypt c _ _ _ => decide (c ≠ []) && (s.base.ciphertexts c).isNone
  | _ => true

section Steps

variable [DecidableEq μ] [DecidableEq σ] (codec : Codec V B A S) (indexId : μ → σ → String)
  (present : B)

/-- `_PRESENT` -/
def presentItem : Item V B A := ⟨none, some present, none⟩

/-- The request of `self._ciphertext_index.insert`. -/
def insertRequest (c : Str) : OrderedMap.InsertRequest V B A :=
  ⟨c, presentItem present, [], none, none, List.nodup_nil⟩

/-- Set what belongs to one key. -/
def setAt {β : Type} (f : μ → σ → β) (m : μ) (scope : σ) (b : β) : μ → σ → β :=
  fun m' scope' => if m' = m ∧ scope' = scope then b else f m' scope'

/-- One step of the application. -/
def step (s : Indexed μ σ S) (a : Action Str μ σ) : Option (Indexed μ σ S) :=
  if s.constructs a then
    match Ciphertext.step s.base a with
    | none => none
    | some base =>
      match s.wraps a with
      | none => some { s with base := base }
      | some (c, m, scope) =>
        match OrderedMap.insert codec (indexId m scope) (s.index m scope)
            (insertRequest present c) with
        | .error _ => none
        | .ok w => some
          { base := base
            index := setAt s.index m scope w
            everWrapped := setAt s.everWrapped m scope (c :: s.everWrapped m scope) }
  else none

end Steps

/-- Whether the state of the key exists. -/
def constructed (s : Indexed μ σ S) (m : μ) (scope : σ) : Bool :=
  ((s.base.sites m).keys scope).revoked || ((s.base.sites m).keys scope).hasMaterial

/-- The values of a `uint32`. -/
def uint32 : Nat := 2 ^ 32

/-- `WrappingKeyServicer.ciphertexts` -/
def ciphertexts (codec : Codec V B A S) (s : Indexed μ σ S) (m : μ) (scope : σ)
    (startAfter : Option Str) (limit : Nat) : Option (List Str) :=
  if !s.constructed m scope then none
  else if (s.index m scope).map.isNone then some []
  else
    let rangeLimit := if startAfter.isSome then limit + 1 else limit
    if uint32 ≤ rangeLimit then none
    else
      match OrderedMap.range codec (s.index m scope) ⟨startAfter, rangeLimit⟩ with
      | .error _ => none
      | .ok (entries, _) =>
        let keys := entries.map Prod.fst
        let keys := if startAfter.isSome && decide (keys.head? = startAfter) then keys.tail else keys
        some (keys.take limit)

/-- The pages of a client, joined, from behind an id on. -/
def pages (codec : Codec V B A S) (s : Indexed μ σ S) (m : μ) (scope : σ) (limit : Nat) :
    Nat → Option Str → Option (List Str)
  | 0, _ => none
  | fuel + 1, startAfter =>
    match s.ciphertexts codec m scope startAfter limit with
    | none => none
    | some [] => some []
    | some (id :: ids) =>
      (pages codec s m scope limit fuel (id :: ids).getLast?).map ((id :: ids) ++ ·)

/-- The pages of the key are the ids of the ciphertexts that it wraps, each once and in order. -/
def ListsExactly (codec : Codec V B A S) (s : Indexed μ σ S) (m : μ) (scope : σ) (limit : Nat) :
    Prop :=
  ∃ fuel ids, s.pages codec m scope limit fuel none = some ids ∧ ids.Pairwise (· < ·) ∧
    ∀ id, id ∈ ids ↔ s.base.ciphertexts id = some (m, scope)

/-- No ciphertext that the key has wrapped is wrapped by another one. -/
def NoneMoved (s : Indexed μ σ S) (m : μ) (scope : σ) : Prop :=
  ∀ id ∈ s.everWrapped m scope, s.base.ciphertexts id = some (m, scope)

/-! ## The invariant -/

/-- The index of a key is a map that was reached by inserts and holds what the key has wrapped. -/
structure Holds (codec : Codec V B A S) (stateId : String) (present : B) (w : OrderedMap.World S)
    (ids : List Str) : Prop where
  reach : ∃ f, Reach (OrderedMap.step codec stateId) (fun _ _ => True) OrderedMap.start (w, f) ∧
    ∀ k item, f k = some item ↔ item = presentItem present ∧ k ∈ ids
  map : w.map ≠ none ↔ ids ≠ []

structure Inv (codec : Codec V B A S) (indexId : μ → σ → String) (present : B)
    (s : Indexed μ σ S) : Prop where
  index : ∀ m scope, Holds codec (indexId m scope) present (s.index m scope) (s.everWrapped m scope)
  /-- Who wraps a ciphertext has wrapped it. -/
  current : ∀ id m scope, s.base.ciphertexts id = some (m, scope) → id ∈ s.everWrapped m scope
  nonempty : ∀ m scope, [] ∉ s.everWrapped m scope

theorem Holds.empty {codec : Codec V B A S} {stateId : String} {present : B} :
    Holds codec stateId present OrderedMap.World.empty [] :=
  ⟨⟨fun _ => none, .init, by simp⟩, by simp [OrderedMap.World.empty]⟩

/-- An insert adds its id. -/
theorem Holds.insert {codec : Codec V B A S} {stateId : String} {present : B}
    {w w' : OrderedMap.World S} {ids : List Str} (h : Holds codec stateId present w ids) {c : Str}
    (hinsert : OrderedMap.insert codec stateId w (insertRequest present c) = .ok w') :
    Holds codec stateId present w' (c :: ids) := by
  obtain ⟨f, hreach, hf⟩ := h.reach
  have hstep : OrderedMap.step codec stateId (w, f) (.insert (insertRequest present c)) =
      some (w', (OrderedMap.Call.insert (insertRequest present c)).apply f) := by
    simp only [OrderedMap.step, OrderedMap.Call.run, hinsert]
  have hinv : OrderedMap.Represents codec (w, f) :=
    hreach.invariant (OrderedMap.Represents codec) (OrderedMap.start_represents codec)
      fun _ _ _ hs _ hs' => OrderedMap.step_represents hs hs'
  refine ⟨⟨_, hreach.step trivial hstep, fun k item => ?_⟩, ?_⟩
  · have happly : (OrderedMap.Call.insert (insertRequest present c)).apply f k =
        if k = c then some (presentItem present) else f k := by
      by_cases hk : k = c
      · subst hk
        rw [if_pos rfl]
        simp [OrderedMap.Call.apply, OrderedMap.InsertRequest.items, insertRequest, presentItem,
          Item.first]
      · have hne : (k == c) = false := beq_eq_false_iff_ne.mpr hk
        rw [if_neg hk]
        simp [OrderedMap.Call.apply, OrderedMap.InsertRequest.items, insertRequest, List.lookup_cons,
          hne]
    rw [happly]
    by_cases hk : k = c
    · rw [if_pos hk]
      constructor
      · intro heq
        exact ⟨(Option.some.inj heq).symm, hk ▸ List.mem_cons_self⟩
      · rintro ⟨rfl, -⟩
        rfl
    · rw [if_neg hk, hf, List.mem_cons, or_iff_right hk]
  · obtain ⟨m, hm⟩ := OrderedMap.step_constructed hinv.ok hstep
    have hm' : w'.map = some m := hm
    rw [hm']
    exact iff_of_true (by simp) (by simp)

theorem onSite_ciphertexts [DecidableEq μ] {s s' : System Str μ σ} {m : μ}
    {f : Site σ → Option (Site σ)} (h : s.onSite m f = some s') : s'.ciphertexts = s.ciphertexts := by
  unfold System.onSite at h
  obtain ⟨site, -, rfl⟩ := Option.map_eq_some_iff.mp h
  rfl

theorem init_inv (codec : Codec V B A S) (indexId : μ → σ → String) (present : B)
    (config : List Nat) : Inv codec indexId present (init config : Indexed μ σ S) :=
  ⟨fun _ _ => .empty, fun _ _ _ h => (nomatch h), fun _ _ h => (nomatch h)⟩

/-- The id that is wrapped is not empty. -/
theorem Inv.wraps_ne_nil {codec : Codec V B A S} {indexId : μ → σ → String} {present : B}
    {s : Indexed μ σ S} (h : Inv codec indexId present s) {a : Action Str μ σ}
    (hconstructs : s.constructs a = true) {c : Str} {m : μ} {scope : σ}
    (hwraps : s.wraps a = some (c, m, scope)) : c ≠ [] := by
  cases a with
  | encrypt c' m' scope' uuid =>
    cases hwraps
    simp only [constructs, Bool.and_eq_true, decide_eq_true_eq] at hconstructs
    exact hconstructs.1
  | rescope c' scope' uuid =>
    obtain ⟨key, hkey, heq⟩ := Option.map_eq_some_iff.mp hwraps
    cases heq
    rintro rfl
    exact h.nonempty _ _ (h.current [] key.1 key.2 hkey)
  | _ => cases hwraps

section Steps

variable [DecidableEq μ] [DecidableEq σ]

/-- A step that wraps nothing leaves the ciphertexts alone. -/
theorem step_ciphertexts_none {s : Indexed μ σ S} {a : Action Str μ σ} {base : System Str μ σ}
    (h : Ciphertext.step s.base a = some base) (hwraps : s.wraps a = none) :
    base.ciphertexts = s.base.ciphertexts := by
  cases a with
  | encrypt c m scope uuid => cases hwraps
  | rescope c scope uuid =>
    have hc : s.base.ciphertexts c = none := Option.map_eq_none_iff.mp hwraps
    simp only [Ciphertext.step, hc] at h
    cases h
  | restart config =>
    cases h
    rfl
  | _ =>
    simp only [Ciphertext.step] at h
    exact onSite_ciphertexts h

/-- A step that wraps a ciphertext says what wraps it now. -/
theorem step_ciphertexts_some {s : Indexed μ σ S} {a : Action Str μ σ} {base : System Str μ σ}
    (h : Ciphertext.step s.base a = some base) {c : Str} {m : μ} {scope : σ}
    (hwraps : s.wraps a = some (c, m, scope)) :
    base.ciphertexts = Function.update s.base.ciphertexts c (some (m, scope)) := by
  cases a with
  | encrypt c' m' scope' uuid =>
    cases hwraps
    simp only [Ciphertext.step] at h
    obtain ⟨s', hsite, rfl⟩ := Option.map_eq_some_iff.mp h
    show Function.update s'.ciphertexts c _ = _
    rw [onSite_ciphertexts hsite]
  | rescope c' scope' uuid =>
    obtain ⟨key, hkey, heq⟩ := Option.map_eq_some_iff.mp hwraps
    cases heq
    simp only [Ciphertext.step, hkey] at h
    split at h
    · obtain ⟨s', hsite, rfl⟩ := Option.map_eq_some_iff.mp h
      show Function.update s'.ciphertexts c _ = _
      rw [onSite_ciphertexts hsite]
    · cases h
  | _ => cases hwraps

/-- The key has wrapped one more. -/
theorem Inv.wrap {codec : Codec V B A S} {indexId : μ → σ → String} {present : B}
    {s : Indexed μ σ S} (h : Inv codec indexId present s) {base : System Str μ σ} {c : Str} {m : μ}
    {scope : σ} {w : OrderedMap.World S} (hc : c ≠ [])
    (hbase : base.ciphertexts = Function.update s.base.ciphertexts c (some (m, scope)))
    (hinsert : OrderedMap.insert codec (indexId m scope) (s.index m scope)
      (insertRequest present c) = .ok w) :
    Inv codec indexId present
      ⟨base, setAt s.index m scope w, setAt s.everWrapped m scope (c :: s.everWrapped m scope)⟩ := by
  have hever : ∀ id m' scope', id ∈ s.everWrapped m' scope' →
      id ∈ setAt s.everWrapped m scope (c :: s.everWrapped m scope) m' scope' := by
    intro id m' scope' hid
    unfold setAt
    split
    · next hkey =>
      obtain ⟨rfl, rfl⟩ := hkey
      exact List.mem_cons_of_mem _ hid
    · exact hid
  refine ⟨fun m' scope' => ?_, fun id m' scope' hid => ?_, fun m' scope' hnil => ?_⟩
  · show Holds codec _ present (setAt s.index m scope w m' scope')
      (setAt s.everWrapped m scope _ m' scope')
    unfold setAt
    split
    · next hkey =>
      obtain ⟨rfl, rfl⟩ := hkey
      exact (h.index m' scope').insert hinsert
    · exact h.index m' scope'
  · have hid' : Function.update s.base.ciphertexts c (some (m, scope)) id = some (m', scope') :=
      hbase ▸ hid
    by_cases hidc : id = c
    · rw [hidc, Function.update_self] at hid'
      cases hid'
      show id ∈ setAt s.everWrapped m scope _ m scope
      unfold setAt
      rw [if_pos ⟨rfl, rfl⟩, hidc]
      exact List.mem_cons_self
    · rw [Function.update_of_ne hidc] at hid'
      exact hever id m' scope' (h.current id m' scope' hid')
  · have hnil' : [] ∈ setAt s.everWrapped m scope (c :: s.everWrapped m scope) m' scope' := hnil
    unfold setAt at hnil'
    split at hnil'
    · rcases List.mem_cons.mp hnil' with heq | hold
      · exact hc heq.symm
      · exact h.nonempty m scope hold
    · exact h.nonempty m' scope' hnil'

theorem step_inv {codec : Codec V B A S} {indexId : μ → σ → String} {present : B}
    {s s' : Indexed μ σ S} {a : Action Str μ σ} (h : Inv codec indexId present s)
    (hs : step codec indexId present s a = some s') : Inv codec indexId present s' := by
  unfold step at hs
  split at hs
  · next hconstructs =>
    split at hs
    · cases hs
    · next base hbase =>
      split at hs
      · next hwraps =>
        cases hs
        refine ⟨h.index, fun id m scope hid => h.current id m scope ?_, h.nonempty⟩
        rw [← step_ciphertexts_none hbase hwraps]
        exact hid
      · next c m scope hwraps =>
        split at hs
        · cases hs
        · next w hinsert =>
          cases hs
          exact h.wrap (h.wraps_ne_nil hconstructs hwraps) (step_ciphertexts_some hbase hwraps) hinsert
  · cases hs

end Steps

/-! ## Pages -/

/-- The keys of an index in order, from a start key on. -/
structure KeysFrom (ids : List Str) (start : Option Str) (keys : List Str) : Prop where
  ascending : keys.Pairwise (· < ·)
  mem : ∀ k, k ∈ keys ↔ k ∈ ids ∧ ∀ s ∈ start, s ≤ k

/-- What a range over an index gives. -/
theorem Holds.range {codec : Codec V B A S} {stateId : String} {present : B}
    {w : OrderedMap.World S} {ids : List Str} (h : Holds codec stateId present w ids)
    (hne : ids ≠ []) (start : Option Str) {limit : Nat} (hlimit : 0 < limit) :
    ∃ entries size, OrderedMap.range codec w ⟨start, limit⟩ = .ok (entries, size) ∧
      ∃ keys, KeysFrom ids start keys ∧ entries.map Prod.fst = keys.take limit := by
  obtain ⟨f, hreach, hf⟩ := h.reach
  have hset : ∀ all, InRange f start all →
      ∀ e ∈ all.take limit, OrderedMap.itemToValue e.2 ≠ .unset := fun all hall e he => by
    have hitem := (hf e.1 e.2).mp ((hall.mem e.1 e.2).mp (List.mem_of_mem_take he)).1
    rw [hitem.1]
    exact nofun
  obtain ⟨all, size, hall, hrange⟩ := (OrderedMap.range_exact_iff codec stateId w f hreach
    ⟨start, limit⟩ hlimit).mpr ⟨h.map.mpr hne, hset⟩
  refine ⟨_, size, hrange, all.map Prod.fst, ⟨?_, fun k => ?_⟩, List.map_take⟩
  · exact List.pairwise_map.mpr hall.ascending
  · rw [List.mem_map]
    constructor
    · rintro ⟨⟨k', item⟩, hmem, rfl⟩
      obtain ⟨hitem, hstart⟩ := (hall.mem k' item).mp hmem
      exact ⟨((hf k' item).mp hitem).2, hstart⟩
    · rintro ⟨hk, hstart⟩
      exact ⟨(k, presentItem present), (hall.mem _ _).mpr ⟨(hf _ _).mpr ⟨rfl, hk⟩, hstart⟩, rfl⟩

theorem KeysFrom.unique {ids : List Str} {start : Option Str} {keys keys' : List Str}
    (h : KeysFrom ids start keys) (h' : KeysFrom ids start keys') : keys = keys' := by
  have hperm : keys.Perm keys' := by
    refine (List.perm_ext_iff_of_nodup ?_ ?_).mpr fun k => ?_
    · exact h.ascending.imp fun hlt heq => absurd hlt (by rw [heq]; exact lt_irrefl _)
    · exact h'.ascending.imp fun hlt heq => absurd hlt (by rw [heq]; exact lt_irrefl _)
    · rw [h.mem, h'.mem]
  exact hperm.eq_of_pairwise (fun a b _ _ hab hba => absurd hab (lt_asymm hba)) h.ascending
    h'.ascending

/-- From one of the keys on there are it and those behind it. -/
theorem KeysFrom.drop {ids front back : List Str} {k : Str}
    (h : KeysFrom ids none (front ++ k :: back)) : KeysFrom ids (some k) (k :: back) := by
  have hsplit := List.pairwise_append.mp h.ascending
  have hback := List.pairwise_cons.mp hsplit.2.1
  refine ⟨hsplit.2.1, fun k' => ?_⟩
  have hmem : k' ∈ front ++ k :: back ↔ k' ∈ ids := by simpa using h.mem k'
  constructor
  · intro hk'
    refine ⟨hmem.mp (List.mem_append_right _ hk'), fun s hs => ?_⟩
    cases hs
    rcases List.mem_cons.mp hk' with rfl | hk'
    · exact le_refl _
    · exact le_of_lt (hback.1 k' hk')
  · rintro ⟨hid, hle⟩
    rcases List.mem_append.mp (hmem.mpr hid) with hfront | hback'
    · exact absurd (hsplit.2.2 k' hfront k List.mem_cons_self) (not_lt_of_ge (hle k rfl))
    · exact hback'

section Pages

variable {codec : Codec V B A S} {indexId : μ → σ → String} {present : B} {s : Indexed μ σ S}
  {m : μ} {scope : σ} {limit : Nat} {keys : List Str}

/-- A key that has wrapped nothing has no index. -/
theorem Inv.ciphertexts_unused (h : Inv codec indexId present s)
    (hconstructed : s.constructed m scope) (hunused : s.everWrapped m scope = []) :
    s.ciphertexts codec m scope none limit = some [] := by
  have hmap : (s.index m scope).map = none := by
    by_contra hmap
    exact (h.index m scope).map.mp hmap hunused
  unfold ciphertexts
  rw [hconstructed, hmap]
  rfl

/-- The first page. -/
theorem Inv.ciphertexts_none (h : Inv codec indexId present s) (hconstructed : s.constructed m scope)
    (hkeys : KeysFrom (s.everWrapped m scope) none keys) (hlimit : 0 < limit)
    (hfits : limit < uint32) : s.ciphertexts codec m scope none limit = some (keys.take limit) := by
  have hheld := h.index m scope
  by_cases hne : s.everWrapped m scope = []
  · have hnil : keys = [] := List.eq_nil_iff_forall_not_mem.mpr fun k hk => by
      have hmem := ((hkeys.mem k).mp hk).1
      rw [hne] at hmem
      cases hmem
    rw [h.ciphertexts_unused hconstructed hne, hnil, List.take_nil]
  · obtain ⟨entries, size, hrange, keys', hkeys', hentries⟩ := hheld.range hne none hlimit
    obtain rfl := hkeys.unique hkeys'
    have hmap : (s.index m scope).map.isNone = false := by
      rw [Option.isNone_eq_false_iff, Option.isSome_iff_ne_none]
      exact hheld.map.mpr hne
    unfold ciphertexts
    rw [hconstructed]
    simp only [hmap, Bool.not_true, Bool.false_eq_true, if_false, Option.isSome_none,
      Bool.false_and, hrange, hentries]
    rw [if_neg (Nat.not_le_of_lt hfits), List.take_take, Nat.min_self]

/-- The page after an id. -/
theorem Inv.ciphertexts_some (h : Inv codec indexId present s) (hconstructed : s.constructed m scope)
    {front back : List Str} {k : Str}
    (hkeys : KeysFrom (s.everWrapped m scope) none (front ++ k :: back)) (hfits : limit + 1 < uint32) :
    s.ciphertexts codec m scope (some k) limit = some (back.take limit) := by
  have hheld := h.index m scope
  have hk : k ∈ s.everWrapped m scope :=
    ((hkeys.mem k).mp (List.mem_append_right _ List.mem_cons_self)).1
  have hne : s.everWrapped m scope ≠ [] := List.ne_nil_of_mem hk
  have hpos : 0 < limit + 1 := Nat.succ_pos limit
  obtain ⟨entries, size, hrange, keys', hkeys', hentries⟩ := hheld.range hne (some k) hpos
  obtain rfl := hkeys'.unique hkeys.drop
  have hmap : (s.index m scope).map.isNone = false := by
    rw [Option.isNone_eq_false_iff, Option.isSome_iff_ne_none]
    exact hheld.map.mpr hne
  unfold ciphertexts
  rw [hconstructed]
  simp only [hmap, Bool.not_true, Bool.false_eq_true, if_false, Option.isSome_some, if_true,
    Bool.true_and, hrange, hentries]
  rw [if_neg (Nat.not_le_of_lt hfits)]
  simp

/-- What is left of the keys after a page. -/
theorem page_split (front : List Str) {back : List Str} {limit : Nat} {id : Str} {ids : List Str}
    (hpage : back.take limit = id :: ids) :
    ∃ front' k', (id :: ids).getLast? = some k' ∧
      front ++ back = front' ++ k' :: back.drop limit := by
  have hlast : (id :: ids).getLast? = some ((id :: ids).getLast (List.cons_ne_nil _ _)) :=
    List.getLast?_eq_getLast_of_ne_nil _
  refine ⟨front ++ (id :: ids).dropLast, _, hlast, ?_⟩
  calc front ++ back = front ++ (back.take limit ++ back.drop limit) := by
        rw [List.take_append_drop]
    _ = front ++ (((id :: ids).dropLast ++ [(id :: ids).getLast (List.cons_ne_nil _ _)]) ++
          back.drop limit) := by rw [hpage, List.dropLast_append_getLast]
    _ = front ++ (id :: ids).dropLast ++ (id :: ids).getLast (List.cons_ne_nil _ _) ::
          back.drop limit := by simp only [List.append_assoc, List.cons_append, List.nil_append]

/-- The pages after an id are what comes behind it. -/
theorem Inv.pages_some (h : Inv codec indexId present s) (hconstructed : s.constructed m scope)
    (hlimit : 0 < limit) (hfits : limit + 1 < uint32) (fuel : Nat) {front back : List Str} {k : Str}
    (hkeys : KeysFrom (s.everWrapped m scope) none (front ++ k :: back))
    (hfuel : back.length < fuel) : s.pages codec m scope limit fuel (some k) = some back := by
  induction fuel generalizing front back k with
  | zero => omega
  | succ fuel ih =>
    unfold pages
    rw [h.ciphertexts_some hconstructed hkeys hfits]
    cases hpage : back.take limit with
    | nil =>
      have hnil : back = [] := by
        rcases List.take_eq_nil_iff.mp hpage with hzero | hnil
        · omega
        · exact hnil
      rw [hnil]
    | cons id ids =>
      obtain ⟨front', k', hlast, hsplit⟩ := page_split (front ++ [k]) hpage
      have hkeys' : KeysFrom (s.everWrapped m scope) none (front' ++ k' :: back.drop limit) := by
        rw [← hsplit]
        simpa using hkeys
      have hpos : 0 < back.length := by
        have hlength := congrArg List.length hpage
        rw [List.length_take, List.length_cons] at hlength
        omega
      simp only [hlast]
      rw [ih hkeys' (by rw [List.length_drop]; omega), Option.map_some, ← hpage,
        List.take_append_drop]

/-- A key lists what it has ever wrapped. -/
theorem Inv.pages_eq (h : Inv codec indexId present s) (hconstructed : s.constructed m scope)
    (hlimit : 0 < limit) (hfits : limit + 1 < uint32)
    (hkeys : KeysFrom (s.everWrapped m scope) none keys) :
    s.pages codec m scope limit (keys.length + 1) none = some keys := by
  unfold pages
  rw [h.ciphertexts_none hconstructed hkeys hlimit (Nat.lt_of_succ_lt hfits)]
  cases hpage : keys.take limit with
  | nil =>
    have hnil : keys = [] := by
      rcases List.take_eq_nil_iff.mp hpage with hzero | hnil
      · omega
      · exact hnil
    rw [hnil]
  | cons id ids =>
    obtain ⟨front', k', hlast, hsplit⟩ := page_split [] hpage
    have hkeys' : KeysFrom (s.everWrapped m scope) none (front' ++ k' :: keys.drop limit) :=
      hsplit ▸ hkeys
    have hpos : 0 < keys.length := by
      have hlength := congrArg List.length hpage
      rw [List.length_take, List.length_cons] at hlength
      omega
    simp only [hlast]
    rw [h.pages_some hconstructed hlimit hfits keys.length hkeys'
      (by rw [List.length_drop]; omega), Option.map_some, ← hpage, List.take_append_drop]

/-- More fuel changes nothing. -/
theorem pages_mono {fuel : Nat} {startAfter : Option Str} {ids : List Str}
    (h : s.pages codec m scope limit fuel startAfter = some ids) :
    s.pages codec m scope limit (fuel + 1) startAfter = some ids := by
  induction fuel generalizing startAfter ids with
  | zero => cases h
  | succ fuel ih =>
    unfold pages at h ⊢
    split at h
    · cases h
    · exact h
    · obtain ⟨rest, hrest, rfl⟩ := Option.map_eq_some_iff.mp h
      rw [ih hrest]
      rfl

theorem pages_unique {fuel fuel' : Nat} {ids ids' : List Str}
    (h : s.pages codec m scope limit fuel none = some ids)
    (h' : s.pages codec m scope limit fuel' none = some ids') : ids = ids' := by
  have hmono : ∀ n {fuel : Nat} {ids : List Str}, s.pages codec m scope limit fuel none = some ids →
      s.pages codec m scope limit (fuel + n) none = some ids := by
    intro n fuel ids hpages
    induction n with
    | zero => exact hpages
    | succ n ih => exact pages_mono ih
  have heq := hmono fuel' h
  rw [Nat.add_comm, hmono fuel h'] at heq
  exact (Option.some.inj heq).symm

/-- With a limit that cannot be increased a page that is not empty is the last that is answered. -/
theorem Inv.pages_none (h : Inv codec indexId present s) (hconstructed : s.constructed m scope)
    (hlimit : 0 < limit) (hfits : uint32 ≤ limit + 1) (hne : s.everWrapped m scope ≠ [])
    (hkeys : KeysFrom (s.everWrapped m scope) none keys) (fuel : Nat) :
    s.pages codec m scope limit fuel none = none := by
  have hmap : (s.index m scope).map.isNone = false := by
    rw [Option.isNone_eq_false_iff, Option.isSome_iff_ne_none]
    exact (h.index m scope).map.mpr hne
  have hrefused : ∀ startAfter, uint32 ≤ (if startAfter.isSome then limit + 1 else limit) →
      s.ciphertexts codec m scope startAfter limit = none := by
    intro startAfter hle
    unfold ciphertexts
    rw [hconstructed, hmap]
    simp only [Bool.not_true, Bool.false_eq_true, if_false]
    rw [if_pos hle]
  cases fuel with
  | zero => rfl
  | succ fuel =>
    unfold pages
    by_cases hle : uint32 ≤ limit
    · rw [hrefused none hle]
    · rw [h.ciphertexts_none hconstructed hkeys hlimit (Nat.lt_of_not_le hle)]
      cases hpage : keys.take limit with
      | nil =>
        have hnil : keys = [] := by
          rcases List.take_eq_nil_iff.mp hpage with hzero | hnil
          · omega
          · exact hnil
        obtain ⟨k, hk⟩ := List.exists_mem_of_ne_nil _ hne
        have hmem := (hkeys.mem k).mpr ⟨hk, fun _ hs => (nomatch hs)⟩
        rw [hnil] at hmem
        cases hmem
      | cons id ids =>
        obtain ⟨front', k', hlast, -⟩ := page_split [] hpage
        simp only [hlast]
        cases fuel with
        | zero => rfl
        | succ fuel =>
          unfold pages
          rw [hrefused (some k') hfits]
          rfl

end Pages

/-- What a key has ever wrapped, in order. -/
theorem exists_keys (ids : List Str) : ∃ keys, KeysFrom ids none keys := by
  refine ⟨ids.toFinset.sort (· ≤ ·), ?_, fun k => ?_⟩
  · exact (Finset.sortedLT_sort _).pairwise
  · simp

/-- In every state of every run a key lists exactly what it wraps if and only if no ciphertext that
it has wrapped was moved to another key, and the limit can be increased or it has wrapped none. -/
theorem lists_exactly_iff [DecidableEq μ] [DecidableEq σ] {codec : Codec V B A S}
    {indexId : μ → σ → String} {present : B} {config : List Nat} {s : Indexed μ σ S}
    (h : Reach (step codec indexId present) (fun _ _ => True) (init config) s) {m : μ} {scope : σ}
    (hconstructed : s.constructed m scope = true) {limit : Nat} (hlimit : 0 < limit) :
    s.ListsExactly codec m scope limit ↔
      s.NoneMoved m scope ∧ (limit + 1 < uint32 ∨ s.everWrapped m scope = []) := by
  have hinv : Inv codec indexId present s :=
    h.invariant (Inv codec indexId present) (init_inv codec indexId present config)
      fun _ _ _ hs _ hs' => step_inv hs hs'
  obtain ⟨keys, hkeys⟩ := exists_keys (s.everWrapped m scope)
  have hmem : ∀ id, id ∈ keys ↔ id ∈ s.everWrapped m scope := fun id => by
    simpa using hkeys.mem id
  constructor
  · rintro ⟨fuel, ids, hpages, -, hids⟩
    by_cases hne : s.everWrapped m scope = []
    · refine ⟨fun id hid => ?_, .inr hne⟩
      rw [hne] at hid
      cases hid
    · have hfits : limit + 1 < uint32 := by
        by_contra hnot
        rw [hinv.pages_none hconstructed hlimit (Nat.le_of_not_lt hnot) hne hkeys fuel] at hpages
        cases hpages
      obtain rfl := pages_unique hpages (hinv.pages_eq hconstructed hlimit hfits hkeys)
      exact ⟨fun id hid => (hids id).mp ((hmem id).mpr hid), .inl hfits⟩
  · rintro ⟨hmoved, hfits⟩
    have hexact : ∀ id, id ∈ s.everWrapped m scope ↔ s.base.ciphertexts id = some (m, scope) :=
      fun id => ⟨hmoved id, hinv.current id m scope⟩
    rcases hfits with hfits | hunused
    · exact ⟨_, keys, hinv.pages_eq hconstructed hlimit hfits hkeys, hkeys.ascending,
        fun id => (hmem id).trans (hexact id)⟩
    · refine ⟨1, [], ?_, List.Pairwise.nil, fun id => ?_⟩
      · unfold pages
        rw [hinv.ciphertexts_unused hconstructed hunused]
      · rw [← hexact id, hunused]

/-- Two ciphertexts under one key, and a scope that is shredded. -/
def encryptTwo : List (Action Str Nat Nat) :=
  [.encrypt "b".toList 0 0 1, .encrypt "a".toList 0 0 2, .encrypt "c".toList 0 1 3, .shred 0 1]

/-- Each step is made with a map whose values are their own bytes. -/
abbrev plainStep : Indexed Nat Nat (OrderedMap.Value Nat Nat Nat) → Action Str Nat Nat →
    Option (Indexed Nat Nat (OrderedMap.Value Nat Nat Nat)) :=
  step OrderedMap.plainCodec (fun _ _ => "index") 1

theorem lists_exactly_encryptTwo :
    (last plainStep (init [1]) encryptTwo).ListsExactly OrderedMap.plainCodec 0 0 1 :=
  (lists_exactly_iff (reach_last encryptTwo .init (by decide +kernel)) (by decide +kernel)
    Nat.one_pos).mpr (by
      have hever : (last plainStep (init [1]) encryptTwo).everWrapped 0 0 =
          ["a".toList, "b".toList] := by decide +kernel
      refine ⟨fun id hid => ?_, .inl (by decide)⟩
      rw [hever, List.mem_pair] at hid
      rcases hid with rfl | rfl
      · decide +kernel
      · decide +kernel)

/-- A ciphertext is moved to another scope. -/
def moveAway : List (Action Str Nat Nat) :=
  [.encrypt "a".toList 0 0 1, .rescope "a".toList 1 2]

/-- The key that wrapped it still lists it. -/
theorem moved_still_listed : ¬ ∀ s, Reach plainStep (fun _ _ => True) (init [1]) s →
    ∀ m scope limit, s.constructed m scope = true → 0 < limit →
      s.ListsExactly OrderedMap.plainCodec m scope limit := by
  intro h
  have hreach : Reach plainStep (fun _ _ => True) (init [1]) (last plainStep (init [1]) moveAway) :=
    reach_last moveAway .init (by decide +kernel)
  obtain ⟨fuel, ids, hpages, -, hids⟩ := h _ hreach 0 0 1 (by decide +kernel) Nat.one_pos
  have hlisted : (last plainStep (init [1]) moveAway).pages OrderedMap.plainCodec 0 0 1 2 none =
      some ["a".toList] := by decide +kernel
  obtain rfl := pages_unique hpages hlisted
  have hcurrent := (hids "a".toList).mp (by decide)
  exact absurd hcurrent (by decide +kernel)

end Indexed

end Reboot.Ciphertext
