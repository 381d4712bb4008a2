import Mathlib.Data.List.Dedup
import Mathlib.Data.List.Induction
import Reboot.Lib.Dict

/-!
# What differs between two keyed collections

A change log over two dictionaries goes through the keys of both in order, and writes one thing for a
key that is new, one for a key that is gone, and what it finds for a key that is in both. Beside it
stands what there is to say, of two relations between keys and values: that a key is on one side only
(`OneSided`), and that it is on both with values so related (`KeptWith`).

The order of the keys is left to the user.
-/

namespace Reboot.Lib

variable {K V W C : Type}

/-- The key has a value on one side only. -/
def OneSided (before : K → V → Prop) (after : K → W → Prop) (k : K) : Prop :=
  ¬ ((∃ v, before k v) ↔ ∃ w, after k w)

/-- The key has a value on both sides, and the two are so related. -/
def KeptWith (before : K → V → Prop) (after : K → W → Prop) (k : K) (p : V → W → Prop) : Prop :=
  ∃ v w, before k v ∧ after k w ∧ p v w

/-- `x` is in the list and has the key. -/
def Keyed (key : V → K) (xs : List V) (k : K) (x : V) : Prop := x ∈ xs ∧ key x = k

theorem KeptWith.mono {before : K → V → Prop} {after : K → W → Prop} {k : K} {p q : V → W → Prop}
    (h : KeptWith before after k p) (hpq : ∀ v w, before k v → after k w → p v w → q v w) :
    KeptWith before after k q := by
  obtain ⟨v, w, hv, hw, hp⟩ := h
  exact ⟨v, w, hv, hw, hpq v w hv hw hp⟩

theorem keptWith_false {before : K → V → Prop} {after : K → W → Prop} {k : K} :
    ¬ KeptWith before after k fun _ _ => False :=
  fun ⟨_, _, _, _, h⟩ => h

/-- The values themselves say which key it is. -/
theorem exists_keptWith {before : K → V → Prop} {after : K → W → Prop} {k : K} {p : V → W → Prop} :
    (∃ k', KeptWith before after k' fun v w => k = k' ∧ p v w) ↔ KeptWith before after k p := by
  constructor
  · rintro ⟨_, v, w, hv, hw, rfl, hp⟩
    exact ⟨v, w, hv, hw, hp⟩
  · rintro ⟨v, w, hv, hw, hp⟩
    exact ⟨k, v, w, hv, hw, rfl, hp⟩

/-- Two relations that no key tells apart are one. -/
theorem iff_of_not_oneSided {r r' : K → V → Prop} (hside : ∀ k, ¬ OneSided r r' k)
    (hkept : ∀ k, ¬ KeptWith r r' k (· ≠ ·)) (k : K) (v : V) : r k v ↔ r' k v := by
  have hiff : (∃ v, r k v) ↔ ∃ v, r' k v := not_not.mp (hside k)
  constructor
  · intro hv
    obtain ⟨w, hw⟩ := hiff.mp ⟨v, hv⟩
    have heq : v = w := by
      by_contra hne
      exact hkept k ⟨v, w, hv, hw, hne⟩
    exact heq ▸ hw
  · intro hw
    obtain ⟨v', hv'⟩ := hiff.mpr ⟨v, hw⟩
    have heq : v' = v := by
      by_contra hne
      exact hkept k ⟨v', v, hv', hw, hne⟩
    exact heq ▸ hv'

theorem not_oneSided_of_iff {r r' : K → V → Prop} (h : ∀ k v, r k v ↔ r' k v) (k : K) :
    ¬ OneSided r r' k :=
  not_not.mpr (exists_congr fun v => h k v)

theorem not_keptWith_of_iff {r r' : K → V → Prop} {p : V → V → Prop} (h : ∀ k v, r k v ↔ r' k v)
    (hunique : ∀ k v w, r' k v → r' k w → v = w) (hp : ∀ v, ¬ p v v) (k : K) :
    ¬ KeptWith r r' k p := by
  rintro ⟨v, w, hv, hw, hvw⟩
  obtain rfl := hunique k v w ((h k v).mp hv) hw
  exact hp v hvw

section Changes

variable [DecidableEq K]

/-- `{key(x): x for x in xs}` -/
def byKey (key : V → K) (xs : List V) : Dict K V := Dict.ofItems (xs.map fun x => (key x, x))

/-- The keys of both, in order. -/
def keysOf (le : K → K → Bool) (before after : Dict K V) : List K :=
  ((before.items.map Prod.fst ++ after.items.map Prod.fst).dedup).mergeSort le

/-- One pass over the keys of two dictionaries. -/
def keyedChanges (le : K → K → Bool) (before after : Dict K V) (added removed : K → V → List C)
    (changed : K → V → V → List C) : List C :=
  (keysOf le before after).flatMap fun k =>
    match before.find? k, after.find? k with
    | none, none => []
    | none, some new => added k new
    | some old, none => removed k old
    | some old, some new => changed k old new

/-- An item that is written last is the one that is found. -/
theorem find?_ofItems_concat (items : List (K × V)) (e : K × V) (k : K) :
    (Dict.ofItems (items ++ [e])).find? k =
      if k = e.1 then some e.2 else (Dict.ofItems items).find? k := by
  unfold Dict.ofItems
  rw [List.foldl_append, List.foldl_cons, List.foldl_nil]
  split
  next h =>
    rw [h]
    exact lookup_setItem_self e.1 e.2 _
  next h => exact Dict.find?_set_of_ne _ h e.2

/-- A key finds the last of the list that has it. -/
theorem find?_byKey (key : V → K) (xs : List V) (k : K) :
    (byKey key xs).find? k = (xs.filter fun x => key x = k).getLast? := by
  induction xs using List.reverseRecOn with
  | nil => rfl
  | append_singleton xs x ih =>
    unfold byKey at ih ⊢
    rw [List.map_append, List.map_singleton, find?_ofItems_concat, ih, List.filter_append]
    by_cases h : key x = k
    · simp [h]
    · simp [h, Ne.symm h]

/-- Where no key comes twice, it finds the one that has it. -/
theorem find?_byKey_eq_some_iff {key : V → K} {xs : List V} (h : (xs.map key).Nodup) {k : K} {x : V} :
    (byKey key xs).find? k = some x ↔ Keyed key xs k x := by
  have hitems : (byKey key xs).items = xs.map fun x => (key x, x) :=
    Dict.ofItems_eq (by rw [List.map_map]; exact h)
  rw [Dict.find?_eq_some_iff, hitems, List.mem_map]
  constructor
  · rintro ⟨y, hy, he⟩
    cases he
    exact ⟨hy, rfl⟩
  · rintro ⟨hx, rfl⟩
    exact ⟨x, hx, rfl⟩

theorem Keyed.unique {key : V → K} {xs : List V} (h : (xs.map key).Nodup) {k : K} {x y : V}
    (hx : Keyed key xs k x) (hy : Keyed key xs k y) : x = y :=
  Option.some.inj (((find?_byKey_eq_some_iff h).mpr hx).symm.trans
    ((find?_byKey_eq_some_iff h).mpr hy))

theorem mem_keysOf {le : K → K → Bool} {before after : Dict K V} {k : K} :
    k ∈ keysOf le before after ↔
      k ∈ before.items.map Prod.fst ∨ k ∈ after.items.map Prod.fst := by
  unfold keysOf
  rw [List.mem_mergeSort, List.mem_dedup, List.mem_append]

theorem mem_keys_of_find? {d : Dict K V} {k : K} {v : V} (h : d.find? k = some v) :
    k ∈ d.items.map Prod.fst :=
  List.mem_map_of_mem (Dict.find?_eq_some_iff.mp h)

variable {le : K → K → Bool} {before after : Dict K V} {added removed : K → V → List C}
  {changed : K → V → V → List C}

/-- What is written: something for a key that is new, that is gone or that is in both. -/
theorem mem_keyedChanges {c : C} : c ∈ keyedChanges le before after added removed changed ↔
    (∃ k new, before.find? k = none ∧ after.find? k = some new ∧ c ∈ added k new) ∨
    (∃ k old, before.find? k = some old ∧ after.find? k = none ∧ c ∈ removed k old) ∨
    ∃ k old new, before.find? k = some old ∧ after.find? k = some new ∧ c ∈ changed k old new := by
  unfold keyedChanges
  rw [List.mem_flatMap]
  constructor
  · rintro ⟨k, -, hc⟩
    split at hc
    next => exact absurd hc List.not_mem_nil
    next new hbefore hafter => exact .inl ⟨k, new, hbefore, hafter, hc⟩
    next old hbefore hafter => exact .inr (.inl ⟨k, old, hbefore, hafter, hc⟩)
    next old new hbefore hafter => exact .inr (.inr ⟨k, old, new, hbefore, hafter, hc⟩)
  · rintro (⟨k, new, hbefore, hafter, hc⟩ | ⟨k, old, hbefore, hafter, hc⟩ |
      ⟨k, old, new, hbefore, hafter, hc⟩)
    · exact ⟨k, mem_keysOf.mpr (.inr (mem_keys_of_find? hafter)), by rw [hbefore, hafter]; exact hc⟩
    · exact ⟨k, mem_keysOf.mpr (.inl (mem_keys_of_find? hbefore)), by rw [hbefore, hafter]; exact hc⟩
    · exact ⟨k, mem_keysOf.mpr (.inl (mem_keys_of_find? hbefore)), by rw [hbefore, hafter]; exact hc⟩

/-- What the entries name: the keys on one side only, and what is named of those that are kept. -/
theorem mem_flatMap_keyedChanges {N : Type} {names : C → List N} {n : N} {r r' : K → V → Prop}
    {whole : K → Prop} {kept : K → V → V → Prop}
    (hr : ∀ k v, before.find? k = some v ↔ r k v) (hr' : ∀ k v, after.find? k = some v ↔ r' k v)
    (hadded : ∀ k v, n ∈ (added k v).flatMap names ↔ whole k)
    (hremoved : ∀ k v, n ∈ (removed k v).flatMap names ↔ whole k)
    (hchanged : ∀ k old new, n ∈ (changed k old new).flatMap names ↔ kept k old new) :
    n ∈ (keyedChanges le before after added removed changed).flatMap names ↔
      (∃ k, whole k ∧ OneSided r r' k) ∨ ∃ k, KeptWith r r' k (kept k) := by
  have hnone : ∀ k, before.find? k = none ↔ ¬ ∃ v, r k v := fun k => by
    simp only [← hr, ← Option.isSome_iff_exists, Option.not_isSome_iff_eq_none]
  have hnone' : ∀ k, after.find? k = none ↔ ¬ ∃ v, r' k v := fun k => by
    simp only [← hr', ← Option.isSome_iff_exists, Option.not_isSome_iff_eq_none]
  simp only [List.mem_flatMap] at hadded hremoved hchanged ⊢
  simp only [mem_keyedChanges, OneSided, KeptWith]
  constructor
  · rintro ⟨c, ⟨k, new, hbefore, hafter, hc⟩ | ⟨k, old, hbefore, hafter, hc⟩ |
      ⟨k, old, new, hbefore, hafter, hc⟩, hn⟩
    · refine .inl ⟨k, (hadded k new).mp ⟨c, hc, hn⟩, fun h => ?_⟩
      exact (hnone k).mp hbefore (h.mpr ⟨new, (hr' k new).mp hafter⟩)
    · refine .inl ⟨k, (hremoved k old).mp ⟨c, hc, hn⟩, fun h => ?_⟩
      exact (hnone' k).mp hafter (h.mp ⟨old, (hr k old).mp hbefore⟩)
    · exact .inr ⟨k, old, new, (hr k old).mp hbefore, (hr' k new).mp hafter,
        (hchanged k old new).mp ⟨c, hc, hn⟩⟩
  · rintro (⟨k, hk, hside⟩ | ⟨k, old, new, hold, hnew, hn⟩)
    · -- one of the two sides has the key
      by_cases hbefore : ∃ v, r k v
      · have hafter : ¬ ∃ v, r' k v := fun h => hside ⟨fun _ => h, fun _ => hbefore⟩
        obtain ⟨old, hold⟩ := hbefore
        obtain ⟨c, hc, hn⟩ := (hremoved k old).mpr hk
        exact ⟨c, .inr (.inl ⟨k, old, (hr k old).mpr hold, (hnone' k).mpr hafter, hc⟩), hn⟩
      · have hafter : ∃ v, r' k v := by
          by_contra h
          exact hside ⟨fun h' => absurd h' hbefore, fun h' => absurd h' h⟩
        obtain ⟨new, hnew⟩ := hafter
        obtain ⟨c, hc, hn⟩ := (hadded k new).mpr hk
        exact ⟨c, .inl ⟨k, new, (hnone k).mpr hbefore, (hr' k new).mpr hnew, hc⟩, hn⟩
    · obtain ⟨c, hc, hn⟩ := (hchanged k old new).mpr hn
      exact ⟨c, .inr (.inr ⟨k, old, new, (hr k old).mpr hold, (hr' k new).mpr hnew, hc⟩), hn⟩

end Changes

end Reboot.Lib
