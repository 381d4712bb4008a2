import Mathlib.Data.List.Nodup

/-!
# Dictionaries in insertion order

A Python `dict`: the items in the order in which their keys were first written, with no key twice.
A write to a known key keeps its place. `Dict.ofItems` writes items one after another, and gives
back the dictionary whose items they are, and has as many items as were written exactly if no key
was written twice (`Dict.length_ofItems_iff`); `Dict.comprehend` is a dict comprehension with a
filter.
-/

namespace Reboot.Lib

/-- A dictionary. -/
@[ext] structure Dict (K V : Type) where
  items : List (K × V)
  nodup : (items.map Prod.fst).Nodup

variable {K V W : Type}

section Items

variable [DecidableEq K]

/-- `items[k] = v`. -/
def setItem (k : K) (v : V) : List (K × V) → List (K × V)
  | [] => [(k, v)]
  | e :: items => if e.1 = k then (k, v) :: items else e :: setItem k v items

theorem setItem_of_not_mem {k : K} (v : V) : ∀ {items : List (K × V)}, k ∉ items.map Prod.fst →
    setItem k v items = items ++ [(k, v)]
  | [], _ => rfl
  | e :: items, h => by
    rw [List.map_cons, List.mem_cons, not_or] at h
    rw [setItem, if_neg fun he => h.1 he.symm, setItem_of_not_mem v h.2]
    rfl

theorem map_fst_setItem_of_mem {k : K} (v : V) : ∀ {items : List (K × V)},
    k ∈ items.map Prod.fst → (setItem k v items).map Prod.fst = items.map Prod.fst
  | [], h => absurd h List.not_mem_nil
  | e :: items, h => by
    unfold setItem
    split
    next he => rw [List.map_cons, List.map_cons, he]
    next he =>
      rw [List.map_cons, List.mem_cons] at h
      rcases h with h | h
      · exact absurd h.symm he
      · rw [List.map_cons, List.map_cons, map_fst_setItem_of_mem v h]

theorem nodup_setItem (k : K) (v : V) {items : List (K × V)} (h : (items.map Prod.fst).Nodup) :
    ((setItem k v items).map Prod.fst).Nodup := by
  by_cases hk : k ∈ items.map Prod.fst
  · rwa [map_fst_setItem_of_mem v hk]
  · rw [setItem_of_not_mem v hk, List.map_append]
    exact List.nodup_append.mpr ⟨h, List.nodup_singleton k, fun a ha b hb hab => by
      rw [List.map_singleton, List.mem_singleton] at hb
      rw [hab, hb] at ha
      exact hk ha⟩

theorem lookup_cons_eq {e : K × V} {k : K} (h : k = e.1) (items : List (K × V)) :
    (e :: items).lookup k = some e.2 := by
  rw [List.lookup_cons, h, beq_self_eq_true]

theorem lookup_cons_ne {e : K × V} {k : K} (h : k ≠ e.1) (items : List (K × V)) :
    (e :: items).lookup k = items.lookup k := by
  rw [List.lookup_cons, beq_false_of_ne h]

theorem lookup_setItem_self (k : K) (v : V) : ∀ items : List (K × V),
    (setItem k v items).lookup k = some v
  | [] => lookup_cons_eq (e := (k, v)) rfl []
  | e :: items => by
    unfold setItem
    split
    next he => exact lookup_cons_eq (e := (k, v)) rfl items
    next he => rw [lookup_cons_ne fun h => he h.symm, lookup_setItem_self k v items]

theorem lookup_setItem_of_ne {k k' : K} (h : k' ≠ k) (v : V) : ∀ items : List (K × V),
    (setItem k v items).lookup k' = items.lookup k'
  | [] => lookup_cons_ne (e := (k, v)) h []
  | e :: items => by
    unfold setItem
    split
    next he =>
      rw [lookup_cons_ne (e := (k, v)) h, lookup_cons_ne fun hk => h (hk.trans he)]
    next he => rw [List.lookup_cons, List.lookup_cons, lookup_setItem_of_ne h v items]

theorem lookup_eq_some_iff_mem {k : K} {v : V} : ∀ {items : List (K × V)},
    (items.map Prod.fst).Nodup → (items.lookup k = some v ↔ (k, v) ∈ items)
  | [], _ => by simp
  | e :: items, h => by
    rw [List.map_cons, List.nodup_cons] at h
    rw [List.mem_cons]
    by_cases he : k = e.1
    · rw [lookup_cons_eq he]
      constructor
      · intro hv
        exact .inl (Prod.ext he (Option.some.inj hv).symm)
      · rintro (hv | hv)
        · rw [← hv]
        · exact absurd (List.mem_map_of_mem (f := Prod.fst) hv) (he ▸ h.1)
    · rw [lookup_cons_ne he, lookup_eq_some_iff_mem h.2]
      constructor
      · exact .inr
      · rintro (hv | hv)
        · exact absurd (congrArg Prod.fst hv) he
        · exact hv

end Items

namespace Dict

def empty : Dict K V := ⟨[], List.nodup_nil⟩

section Find

variable [DecidableEq K]

def find? (d : Dict K V) (k : K) : Option V := d.items.lookup k

def set (d : Dict K V) (k : K) (v : V) : Dict K V := ⟨setItem k v d.items, nodup_setItem k v d.nodup⟩

@[simp] theorem find?_set_self (d : Dict K V) (k : K) (v : V) : (d.set k v).find? k = some v :=
  lookup_setItem_self k v d.items

theorem find?_set_of_ne (d : Dict K V) {k k' : K} (h : k' ≠ k) (v : V) :
    (d.set k v).find? k' = d.find? k' := lookup_setItem_of_ne h v d.items

theorem find?_eq_some_iff {d : Dict K V} {k : K} {v : V} : d.find? k = some v ↔ (k, v) ∈ d.items :=
  lookup_eq_some_iff_mem d.nodup

/-- Write items one after another: of two with one key the later value stays. -/
def ofItems (items : List (K × V)) : Dict K V := items.foldl (fun d e => d.set e.1 e.2) empty

theorem items_foldl_set : ∀ (items : List (K × V)) (d : Dict K V),
    ((d.items ++ items).map Prod.fst).Nodup →
    (items.foldl (fun d e => d.set e.1 e.2) d).items = d.items ++ items
  | [], d, _ => (List.append_nil d.items).symm
  | e :: items, d, h => by
    have hassoc : d.items ++ e :: items = d.items ++ [e] ++ items := by
      rw [List.append_assoc, List.singleton_append]
    have hfresh : e.1 ∉ d.items.map Prod.fst := by
      intro hmem
      rw [List.map_append, List.map_cons, List.nodup_append] at h
      exact h.2.2 e.1 hmem e.1 List.mem_cons_self rfl
    have hset : (d.set e.1 e.2).items = d.items ++ [e] := setItem_of_not_mem e.2 hfresh
    rw [List.foldl_cons, items_foldl_set items (d.set e.1 e.2) (by rwa [hset, ← hassoc]), hset,
      hassoc]

theorem ofItems_items (d : Dict K V) : ofItems d.items = d :=
  Dict.ext (items_foldl_set d.items empty d.nodup)

end Find

/-- `{k: w for (k, v) in d.items() if ...}`, where `f` gives the `w` of the items that stay. -/
def comprehend (d : Dict K V) (f : K → V → Option W) : Dict K W where
  items := d.items.filterMap fun e => (f e.1 e.2).map fun w => (e.1, w)
  nodup := by
    have hsub : ∀ items : List (K × V), ((items.filterMap fun e =>
        (f e.1 e.2).map fun w => (e.1, w)).map Prod.fst).Sublist (items.map Prod.fst) := by
      intro items
      induction items with
      | nil => exact .slnil
      | cons e items ih =>
        cases he : f e.1 e.2 with
        | none =>
          rw [List.filterMap_cons_none (by rw [he]; rfl)]
          exact ih.cons _
        | some w =>
          rw [List.filterMap_cons_some (b := (e.1, w)) (by rw [he]; rfl)]
          exact ih.cons_cons _
    exact d.nodup.sublist (hsub d.items)

theorem mem_comprehend {d : Dict K V} {f : K → V → Option W} {k : K} {w : W} :
    (k, w) ∈ (d.comprehend f).items ↔ ∃ v, (k, v) ∈ d.items ∧ f k v = some w := by
  show (k, w) ∈ d.items.filterMap _ ↔ _
  rw [List.mem_filterMap]
  constructor
  · rintro ⟨e, he, hw⟩
    obtain ⟨w', hw', heq⟩ := Option.map_eq_some_iff.mp hw
    obtain ⟨rfl, rfl⟩ := Prod.mk.inj heq
    exact ⟨e.2, he, hw'⟩
  · rintro ⟨v, hv, hw⟩
    exact ⟨(k, v), hv, by rw [hw]; rfl⟩

end Dict

section Counting

variable [DecidableEq K]

theorem length_setItem_of_mem {k : K} (v : V) {items : List (K × V)}
    (h : k ∈ items.map Prod.fst) : (setItem k v items).length = items.length := by
  have hkeys := congrArg List.length (map_fst_setItem_of_mem v h)
  rwa [List.length_map, List.length_map] at hkeys

theorem Dict.length_set_le (d : Dict K V) (k : K) (v : V) :
    (d.set k v).items.length ≤ d.items.length + 1 := by
  show (setItem k v d.items).length ≤ d.items.length + 1
  by_cases hk : k ∈ d.items.map Prod.fst
  · rw [length_setItem_of_mem v hk]
    exact Nat.le_succ _
  · have hlen := congrArg List.length (setItem_of_not_mem v hk)
    rw [List.length_append, List.length_singleton] at hlen
    exact Nat.le_of_eq hlen

theorem Dict.length_foldl_set_le : ∀ (items : List (K × V)) (d : Dict K V),
    (items.foldl (fun d e => d.set e.1 e.2) d).items.length ≤ d.items.length + items.length
  | [], _ => Nat.le_refl _
  | e :: items, d => by
    have hset := d.length_set_le e.1 e.2
    have hrest := Dict.length_foldl_set_le items (d.set e.1 e.2)
    rw [List.foldl_cons, List.length_cons]
    omega

/-- Writing items keeps all of them only if no key comes twice. -/
theorem Dict.nodup_of_length_foldl_set : ∀ {items : List (K × V)} {d : Dict K V},
    (items.foldl (fun d e => d.set e.1 e.2) d).items.length = d.items.length + items.length →
    ((d.items ++ items).map Prod.fst).Nodup
  | [], d, _ => by simpa using d.nodup
  | e :: items, d, h => by
    rw [List.foldl_cons, List.length_cons] at h
    have hrest := Dict.length_foldl_set_le items (d.set e.1 e.2)
    by_cases hk : e.1 ∈ d.items.map Prod.fst
    · -- the item takes the place of an earlier one
      have hset : (d.set e.1 e.2).items.length = d.items.length := length_setItem_of_mem e.2 hk
      omega
    · have hset : (d.set e.1 e.2).items = d.items ++ [e] := setItem_of_not_mem e.2 hk
      have hlen := congrArg List.length hset
      rw [List.length_append, List.length_singleton] at hlen
      have ih := @Dict.nodup_of_length_foldl_set items (d.set e.1 e.2) (by omega)
      rwa [hset, List.append_assoc, List.singleton_append] at ih

/-- A dictionary has the items that were written to it exactly if no key comes twice. -/
theorem Dict.length_ofItems_iff {items : List (K × V)} :
    (Dict.ofItems items).items.length = items.length ↔ (items.map Prod.fst).Nodup := by
  constructor
  · intro h
    refine @Dict.nodup_of_length_foldl_set K V _ items Dict.empty ?_
    rw [show (Dict.empty : Dict K V).items = [] from rfl, List.length_nil, Nat.zero_add]
    exact h
  · intro h
    exact congrArg List.length (Dict.items_foldl_set items Dict.empty h)

theorem Dict.ofItems_eq {items : List (K × V)} (h : (items.map Prod.fst).Nodup) :
    (Dict.ofItems items).items = items :=
  Dict.items_foldl_set items Dict.empty h

end Counting

end Reboot.Lib
