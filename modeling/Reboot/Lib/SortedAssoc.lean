import Mathlib.Data.List.Lex
import Mathlib.Order.Lattice

/-!
# Finite maps as sorted association lists

`SortedAssoc κ ν` is a finite map from a linear order `κ` to `ν`, kept as the
list of its entries in strictly increasing key order. The order is part of the
structure: an ordered store (a column family, an ordered map) exposes it through
its iterators and range scans, so a map *up to* the order of its entries would
not be enough, and a map that could be out of order should not exist.

`get`, `put` and `erase` are the point operations; `seekAssoc` is an iterator's
`Seek`: the entries from the first key at or after the target on. Over keys that
are themselves strings, the keys with a given prefix are contiguous, which
`seek_of_isPrefix` states in the form a prefix scan relies on: seeking to the
prefix stops at a key with that prefix whenever the map has one.
-/

namespace Reboot.Lib

variable {κ ν : Type*} [LinearOrder κ]

/-- The entries of a sorted association list, strictly increasing in key. -/
def KeysSorted (l : List (κ × ν)) : Prop := l.Pairwise (fun a b => a.1 < b.1)

/-- What a list of entries binds `k` to. -/
def lookupAssoc (k : κ) : List (κ × ν) → Option ν
  | [] => none
  | (k', v) :: l => if k' = k then some v else lookupAssoc k l

/-- Insert or overwrite the binding of `k`, keeping the keys in order. -/
def putAssoc (k : κ) (v : ν) : List (κ × ν) → List (κ × ν)
  | [] => [(k, v)]
  | (k', v') :: l =>
    if k < k' then (k, v) :: (k', v') :: l
    else if k = k' then (k, v) :: l
    else (k', v') :: putAssoc k v l

/-- Drop the binding of `k`. -/
def eraseAssoc (k : κ) (l : List (κ × ν)) : List (κ × ν) :=
  l.filter (fun e => decide (e.1 ≠ k))

theorem mem_putAssoc {k : κ} {v : ν} {e : κ × ν} :
    ∀ {l : List (κ × ν)}, e ∈ putAssoc k v l → e = (k, v) ∨ e ∈ l
  | [], h => by simpa [putAssoc] using h
  | (k', v') :: l, h => by
    simp only [putAssoc] at h
    split at h
    · rcases List.mem_cons.mp h with rfl | h'
      · exact Or.inl rfl
      · exact Or.inr h'
    · split at h
      · rcases List.mem_cons.mp h with rfl | h'
        · exact Or.inl rfl
        · exact Or.inr (List.mem_cons_of_mem _ h')
      · rcases List.mem_cons.mp h with rfl | h'
        · exact Or.inr (List.mem_cons_self ..)
        · rcases mem_putAssoc h' with h'' | h''
          · exact Or.inl h''
          · exact Or.inr (List.mem_cons_of_mem _ h'')

theorem putAssoc_sorted {k : κ} {v : ν} :
    ∀ {l : List (κ × ν)}, KeysSorted l → KeysSorted (putAssoc k v l)
  | [], _ => by simp [putAssoc, KeysSorted]
  | (k', v') :: l, h => by
    obtain ⟨hhd, htl⟩ := List.pairwise_cons.mp h
    simp only [putAssoc]
    split
    next hlt =>
      refine List.pairwise_cons.mpr ⟨fun e he => ?_, h⟩
      rcases List.mem_cons.mp he with rfl | he'
      · exact hlt
      · exact lt_trans hlt (hhd e he')
    next hnlt =>
      split
      next heq => subst heq; exact List.pairwise_cons.mpr ⟨hhd, htl⟩
      next hne =>
        refine List.pairwise_cons.mpr ⟨fun e he => ?_, putAssoc_sorted htl⟩
        rcases mem_putAssoc he with rfl | he'
        · exact lt_of_le_of_ne (not_lt.mp hnlt) (fun e => hne e.symm)
        · exact hhd e he'

/-- In key order, a put binds its key and leaves the other entries. -/
theorem mem_putAssoc_iff {k : κ} {v : ν} {e : κ × ν} :
    ∀ {l : List (κ × ν)}, KeysSorted l → (e ∈ putAssoc k v l ↔ e = (k, v) ∨ e ∈ l ∧ e.1 ≠ k)
  | [], _ => by simp [putAssoc]
  | (k', v') :: l, h => by
    obtain ⟨hhd, htl⟩ := List.pairwise_cons.mp h
    have ih : e ∈ putAssoc k v l ↔ e = (k, v) ∨ e ∈ l ∧ e.1 ≠ k := mem_putAssoc_iff htl
    simp only [putAssoc]
    split
    next hlt =>
      have hne : ∀ e ∈ (k', v') :: l, e.1 ≠ k := by
        intro e he
        rcases List.mem_cons.mp he with rfl | he
        · exact hlt.ne'
        · exact (lt_trans hlt (hhd e he)).ne'
      rw [List.mem_cons]
      exact or_congr Iff.rfl ⟨fun he => ⟨he, hne e he⟩, fun he => he.1⟩
    next hnlt =>
      split
      next heq =>
        subst heq
        have hne : ∀ e ∈ l, e.1 ≠ k := fun e he => (hhd e he).ne'
        rw [List.mem_cons, List.mem_cons]
        refine or_congr Iff.rfl ⟨fun he => ⟨Or.inr he, hne e he⟩, ?_⟩
        rintro ⟨rfl | he, hk⟩
        · exact absurd rfl hk
        · exact he
      next hne =>
        rw [List.mem_cons, List.mem_cons, ih]
        constructor
        · rintro (rfl | rfl | ⟨he, hk⟩)
          · exact Or.inr ⟨Or.inl rfl, fun e => hne e.symm⟩
          · exact Or.inl rfl
          · exact Or.inr ⟨Or.inr he, hk⟩
        · rintro (rfl | ⟨rfl | he, hk⟩)
          · exact Or.inr (Or.inl rfl)
          · exact Or.inl rfl
          · exact Or.inr (Or.inr ⟨he, hk⟩)

theorem eraseAssoc_sorted {k : κ} {l : List (κ × ν)} (h : KeysSorted l) :
    KeysSorted (eraseAssoc k l) :=
  List.Pairwise.filter _ h

theorem mem_eraseAssoc_iff {k : κ} {e : κ × ν} {l : List (κ × ν)} :
    e ∈ eraseAssoc k l ↔ e ∈ l ∧ e.1 ≠ k := by
  simp [eraseAssoc]

/-- In a sorted list, looking up is membership. -/
theorem lookupAssoc_iff_mem {k : κ} {v : ν} : ∀ {l : List (κ × ν)}, KeysSorted l →
    (lookupAssoc k l = some v ↔ (k, v) ∈ l)
  | [], _ => by simp [lookupAssoc]
  | (k', v') :: l, h => by
    obtain ⟨hhd, htl⟩ := List.pairwise_cons.mp h
    by_cases hk : k' = k
    · subst hk
      have hno : (k', v) ∉ l := fun hm => absurd (hhd _ hm) (lt_irrefl _)
      simp [lookupAssoc, hno, eq_comm]
    · have hk' : ¬ k = k' := fun e => hk e.symm
      simp [lookupAssoc, hk, hk', lookupAssoc_iff_mem htl]

/-- A finite map as its entries in key order. -/
structure SortedAssoc (κ ν : Type*) [LinearOrder κ] where
  entries : List (κ × ν)
  sorted : KeysSorted entries

namespace SortedAssoc

/-- The map without entries. -/
def empty : SortedAssoc κ ν := ⟨[], List.Pairwise.nil⟩

/-- The value bound to `k`, if any. -/
def get (m : SortedAssoc κ ν) (k : κ) : Option ν := lookupAssoc k m.entries

/-- Bind `k` to `v`. -/
def put (m : SortedAssoc κ ν) (k : κ) (v : ν) : SortedAssoc κ ν :=
  ⟨putAssoc k v m.entries, putAssoc_sorted m.sorted⟩

/-- Unbind `k`. -/
def erase (m : SortedAssoc κ ν) (k : κ) : SortedAssoc κ ν :=
  ⟨eraseAssoc k m.entries, eraseAssoc_sorted m.sorted⟩

theorem get_eq_some_iff {m : SortedAssoc κ ν} {k : κ} {v : ν} :
    m.get k = some v ↔ (k, v) ∈ m.entries :=
  lookupAssoc_iff_mem m.sorted

end SortedAssoc

/-! ## Association lists with distinct keys -/

/-- With distinct keys, looking up in an association list is membership. -/
theorem lookup_of_mem {α β : Type*} [BEq α] [LawfulBEq α] {k : α} {v : β} :
    ∀ {l : List (α × β)}, (l.map Prod.fst).Nodup → (k, v) ∈ l → l.lookup k = some v
  | [], _, h => absurd h (List.not_mem_nil)
  | (k', v') :: l, hn, h => by
    rw [List.map_cons, List.nodup_cons] at hn
    rcases List.mem_cons.mp h with he | hm
    · cases he
      rw [List.lookup_cons, beq_self_eq_true]
    · have hne : ¬ k = k' := fun e => hn.1 (e ▸ List.mem_map.mpr ⟨(k, v), hm, rfl⟩)
      rw [List.lookup_cons, beq_eq_false_iff_ne.mpr hne]
      exact lookup_of_mem hn.2 hm

theorem lookup_iff_mem {α β : Type*} [BEq α] [LawfulBEq α] {k : α} {v : β} {l : List (α × β)}
    (hl : (l.map Prod.fst).Nodup) : l.lookup k = some v ↔ (k, v) ∈ l := by
  refine ⟨fun h => ?_, lookup_of_mem hl⟩
  obtain ⟨l₁, l₂, rfl, -⟩ := List.lookup_eq_some_iff.mp h
  simp

/-! ## Seeking by prefix -/

/-- The entries from the first key `≥ t` on. -/
def seekAssoc (t : κ) (l : List (κ × ν)) : List (κ × ν) :=
  l.dropWhile (fun e => decide (e.1 < t))

/-- If some key is `≥ t`, the seek stops at a key `≥ t` that is at most it. -/
theorem seekAssoc_of_mem {t k : κ} {v : ν} (ht : t ≤ k) :
    ∀ {l : List (κ × ν)}, KeysSorted l → (k, v) ∈ l →
      ∃ k' v' rest, seekAssoc t l = (k', v') :: rest ∧ t ≤ k' ∧ k' ≤ k
  | [], _, h => absurd h (List.not_mem_nil)
  | (k', v') :: l, hs, h => by
    obtain ⟨hhd, htl⟩ := List.pairwise_cons.mp hs
    by_cases hlt : k' < t
    · have hne : (k, v) ≠ (k', v') := by
        intro he
        cases he
        exact absurd hlt (not_lt.mpr ht)
      have hmem : (k, v) ∈ l := List.mem_of_ne_of_mem hne h
      obtain ⟨k₁, v₁, rest, heq, h1, h2⟩ := seekAssoc_of_mem ht htl hmem
      refine ⟨k₁, v₁, rest, ?_, h1, h2⟩
      rw [← heq]
      simp [seekAssoc, hlt]
    · refine ⟨k', v', l, by simp [seekAssoc, hlt], not_lt.mp hlt, ?_⟩
      rcases List.mem_cons.mp h with he | h'
      · cases he; exact le_refl _
      · exact le_of_lt (hhd _ h')

section Prefix

variable {α : Type*} [LinearOrder α]

/-- A string is at most each of its extensions. -/
theorem le_append_self : ∀ (p x : List α), p ≤ p ++ x
  | [], _ => not_lt.mp (List.not_lt_nil _)
  | a :: p, x => by
    rw [List.cons_append, ← not_lt, List.cons_lt_cons_iff, not_or, not_lt]
    exact ⟨le_refl a, fun h => absurd h.2 (not_lt.mpr (le_append_self p x))⟩

/-- Whatever lies between `p` and an extension of `p` extends `p`. -/
theorem isPrefix_of_between : ∀ (p : List α) {h x : List α}, p ≤ h → h ≤ p ++ x → p <+: h
  | [], _, _, _, _ => List.nil_prefix
  | a :: p, [], x, h1, _ => absurd h1 (by simp)
  | a :: p, b :: h, x, h1, h2 => by
    rw [List.cons_append] at h2
    rw [← not_lt, List.cons_lt_cons_iff, not_or, not_lt] at h1 h2
    have hab : a = b := le_antisymm h1.1 h2.1
    subst hab
    have h1' : p ≤ h := not_lt.mp fun hlt => h1.2 ⟨rfl, hlt⟩
    have h2' : h ≤ p ++ x := not_lt.mp fun hlt => h2.2 ⟨rfl, hlt⟩
    exact List.cons_prefix_cons.mpr ⟨rfl, isPrefix_of_between p h1' h2'⟩

/-- A prefix scan finds something whenever there is something to find: if some
key has prefix `p`, seeking to `p` stops at a key with prefix `p`. -/
theorem seek_of_isPrefix {p k : List α} {v : ν} {l : List (List α × ν)} (hs : KeysSorted l)
    (h : (k, v) ∈ l) (hp : p <+: k) :
    ∃ k' v' rest, seekAssoc p l = (k', v') :: rest ∧ p <+: k' := by
  obtain ⟨x, rfl⟩ := hp
  obtain ⟨k', v', rest, heq, h1, h2⟩ := seekAssoc_of_mem (le_append_self p x) hs h
  exact ⟨k', v', rest, heq, isPrefix_of_between p h1 h2⟩

/-- A prefix scan yields the entries with the prefix and no others: seek to the prefix and
go on as long as the keys have it. -/
theorem takeWhile_seekAssoc {p : List α} : ∀ {l : List (List α × ν)}, KeysSorted l →
    (seekAssoc p l).takeWhile (fun e => p.isPrefixOf e.1) =
      l.filter (fun e => p.isPrefixOf e.1)
  | [], _ => rfl
  | (k, v) :: l, hs => by
    obtain ⟨hhd, htl⟩ := List.pairwise_cons.mp hs
    have ih := takeWhile_seekAssoc htl (p := p)
    by_cases hlt : k < p
    · -- before the prefix: not yet there
      have hno : ¬ p <+: k := fun ⟨x, hx⟩ => absurd hlt (not_lt.mpr (hx ▸ le_append_self p x))
      have hno' : p.isPrefixOf k = false := by
        rwa [← List.isPrefixOf_iff_prefix, Bool.not_eq_true] at hno
      simpa [seekAssoc, hlt, hno'] using ih
    · have hstay : ∀ {l' : List (List α × ν)}, (∀ e ∈ l', p ≤ e.1) → seekAssoc p l' = l' := by
        intro l' hl'
        cases l' with
        | nil => rfl
        | cons e l' => simp [seekAssoc, not_lt.mpr (hl' e (List.mem_cons_self ..))]
      have hge : ∀ e ∈ l, p ≤ e.1 := fun e he => le_trans (not_lt.mp hlt) (hhd e he).le
      rw [hstay hge] at ih
      rw [hstay (by simpa using ⟨not_lt.mp hlt, fun a b hab => hge (a, b) hab⟩)]
      by_cases hp : p <+: k
      · have hp' : p.isPrefixOf k = true := by simpa using hp
        simp [hp', ih]
      · -- past the prefix: nothing that comes later has it
        have hp' : p.isPrefixOf k = false := by
          rwa [← List.isPrefixOf_iff_prefix, Bool.not_eq_true] at hp
        have hrest : ∀ e ∈ l, ¬ p <+: e.1 := by
          rintro e he ⟨x, hx⟩
          exact hp (isPrefix_of_between p (not_lt.mp hlt) (hx ▸ (hhd e he).le))
        have hnil : l.filter (fun e => p.isPrefixOf e.1) = [] := by
          simpa [List.filter_eq_nil_iff] using fun a b hab => hrest (a, b) hab
        simp [hp', hnil]

/-- A seek only ever yields entries of the list. -/
theorem mem_of_mem_seekAssoc {t : κ} {e : κ × ν} {l : List (κ × ν)}
    (h : e ∈ seekAssoc t l) : e ∈ l :=
  (List.dropWhile_suffix _).subset h

/-- A seek yields the entries that are not before the target. -/
theorem seekAssoc_eq_filter {t : κ} : ∀ {l : List (κ × ν)}, KeysSorted l →
    seekAssoc t l = l.filter fun e => decide (t ≤ e.1)
  | [], _ => rfl
  | (k, v) :: l, hs => by
    obtain ⟨hhd, htl⟩ := List.pairwise_cons.mp hs
    by_cases hlt : k < t
    · simpa [seekAssoc, hlt, not_le.mpr hlt] using seekAssoc_eq_filter htl
    · have hall : ∀ e ∈ l, decide (t ≤ e.1) = true := fun e he =>
        decide_eq_true ((not_lt.mp hlt).trans (hhd e he).le)
      rw [seekAssoc, List.dropWhile_cons_of_neg (by simpa using hlt),
        List.filter_cons_of_pos (by simpa using hlt), List.filter_eq_self.mpr hall]

/-- A scan that starts somewhere among the keys with a prefix yields those with the prefix
that are not before its start. -/
theorem takeWhile_seekAssoc_from {p t : List α} (hp : p <+: t) {l : List (List α × ν)}
    (hs : KeysSorted l) :
    (seekAssoc t l).takeWhile (fun e => p.isPrefixOf e.1) =
      l.filter (fun e => decide (t ≤ e.1) && p.isPrefixOf e.1) := by
  have hsorted : KeysSorted (seekAssoc t l) := hs.sublist (List.dropWhile_sublist _)
  have hge : ∀ e ∈ seekAssoc t l, p ≤ e.1 := by
    intro e he
    rw [seekAssoc_eq_filter hs, List.mem_filter, decide_eq_true_eq] at he
    obtain ⟨x, rfl⟩ := hp
    exact (le_append_self p x).trans he.2
  have hstay : seekAssoc p (seekAssoc t l) = seekAssoc t l := by
    rw [seekAssoc_eq_filter hsorted, List.filter_eq_self]
    exact fun e he => decide_eq_true (hge e he)
  have htake := takeWhile_seekAssoc hsorted (p := p)
  rw [hstay] at htake
  rw [htake, seekAssoc_eq_filter hs, List.filter_filter]
  exact List.filter_congr fun e _ => Bool.and_comm _ _

end Prefix

end Reboot.Lib
