import Mathlib.Data.List.Forall2
import Reboot.Lib.Bisect

/-!
# Forests with separators

The children of a node of a search tree, and the keys between them. `Forest P lo hi cs ks` says
that `P` holds of each child in `cs` with the bounds that the keys `ks` give it: the first child
is bounded below by `lo`, the last above by `hi`, and `ks[i]` bounds `cs[i]` above and `cs[i+1]`
below. A bound may be missing. What a child is, and where it is kept, is left open.

A forest can be cut at any of its keys (`Forest.split`) and put together again
(`Forest.append`); `Grouped` is a cut into any number of pieces, and `Forest.group` turns the
pieces into a forest of the level above. `Forest.route` is the step of a search: the number of
keys at or below `k` is the index of the only child that may hold `k`.
-/

namespace Reboot.Lib

variable {κ ι ι' ν : Type*} [LinearOrder κ]

/-! ## Bounds -/

/-- At or above the lower bound and below the upper one. -/
def Within (lo hi : Option κ) (k : κ) : Prop := (∀ l ∈ lo, l ≤ k) ∧ ∀ u ∈ hi, k < u

/-- Above the lower bound and below the upper one. -/
def Between (lo hi : Option κ) (k : κ) : Prop := (∀ l ∈ lo, l < k) ∧ ∀ u ∈ hi, k < u

theorem within_none (k : κ) : Within none none k :=
  ⟨fun _ h => (nomatch h), fun _ h => (nomatch h)⟩

theorem Within.lt {lo hi : Option κ} {k k' : κ} (h : Within lo hi k) (hlt : k < k') :
    Within lo (some k') k :=
  ⟨h.1, fun u hu => by
    obtain rfl : k' = u := by simpa using hu
    exact hlt⟩

theorem Within.ge {lo hi : Option κ} {k k' : κ} (h : Within lo hi k) (hle : k' ≤ k) :
    Within (some k') hi k :=
  ⟨fun l hl => by
    obtain rfl : k' = l := by simpa using hl
    exact hle, h.2⟩

/-- What is left of a key between the bounds is within them. -/
theorem Within.left {lo hi : Option κ} {k k' : κ} (h : Within lo (some k') k)
    (hk : Between lo hi k') : Within lo hi k :=
  ⟨h.1, fun u hu => lt_trans (h.2 k' rfl) (hk.2 u hu)⟩

/-- And so is what is right of it. -/
theorem Within.right {lo hi : Option κ} {k k' : κ} (h : Within (some k') hi k)
    (hk : Between lo hi k') : Within lo hi k :=
  ⟨fun l hl => le_trans (le_of_lt (hk.1 l hl)) (h.1 k' rfl), h.2⟩

/-! ## Forests -/

inductive Forest (P : Option κ → Option κ → ι → Prop) :
    Option κ → Option κ → List ι → List κ → Prop
  | one {lo hi : Option κ} {c : ι} (hc : P lo hi c) : Forest P lo hi [c] []
  | cons {lo hi : Option κ} {c : ι} {cs : List ι} {k : κ} {ks : List κ} (hc : P lo (some k) c)
      (hk : Between lo hi k) (rest : Forest P (some k) hi cs ks) :
      Forest P lo hi (c :: cs) (k :: ks)

namespace Forest

variable {P Q : Option κ → Option κ → ι → Prop} {lo hi : Option κ} {cs cs' : List ι}
  {ks ks' : List κ} {k : κ}

theorem length (h : Forest P lo hi cs ks) : cs.length = ks.length + 1 := by
  induction h with
  | one _ => rfl
  | cons _ _ _ ih => simp [ih]

theorem ne_nil (h : Forest P lo hi cs ks) : cs ≠ [] := by
  intro hnil
  have := h.length
  simp [hnil] at this

theorem of_mem (h : Forest P lo hi cs ks) {c : ι} (hc : c ∈ cs) : ∃ lo hi, P lo hi c := by
  induction h with
  | @one lo hi c' hc' =>
    obtain rfl := List.mem_singleton.mp hc
    exact ⟨lo, hi, hc'⟩
  | @cons lo hi c' cs k ks hc' _ _ ih =>
    rcases List.mem_cons.mp hc with rfl | hc
    · exact ⟨lo, some k, hc'⟩
    · exact ih hc

theorem exists_mem (h : Forest P lo hi cs ks) : ∃ c ∈ cs, ∃ lo hi, P lo hi c := by
  obtain ⟨c, hc⟩ := List.exists_mem_of_ne_nil cs h.ne_nil
  exact ⟨c, hc, h.of_mem hc⟩

theorem mono (h : Forest P lo hi cs ks) (hpq : ∀ c ∈ cs, ∀ lo hi, P lo hi c → Q lo hi c) :
    Forest Q lo hi cs ks := by
  induction h with
  | one hc => exact .one (hpq _ (by simp) _ _ hc)
  | cons hc hk _ ih =>
    exact .cons (hpq _ (by simp) _ _ hc) hk (ih fun c hc => hpq c (List.mem_cons_of_mem _ hc))

theorem between (h : Forest P lo hi cs ks) : ∀ k ∈ ks, Between lo hi k := by
  induction h with
  | one _ => intro k hk; cases hk
  | cons _ hk _ ih =>
    intro k' hk'
    rcases List.mem_cons.mp hk' with rfl | hk'
    · exact hk
    · exact ⟨fun l hl => lt_trans (hk.1 l hl) ((ih k' hk').1 _ rfl), (ih k' hk').2⟩

theorem sorted (h : Forest P lo hi cs ks) : ks.Pairwise (· < ·) := by
  induction h with
  | one _ => exact List.Pairwise.nil
  | cons _ _ rest ih =>
    exact List.pairwise_cons.mpr ⟨fun k' hk' => (rest.between k' hk').1 _ rfl, ih⟩

theorem append (h : Forest P lo (some k) cs ks) (hk : Between lo hi k)
    (h' : Forest P (some k) hi cs' ks') : Forest P lo hi (cs ++ cs') (ks ++ k :: ks') := by
  generalize hu : some k = u at h
  induction h with
  | one hc =>
    subst hu
    exact .cons hc hk h'
  | cons hc hk₁ _ ih =>
    subst hu
    refine .cons hc ⟨hk₁.1, fun u hu => lt_trans (hk₁.2 k rfl) (hk.2 u hu)⟩ (ih ⟨?_, hk.2⟩ rfl)
    intro l hl
    obtain rfl := Option.some.inj hl
    exact hk₁.2 k rfl

theorem split : ∀ {ks : List κ} {lo : Option κ} {cs : List ι}, Forest P lo hi cs (ks ++ k :: ks') →
    Forest P lo (some k) (cs.take (ks.length + 1)) ks ∧ Between lo hi k ∧
      Forest P (some k) hi (cs.drop (ks.length + 1)) ks' := by
  intro ks
  induction ks with
  | nil =>
    intro lo cs h
    cases h with
    | cons hc hk rest => exact ⟨.one hc, hk, rest⟩
  | cons k₁ ks ih =>
    intro lo cs h
    cases h with
    | cons hc hk rest =>
      obtain ⟨hl, hk', hr⟩ := ih rest
      refine ⟨.cons hc ⟨hk.1, fun u hu => ?_⟩ hl, ⟨fun l hl => ?_, hk'.2⟩, hr⟩
      · obtain rfl := Option.some.inj hu
        exact hk'.1 _ rfl
      · exact lt_trans (hk.1 l hl) (hk'.1 _ rfl)

/-- The bounds of a child are the keys beside it. -/
theorem of_getElem? {cs : List ι} (h : Forest P lo hi cs ks) {i : Nat} {c : ι}
    (hc : cs[i]? = some c) :
    ∃ lo' hi', P lo' hi' c ∧ (∀ k, Within lo' hi' k → Within lo hi k) ∧ (i = 0 → lo' = lo) ∧
      (∀ j l, i = j + 1 → ks[j]? = some l → lo' = some l) ∧ ∀ u, ks[i]? = some u → hi' = some u := by
  induction h generalizing i with
  | @one lo hi c' hc' =>
    cases i with
    | zero =>
      obtain rfl : c' = c := by simpa using hc
      exact ⟨lo, hi, hc', fun k hk => hk, fun _ => rfl, nofun, nofun⟩
    | succ i => simp at hc
  | @cons lo hi c' cs k ks hc' hk rest ih =>
    cases i with
    | zero =>
      obtain rfl : c' = c := by simpa using hc
      exact ⟨lo, some k, hc', fun k' hk' => hk'.left hk, fun _ => rfl, nofun,
        fun u hu => by simpa using hu⟩
    | succ i =>
      obtain ⟨lo', hi', hp, hwithin, hfirst, hlower, hupper⟩ := ih (i := i) (by simpa using hc)
      refine ⟨lo', hi', hp, fun k' hk' => (hwithin k' hk').right hk, nofun, fun j l hj hl => ?_,
        fun u hu => hupper u (by simpa using hu)⟩
      obtain rfl : i = j := by omega
      cases i with
      | zero =>
        obtain rfl : k = l := by simpa using hl
        exact hfirst rfl
      | succ i => exact hlower i l rfl (by simpa using hl)

section Contents

variable {f : ι → List (κ × ν)}

/-- What the children hold is within the bounds of the forest. -/
theorem within (h : Forest P lo hi cs ks)
    (hf : ∀ c ∈ cs, ∀ lo hi, P lo hi c → ∀ e ∈ f c, Within lo hi e.1) :
    ∀ e ∈ cs.flatMap f, Within lo hi e.1 := by
  induction h with
  | one hc =>
    intro e he
    exact hf _ (by simp) _ _ hc e (by simpa using he)
  | cons hc hk _ ih =>
    intro e he
    rcases List.mem_append.mp he with he | he
    · exact (hf _ (by simp) _ _ hc e he).left hk
    · exact (ih (fun c hc => hf c (List.mem_cons_of_mem _ hc)) e he).right hk

/-- What the children hold is sorted if what each holds is. -/
theorem sorted_flatMap (h : Forest P lo hi cs ks)
    (hf : ∀ c ∈ cs, ∀ lo hi, P lo hi c → ∀ e ∈ f c, Within lo hi e.1)
    (hs : ∀ c ∈ cs, ∀ lo hi, P lo hi c → (f c).Pairwise fun a b => a.1 < b.1) :
    (cs.flatMap f).Pairwise fun a b => a.1 < b.1 := by
  induction h with
  | one hc => simpa using hs _ (by simp) _ _ hc
  | cons hc hk rest ih =>
    have hf' := fun c hc => hf c (List.mem_cons_of_mem _ hc)
    refine List.pairwise_append.mpr ⟨hs _ (by simp) _ _ hc,
      ih hf' fun c hc => hs c (List.mem_cons_of_mem _ hc), fun a ha b hb => ?_⟩
    exact lt_of_lt_of_le ((hf _ (by simp) _ _ hc a ha).2 _ rfl) ((rest.within hf' b hb).1 _ rfl)

end Contents

theorem upperBound_cons_of_lt {k k' : κ} {ks : List κ} (h : k < k') :
    upperBound (k' :: ks) k = 0 := by
  simp [upperBound, h]

theorem upperBound_cons_of_le {k k' : κ} {ks : List κ} (h : k' ≤ k) :
    upperBound (k' :: ks) k = upperBound ks k + 1 := by
  simp [upperBound, h]

/-- The child that a key within the bounds belongs to: it is the only one that may hold it. -/
theorem route {f : ι → List (κ × ν)} (h : Forest P lo hi cs ks)
    (hf : ∀ c ∈ cs, ∀ lo hi, P lo hi c → ∀ e ∈ f c, Within lo hi e.1) (hk : Within lo hi k) :
    ∃ c, cs[upperBound ks k]? = some c ∧ (∃ lo' hi', P lo' hi' c ∧ Within lo' hi' k) ∧
      ∀ v, (k, v) ∈ cs.flatMap f ↔ (k, v) ∈ f c := by
  induction h with
  | @one lo hi c hc => exact ⟨c, rfl, ⟨lo, hi, hc, hk⟩, fun v => by simp⟩
  | @cons lo hi c cs k' ks hc hk' rest ih =>
    have hf' := fun c hc => hf c (List.mem_cons_of_mem _ hc)
    by_cases hlt : k < k'
    · refine ⟨c, by rw [upperBound_cons_of_lt hlt]; rfl, ⟨lo, _, hc, hk.lt hlt⟩, fun v => ?_⟩
      rw [List.flatMap_cons, List.mem_append]
      refine or_iff_left fun he => ?_
      exact absurd hlt (not_lt.mpr ((rest.within hf' _ he).1 _ rfl))
    · have hle := not_lt.mp hlt
      obtain ⟨c', hget, hp, hmem⟩ := ih hf' (hk.ge hle)
      refine ⟨c', by rw [upperBound_cons_of_le hle]; exact hget, hp, fun v => ?_⟩
      rw [List.flatMap_cons, List.mem_append, ← hmem v]
      refine or_iff_right fun he => ?_
      exact absurd ((hf c (by simp) _ _ hc _ he).2 _ rfl) hlt

/-- The same, with what is left of the child, which is below the key, and what is right of it,
which is above. -/
theorem route_split {f : ι → List (κ × ν)} (h : Forest P lo hi cs ks)
    (hf : ∀ c ∈ cs, ∀ lo hi, P lo hi c → ∀ e ∈ f c, Within lo hi e.1) (hk : Within lo hi k) :
    ∃ cs₁ c cs₂, cs = cs₁ ++ c :: cs₂ ∧ cs₁.length = upperBound ks k ∧
      (∃ lo' hi', P lo' hi' c ∧ Within lo' hi' k) ∧ (∀ e ∈ cs₁.flatMap f, e.1 < k) ∧
      ∀ e ∈ cs₂.flatMap f, k < e.1 := by
  induction h with
  | @one lo hi c hc => exact ⟨[], c, [], rfl, rfl, ⟨lo, hi, hc, hk⟩, by simp, by simp⟩
  | @cons lo hi c cs k' ks hc hk' rest ih =>
    have hf' := fun c hc => hf c (List.mem_cons_of_mem _ hc)
    by_cases hlt : k < k'
    · refine ⟨[], c, cs, rfl, by rw [upperBound_cons_of_lt hlt]; rfl, ⟨lo, _, hc, hk.lt hlt⟩,
        by simp, ?_⟩
      intro e he
      exact lt_of_lt_of_le hlt ((rest.within hf' e he).1 _ rfl)
    · have hle := not_lt.mp hlt
      obtain ⟨cs₁, c', cs₂, rfl, hlen, hp, hleft, hright⟩ := ih hf' (hk.ge hle)
      refine ⟨c :: cs₁, c', cs₂, rfl, ?_, hp, fun e he => ?_, hright⟩
      · rw [upperBound_cons_of_le hle, List.length_cons, hlen]
      · rcases List.mem_append.mp he with he | he
        · exact lt_of_lt_of_le ((hf c (by simp) _ _ hc e he).2 _ rfl) hle
        · exact hleft e he

end Forest

/-! ## Groups -/

/-- The keys and children of a level, cut into nodes with a key between any two. -/
inductive Grouped : List (List κ × List ι) → List κ → List κ → List ι → Prop
  | one {ks : List κ} {cs : List ι} : Grouped [(ks, cs)] [] ks cs
  | cons {gs : List (List κ × List ι)} {seps : List κ} {k : κ} {ks ks' : List κ}
      {cs cs' : List ι} (hlen : cs.length = ks.length + 1) (rest : Grouped gs seps ks' cs') :
      Grouped ((ks, cs) :: gs) (k :: seps) (ks ++ k :: ks') (cs ++ cs')

omit [LinearOrder κ] in
/-- The children of the groups are those of the level, in order. -/
theorem Grouped.children {gs : List (List κ × List ι)} {seps ks : List κ} {cs : List ι}
    (h : Grouped gs seps ks cs) : gs.flatMap Prod.snd = cs := by
  induction h with
  | one => simp
  | cons _ _ ih => simp [ih]

/-- The groups of a forest are a forest of the level above. -/
theorem Forest.group {P : Option κ → Option κ → ι → Prop} {Q : Option κ → Option κ → ι' → Prop}
    {hi : Option κ} {gs : List (List κ × List ι)} {seps ks : List κ} {cs : List ι}
    (hg : Grouped gs seps ks cs) : ∀ {ids : List ι'} {lo : Option κ},
    Forest P lo hi cs ks →
    List.Forall₂ (fun id g => ∀ lo hi, Forest P lo hi g.2 g.1 → Q lo hi id) ids gs →
    Forest Q lo hi ids seps := by
  induction hg with
  | one =>
    intro ids lo h hids
    cases hids with
    | cons hid hnil =>
      cases hnil
      exact .one (hid _ _ h)
  | @cons gs seps k ks ks' cs cs' hlen _ ih =>
    intro ids lo h hids
    cases hids with
    | cons hid hids =>
      obtain ⟨hl, hk, hr⟩ := h.split
      rw [← hlen, List.take_left] at hl
      rw [← hlen, List.drop_left] at hr
      exact .cons (hid _ _ hl) hk (ih hr hids)

end Reboot.Lib
