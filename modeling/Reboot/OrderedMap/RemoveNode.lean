import Reboot.OrderedMap.InsertNode

/-!
# Removing from a node

`nodeRemove_spec`: with fuel for its height, a removal from a tree ends without failing, and
what it leaves is `Updated` by touching the keys without anything new. No node is added or taken
away, however empty a leaf gets, so all links survive.
-/

namespace Reboot.OrderedMap

open Reboot.Lib

variable {K S : Type} [LinearOrder K] {d : Nat} {lo hi : Option K} {st : Store K S}

theorem removeLeaf_spec {id : Nat} {n : Node K S} (hfresh : st.Fresh) (hn : st.nodes id = some n)
    (hleaf : GoodLeaf d lo hi n) (keys : List K) :
    Updated d lo hi st 0 [id] [] keys (-((removeLeaf st id n keys).2 : Int)) True
      (removeLeaf st id n keys).1 0 [id] [] := by
  have hid := hfresh.lt hn
  have hzip : n.keys.zip n.values = n.entries := rfl
  have hkept : (n.entries.filter fun e => e.1 ∉ keys).Sublist n.entries := List.filter_sublist
  simp only [removeLeaf, hzip]
  have hle := hkept.length_le
  generalize hk : (n.entries.filter fun e => e.1 ∉ keys) = kept at hkept hle
  have hl : LeafLayer d (st.set id { n with
      keys := kept.map Prod.fst, values := kept.map Prod.snd }) [id] [kept] :=
    .cons ⟨_, Store.set_nodes_self .., hleaf.degree, hleaf.isLeaf, rfl, rfl⟩ .nil
  refine Updated.leaf hn (hfresh.set _ hid) (le_refl _) hid hl (hl.forest ?_ (Or.inl rfl)
    (by simp) ?_ ?_) List.Pairwise.nil (by simp) (fun i _ hne => Store.set_nodes_ne _ hne) ?_ ?_ ?_ ?_
    (fun _ _ => rfl)
  · intro q hq
    rw [List.mem_singleton.mp hq]
    have := hleaf.few
    rw [← hleaf.map_fst, List.length_map] at this
    omega
  · simpa using hleaf.sorted_entries.sublist hkept
  · intro e he
    rw [List.flatten_singleton] at he
    exact hleaf.within e.1 (List.of_mem_zip (hkept.subset he)).1
  · intro e
    rw [List.flatten_singleton, ← hk]
    simp
  · rw [List.flatten_singleton]
    omega
  · refine ⟨?_, trivial⟩
    simp [Store.nextOf, Store.set_nodes_self]
  · refine ⟨?_, trivial⟩
    simp [Store.prevOf, Store.set_nodes_self]

/-! ## The loop over the children -/

/-- What is asked of the removal from a child. -/
def RemoveSpec (d h : Nat) (remove : Store K S → Nat → List K → Except Failure (Store K S × Nat)) :
    Prop :=
  ∀ {st : Store K S} {lo hi : Option K} {c : Nat} (ks : List K), st.Fresh →
    Trees d st h lo hi [c] [] → (∀ k ∈ ks, Within lo hi k) →
    ∃ (st' : Store K S) (count : Nat), remove st c ks = .ok (st', count) ∧
      Updated d lo hi st h [c] [] ks (-(count : Int)) True st' h [c] []

variable {h : Nat} {remove : Store K S → Nat → List K → Except Failure (Store K S × Nat)}
  {nodeKeys keys : List K}

/-- The removal from a child, if it has keys, and then from the others. -/
theorem removeChildren_cons (nodeKeys keys : List K) (i : Nat) {c : Nat} (cs : List Nat)
    (hremove : RemoveSpec d h remove) (hfresh : st.Fresh) (ht : Trees d st h lo hi [c] [])
    (hin : ∀ k ∈ keys, bisectRight nodeKeys k = i → Within lo hi k) :
    ∃ (st₁ : Store K S) (count : Nat), Updated d lo hi st h [c] [] (keys.filter fun k => bisectRight nodeKeys k = i)
        (-(count : Int)) True st₁ h [c] [] ∧
      ∀ {st₂ : Store K S} {counts : Nat},
        removeChildren remove nodeKeys keys (i + 1) cs st₁ = .ok (st₂, counts) →
        removeChildren remove nodeKeys keys i (c :: cs) st = .ok (st₂, count + counts) := by
  cases hf : keys.filter fun k => bisectRight nodeKeys k = i with
  | nil =>
    refine ⟨st, 0, by simpa using Updated.refl ht hfresh True, fun h₂ => ?_⟩
    simp only [removeChildren, hf, h₂, Nat.zero_add]
  | cons k ks =>
    obtain ⟨st₁, count, h₁, u₁⟩ := hremove (k :: ks) hfresh ht fun k' hk' => by
      rw [← hf] at hk'
      obtain ⟨hk', heq⟩ := List.mem_filter.mp hk'
      exact hin k' hk' (of_decide_eq_true heq)
    refine ⟨st₁, count, u₁, fun {st₂ counts} h₂ => ?_⟩
    simp only [removeChildren, hf, h₁]
    change (removeChildren remove nodeKeys keys (i + 1) cs st₁ >>= fun p =>
      Except.ok (p.1, count + p.2)) = _
    rw [h₂]
    rfl

theorem removeChildren_spec (hremove : RemoveSpec d h remove) {st₀ : Store K S} {cs : List Nat}
    {ks : List K} (hf : Forest (Good d st₀ h) lo hi cs ks) :
    ∀ {st : Store K S} {i : Nat}, st.Fresh → Trees d st h lo hi cs ks →
    (∀ x, Within lo hi x → bisectRight nodeKeys x = i + upperBound ks x) →
    (∀ k ∈ keys, i ≤ bisectRight nodeKeys k → Within lo hi k) →
    ∃ (st' : Store K S) (count : Nat), removeChildren remove nodeKeys keys i cs st = .ok (st', count) ∧
      Updated d lo hi st h cs [] (keys.filter fun k => i ≤ bisectRight nodeKeys k)
        (-(count : Int)) True st' h cs ks := by
  induction hf with
  | @one lo hi c _ =>
    intro st i hfresh ht hroute hin
    obtain ⟨st₁, count, u₁, hnext⟩ := removeChildren_cons nodeKeys keys i [] hremove hfresh ht
      fun k hk heq => hin k hk (by omega)
    refine ⟨st₁, count, hnext rfl, u₁.congr (fun _ => Iff.rfl) (fun k => ?_) rfl id⟩
    simp only [List.mem_filter, decide_eq_true_eq]
    refine and_congr_right fun hk => ⟨fun hle => ?_, fun heq => by omega⟩
    have := hroute k (hin k hk hle)
    simpa [upperBound] using this
  | @cons lo hi c cs k ks _ hk rest ih =>
    intro st i hfresh ht hroute hin
    have hleft : ∀ x ∈ keys, bisectRight nodeKeys x = i → Within lo (some k) x := by
      intro x hx heq
      have hin := hin x hx (by omega)
      refine hin.lt (not_le.mp fun hle => ?_)
      have := hroute x hin
      rw [Forest.upperBound_cons_of_le hle] at this
      omega
    have hright : ∀ x ∈ keys, i + 1 ≤ bisectRight nodeKeys x → Within (some k) hi x := by
      intro x hx hle
      have hin := hin x hx (by omega)
      refine hin.ge (not_lt.mp fun hlt => ?_)
      have := hroute x hin
      rw [Forest.upperBound_cons_of_lt hlt] at this
      omega
    obtain ⟨hc, -, hcs, -⟩ := ht.split
    obtain ⟨st₁, count, u₁, hnext⟩ := removeChildren_cons nodeKeys keys i cs hremove hfresh hc hleft
    obtain ⟨st₂, counts, h₂, u₂⟩ := @ih st₁ (i + 1) u₁.fresh (hcs.congr (u₁.others ht) u₁.next_le)
      (fun x hx => by
        rw [hroute x (hx.right hk), Forest.upperBound_cons_of_le (hx.1 k rfl)]
        omega) hright
    refine ⟨st₂, count + counts, hnext h₂, ?_⟩
    refine (u₁.cons u₂ ht ?_ ?_).congr (fun _ => Iff.rfl) (fun x => ?_) (by push_cast; omega)
      fun _ => ⟨trivial, trivial⟩
    · intro x hx
      obtain ⟨hx, heq⟩ := List.mem_filter.mp hx
      exact hleft x hx (of_decide_eq_true heq)
    · intro x hx
      obtain ⟨hx, hle⟩ := List.mem_filter.mp hx
      exact hright x hx (of_decide_eq_true hle)
    · simp only [List.mem_append, List.mem_filter, decide_eq_true_eq]
      constructor
      · rintro ⟨hx, hle⟩
        rcases Nat.eq_or_lt_of_le hle with heq | hlt
        · exact Or.inl ⟨hx, heq.symm⟩
        · exact Or.inr ⟨hx, hlt⟩
      · rintro (⟨hx, heq⟩ | ⟨hx, hle⟩)
        · exact ⟨hx, by omega⟩
        · exact ⟨hx, by omega⟩

/-! ## Whole trees -/

theorem nodeRemove_spec : ∀ (h fuel : Nat), h < fuel →
    RemoveSpec (K := K) (S := S) d h (nodeRemove fuel) := by
  intro h
  induction h with
  | zero =>
    intro fuel hfuel st lo hi id keys hfresh ht _
    obtain ⟨n, hn, hleaf⟩ : Good d st 0 lo hi id := by
      cases ht.forest with
      | one hc => exact hc
    obtain ⟨fuel, rfl⟩ := Nat.exists_eq_add_of_lt hfuel
    refine ⟨_, _, ?_, removeLeaf_spec hfresh hn hleaf keys⟩
    simp only [nodeRemove, hn, hleaf.isLeaf, if_true]
  | succ h ih =>
    intro fuel hfuel st lo hi id keys hfresh ht hin
    obtain ⟨n, hn, hinner, htc, hnot, hid⟩ := ht.children
    obtain ⟨fuel, rfl⟩ := Nat.exists_eq_add_of_lt hfuel
    obtain ⟨st₁, count, hrun, u⟩ := removeChildren_spec (ih (h + 1 + fuel) (by omega)) htc.forest
      (i := 0) hfresh htc (fun x _ => by rw [bisectRight_forest htc.forest]; omega)
      fun k hk _ => hin k hk
    have hall : (keys.filter fun k => decide (0 ≤ bisectRight n.keys k)) = keys := by
      simp
    rw [hall] at u
    have hself : st₁.nodes id = some n := by
      rw [u.frame id hid hnot, hn]
    have hnot₁ : id ∉ allIds st₁ h n.childrenIds := by
      intro hi
      rcases u.ids id hi with hi | hge
      · exact hnot hi
      · omega
    have hmem : id ∈ allIds st (h + 1) [id] := by
      rw [allIds_singleton]
      exact mem_nodeIds_self ..
    have hlayer : Layer d st₁ [id] [(n.keys, n.childrenIds)] :=
      .cons ⟨n, hself, hinner, rfl, rfl⟩ .nil
    refine ⟨st₁, count, ?_, ?_⟩
    · simp only [nodeRemove, hn, hinner.isLeaf]
      exact hrun
    · refine (u.node hn).regroup .one hlayer u.fresh (le_refl _) (fun _ _ => rfl)
        (List.nodup_singleton _) (fun i hi => ?_) fun i hi => ?_
      · obtain rfl := List.mem_singleton.mp hi
        exact lt_of_lt_of_le hid u.next_le
      · obtain rfl := List.mem_singleton.mp hi
        exact ⟨hnot₁, Or.inl hmem⟩

end Reboot.OrderedMap
