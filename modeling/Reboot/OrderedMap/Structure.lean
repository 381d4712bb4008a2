import Reboot.OrderedMap.FiniteMap

/-!
# What the tree looks like

`Good` reads a tree off the store by its height. Here the same is said of the nodes that are
reached from the root, as the module docstring of `ordered_map.py` puts it: keys in ascending
order, one child more than keys, what is under a child between the keys beside it, fewer keys
than the degree, leaves at one depth and linked from left to right.

`structure_kept`: this holds of the map after any calls that succeeded, and no call made then
runs on for ever: the loops that cut nodes into pieces and that build levels over a split root
end.
-/

namespace Reboot.OrderedMap

open Reboot.Lib

section Nodes

variable {K S : Type} {st : Store K S}

/-- `i` is reached from `id` by going down to a child `depth` times. -/
inductive Under (st : Store K S) : Nat → Nat → Nat → Prop
  | here (id : Nat) : Under st id 0 id
  | child {id c depth i : Nat} {n : Node K S} (hn : st.nodes id = some n)
      (hinner : n.isLeaf = false) (hc : c ∈ n.childrenIds) (h : Under st c depth i) :
      Under st id (depth + 1) i

/-- The ids that links visit from `id` on, up to the one that has none. -/
def follow (next : Nat → Option Nat) : Nat → Nat → Option (List Nat)
  | 0, _ => none
  | fuel + 1, id =>
    match next id with
    | none => some [id]
    | some j => (follow next fuel j).map (id :: ·)

theorem follow_linked {next : Nat → Option Nat} : ∀ {l : List Nat} {id : Nat},
    Linked next none (id :: l) → follow next (l.length + 1) id = some (id :: l) := by
  intro l
  induction l with
  | nil =>
    intro id hl
    have hnone : next id = none := by simpa using hl.1
    simp only [follow, hnone]
  | cons j l ih =>
    intro id hl
    have hsome : next id = some j := by simpa using hl.1
    rw [List.length_cons, follow, hsome]
    simp only [ih hl.2, Option.map_some]

variable [LinearOrder K]

/-- What is asked of one node. -/
structure NodeOk (degree : Nat) (n : Node K S) : Prop where
  ascending : n.keys.Pairwise (· < ·)
  few : n.keys.length < degree
  children : n.isLeaf = false → n.childrenIds.length = n.keys.length + 1
  values : n.isLeaf = true → n.values.length = n.keys.length

/-- What is asked of the nodes that are reached from the root. -/
structure WellFormed (degree : Nat) (st : Store K S) (root : Nat) : Prop where
  nodes : ∀ depth id, Under st root depth id → ∃ n, st.nodes id = some n ∧ NodeOk degree n
  /-- every key under `children[i]` is at least `keys[i - 1]` and less than `keys[i]` -/
  separated : ∀ depth id n i c, Under st root depth id → st.nodes id = some n →
    n.isLeaf = false → n.childrenIds[i]? = some c →
    ∀ depth' id' n', Under st c depth' id' → st.nodes id' = some n' → ∀ k ∈ n'.keys,
      (∀ j l, i = j + 1 → n.keys[j]? = some l → l ≤ k) ∧ ∀ u, n.keys[i]? = some u → k < u
  /-- all leaves are at one depth, and `next_id` leads from the first over all of them, from
  left to right, to the last, which has none -/
  leaves : ∃ h first rest, (∀ depth id n, Under st root depth id → st.nodes id = some n →
      (n.isLeaf = true ↔ depth = h)) ∧
    leafIds st h root = first :: rest ∧
    follow st.nextOf (rest.length + 1) first = some (leafIds st h root)

variable {d : Nat}

/-- Every node under the root is the root of a good tree, as much lower as it is deeper, whose
keys are within the bounds of the whole. -/
theorem good_under {root depth id : Nat} (hu : Under st root depth id) :
    ∀ {h : Nat} {lo hi : Option K}, Good d st h lo hi root →
    ∃ h' lo' hi', h = depth + h' ∧ Good d st h' lo' hi' id ∧
      ∀ k, Within lo' hi' k → Within lo hi k := by
  induction hu with
  | here id =>
    intro h lo hi hg
    exact ⟨h, lo, hi, by omega, hg, fun k hk => hk⟩
  | @child id c depth i n hn hinner hc _ ih =>
    intro h lo hi hg
    cases h with
    | zero =>
      obtain ⟨n', hn', hleaf⟩ := hg
      obtain rfl := Option.some.inj (hn.symm.trans hn')
      cases hinner.symm.trans hleaf.isLeaf
    | succ h =>
      obtain ⟨n', hn', -, hf⟩ := hg
      obtain rfl := Option.some.inj (hn.symm.trans hn')
      obtain ⟨j, hj⟩ := List.mem_iff_getElem?.mp hc
      obtain ⟨lo₁, hi₁, hg₁, hwithin₁, -⟩ := hf.of_getElem? hj
      obtain ⟨h', lo', hi', hh, hg', hwithin⟩ := ih hg₁
      exact ⟨h', lo', hi', by omega, hg', fun k hk => hwithin₁ k (hwithin k hk)⟩

/-- The root of a good tree: what its node is like, and that its keys are within the bounds. -/
theorem good_node {h id : Nat} {lo hi : Option K} (hg : Good d st h lo hi id) :
    ∃ n, st.nodes id = some n ∧ NodeOk d n ∧ (n.isLeaf = true ↔ h = 0) ∧
      ∀ k ∈ n.keys, Within lo hi k := by
  cases h with
  | zero =>
    obtain ⟨n, hn, hleaf⟩ := hg
    refine ⟨n, hn, ⟨hleaf.sorted, hleaf.few, fun hinner => ?_, fun _ => hleaf.values.symm⟩,
      ⟨fun _ => rfl, fun _ => hleaf.isLeaf⟩, hleaf.within⟩
    cases hleaf.isLeaf.symm.trans hinner
  | succ h =>
    obtain ⟨n, hn, hin, hf⟩ := hg
    refine ⟨n, hn, ⟨hf.sorted, hin.few, fun _ => hf.length, fun hleaf => ?_⟩, ⟨fun hleaf => ?_, nofun⟩,
      fun k hk => ?_⟩
    · cases hin.isLeaf.symm.trans hleaf
    · cases hin.isLeaf.symm.trans hleaf
    · have hb := hf.between k hk
      exact ⟨fun l hl => le_of_lt (hb.1 l hl), hb.2⟩

theorem good_wellFormed {h root : Nat} {lo hi : Option K} (hg : Good d st h lo hi root)
    (hl : Linked st.nextOf none (leafIds st h root)) : WellFormed d st root where
  nodes depth id hu := by
    obtain ⟨h', lo', hi', -, hg', -⟩ := good_under hu hg
    obtain ⟨n, hn, hok, -⟩ := good_node hg'
    exact ⟨n, hn, hok⟩
  separated depth id n i c hu hn hinner hc depth' id' n' hu' hn' k hk := by
    obtain ⟨h', lo', hi', -, hg', -⟩ := good_under hu hg
    cases h' with
    | zero =>
      obtain ⟨n₁, hn₁, hleaf⟩ := hg'
      obtain rfl := Option.some.inj (hn.symm.trans hn₁)
      cases hinner.symm.trans hleaf.isLeaf
    | succ h' =>
      obtain ⟨n₁, hn₁, -, hf⟩ := hg'
      obtain rfl := Option.some.inj (hn.symm.trans hn₁)
      obtain ⟨lo₁, hi₁, hg₁, -, -, hlower, hupper⟩ := hf.of_getElem? hc
      obtain ⟨h₂, lo₂, hi₂, -, hg₂, hwithin⟩ := good_under hu' hg₁
      obtain ⟨n₂, hn₂, -, -, hkeys⟩ := good_node hg₂
      obtain rfl := Option.some.inj (hn'.symm.trans hn₂)
      have hk₁ := hwithin k (hkeys k hk)
      exact ⟨fun j l hj hl => hk₁.1 l (hlower j l hj hl), fun u hu => hk₁.2 u (hupper u hu)⟩
  leaves := by
    obtain ⟨first, rest, hleaves⟩ := List.exists_cons_of_ne_nil (leafIds_ne_nil h hg)
    refine ⟨h, first, rest, fun depth id n hu hn => ?_, hleaves, ?_⟩
    · obtain ⟨h', lo', hi', hh, hg', -⟩ := good_under hu hg
      obtain ⟨n', hn', -, hleaf, -⟩ := good_node hg'
      obtain rfl := Option.some.inj (hn.symm.trans hn')
      rw [hleaf]
      omega
    · rw [hleaves] at hl ⊢
      exact follow_linked hl

end Nodes

/-! ## Calls end -/

section Calls

variable {V B A S : Type}

theorem checkConstructionOptions_ends {stateId : String} {state : Option MapState}
    {degree : Option Nat} {maintainSize : Option Bool} :
    checkConstructionOptions stateId state degree maintainSize ≠ .error .running := by
  unfold checkConstructionOptions
  split
  · exact nofun
  · split
    · exact nofun
    · simp only
      split <;> exact nofun

theorem nodeEntries_ends {codec : Codec V B A S} {request : InsertRequest V B A} :
    nodeEntries codec request ≠ .error .running := by
  unfold nodeEntries
  split
  · split <;> exact nofun
  · split <;> exact nofun

theorem nodeKeys_ends {request : RemoveRequest} : nodeKeys request ≠ .error .running := by
  unfold nodeKeys
  split
  · split <;> exact nofun
  · exact nofun

/-- A call returns or raises. -/
theorem run_ends {codec : Codec V B A S} {stateId : String} {w : World S} (hw : w.Ok)
    (call : Call V B A) : call.run codec stateId w ≠ .error .running := by
  intro h
  cases call with
  | create request =>
    simp only [Call.run] at h
    cases hcheck : checkConstructionOptions stateId w.map request.degree
        (some request.maintainSize) with
    | error e =>
      simp only [create, hcheck] at h
      obtain rfl := Except.error.inj h
      exact checkConstructionOptions_ends hcheck
    | ok _ =>
      obtain ⟨w', m, st, h₀, m', h', hok, -⟩ := create_changed hw hcheck
      cases hok.symm.trans h
  | insert request =>
    simp only [Call.run] at h
    cases hcheck : checkConstructionOptions stateId w.map request.degree request.maintainSize with
    | error e =>
      simp only [OrderedMap.insert, hcheck] at h
      obtain rfl := Except.error.inj h
      exact checkConstructionOptions_ends hcheck
    | ok _ =>
      cases hentries : nodeEntries codec request with
      | error e =>
        simp only [OrderedMap.insert, hcheck, hentries] at h
        obtain rfl := Except.error.inj h
        exact nodeEntries_ends hentries
      | ok entries =>
        obtain ⟨w', m, st, h₀, m', h', gained, hok, -⟩ := insert_changed hw hcheck hentries
        cases hok.symm.trans h
  | remove request =>
    simp only [Call.run] at h
    cases hkeys : nodeKeys request with
    | error e =>
      simp only [OrderedMap.remove, hkeys] at h
      obtain rfl := Except.error.inj h
      exact nodeKeys_ends hkeys
    | ok keys =>
      obtain ⟨w', m, st, h₀, m', h', gained, hok, -⟩ := remove_changed hw hkeys
      cases hok.symm.trans h

/-- After any calls that succeeded the tree is well formed, for the degree of the map, which is
at least 2; and whatever call comes next, it ends. -/
theorem structure_kept (codec : Codec V B A S) (stateId : String) (w : World S)
    (f : Str → Option (Item V B A))
    (hreach : Reach (step codec stateId) (fun _ _ => True) start (w, f)) :
    (∀ m, w.map = some m → 2 ≤ m.degree ∧ WellFormed m.degree w.store m.rootId) ∧
    ∀ call : Call V B A, call.run codec stateId w ≠ .error .running := by
  have hrep : Represents codec (w, f) :=
    hreach.invariant (Represents codec) (start_represents codec)
      fun _ _ _ hs _ hstep => step_represents hs hstep
  refine ⟨fun m hm => ?_, run_ends hrep.ok⟩
  have hok := hrep.ok
  unfold World.Ok at hok
  simp only [hm] at hok
  obtain ⟨h, hr⟩ := hok
  have hl := hr.linked
  rw [leaves_singleton] at hl
  exact ⟨hr.degree, good_wellFormed hr.good hl⟩

/-- A bulk insert into a map of degree 2 that builds several levels at once, and a removal. -/
def severalLevels : List (Call Nat Nat Nat) :=
  [bulkInsert [("a".toList, bytesItem 1), ("b".toList, bytesItem 2), ("c".toList, bytesItem 3),
      ("d".toList, bytesItem 4), ("e".toList, bytesItem 5)] (some 2) (by decide),
    .remove ⟨"c".toList, []⟩]

theorem severalLevels_wellFormed :
    (last (step plainCodec "m") start severalLevels).1.map = some ⟨2, 10, 0, false⟩ ∧
    WellFormed 2 (last (step plainCodec "m") start severalLevels).1.store 10 := by
  have hmap : (last (step plainCodec "m") start severalLevels).1.map = some ⟨2, 10, 0, false⟩ := by
    decide +kernel
  have hkept := structure_kept plainCodec "m" _ _
    (reach_last severalLevels .init (by decide +kernel) :
      Reach (step plainCodec "m") (fun _ _ => True) start
        (last (step plainCodec "m") start severalLevels))
  exact ⟨hmap, (hkept.1 _ hmap).2⟩

end Calls

end Reboot.OrderedMap
