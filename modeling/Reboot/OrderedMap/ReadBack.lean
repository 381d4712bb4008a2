import Reboot.OrderedMap.Range
import Reboot.OrderedMap.ReverseRange

/-!
# Reading back what an `OrderedMap` accepted

A `Value` that is stored must have one of its fields set, which every read asserts
(`valueToItem`). `Insert` refuses a single item without a field, but not one in its bulk entries,
and then the reads that meet it fail: `readsBack_iff` is that after calls whose items are all set,
reads succeed and give back what was inserted, and that the first accepted call with an item that is
not ends this.

A range backwards may skip entries, since a link to a previous leaf can be out of date
(`ReverseRange.lean`). It does succeed: wherever the link leads is a leaf of the tree that was made
before (`World.Backward`), so the range comes to an end.
-/

namespace Reboot.OrderedMap

open Reboot.Lib

/-! ## Out-of-date links -/

section Node

variable {K S : Type} [LinearOrder K] {d : Nat} {st : Store K S} {start : Option K}

/-- Links that lead to earlier leaves come to an end. -/
theorem nodeReverseRange_ends {l : List Nat} (hgood : ∀ i ∈ l, ∃ lo hi, Good d st 0 lo hi i)
    (hback : ∀ i ∈ l, ∀ p, st.prevOf i = some p → p < i ∧ p ∈ l) :
    ∀ (fuel : Nat) {id limit : Nat}, id ∈ l → id < fuel → 0 < limit →
    ∃ entries, nodeReverseRange fuel st id start limit = .ok entries ∧
      ∀ e ∈ entries, ∃ i ∈ l, e ∈ contents st 0 i := by
  intro fuel
  induction fuel with
  | zero =>
    intro id limit _ hfuel
    omega
  | succ fuel ih =>
    intro id limit hid hfuel hlimit
    obtain ⟨lo, hi, n, hn, hleaf⟩ := hgood id hid
    obtain ⟨here, heq⟩ : ∃ here,
        ((contents st 0 id).filter fun e => upTo start e.1).reverse.take limit = here := ⟨_, rfl⟩
    have hhere : ∀ e ∈ here, ∃ i ∈ l, e ∈ contents st 0 i := by
      intro e he
      rw [← heq] at he
      exact ⟨id, hid, (List.mem_filter.mp (List.mem_reverse.mp (List.mem_of_mem_take he))).1⟩
    rw [nodeReverseRange_step hn hleaf hlimit, heq]
    cases hprev : n.prevId with
    | none => exact ⟨here, rfl, hhere⟩
    | some p =>
      dsimp only
      split
      next hshort =>
        have hlink : st.prevOf id = some p := by simp only [Store.prevOf, hn, Option.bind_some, hprev]
        obtain ⟨hlt, hp⟩ := hback id hid p hlink
        have hlimit' : 0 < limit - here.length := by omega
        obtain ⟨more, hmore, hin⟩ := ih hp (Nat.lt_of_lt_of_le hlt (Nat.le_of_lt_succ hfuel)) hlimit'
        refine ⟨here ++ more, ?_, fun e he => ?_⟩
        · rw [hmore]
          rfl
        · rcases List.mem_append.mp he with he | he
          · exact hhere e he
          · exact hin e he
      next => exact ⟨here, rfl, hhere⟩

/-- And so does a range backwards from the top. -/
theorem nodeReverseRange_down {l : List Nat} (hgood : ∀ i ∈ l, ∃ lo hi, Good d st 0 lo hi i)
    (hback : ∀ i ∈ l, ∀ p, st.prevOf i = some p → p < i ∧ p ∈ l) :
    ∀ (h : Nat) {fuel id limit : Nat} {lo hi : Option K}, (∀ i ∈ leafIds st h id, i ∈ l) →
    (∀ i ∈ l, h + i < fuel) → 0 < limit → Good d st h lo hi id → (∀ s ∈ start, Within lo hi s) →
    ∃ entries, nodeReverseRange fuel st id start limit = .ok entries ∧
      ∀ e ∈ entries, ∃ i ∈ l, e ∈ contents st 0 i := by
  intro h
  induction h with
  | zero =>
    intro fuel id limit lo hi hleaves hfuel hlimit _ _
    have hid : id ∈ l := hleaves id (List.mem_singleton_self id)
    exact nodeReverseRange_ends hgood hback fuel hid (by have := hfuel id hid; omega) hlimit
  | succ h ih =>
    intro fuel id limit lo hi hleaves hfuel hlimit hg hstart
    obtain ⟨n, hn, hin, hf⟩ := hg
    obtain ⟨cs₁, c, cs₂, hcs, ⟨lo', hi', hc, hs⟩, -, hstep⟩ :=
      nodeReverseRange_child hn hin hf hstart
    have hsub : ∀ i ∈ leafIds st h c, i ∈ l := by
      intro i hi
      refine hleaves i ?_
      simp only [leafIds, hn, Option.elim_some, hcs, List.flatMap_append, List.flatMap_cons,
        List.mem_append]
      exact Or.inr (Or.inl hi)
    obtain ⟨i, hi⟩ : ∃ i, i ∈ leafIds st h c :=
      List.exists_mem_of_ne_nil _ (leafIds_ne_nil h hc)
    obtain ⟨fuel, rfl⟩ : ∃ f, fuel = f + 1 := ⟨fuel - 1, by have := hfuel i (hsub i hi); omega⟩
    rw [hstep fuel limit hlimit]
    exact ih hsub (fun i hi => by have := hfuel i hi; omega) hlimit hc hs

end Node

variable {V B A S : Type}

/-- A link to a previous leaf leads to a leaf of the tree that was made earlier. -/
def World.Backward (w : World S) : Prop :=
  ∀ m h, w.map = some m → Ready w.store m h → ∀ i ∈ leaves w.store h [m.rootId],
    ∀ p, w.store.prevOf i = some p → p < i ∧ p ∈ leaves w.store h [m.rootId]

theorem Changed.backward {w w' : World S} {m m' : MapState} {st : Store Str S} {h h' : Nat}
    {new : List (Str × S)} {touched : List Str} {gained : Int} {ok : Prop}
    (hc : Changed w m st h new touched gained ok w' m' h') (hb : w.Backward) (hw : w.Ok) :
    ∀ i ∈ leaves st h [m.rootId], ∀ p, st.prevOf i = some p →
      p < i ∧ p ∈ leaves st h [m.rootId] := by
  obtain ⟨degree, maintainSize, -, hopen⟩ := hc.before
  unfold opened at hopen
  unfold World.Ok at hw
  cases hm : w.map with
  | some m₀ =>
    rw [hm] at hopen
    obtain ⟨rfl, rfl⟩ := Prod.mk.inj hopen
    exact hb m₀ h hm hc.ready
  | none =>
    rw [hm] at hopen hw
    obtain ⟨rfl, rfl⟩ := Prod.mk.inj hopen
    have hzero : h = 0 :=
      height_unique h 0 hc.ready.good (emptyLeaf_ready hw hc.ready.degree).good
    subst hzero
    intro i hi p hp
    rw [leaves_singleton] at hi
    obtain rfl := List.mem_singleton.mp hi
    simp [Store.prevOf, Store.set_nodes_self, emptyLeaf] at hp

/-- One call. -/
theorem step_backward {codec : Codec V B A S} {stateId : String}
    {s s' : World S × (Str → Option (Item V B A))} {call : Call V B A} (hw : s.1.Ok)
    (hb : s.1.Backward) (h : step codec stateId s call = some s') : s'.1.Backward := by
  unfold step at h
  cases hrun : call.run codec stateId s.1 with
  | error e =>
    simp only [hrun] at h
    cases h
  | ok w' =>
    simp only [hrun] at h
    obtain rfl := Option.some.inj h
    obtain ⟨m, st, h₀, m', h', gained, hc⟩ := call_changed hw hrun
    have hbefore := hc.backward hb hw
    intro m₁ h₁ hm₁ hr₁ i hi p hp
    obtain rfl := Option.some.inj (hc.map.symm.trans hm₁)
    rw [height_unique h₁ h' hr₁.good hc.ready_after.good] at hi ⊢
    rcases hc.updated.back i hi p hp with ⟨hold, hsame⟩ | hnew
    · obtain ⟨hlt, hmem⟩ := hbefore i hold p hsame
      exact ⟨hlt, hc.updated.kept p hmem⟩
    · exact hnew

/-! ## Reads -/

/-- Every read succeeds, and an item that it gives is the one that was inserted. -/
structure ReadsBack (codec : Codec V B A S) (s : World S × (Str → Option (Item V B A))) : Prop where
  search : ∀ key, OrderedMap.search codec s.1 key = .ok (s.2 key)
  range : ∀ request : RangeRequest, 0 < request.limit →
    ∃ entries size, OrderedMap.range codec s.1 request = .ok (entries, size) ∧
      ∀ e ∈ entries, s.2 e.1 = some e.2
  reverseRange : ∀ request : ReverseRangeRequest, 0 < request.limit →
    ∃ entries, OrderedMap.reverseRange codec s.1 request = .ok entries ∧
      ∀ e ∈ entries, s.2 e.1 = some e.2

/-- A search that finds an entry reads its value. -/
theorem Represents.search_some {codec : Codec V B A S}
    {s : World S × (Str → Option (Item V B A))} {m : MapState} (hs : Represents codec s)
    (hm : s.1.map = some m) {key : Str} {item : Item V B A} (hkey : s.2 key = some item) :
    search codec s.1 key = (valueToItem (itemToValue item)).map some := by
  unfold Represents at hs
  rw [hm] at hs
  obtain ⟨h, hr, hh⟩ := hs
  obtain ⟨r, hsearch, hfound⟩ := nodeSearch_spec h hr.height_lt hr.good (within_none key)
  obtain rfl : r = some (encode codec item) := by
    rw [hfound, ← stored_singleton, hh, hkey]
    rfl
  simp only [OrderedMap.search, hm, hsearch]
  change (do let item ← valueToItem (codec.parse (encode codec item)); Except.ok (some item)) = _
  rw [encode, codec.roundTrip]
  cases valueToItem (itemToValue item) <;> rfl

theorem Simulates.range {codec : Codec V B A S} {s : World S × (Str → Option (Item V B A))}
    {m : MapState} (hs : Simulates codec s) (hkept : Kept s.2) (hm : s.1.map = some m)
    (request : RangeRequest) (hlimit : 0 < request.limit) :
    ∃ entries size, OrderedMap.range codec s.1 request = .ok (entries, size) ∧
      ∀ e ∈ entries, s.2 e.1 = some e.2 := by
  obtain ⟨hrep, hread⟩ := simulates_iff.mp hs
  obtain ⟨all, hall, hrun⟩ := nodeRange_items hrep hm request hlimit
  have hitem : ∀ e ∈ all.take request.limit, s.2 e.1 = some e.2 := fun e he =>
    ((hall.mem e.1 e.2).mp (List.mem_of_mem_take he)).1
  have hset : ∀ e ∈ all.take request.limit, itemToValue e.2 ≠ .unset := by
    intro e he hunset
    have hvalue := hread e.1 e.2 (hitem e he)
    rw [hunset] at hvalue
    exact nomatch hvalue
  refine ⟨all.take request.limit, if m.maintainSize then some m.size else none, ?_, hitem⟩
  simp only [OrderedMap.range, hm, hrun]
  change (do let entries ← entriesOf codec _; Except.ok (entries, _)) = _
  rw [(entriesOf_items codec fun e he => hkept e.1 e.2 (hitem e he)).1 hset]
  rfl

theorem Simulates.reverseRange {codec : Codec V B A S}
    {s : World S × (Str → Option (Item V B A))} {m : MapState} (hs : Simulates codec s)
    (hb : s.1.Backward) (hm : s.1.map = some m) (request : ReverseRangeRequest)
    (hlimit : 0 < request.limit) :
    ∃ entries, OrderedMap.reverseRange codec s.1 request = .ok entries ∧
      ∀ e ∈ entries, s.2 e.1 = some e.2 := by
  unfold Simulates at hs
  rw [hm] at hs
  obtain ⟨h, hr, hh⟩ := hs
  have hback := hb m h hm hr
  rw [leaves_singleton] at hback
  have hbelow : ∀ i ∈ leafIds s.1.store h m.rootId, i < s.1.store.next := by
    intro i hi
    refine hr.trees.below i ?_
    rw [allIds_singleton]
    exact (leafIds_sublist h m.rootId).subset hi
  have hfuel : ∀ i ∈ leafIds s.1.store h m.rootId, h + i < 2 * s.1.store.next := by
    intro i hi
    have hlt := hbelow i hi
    have hheight := hr.height_lt
    omega
  obtain ⟨entries, hrun, hin⟩ : ∃ entries, nodeReverseRange (2 * s.1.store.next) s.1.store m.rootId
      (request.startKey.filter fun key => decide (key ≠ [])) request.limit = .ok entries ∧
      ∀ e ∈ entries, ∃ i ∈ leafIds s.1.store h m.rootId, e ∈ contents s.1.store 0 i :=
    nodeReverseRange_down (fun i hi => leaf_good h hr.good hi) hback h (fun _ hi => hi) hfuel hlimit
      hr.good fun s _ => within_none s
  have hstored : ∀ e ∈ entries, e ∈ stored s.1.store h [m.rootId] := by
    intro e he
    obtain ⟨i, hi, hc⟩ := hin e he
    rw [stored_singleton, contents_leafIds]
    exact List.mem_flatMap.mpr ⟨i, hi, hc⟩
  obtain ⟨items, hmap, hitems, hof⟩ := entriesOf_holds hh hstored
  have hlen : items.length = entries.length := by rw [← hmap, List.length_map]
  have hall := hof entries.length
  rw [List.take_length, ← hlen, List.take_length] at hall
  refine ⟨items, ?_, hitems⟩
  simp only [OrderedMap.reverseRange, hm, hrun]
  exact hall

/-! ## Runs -/

/-- An accepted insert with an item that is not set leaves a key that cannot be searched. -/
theorem not_readsBack {codec : Codec V B A S} {stateId : String}
    {s s' : World S × (Str → Option (Item V B A))} {call : Call V B A}
    (hs : Represents codec s) (h : step codec stateId s call = some s') (hunset : ¬ call.ItemsSet) :
    ¬ ReadsBack codec s' := by
  intro hreads
  have hrep := step_represents hs h
  obtain ⟨m, hm⟩ := step_constructed hs.ok h
  cases call with
  | create request => exact hunset trivial
  | remove request => exact hunset trivial
  | insert request =>
    obtain ⟨e, he⟩ := Classical.not_forall.mp hunset
    obtain ⟨he, hvalue⟩ := Classical.not_imp.mp he
    have hitems : request.items = request.entries := by
      unfold InsertRequest.items
      split
      next hnil =>
        rw [hnil] at he
        exact absurd he List.not_mem_nil
      next => rfl
    have hlookup : request.items.lookup e.1 = some e.2 :=
      (lookup_iff_mem (items_nodup request)).mpr (by rw [hitems]; exact he)
    have hkey : s'.2 e.1 = some e.2.first := by
      unfold step at h
      split at h
      next =>
        obtain rfl := Option.some.inj h
        simp only [Call.apply, hlookup, Option.elim_some]
      next => cases h
    have hfails := hrep.search_some hm hkey
    rw [itemToValue_first, Classical.not_not.mp hvalue] at hfails
    cases (hreads.search e.1).symm.trans hfails

/-- After any accepted calls whose items are set, every read of the map succeeds and gives back what
was inserted; and one more accepted call keeps it so if and only if its items are set. -/
theorem readsBack_iff (codec : Codec V B A S) (stateId : String) (w : World S)
    (f : Str → Option (Item V B A))
    (hreach : Reach (step codec stateId) (fun _ call => call.ItemsSet) start (w, f)) :
    (w.map ≠ none → ReadsBack codec (w, f)) ∧
      ∀ call s', step codec stateId (w, f) call = some s' →
        (ReadsBack codec s' ↔ call.ItemsSet) := by
  have hstep : ∀ (s s' : World S × (Str → Option (Item V B A))) (call : Call V B A),
      (Simulates codec s ∧ Kept s.2) ∧ s.1.Backward → call.ItemsSet →
      step codec stateId s call = some s' → (Simulates codec s' ∧ Kept s'.2) ∧ s'.1.Backward :=
    fun _ _ _ hs hset h => ⟨⟨step_simulates hs.1.1 hset h, step_kept hs.1.2 h⟩,
      step_backward hs.1.1.ok hs.2 h⟩
  have hreads : ∀ s : World S × (Str → Option (Item V B A)),
      (Simulates codec s ∧ Kept s.2) ∧ s.1.Backward → s.1.map ≠ none → ReadsBack codec s := by
    rintro s ⟨⟨hs, hkept⟩, hb⟩ hne
    obtain ⟨m, hm⟩ := Option.ne_none_iff_exists'.mp hne
    exact ⟨hs.search hm, hs.range hkept hm, hs.reverseRange hb hm⟩
  have hinv := hreach.invariant _ ⟨⟨start_simulates codec, nofun⟩, fun m h hm => nomatch hm⟩
    fun s call s' hs hset h => hstep s s' call hs hset h
  refine ⟨hreads (w, f) hinv, fun call s' h => ⟨fun hs' => ?_, fun hset => ?_⟩⟩
  · have hrep := (simulates_iff.mp hinv.1.1).1
    exact Classical.byContradiction fun hunset => not_readsBack hrep h hunset hs'
  · obtain ⟨m, hm⟩ := step_constructed hinv.1.1.ok h
    exact hreads s' (hstep (w, f) s' call hinv hset h) (by rw [hm]; exact nofun)

/-- Two bulk inserts, of which the second splits a leaf in the middle; ranges backwards then skip
entries, and still succeed. -/
theorem readsBack_iff_middleSplit :
    ReadsBack plainCodec (last (step plainCodec "m") start middleSplit) := by
  have hok : RunOk (step plainCodec "m") (fun _ call => call.ItemsSet) start middleSplit := by
    decide +kernel
  exact (readsBack_iff plainCodec "m" _ _ (reach_last middleSplit .init hok)).1 (by decide +kernel)

/-- The insert of an item that is not set is accepted, and the key cannot be read. -/
theorem readsBack_iff_unsetItem :
    ∃ s, exec (step plainCodec "m") start unsetItem = some s ∧
      search plainCodec s.1 "b".toList = .error .failed ∧
      range plainCodec s.1 ⟨none, 2⟩ = .error .failed ∧
      reverseRange plainCodec s.1 ⟨none, 2⟩ = .error .failed ∧ ¬ ReadsBack plainCodec s := by
  have hsearch : search plainCodec (last (step plainCodec "m") start unsetItem).1 "b".toList =
      .error .failed := by decide +kernel
  refine ⟨_, exec_eq_last (by decide +kernel), hsearch, by decide +kernel, by decide +kernel, ?_⟩
  exact fun hreads => nomatch (hreads.search "b".toList).symm.trans hsearch

end Reboot.OrderedMap
