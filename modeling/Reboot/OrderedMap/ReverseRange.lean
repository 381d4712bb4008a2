import Reboot.OrderedMap.FiniteMap

/-!
# `ReverseRange`

A range backwards goes down the tree to the leaf the start key belongs to, and then from leaf to
leaf along `prev_id`. It is right if those links are: `reverseRange_exact` says so of every run
in which no insert splits a leaf that has a next one.

An insert that does leaves a wrong link behind. The new leaves are put between the leaf that was
split and its next, but the next one's `prev_id` is not changed; it still leads to the leaf that
was split, and a range backwards that comes by skips the new leaves
(`middleSplit_skips`).

Mirroring notes:
- An empty start key counts as none, also where the request sets it. A request that asks for keys
  up to the empty one is then given all of them.
-/

namespace Reboot.OrderedMap

open Reboot.Lib

section Node

variable {K S : Type} [LinearOrder K]

/-- At or before the start, if there is one. -/
def upTo (start : Option K) (k : K) : Bool := start.all fun s => k ≤ s

/-! ## A leaf -/

/-- On sorted entries a test that is closed downwards holds on a prefix. -/
theorem takeWhile_eq_filter {l : List (K × S)} (hs : l.Pairwise fun a b => a.1 < b.1) (s : K) :
    (l.takeWhile fun e => decide (e.1 ≤ s)) = l.filter fun e => decide (e.1 ≤ s) := by
  induction l with
  | nil => rfl
  | cons e l ih =>
    obtain ⟨hgt, hs⟩ := List.pairwise_cons.mp hs
    by_cases he : e.1 ≤ s
    · rw [List.takeWhile_cons_of_pos (by simpa using he), List.filter_cons_of_pos (by simpa using he),
        ih hs]
    · rw [List.takeWhile_cons_of_neg (by simpa using he), List.filter_cons_of_neg (by simpa using he)]
      refine (List.filter_eq_nil_iff.mpr fun e' he' => ?_).symm
      have := hgt e' he'
      simp only [decide_eq_true_eq, not_le]
      exact lt_trans (not_le.mp he) this

/-- The entries of a leaf that a range starts with. -/
theorem leaf_upTo {d : Nat} {lo hi : Option K} {n : Node K S} (hleaf : GoodLeaf d lo hi n)
    (start : Option K) :
    n.entries.take (match start with
      | none => n.keys.length
      | some key => bisectRight n.keys key) = n.entries.filter fun e => upTo start e.1 := by
  cases start with
  | none =>
    have hlen : n.keys.length = n.entries.length := by rw [← hleaf.map_fst, List.length_map]
    simp [upTo, hlen]
  | some key =>
    have hcut : bisectRight n.keys key =
        (n.entries.takeWhile fun e => decide (e.1 ≤ key)).length := by
      rw [bisectRight_eq (hleaf.sorted.imp le_of_lt), upperBound, ← hleaf.map_fst,
        List.takeWhile_map, List.length_map]
      rfl
    simp only [hcut, upTo, Option.all_some]
    rw [← takeWhile_eq_filter hleaf.sorted_entries]
    exact (List.prefix_iff_eq_take.mp (List.takeWhile_prefix _)).symm

/-! ## Along the leaves -/

variable {d : Nat} {st : Store K S} {start : Option K}

/-- One leaf of a range: what it has up to the start, and more from the previous one if that is
not enough. -/
theorem nodeReverseRange_step {fuel id limit : Nat} {lo hi : Option K} {n : Node K S}
    (hn : st.nodes id = some n) (hleaf : GoodLeaf d lo hi n) (hlimit : 0 < limit) :
    nodeReverseRange (fuel + 1) st id start limit =
      match n.prevId with
      | some prev =>
        if (((contents st 0 id).filter fun e => upTo start e.1).reverse.take limit).length < limit then do
          let more ← nodeReverseRange fuel st prev start (limit -
            (((contents st 0 id).filter fun e => upTo start e.1).reverse.take limit).length)
          .ok (((contents st 0 id).filter fun e => upTo start e.1).reverse.take limit ++ more)
        else .ok (((contents st 0 id).filter fun e => upTo start e.1).reverse.take limit)
      | none => .ok (((contents st 0 id).filter fun e => upTo start e.1).reverse.take limit) := by
  have hup := leaf_upTo hleaf start
  have hhere : contents st 0 id = n.entries := by
    simp only [contents, hn, Option.elim_some]
  have hzip : n.keys.zip n.values = n.entries := rfl
  cases start with
  | none =>
    simp only at hup
    cases hprev : n.prevId with
    | none =>
      simp only [nodeReverseRange, hn, hleaf.isLeaf, Nat.ne_of_gt hlimit, if_true, if_false, hhere,
        ← hup, hzip, hprev]
    | some prev =>
      simp only [nodeReverseRange, hn, hleaf.isLeaf, Nat.ne_of_gt hlimit, if_true, if_false, hhere,
        ← hup, hzip, hprev]
  | some key =>
    simp only at hup
    cases hprev : n.prevId with
    | none =>
      simp only [nodeReverseRange, hn, hleaf.isLeaf, Nat.ne_of_gt hlimit, if_true, if_false, hhere,
        ← hup, hzip, hprev]
    | some prev =>
      simp only [nodeReverseRange, hn, hleaf.isLeaf, Nat.ne_of_gt hlimit, if_true, if_false, hhere,
        ← hup, hzip, hprev]

/-- What the leaves from `id` backwards hold up to the start, backwards. -/
theorem nodeReverseRange_leaf : ∀ (l : List Nat) {fuel id limit : Nat}, l.length < fuel →
    0 < limit → (∀ i ∈ id :: l, ∃ lo hi, Good d st 0 lo hi i) →
    Linked st.prevOf none (id :: l) →
    nodeReverseRange fuel st id start limit =
      .ok (((id :: l).flatMap fun i =>
        ((contents st 0 i).filter fun e => upTo start e.1).reverse).take limit) := by
  intro l
  induction l with
  | nil =>
    intro fuel id limit hfuel hlimit hgood hl
    obtain ⟨lo, hi, n, hn, hleaf⟩ := hgood id (by simp)
    obtain ⟨fuel, rfl⟩ : ∃ f, fuel = f + 1 := ⟨fuel - 1, by omega⟩
    have hprev : n.prevId = none := by
      have := hl.1
      simpa [Store.prevOf, hn] using this
    rw [nodeReverseRange_step hn hleaf hlimit, List.flatMap_singleton]
    simp only [hprev]
  | cons p l ih =>
    intro fuel id limit hfuel hlimit hgood hl
    obtain ⟨lo, hi, n, hn, hleaf⟩ := hgood id (by simp)
    obtain ⟨fuel, rfl⟩ : ∃ f, fuel = f + 1 := ⟨fuel - 1, by omega⟩
    have hprev : n.prevId = some p := by
      have := hl.1
      simpa [Store.prevOf, hn] using this
    rw [nodeReverseRange_step hn hleaf hlimit, List.flatMap_cons]
    simp only [hprev]
    generalize ((contents st 0 id).filter fun e => upTo start e.1).reverse = r
    rw [List.length_cons] at hfuel
    split
    next hshort =>
      -- the leaf does not have enough
      have hshort : r.length < limit := by
        rw [List.length_take] at hshort
        omega
      have hrest := @ih fuel p (limit - r.length) (by omega) (by omega)
        (fun i hi => hgood i (List.mem_cons_of_mem _ hi)) hl.2
      rw [List.take_of_length_le (Nat.le_of_lt hshort), hrest, List.take_append,
        List.take_of_length_le (Nat.le_of_lt hshort)]
      rfl
    next hlong =>
      have hlong : limit ≤ r.length := by
        rw [List.length_take] at hlong
        omega
      rw [List.take_append_of_le_length hlong]

/-! ## Down the tree -/

/-- The child a range goes to: what is right of it comes after the start. -/
theorem nodeReverseRange_child {h id : Nat} {lo hi : Option K} {n : Node K S}
    (hn : st.nodes id = some n) (hin : GoodInner d n)
    (hf : Forest (Good d st h) lo hi n.childrenIds n.keys) (hstart : ∀ s ∈ start, Within lo hi s) :
    ∃ cs₁ c cs₂, n.childrenIds = cs₁ ++ c :: cs₂ ∧
      (∃ lo' hi', Good d st h lo' hi' c ∧ ∀ s ∈ start, Within lo' hi' s) ∧
      (∀ e ∈ stored st h cs₂, upTo start e.1 = false) ∧
      ∀ fuel limit, 0 < limit →
        nodeReverseRange (fuel + 1) st id start limit = nodeReverseRange fuel st c start limit := by
  cases start with
  | none =>
    obtain ⟨cs₁, c, hcs⟩ : ∃ cs₁ c, n.childrenIds = cs₁ ++ [c] :=
      ⟨_, _, (List.dropLast_append_getLast hf.ne_nil).symm⟩
    obtain ⟨lo', hi', hc⟩ := hf.of_mem (c := c) (by rw [hcs]; simp)
    refine ⟨cs₁, c, [], hcs, ⟨lo', hi', hc, fun s hs => (nomatch hs)⟩, fun e he => (nomatch he), ?_⟩
    intro fuel limit hlimit
    simp only [nodeReverseRange, hn, hin.isLeaf, Nat.ne_of_gt hlimit, if_false, hcs,
      List.getLast?_append, List.getLast?_singleton, Option.some_or, Bool.false_eq_true]
  | some s =>
    obtain ⟨cs₁, c, cs₂, hcs, hlen, ⟨lo', hi', hc, hs⟩, -, hright⟩ :=
      hf.route_split (f := contents st h) (fun c _ lo hi hc => contents_within h hc) (hstart s rfl)
    refine ⟨cs₁, c, cs₂, hcs, ⟨lo', hi', hc, fun s' hs' => ?_⟩, fun e he => ?_, ?_⟩
    · obtain rfl := Option.some.inj hs'
      exact hs
    · have := hright e he
      simpa [upTo] using this
    · intro fuel limit hlimit
      have hchild : findChild n s = .ok c := by
        simp only [findChild, bisectRight_forest hf, ← hlen, hcs]
        simp
      simp only [nodeReverseRange, hn, hin.isLeaf, Nat.ne_of_gt hlimit, if_false, hchild,
        Bool.false_eq_true]
      rfl

/-- A range backwards from a node, with the leaves that are left of its tree. -/
theorem nodeReverseRange_spec : ∀ (h : Nat) {fuel id limit : Nat} {lo hi : Option K}
    {left : List Nat}, h + (left ++ leafIds st h id).length ≤ fuel → 0 < limit →
    Good d st h lo hi id → (∀ s ∈ start, Within lo hi s) →
    (∀ i ∈ left, ∃ lo hi, Good d st 0 lo hi i) →
    Linked st.prevOf none (left ++ leafIds st h id).reverse →
    nodeReverseRange fuel st id start limit =
      .ok ((((left ++ leafIds st h id).flatMap (contents st 0)).filter
        fun e => upTo start e.1).reverse.take limit) := by
  intro h
  induction h with
  | zero =>
    intro fuel id limit lo hi left hfuel hlimit hg _ hleft hl
    rw [leafIds] at hl hfuel ⊢
    rw [List.reverse_append] at hl
    have hgood : ∀ i ∈ id :: left.reverse, ∃ lo hi, Good d st 0 lo hi i := by
      intro i hmem
      rcases List.mem_cons.mp hmem with rfl | hmem
      · exact ⟨lo, hi, hg⟩
      · exact hleft i (List.mem_reverse.mp hmem)
    have hlen : left.reverse.length < fuel := by
      rw [List.length_append, List.length_singleton] at hfuel
      rw [List.length_reverse]
      omega
    rw [nodeReverseRange_leaf left.reverse hlen hlimit hgood hl, List.filter_flatMap,
      List.reverse_flatMap, List.reverse_append]
    rfl
  | succ h ih =>
    intro fuel id limit lo hi left hfuel hlimit hg hstart hleft hl
    obtain ⟨n, hn, hin, hf⟩ := hg
    obtain ⟨cs₁, c, cs₂, hcs, ⟨lo', hi', hc, hs⟩, hright, hstep⟩ :=
      nodeReverseRange_child hn hin hf hstart
    have hleaves : leafIds st (h + 1) id = leaves st h cs₁ ++ (leafIds st h c ++ leaves st h cs₂) := by
      simp only [leafIds, hn, Option.elim_some, hcs, List.flatMap_append, List.flatMap_cons, leaves]
    rw [hleaves] at hl hfuel ⊢
    obtain ⟨fuel, rfl⟩ : ∃ f, fuel = f + 1 := ⟨fuel - 1, by omega⟩
    rw [hstep fuel limit hlimit]
    rw [← List.append_assoc, ← List.append_assoc, linked_reverse_append] at hl
    have hfuel' : h + ((left ++ leaves st h cs₁) ++ leafIds st h c).length ≤ fuel := by
      simp only [List.length_append] at hfuel ⊢
      omega
    have hleft' : ∀ i ∈ left ++ leaves st h cs₁, ∃ lo hi, Good d st 0 lo hi i := by
      intro i hi
      rcases List.mem_append.mp hi with hi | hi
      · exact hleft i hi
      · obtain ⟨c', hc', hi⟩ := List.mem_flatMap.mp hi
        obtain ⟨_, _, hg'⟩ := hf.of_mem (c := c') (by rw [hcs]; exact List.mem_append_left _ hc')
        exact leaf_good h hg' hi
    rw [ih hfuel' hlimit hc hs hleft' hl.2]
    have hnone : ((leaves st h cs₂).flatMap (contents st 0)).filter (fun e => upTo start e.1) = [] := by
      rw [stored_leaves]
      refine List.filter_eq_nil_iff.mpr fun e he => ?_
      rw [hright e he]
      exact Bool.false_ne_true
    have hall : (left ++ (leaves st h cs₁ ++ (leafIds st h c ++ leaves st h cs₂))) =
        ((left ++ leaves st h cs₁) ++ leafIds st h c) ++ leaves st h cs₂ := by
      simp only [List.append_assoc]
    rw [hall]
    generalize (left ++ leaves st h cs₁) ++ leafIds st h c = here
    rw [List.flatMap_append, List.filter_append, hnone, List.append_nil]

end Node

/-! ## The links backwards -/

section Map

variable {V B A S : Type}

/-- The links to previous leaves are the links to next ones, backwards. -/
def World.BackLinked (w : World S) : Prop :=
  ∀ m h, w.map = some m → Ready w.store m h →
    Linked w.store.prevOf none (leaves w.store h [m.rootId]).reverse

/-- A call does not split a leaf that has a next one. -/
def Call.SplitsLast (codec : Codec V B A S) (w : World S) (call : Call V B A) : Prop :=
  ∀ m ∈ w.map, call.splitsLast codec m w.store = true

/-- What a method works on is linked backwards, and the method splits last leaves only. -/
theorem Changed.careful {codec : Codec V B A S} {w w' : World S} {m m' : MapState}
    {st : Store Str S} {h h' : Nat} {call : Call V B A} {touched : List Str} {gained : Int}
    {ok : Prop} (hc : Changed w m st h (call.new codec) touched gained ok w' m' h')
    (hb : w.BackLinked) (hlast : call.SplitsLast codec w) :
    Linked st.prevOf none (leaves st h [m.rootId]).reverse ∧ call.splitsLast codec m st = true := by
  obtain ⟨degree, maintainSize, -, hopen⟩ := hc.before
  unfold opened at hopen
  cases hm : w.map with
  | some m₀ =>
    rw [hm] at hopen
    obtain ⟨rfl, rfl⟩ := Prod.mk.inj hopen
    exact ⟨hb m₀ h hm hc.ready, hlast m₀ hm⟩
  | none =>
    rw [hm] at hopen
    obtain ⟨rfl, rfl⟩ := Prod.mk.inj hopen
    have hnode : ({ w.store with next := w.store.next + 1 }.set w.store.next
        (emptyLeaf degree)).nodes w.store.next = some (emptyLeaf degree) := Store.set_nodes_self ..
    have hzero : h = 0 := by
      cases h with
      | zero => rfl
      | succ h =>
        obtain ⟨n, hn, hin, -⟩ := hc.ready.good
        obtain rfl := Option.some.inj (hnode.symm.trans hn)
        cases hin.isLeaf
    subst hzero
    refine ⟨⟨?_, trivial⟩, ?_⟩
    · simp [Store.prevOf, Store.set_nodes_self, emptyLeaf]
    · simp [Call.splitsLast, splitsLast, Store.set, emptyLeaf]

theorem step_backLinked {codec : Codec V B A S} {stateId : String}
    {s s' : World S × (Str → Option (Item V B A))} {call : Call V B A} (hw : s.1.Ok)
    (hb : s.1.BackLinked) (hlast : call.SplitsLast codec s.1)
    (h : step codec stateId s call = some s') : s'.1.BackLinked := by
  unfold step at h
  cases hrun : call.run codec stateId s.1 with
  | error e => simp only [hrun] at h; cases h
  | ok w' =>
    simp only [hrun] at h
    obtain rfl := Option.some.inj h
    obtain ⟨m, st, h₀, m', h', gained, hc⟩ := call_changed hw hrun
    obtain ⟨hprev, hok⟩ := hc.careful hb hlast
    intro m₁ h₁ hm₁ hr₁
    obtain rfl := Option.some.inj (hc.map.symm.trans hm₁)
    rw [height_unique h₁ h' hr₁.good hc.ready_after.good]
    exact hc.updated.prevs hok none none hc.ready.linked hprev

/-! ## The map -/

/-- The entries of the finite map whose keys are at or before the start, in descending order, cut
off after `limit`. -/
def IsReverseRange (f : Str → Option (Item V B A)) (request : ReverseRangeRequest)
    (response : Except Failure (List (Str × Item V B A))) : Prop :=
  ∃ all : List (Str × Item V B A), (all.Pairwise fun a b => b.1 < a.1) ∧
    (∀ k item, (k, item) ∈ all ↔ f k = some item ∧ ∀ s ∈ request.startKey, k ≤ s) ∧
    response = .ok (all.take request.limit)

/-- Entries of the tree can be turned into entries of the response, and so can some of them. -/
theorem entriesOf_holds {codec : Codec V B A S} {f : Str → Option (Item V B A)}
    {entries : List (Str × S)} (hh : Holds codec f entries) :
    ∀ {l : List (Str × S)}, (∀ e ∈ l, e ∈ entries) →
    ∃ items : List (Str × Item V B A), items.map (fun e => (e.1, encode codec e.2)) = l ∧
      (∀ e ∈ items, f e.1 = some e.2) ∧ ∀ n, entriesOf codec (l.take n) = .ok (items.take n) := by
  intro l
  induction l with
  | nil => intro _; exact ⟨[], rfl, by simp, fun n => by simp [entriesOf]⟩
  | cons e l ih =>
    intro hin
    obtain ⟨items, hmap, hf, hof⟩ := ih fun e he => hin e (List.mem_cons_of_mem _ he)
    obtain ⟨k, v⟩ := e
    have hk := (hh.mem k v).mp (hin (k, v) (by simp))
    obtain ⟨item, hitem, rfl⟩ := Option.map_eq_some_iff.mp hk
    refine ⟨(k, item) :: items, by rw [List.map_cons, hmap], ?_, fun n => ?_⟩
    · intro e he
      rcases List.mem_cons.mp he with rfl | he
      · exact hitem
      · exact hf e he
    · cases n with
      | zero => simp [entriesOf]
      | succ n =>
        have hitem' : valueToItem (codec.parse (encode codec item)) = .ok item := by
          rw [encode, codec.roundTrip]
          exact hh.readable k item hitem
        simp only [List.take_succ_cons, entriesOf, hitem', hof n]
        rfl

theorem reverseRange_spec {codec : Codec V B A S} {s : World S × (Str → Option (Item V B A))}
    {m : MapState} (hs : Simulates codec s) (hb : s.1.BackLinked) (hm : s.1.map = some m)
    (request : ReverseRangeRequest) (hlimit : 0 < request.limit)
    (hstart : request.startKey = some [] → ∀ k, s.2 k ≠ none → k = []) :
    IsReverseRange s.2 request (reverseRange codec s.1 request) := by
  unfold Simulates at hs
  rw [hm] at hs
  obtain ⟨h, hr, hh⟩ := hs
  have hb := hb m h hm hr
  rw [stored_singleton] at hh
  rw [leaves_singleton] at hb
  obtain ⟨start, hst⟩ : ∃ start, request.startKey.filter (fun key => decide (key ≠ [])) = start :=
    ⟨_, rfl⟩
  have hfuel : h + ([] ++ leafIds s.1.store h m.rootId).length ≤ 2 * s.1.store.next := by
    have hlt := hr.height_lt
    have hleaves : (leafIds s.1.store h m.rootId).length ≤ s.1.store.next :=
      le_trans (leafIds_sublist h m.rootId).length_le hr.nodeIds_le
    rw [List.nil_append]
    omega
  have hrun : nodeReverseRange (2 * s.1.store.next) s.1.store m.rootId start request.limit = _ :=
    nodeReverseRange_spec h hfuel hlimit hr.good (fun s _ => within_none s)
      (fun i hi => (nomatch hi)) hb
  rw [List.nil_append, ← contents_leafIds] at hrun
  obtain ⟨all, hmap, hall, hof⟩ := entriesOf_holds hh
    (l := ((contents s.1.store h m.rootId).filter fun e => upTo start e.1).reverse)
    fun e he => (List.mem_filter.mp (List.mem_reverse.mp he)).1
  -- an empty start key is none, which only is the same if there are no other keys
  have hkeep : ∀ k item, s.2 k = some item →
      (upTo start k = true ↔ ∀ s ∈ request.startKey, k ≤ s) := by
    intro k item hk
    rw [← hst]
    cases hkey : request.startKey with
    | none => simp [upTo]
    | some key =>
      by_cases hempty : key = []
      · subst hempty
        have hnil : k = [] := hstart hkey k (by rw [hk]; simp)
        simp [upTo, hnil]
      · simp [upTo, hempty]
  refine ⟨all, ?_, fun k item => ?_, ?_⟩
  · have hdesc : ((contents s.1.store h m.rootId).filter fun e => upTo start e.1).reverse.Pairwise
        fun a b => b.1 < a.1 :=
      List.pairwise_reverse.mpr ((contents_sorted h hr.good).filter _)
    rw [← hmap, List.pairwise_map] at hdesc
    exact hdesc
  · constructor
    · intro hin
      have hk := hall _ hin
      have hmem : (k, encode codec item) ∈
          ((contents s.1.store h m.rootId).filter fun e => upTo start e.1).reverse := by
        rw [← hmap]
        exact List.mem_map.mpr ⟨_, hin, rfl⟩
      exact ⟨hk, (hkeep k item hk).mp (List.mem_filter.mp (List.mem_reverse.mp hmem)).2⟩
    · rintro ⟨hk, hle⟩
      have hmem : (k, encode codec item) ∈ all.map fun e => (e.1, encode codec e.2) := by
        rw [hmap, List.mem_reverse, List.mem_filter]
        exact ⟨(hh.mem k _).mpr (by rw [hk]; rfl), (hkeep k item hk).mpr hle⟩
      obtain ⟨⟨k', item'⟩, hin, heq⟩ := List.mem_map.mp hmem
      obtain ⟨rfl, -⟩ := Prod.mk.inj heq
      have hk' := hall _ hin
      obtain rfl := Option.some.inj (hk'.symm.trans hk)
      exact hin
  · simp only [reverseRange, hm, hst, hrun]
    exact hof request.limit

/-- In a run whose inserts split last leaves only, ranges backwards are exact: the entries up to
the start in descending order, as many as asked for. -/
theorem reverseRange_exact (codec : Codec V B A S) (stateId : String) (w : World S)
    (f : Str → Option (Item V B A))
    (hreach : Reach (step codec stateId)
      (fun s call => call.ItemsSet ∧ call.SplitsLast codec s.1) start (w, f))
    (hw : w.map ≠ none) (request : ReverseRangeRequest) (hlimit : 0 < request.limit)
    (hstart : request.startKey = some [] → ∀ k, f k ≠ none → k = []) :
    IsReverseRange f request (reverseRange codec w request) := by
  have hinv : Simulates codec (w, f) ∧ w.BackLinked := by
    refine hreach.invariant (fun s => Simulates codec s ∧ s.1.BackLinked)
      ⟨start_simulates codec, fun m h hm _ => (nomatch hm)⟩ ?_
    intro s call s' hs hok hstep
    exact ⟨step_simulates hs.1 hok.1 hstep, step_backLinked hs.1.ok hs.2 hok.2 hstep⟩
  obtain ⟨m, hm⟩ := Option.ne_none_iff_exists'.mp hw
  exact reverseRange_spec hinv.1 hinv.2 hm request hlimit hstart

end Map

section Runs

/-- Keys inserted in ascending order: the leaf that is split is the last one each time. -/
def ascending : List (Call Nat Nat Nat) :=
  [bulkInsert [("a".toList, bytesItem 1), ("b".toList, bytesItem 2)] (some 2) (by decide),
    bulkInsert [("c".toList, bytesItem 3), ("d".toList, bytesItem 4)] none (by decide)]

instance (w : World (Value Nat Nat Nat)) (call : Call Nat Nat Nat) :
    Decidable (call.SplitsLast plainCodec w) :=
  inferInstanceAs (Decidable (∀ m ∈ w.map, call.splitsLast plainCodec m w.store = true))

theorem ascending_exact :
    IsReverseRange (last (step plainCodec "m") start ascending).2 ⟨some "c".toList, 2⟩
      (reverseRange plainCodec (last (step plainCodec "m") start ascending).1
        ⟨some "c".toList, 2⟩) ∧
    reverseRange plainCodec (last (step plainCodec "m") start ascending).1 ⟨some "c".toList, 2⟩ =
      .ok [("c".toList, bytesItem 3), ("b".toList, bytesItem 2)] := by
  refine ⟨reverseRange_exact plainCodec "m" _ _ (reach_last ascending .init ?_) ?_ _ (by decide) ?_,
    ?_⟩
  · decide +kernel
  · decide +kernel
  · intro h
    cases h
  · decide +kernel

/-- Two bulk inserts into a map of degree 4. The second splits the first leaf, which has a next
one. -/
def middleSplit : List (Call Nat Nat Nat) :=
  [bulkInsert [("a".toList, bytesItem 1), ("c".toList, bytesItem 2), ("e".toList, bytesItem 3),
      ("g".toList, bytesItem 4)] (some 4) (by decide),
    bulkInsert [("b".toList, bytesItem 5), ("bb".toList, bytesItem 6), ("bc".toList, bytesItem 7)]
      none (by decide)]

/-- A range backwards over all of it then misses what the new leaves hold. -/
theorem middleSplit_skips :
    ¬ ∀ (calls : List (Call Nat Nat Nat)) (w : World (Value Nat Nat Nat))
        (f : Str → Option (Item Nat Nat Nat)) (request : ReverseRangeRequest),
        (∀ call ∈ calls, call.ItemsSet) → exec (step plainCodec "m") start calls = some (w, f) →
        w.map ≠ none → 0 < request.limit →
        IsReverseRange f request (reverseRange plainCodec w request) := by
  intro h
  have hrun : exec (step plainCodec "m") start middleSplit =
      some (last (step plainCodec "m") start middleSplit) := exec_eq_last (by decide +kernel)
  obtain ⟨all, -, hmem, hres⟩ := h middleSplit _ _ ⟨none, 100⟩ (by decide) hrun (by decide +kernel)
    (by decide)
  have hc : ("c".toList, bytesItem 2) ∈ all := (hmem _ _).mpr ⟨by decide +kernel, by simp⟩
  have hskips : reverseRange plainCodec (last (step plainCodec "m") start middleSplit).1
      ⟨none, 100⟩ = .ok [("g".toList, bytesItem 4), ("e".toList, bytesItem 3),
        ("b".toList, bytesItem 5), ("a".toList, bytesItem 1)] := by decide +kernel
  have htake := Except.ok.inj (hskips.symm.trans hres)
  have hall : all.take 100 = all := by
    refine List.take_of_length_le ?_
    have hlen := congrArg List.length htake
    rw [List.length_take] at hlen
    simp only [List.length_cons, List.length_nil] at hlen
    omega
  have htake : _ = all := htake.trans hall
  rw [← htake] at hc
  revert hc
  decide

end Runs

end Reboot.OrderedMap
