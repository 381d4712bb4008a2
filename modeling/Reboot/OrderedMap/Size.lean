import Reboot.OrderedMap.Range

/-!
# The size of an `OrderedMap`

A map that was constructed with `maintain_size` counts its entries: `Insert` adds the keys that the
leaves did not have, summed up over the children of every inner node, and `Remove` takes off the
ones they had. `size_exact` is that after any calls the count is the number of keys of the map,
which are the keys that a range over all of it returns.

What a call does to the number of entries is in `Updated.count`; here the count of the map is
compared with it (`World.Sized`).

Mirroring notes:
- `size` is a `uint32` in the state. A call that would count past it raises, and changes nothing.
-/

namespace Reboot.OrderedMap

open Reboot.Lib

variable {V B A S : Type}

/-- A map that maintains its size has as many entries as it says. -/
def World.Sized (w : World S) : Prop :=
  ∀ m h, w.map = some m → Ready w.store m h → m.maintainSize = true →
    m.size = (stored w.store h [m.rootId]).length

/-- What a method works on is counted right, be it a new map. -/
theorem Changed.sized {w w' : World S} {m m' : MapState} {st : Store Str S} {h h' : Nat}
    {new : List (Str × S)} {touched : List Str} {gained : Int} {ok : Prop}
    (hc : Changed w m st h new touched gained ok w' m' h') (hs : w.Sized) (hw : w.Ok)
    (hmaintain : m.maintainSize = true) : m.size = (stored st h [m.rootId]).length := by
  obtain ⟨degree, maintainSize, -, hopen⟩ := hc.before
  unfold opened at hopen
  unfold World.Ok at hw
  cases hm : w.map with
  | some m₀ =>
    rw [hm] at hopen
    obtain ⟨rfl, rfl⟩ := Prod.mk.inj hopen
    exact hs m₀ h hm hc.ready hmaintain
  | none =>
    rw [hm] at hopen hw
    obtain ⟨rfl, rfl⟩ := Prod.mk.inj hopen
    have hzero : h = 0 :=
      height_unique h 0 hc.ready.good (emptyLeaf_ready hw hc.ready.degree).good
    subst hzero
    rw [emptyLeaf_stored]
    rfl

/-- One call. -/
theorem step_sized {codec : Codec V B A S} {stateId : String}
    {s s' : World S × (Str → Option (Item V B A))} {call : Call V B A} (hw : s.1.Ok)
    (hs : s.1.Sized) (h : step codec stateId s call = some s') : s'.1.Sized := by
  unfold step at h
  cases hrun : call.run codec stateId s.1 with
  | error e =>
    simp only [hrun] at h
    cases h
  | ok w' =>
    simp only [hrun] at h
    obtain rfl := Option.some.inj h
    obtain ⟨m, st, h₀, m', h', gained, hc⟩ := call_changed hw hrun
    intro m₁ h₁ hm₁ hr₁ hmaintain
    obtain rfl := Option.some.inj (hc.map.symm.trans hm₁)
    rw [height_unique h₁ h' hr₁.good hc.ready_after.good]
    have hmaintain' : m.maintainSize = true := by rw [← hc.maintainSize, hmaintain]
    have hbefore := hc.sized hs hw hmaintain'
    have hcount := hc.updated.count
    have hsize := hc.size
    rw [if_pos hmaintain'] at hsize
    show m'.size = (stored w'.store h' [m'.rootId]).length
    omega

/-- The keys of the tree are those of the finite map. -/
theorem Stores.mem_keys {codec : Codec V B A S} {f : Str → Option (Item V B A)}
    {entries : List (Str × S)} (hs : Stores codec f entries) (k : Str) :
    k ∈ entries.map Prod.fst ↔ f k ≠ none := by
  rw [List.mem_map]
  constructor
  · rintro ⟨⟨_, v⟩, he, rfl⟩ hnone
    have hv := (hs _ v).mp he
    rw [hnone] at hv
    exact nomatch hv
  · intro hne
    obtain ⟨item, hitem⟩ := Option.ne_none_iff_exists'.mp hne
    exact ⟨(k, encode codec item), (hs k _).mpr (by rw [hitem]; rfl), rfl⟩

theorem InRange.mem_keys {f : Str → Option (Item V B A)} {all : List (Str × Item V B A)}
    (hall : InRange f none all) (k : Str) : k ∈ all.map Prod.fst ↔ f k ≠ none := by
  rw [List.mem_map]
  constructor
  · rintro ⟨⟨_, item⟩, he, rfl⟩ hnone
    rw [((hall.mem _ item).mp he).1] at hnone
    exact nomatch hnone
  · intro hne
    obtain ⟨item, hitem⟩ := Option.ne_none_iff_exists'.mp hne
    exact ⟨(k, item), (hall.mem k item).mpr ⟨hitem, fun _ hs => nomatch hs⟩, rfl⟩

theorem InRange.nodup_keys {f : Str → Option (Item V B A)} {startKey : Option Str}
    {all : List (Str × Item V B A)} (hall : InRange f startKey all) :
    (all.map Prod.fst).Nodup :=
  List.pairwise_map.mpr (hall.ascending.imp fun hlt => ne_of_lt hlt)

/-- The tree has an entry for each entry of the finite map. -/
theorem Represents.length_eq {codec : Codec V B A S} {s : World S × (Str → Option (Item V B A))}
    {m : MapState} (hs : Represents codec s) (hm : s.1.map = some m)
    {all : List (Str × Item V B A)} (hall : InRange s.2 none all) :
    ∃ h, Ready s.1.store m h ∧ (stored s.1.store h [m.rootId]).length = all.length := by
  unfold Represents at hs
  rw [hm] at hs
  obtain ⟨h, hr, hh⟩ := hs
  refine ⟨h, hr, ?_⟩
  have hnodup : ((stored s.1.store h [m.rootId]).map Prod.fst).Nodup := by
    rw [stored_singleton]
    exact List.pairwise_map.mpr ((contents_sorted h hr.good).imp fun hlt => ne_of_lt hlt)
  have hperm : ((stored s.1.store h [m.rootId]).map Prod.fst).Perm (all.map Prod.fst) :=
    (List.perm_ext_iff_of_nodup hnodup hall.nodup_keys).mpr fun k => by
      rw [hh.mem_keys, hall.mem_keys]
  have hlen := hperm.length_eq
  rwa [List.length_map, List.length_map] at hlen

/-- After any calls that succeeded, a map that maintains its size has as many keys as it says, and
they are the keys that a range over all of it returns; it returns if all items have a value. -/
theorem size_exact (codec : Codec V B A S) (stateId : String) (w : World S)
    (f : Str → Option (Item V B A))
    (hreach : Reach (step codec stateId) (fun _ _ => True) start (w, f)) (m : MapState)
    (hm : w.map = some m) (hmaintain : m.maintainSize = true) :
    ∃ keys : List Str, keys.Nodup ∧ (∀ k, k ∈ keys ↔ f k ≠ none) ∧ m.size = keys.length ∧
      ∀ limit, 0 < limit → keys.length ≤ limit →
        (∀ entries size, range codec w ⟨none, limit⟩ = .ok (entries, size) →
          entries.map Prod.fst = keys ∧ size = some m.size) ∧
        ((∀ k item, f k = some item → itemToValue item ≠ .unset) →
          ∃ entries, range codec w ⟨none, limit⟩ = .ok (entries, some m.size)) := by
  have hinv : (Represents codec (w, f) ∧ Kept f) ∧ w.Sized :=
    hreach.invariant (fun s => (Represents codec s ∧ Kept s.2) ∧ s.1.Sized)
      ⟨⟨start_represents codec, fun k item hk => by cases hk⟩, fun m h hm => by cases hm⟩
      fun _ _ _ hs _ hstep => ⟨⟨step_represents hs.1.1 hstep, step_kept hs.1.2 hstep⟩,
        step_sized hs.1.1.ok hs.2 hstep⟩
  obtain ⟨all, hall, -⟩ := nodeRange_items hinv.1.1 hm ⟨none, 1⟩ Nat.one_pos
  obtain ⟨h, hr, hlen⟩ := hinv.1.1.length_eq hm hall
  have hsize := hinv.2 m h hm hr hmaintain
  refine ⟨all.map Prod.fst, hall.nodup_keys, hall.mem_keys, ?_, fun limit hlimit hfull => ?_⟩
  · rw [List.length_map, hsize]
    exact hlen
  · obtain ⟨all', hall', hrun⟩ := nodeRange_items hinv.1.1 hm ⟨none, limit⟩ hlimit
    obtain rfl := hall.unique hall'
    have hall_take : all.take limit = all :=
      List.take_of_length_le (by rwa [List.length_map] at hfull)
    have hkept : ∀ e ∈ all, e.2.first = e.2 := fun e he =>
      hinv.1.2 e.1 e.2 ((hall.mem e.1 e.2).mp he).1
    rw [hall_take] at hrun
    obtain ⟨hset, hunset⟩ := entriesOf_items codec hkept
    have hrange : range codec w ⟨none, limit⟩ =
        (entriesOf codec (all.map fun e => (e.1, encode codec e.2))).map
          fun entries => (entries, some m.size) := by
      simp only [range, hm, hrun, hmaintain, if_true]
      change (do let entries ← entriesOf codec _; Except.ok (entries, _)) = _
      cases entriesOf codec (all.map fun e => (e.1, encode codec e.2)) <;> rfl
    constructor
    · intro entries size hresponse
      rw [hrange] at hresponse
      cases hentries : entriesOf codec (all.map fun e => (e.1, encode codec e.2)) with
      | error x =>
        rw [hentries] at hresponse
        cases hresponse
      | ok r =>
        rw [hset (hunset r hentries)] at hresponse
        obtain ⟨rfl, rfl⟩ := Prod.mk.inj (Except.ok.inj hresponse)
        exact ⟨rfl, rfl⟩
    · intro hvalues
      refine ⟨all, ?_⟩
      rw [hrange, hset fun e he => hvalues e.1 e.2 ((hall.mem e.1 e.2).mp he).1]
      rfl

/-- A sized map of degree 2: a bulk insert that splits the root, one that has an old and a new key,
and a removal of a missing key and of one key twice. -/
def sizedCalls : List (Call Nat Nat Nat) :=
  [.create ⟨some 2, true⟩,
    bulkInsert [("a".toList, bytesItem 1), ("b".toList, bytesItem 2), ("c".toList, bytesItem 3)]
      none (by decide),
    bulkInsert [("b".toList, bytesItem 4), ("d".toList, bytesItem 5)] none (by decide),
    .remove ⟨[], ["c".toList, "x".toList, "c".toList]⟩]

theorem size_exact_sizedCalls :
    ∃ (m : MapState) (keys : List Str),
      (last (step plainCodec "m") start sizedCalls).1.map = some m ∧ m.size = 3 ∧
      m.size = keys.length := by
  have hok : RunOk (step plainCodec "m") (fun _ _ => True) start sizedCalls := by decide +kernel
  have hr := reach_last sizedCalls .init hok
  obtain ⟨m, hm⟩ : ∃ m, (last (step plainCodec "m") start sizedCalls).1.map = some m :=
    Option.isSome_iff_exists.mp (by decide +kernel)
  have hmap : ∀ m, (last (step plainCodec "m") start sizedCalls).1.map = some m →
      m.maintainSize = true ∧ m.size = 3 := by decide +kernel
  obtain ⟨hmaintain, hthree⟩ := hmap m hm
  obtain ⟨keys, -, -, hsize, -⟩ := size_exact plainCodec "m" _ _ hr m hm hmaintain
  exact ⟨m, keys, hm, hthree, hsize⟩

end Reboot.OrderedMap
