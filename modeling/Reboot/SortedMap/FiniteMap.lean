import Reboot.SortedMap.Servicer

/-!
# SortedMap as a finite map

What a SortedMap is for: a finite map from keys to values, in the order of the keys. The
abstract side is the history of the upserts that took effect, per map: those that are
committed, and those of the transaction that is open on the map. `contents` is the finite
map such a history leaves, and what a reader outside of a transaction, or inside, should
see is the contents of the history that is `visible` to it.

The code keeps the entries of all maps in one column family, under encoded keys. `Holds`
relates the two: the column family has, for each map and each key, the value the map has.
It is kept by every upsert (`Holds.upsert`), hence by every action (`step_represents`), hence
in every run (`run_represents`). `view_holds` says what an iterator of a reader then sees.
-/

namespace Reboot.SortedMap

open Reboot.Lib Reboot.Routing

variable {τ ν : Type}

/-! ## Histories -/

/-- The upserts that took effect, oldest first, by the id of the map. -/
structure History (ν : Type) where
  committed : Str → List (Upsert ν)
  /-- those of the open transaction -/
  pending : Str → List (Upsert ν)

/-- Nothing happened. -/
def History.empty : History ν := ⟨fun _ => [], fun _ => []⟩

/-- What a successful action adds. -/
def History.step (h : History ν) : Action τ ν → History ν
  | .call id none call =>
    { h with committed := Function.update h.committed id (h.committed id ++ call.upserts) }
  | .call id (some _) call =>
    { h with pending := Function.update h.pending id (h.pending id ++ call.upserts) }
  | .join _ _ => h
  | .commit id =>
    ⟨Function.update h.committed id (h.committed id ++ h.pending id),
      Function.update h.pending id []⟩
  | .abort id => { h with pending := Function.update h.pending id [] }

/-- The history of a run. -/
def history (actions : List (Action τ ν)) : History ν := actions.foldl History.step .empty

/-- What a reader of the map may see. -/
def History.visible (h : History ν) (id : Str) (inTransaction : Bool) : List (Upsert ν) :=
  if inTransaction then h.committed id ++ h.pending id else h.committed id

/-- The value last inserted under the key and not removed since. -/
def lastInserted (upserts : List (Upsert ν)) (key : Str) : Option ν :=
  (upserts.reverse.find? fun u => decide (u.1 = key)).bind (·.2)

/-- The finite map the upserts leave. -/
def contents (upserts : List (Upsert ν)) : SortedAssoc Str ν := applyBatch .empty upserts

theorem applyBatch_append (m : SortedAssoc Str ν) (us us' : List (Upsert ν)) :
    applyBatch m (us ++ us') = applyBatch (applyBatch m us) us' :=
  List.foldl_append

theorem mem_upsert_iff {m : SortedAssoc Str ν} {u : Upsert ν} {k : Str} {v : ν} :
    (k, v) ∈ (upsert m u).entries ↔ (k = u.1 ∧ u.2 = some v) ∨ ((k, v) ∈ m.entries ∧ k ≠ u.1) := by
  obtain ⟨k', o⟩ := u
  unfold upsert
  cases o with
  | none =>
    show (k, v) ∈ eraseAssoc k' m.entries ↔ _
    rw [mem_eraseAssoc_iff]
    simp
  | some v' =>
    show (k, v) ∈ putAssoc k' v' m.entries ↔ _
    rw [mem_putAssoc_iff m.sorted]
    simp [eq_comm]

/-- The contents are what was last inserted and not removed. -/
theorem contents_get (us : List (Upsert ν)) (key : Str) :
    (contents us).get key = lastInserted us key := by
  induction us using List.reverseRecOn with
  | nil => rfl
  | append_singleton us u ih =>
    have hlast : contents (us ++ [u]) = upsert (contents us) u := by
      rw [contents, applyBatch_append]
      rfl
    apply Option.ext
    intro v
    rw [hlast, SortedAssoc.get_eq_some_iff, mem_upsert_iff, ← SortedAssoc.get_eq_some_iff, ih]
    unfold lastInserted
    by_cases hk : u.1 = key
    · simp [hk]
    · have hk' : ¬ key = u.1 := fun e => hk e.symm
      simp [hk, hk']

/-! ## Keys of the column family -/

variable (sha1 : Str → Digest)

/-- The ref of the map with the given id. -/
abbrev mapRef (id : Str) : Str := refOf sha1 sortedMapTypeName id

/-- What the keys of all entries of a map begin with. -/
def entryStart (id : Str) : Str :=
  makeActorStateKey (mapRef sha1 id) ++ '/' :: (stateTypeTagForName sha1 sortedMapEntryTypeName ++ [':'])

/-- The key of an entry. -/
def entryKey (id key : Str) : Str := entryStart sha1 id ++ stateIdEncode key

theorem entryKey_eq (id key : Str) :
    entryKey sha1 id key =
      makeActorStateKey (mapRef sha1 id ++ '/' :: refOf sha1 sortedMapEntryTypeName key) := by
  simp [entryKey, entryStart, makeActorStateKey, refOf]

theorem entryKey_split (id key : Str) :
    entryKey sha1 id key =
      makeActorStateKey (mapRef sha1 id) ++ '/' :: refOf sha1 sortedMapEntryTypeName key := by
  simp [entryKey, entryStart, refOf]

theorem slash_not_mem_mapKey (id : Str) : '/' ∉ makeActorStateKey (mapRef sha1 id) := by
  have h := slash_not_mem_refOf sha1 sortedMapTypeName id
  simp only [makeActorStateKey, List.mem_append, not_or]
  exact ⟨by decide, h⟩

variable {sha1}

/-- A key that begins like the entries of a map is an entry of that map. -/
theorem id_of_isPrefix {id id' key : Str} (hid : IsStateId id) (hid' : IsStateId id')
    (h : makeActorStateKey (mapRef sha1 id) ++ ['/'] <+: entryKey sha1 id' key) : id' = id := by
  obtain ⟨rest, hrest⟩ := h
  rw [entryKey_split, List.append_assoc, List.singleton_append] at hrest
  have hcut := congrArg (cutFirst '/') hrest
  rw [cutFirst_append (slash_not_mem_mapKey sha1 id),
    cutFirst_append (slash_not_mem_mapKey sha1 id')] at hcut
  have href : mapRef sha1 id = mapRef sha1 id' := by
    have hkeys := congrArg Prod.fst (Option.some.inj hcut)
    exact List.append_cancel_left hkeys
  exact (refOf_injOn hid hid' href).symm

theorem entryKey_inj {id id' key key' : Str} (hid : IsStateId id) (hid' : IsStateId id')
    (hkey : IsStateId key) (hkey' : IsStateId key')
    (h : entryKey sha1 id key = entryKey sha1 id' key') : id = id' ∧ key = key' := by
  have hpre : makeActorStateKey (mapRef sha1 id) ++ ['/'] <+: entryKey sha1 id' key' := by
    rw [← h, entryKey_split]
    exact ⟨refOf sha1 sortedMapEntryTypeName key, by simp⟩
  have hsame : id' = id := id_of_isPrefix hid hid' hpre
  subst hsame
  exact ⟨rfl, stateIdEncode_injOn hkey hkey' (List.append_cancel_left h)⟩

/-! ## One column family for all maps -/

variable (sha1) in
/-- The column family `m` has the entries of the maps `f`, under their keys, and no others. -/
structure Holds (m : SortedAssoc Str ν) (f : Str → SortedAssoc Str ν) : Prop where
  mem_iff : ∀ x v, (x, v) ∈ m.entries ↔ ∃ id key, IsStateId id ∧ IsStateId key ∧
    x = entryKey sha1 id key ∧ (key, v) ∈ (f id).entries
  valid : ∀ id, IsStateId id → ∀ e ∈ (f id).entries, IsStateId e.1

theorem Holds.upsert {m : SortedAssoc Str ν} {f : Str → SortedAssoc Str ν} (h : Holds sha1 m f)
    {id : Str} (hid : IsStateId id) {u : Upsert ν} (hu : IsStateId u.1) :
    Holds sha1 (SortedMap.upsert m (entryKey sha1 id u.1, u.2))
      (Function.update f id (SortedMap.upsert (f id) u)) where
  mem_iff x v := by
    rw [mem_upsert_iff]
    constructor
    · rintro (⟨hx, hv⟩ | ⟨hm, hne⟩)
      · exact ⟨id, u.1, hid, hu, hx, by
          rw [Function.update_self, mem_upsert_iff]
          exact Or.inl ⟨rfl, hv⟩⟩
      · obtain ⟨id', key, hid', hkey, rfl, hmem⟩ := (h.mem_iff x v).mp hm
        refine ⟨id', key, hid', hkey, rfl, ?_⟩
        by_cases heq : id' = id
        · subst heq
          rw [Function.update_self, mem_upsert_iff]
          exact Or.inr ⟨hmem, fun e => hne (by rw [e])⟩
        · rwa [Function.update_of_ne heq]
    · rintro ⟨id', key, hid', hkey, rfl, hmem⟩
      by_cases heq : id' = id
      · subst heq
        rw [Function.update_self, mem_upsert_iff] at hmem
        rcases hmem with ⟨rfl, hv⟩ | ⟨hm, hne⟩
        · exact Or.inl ⟨rfl, hv⟩
        · refine Or.inr ⟨(h.mem_iff _ v).mpr ⟨id', key, hid', hkey, rfl, hm⟩, fun e => ?_⟩
          exact hne (entryKey_inj hid' hid' hkey hu e).2
      · rw [Function.update_of_ne heq] at hmem
        refine Or.inr ⟨(h.mem_iff _ v).mpr ⟨id', key, hid', hkey, rfl, hmem⟩, fun e => ?_⟩
        exact heq (entryKey_inj hid' hid hkey hu e).1
  valid id' hid' e he := by
    by_cases heq : id' = id
    · subst heq
      obtain ⟨k, v⟩ := e
      rw [Function.update_self, mem_upsert_iff] at he
      rcases he with ⟨hk, -⟩ | ⟨hm, -⟩
      · show IsStateId k
        rw [hk]
        exact hu
      · exact h.valid id' hid' (k, v) hm
    · rw [Function.update_of_ne heq] at he
      exact h.valid id' hid' e he

variable (sha1) in
/-- The upserts of a map, as the column family gets them. -/
def keyed (id : Str) (us : List (Upsert ν)) : List (Upsert ν) :=
  us.map fun u => (entryKey sha1 id u.1, u.2)

/-- A batch of upserts of one map changes that map. -/
theorem Holds.batch {id : Str} (hid : IsStateId id) : ∀ {us : List (Upsert ν)},
    (∀ u ∈ us, IsStateId u.1) → ∀ {m : SortedAssoc Str ν} {f : Str → SortedAssoc Str ν},
    Holds sha1 m f →
    Holds sha1 (applyBatch m (keyed sha1 id us)) (Function.update f id (applyBatch (f id) us))
  | [], _, m, f, h => by
    show Holds sha1 m (Function.update f id (f id))
    rwa [Function.update_eq_self]
  | u :: us, hus, m, f, h => by
    have hrest := Holds.batch hid (fun u' hu' => hus u' (List.mem_cons_of_mem _ hu'))
      (h.upsert hid (hus u (List.mem_cons_self ..)))
    rw [Function.update_self, Function.update_idem] at hrest
    exact hrest

/-! ## What an action does -/

theorem colocatedUpserts_ok {ref : Str} : ∀ {us us' : List (Upsert ν)},
    colocatedUpserts sha1 ref us = .ok us' → (∀ u ∈ us, IsStateId u.1) ∧
      us' = us.map fun u => (ref ++ '/' :: refOf sha1 sortedMapEntryTypeName u.1, u.2)
  | [], us', h => by
    cases h
    exact ⟨fun u hu => absurd hu (List.not_mem_nil), rfl⟩
  | u :: us, us', h => by
    unfold colocatedUpserts at h
    split at h
    next => cases h
    next => cases h
    next key us'' hkey hus =>
      cases h
      obtain ⟨hvalid, rfl⟩ := colocatedUpserts_ok hus
      unfold colocate at hkey
      split at hkey
      next => cases hkey
      next cid hcid =>
        cases hkey
        obtain ⟨hu, rfl⟩ := fromId_ok_iff.mp hcid
        refine ⟨fun u' hu' => ?_, rfl⟩
        rcases List.mem_cons.mp hu' with rfl | hmem
        · exact hu
        · exact hvalid u' hmem

/-- A writer that succeeds has a valid map and valid keys, and its upserts went to what is
committed or to the open transaction. -/
theorem write_ok [DecidableEq τ] {d d' : Database τ ν} {id : Str} {transaction : Option τ}
    {call : WriterCall ν} (h : write sha1 d id transaction call = .ok d') :
    IsStateId id ∧ (∀ u ∈ call.upserts, IsStateId u.1) ∧
      ((transaction = none ∧ d.txns (mapRef sha1 id) = none ∧
          d' = { d with entries := applyBatch d.entries (keyed sha1 id call.upserts) }) ∨
        ∃ t x, transaction = some t ∧ d.lookupOrBegin (mapRef sha1 id) t = .ok x ∧
          d' = d.setTxn (mapRef sha1 id)
            (some { x with batch := x.batch ++ keyed sha1 id call.upserts })) := by
  unfold write at h
  split at h
  next => cases h
  next ref href =>
    obtain ⟨hid, rfl⟩ := fromId_ok_iff.mp href
    split at h
    next => cases h
    next us hus =>
      obtain ⟨hvalid, rfl⟩ := colocatedUpserts_ok hus
      have hkeyed : (call.upserts.map fun u =>
          (mapRef sha1 id ++ '/' :: refOf sha1 sortedMapEntryTypeName u.1, u.2)).map
            (fun u => (makeActorStateKey u.1, u.2)) = keyed sha1 id call.upserts := by
        rw [List.map_map]
        refine List.map_congr_left fun u _ => ?_
        simp [entryKey_eq]
      refine ⟨hid, hvalid, ?_⟩
      unfold Database.store at h
      rw [hkeyed] at h
      cases transaction with
      | none =>
        left
        dsimp only at h
        split at h
        next => cases h
        next hnone =>
          cases h
          exact ⟨rfl, hnone, rfl⟩
      | some t =>
        right
        dsimp only at h
        split at h
        next => cases h
        next x hx =>
          cases h
          exact ⟨t, x, rfl, hx, rfl⟩

variable (sha1) in
/-- The database represents the history. -/
structure Represents (d : Database τ ν) (h : History ν) : Prop where
  committed : Holds sha1 d.entries fun id => contents (h.committed id)
  closed : ∀ id, IsStateId id → d.txns (mapRef sha1 id) = none → h.pending id = []
  opened : ∀ id, IsStateId id → ∀ x, d.txns (mapRef sha1 id) = some x →
    x.batch = keyed sha1 id (h.pending id)
  valid : ∀ id, IsStateId id → ∀ u ∈ h.pending id, IsStateId u.1

theorem empty_represents : Represents sha1 (Database.empty : Database τ ν) .empty where
  committed :=
    { mem_iff := fun x v => by
        constructor
        · intro h
          exact absurd h (List.not_mem_nil)
        · rintro ⟨_, _, _, _, _, h⟩
          exact absurd h (List.not_mem_nil)
      valid := fun _ _ e he => absurd he (List.not_mem_nil) }
  closed _ _ _ := rfl
  opened _ _ _ h := nomatch h
  valid _ _ u hu := absurd hu (List.not_mem_nil)

/-- More upserts of one map are more upserts in its history. -/
theorem contents_update (c : Str → List (Upsert ν)) (id : Str) (us : List (Upsert ν)) :
    (fun i => contents (Function.update c id (c id ++ us) i)) =
      Function.update (fun i => contents (c i)) id (applyBatch (contents (c id)) us) := by
  funext i
  by_cases hi : i = id
  · subst hi
    rw [Function.update_self, Function.update_self, contents, applyBatch_append]
    rfl
  · rw [Function.update_of_ne hi, Function.update_of_ne hi]

/-- The refs of two maps differ. -/
theorem mapRef_ne {id id' : Str} (hid : IsStateId id) (hid' : IsStateId id') (h : id' ≠ id) :
    mapRef sha1 id' ≠ mapRef sha1 id :=
  fun e => h (refOf_injOn hid' hid e)

/-- Changing what is pending on one map, together with its transaction. -/
theorem Represents.replace {d : Database τ ν} {h : History ν} (hR : Represents sha1 d h) {id : Str}
    (hid : IsStateId id) {m : SortedAssoc Str ν} {c : Str → List (Upsert ν)}
    (hm : Holds sha1 m fun i => contents (c i)) {o : Option (OpenTransaction τ ν)}
    {us : List (Upsert ν)} (hclosed : o = none → us = [])
    (hopened : ∀ x, o = some x → x.batch = keyed sha1 id us) (hus : ∀ u ∈ us, IsStateId u.1) :
    Represents sha1 ⟨m, Function.update d.txns (mapRef sha1 id) o⟩
      ⟨c, Function.update h.pending id us⟩ := by
  -- every other map is as it was
  have hcase : ∀ id', IsStateId id' →
      (id' = id ∧ Function.update d.txns (mapRef sha1 id) o (mapRef sha1 id') = o ∧
        Function.update h.pending id us id' = us) ∨
      (Function.update d.txns (mapRef sha1 id) o (mapRef sha1 id') = d.txns (mapRef sha1 id') ∧
        Function.update h.pending id us id' = h.pending id') := by
    intro id' hid'
    by_cases heq : id' = id
    · subst heq
      exact Or.inl ⟨rfl, Function.update_self .., Function.update_self ..⟩
    · exact Or.inr ⟨Function.update_of_ne (mapRef_ne hid hid' heq) .., Function.update_of_ne heq ..⟩
  refine ⟨hm, fun id' hid' hnone => ?_, fun id' hid' y hy => ?_, fun id' hid' u hu => ?_⟩
  · rcases hcase id' hid' with ⟨-, ho, hp⟩ | ⟨ho, hp⟩
    · exact hp.trans (hclosed (ho.symm.trans hnone))
    · exact hp.trans (hR.closed id' hid' (ho.symm.trans hnone))
  · rcases hcase id' hid' with ⟨rfl, ho, hp⟩ | ⟨ho, hp⟩
    · exact (hopened y (ho.symm.trans hy)).trans (congrArg _ hp.symm)
    · exact (hR.opened id' hid' y (ho.symm.trans hy)).trans (congrArg _ hp.symm)
  · rcases hcase id' hid' with ⟨-, -, hp⟩ | ⟨-, hp⟩
    · exact hus u (hp ▸ hu)
    · exact hR.valid id' hid' u (hp ▸ hu)

/-- The open transaction of a map gets the upserts of a writer. -/
theorem Represents.extend [DecidableEq τ] {d : Database τ ν} {h : History ν}
    (hR : Represents sha1 d h) {id : Str} (hid : IsStateId id) {us : List (Upsert ν)}
    (hus : ∀ u ∈ us, IsStateId u.1) {t : τ} {x : OpenTransaction τ ν}
    (hx : d.lookupOrBegin (mapRef sha1 id) t = .ok x) :
    Represents sha1
      (d.setTxn (mapRef sha1 id) (some { x with batch := x.batch ++ keyed sha1 id us }))
      { h with pending := Function.update h.pending id (h.pending id ++ us) } := by
  have hbatch : x.batch = keyed sha1 id (h.pending id) := by
    unfold Database.lookupOrBegin at hx
    split at hx
    next hnone =>
      cases hx
      rw [hR.closed id hid hnone]
      rfl
    next y hy =>
      split at hx
      next =>
        cases hx
        exact hR.opened id hid _ hy
      next => cases hx
  refine hR.replace hid hR.committed (fun h' => nomatch h') (fun y hy => ?_) (fun u hu => ?_)
  · cases hy
    rw [hbatch]
    exact List.map_append.symm
  · rcases List.mem_append.mp hu with hu | hu
    · exact hR.valid id hid u hu
    · exact hus u hu

/-- Whatever was pending on a map is gone when its transaction ends. -/
theorem Represents.ended {d : Database τ ν} {h : History ν} (hR : Represents sha1 d h) {id : Str}
    (hid : IsStateId id) {m : SortedAssoc Str ν} {c : Str → List (Upsert ν)}
    (hm : Holds sha1 m fun i => contents (c i)) :
    Represents sha1 ⟨m, Function.update d.txns (mapRef sha1 id) none⟩
      ⟨c, Function.update h.pending id []⟩ :=
  hR.replace hid hm (fun _ => rfl) (fun _ h' => nomatch h')
    fun _ hu => absurd hu (List.not_mem_nil)

/-- The step lemma. -/
theorem step_represents [DecidableEq τ] {d d' : Database τ ν} {h : History ν} {a : Action τ ν}
    (hs : step sha1 d a = some d') (hR : Represents sha1 d h) :
    Represents sha1 d' (h.step a) := by
  have htoOption : ∀ {e : Except Error (Database τ ν)}, e.toOption = some d' → e = .ok d' := by
    intro e he
    cases e with
    | error _ => cases he
    | ok _ =>
      cases he
      rfl
  have hfromId : ∀ {id ref : Str}, (fromId sha1 sortedMapTypeName id).toOption = some ref →
      IsStateId id ∧ ref = mapRef sha1 id := by
    intro id ref he
    cases hr : fromId sha1 sortedMapTypeName id with
    | error _ =>
      rw [hr] at he
      cases he
    | ok _ =>
      rw [hr] at he
      cases he
      exact fromId_ok_iff.mp hr
  cases a with
  | call id transaction call =>
    obtain ⟨hid, hus, ⟨rfl, -, rfl⟩ | ⟨t, x, rfl, hx, rfl⟩⟩ := write_ok (htoOption hs)
    · refine ⟨?_, hR.closed, hR.opened, hR.valid⟩
      show Holds sha1 _ fun i =>
        contents (Function.update h.committed id (h.committed id ++ call.upserts) i)
      rw [contents_update]
      exact hR.committed.batch hid hus
    · exact hR.extend hid hus hx
  | join id t =>
    obtain ⟨hid, hus, ⟨htx, -, -⟩ | ⟨t', x, htx, hx, rfl⟩⟩ := write_ok (htoOption hs)
    · exact nomatch htx
    · cases htx
      have hext := hR.extend hid hus hx
      simp only [WriterCall.upserts, List.map_nil, List.append_nil, Function.update_eq_self] at hext
      exact hext
  | commit id =>
    simp only [step, Option.bind_eq_bind, Option.bind_eq_some_iff, Option.some.injEq] at hs
    obtain ⟨ref, href, x, hx, rfl⟩ := hs
    obtain ⟨hid, rfl⟩ := hfromId href
    refine hR.ended hid ?_
    rw [contents_update, hR.opened id hid x hx]
    exact hR.committed.batch hid (hR.valid id hid)
  | abort id =>
    simp only [step, Option.bind_eq_bind, Option.bind_eq_some_iff, Option.some.injEq] at hs
    obtain ⟨ref, href, rfl⟩ := hs
    obtain ⟨hid, rfl⟩ := hfromId href
    exact hR.ended hid hR.committed

/-- The run lemma. -/
theorem run_represents [DecidableEq τ] : ∀ {actions : List (Action τ ν)} {d d' : Database τ ν}
    {h : History ν}, exec (step sha1) d actions = some d' → Represents sha1 d h →
      Represents sha1 d' (actions.foldl History.step h)
  | [], d, d', h, hrun, hR => by
    cases hrun
    exact hR
  | a :: as, d, d', h, hrun, hR => by
    simp only [exec] at hrun
    split at hrun
    next => cases hrun
    next d₁ hs =>
      have hR₁ := step_represents hs hR
      rw [List.foldl_cons]
      exact run_represents hrun hR₁

/-- A reader sees the contents of the history that is visible to it. -/
theorem view_holds {d : Database τ ν} {h : History ν} (hR : Represents sha1 d h) {id : Str}
    (hid : IsStateId id) {inTransaction : Bool}
    (hin : inTransaction = true → (d.txns (mapRef sha1 id)).isSome = true) :
    ∃ m f, d.view (mapRef sha1 id) inTransaction = .ok m ∧ Holds sha1 m f ∧
      f id = contents (h.visible id inTransaction) := by
  cases inTransaction with
  | false => exact ⟨d.entries, _, rfl, hR.committed, rfl⟩
  | true =>
    obtain ⟨x, hx⟩ := Option.isSome_iff_exists.mp (hin rfl)
    refine ⟨applyBatch d.entries x.batch, Function.update (fun i => contents (h.committed i)) id
      (applyBatch (contents (h.committed id)) (h.pending id)), ?_, ?_, ?_⟩
    · simp [Database.view, hx]
    · rw [hR.opened id hid x hx]
      exact hR.committed.batch hid (hR.valid id hid)
    · rw [Function.update_self]
      exact (applyBatch_append ..).symm

end Reboot.SortedMap
