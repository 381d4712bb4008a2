import Reboot.Lib.Scan
import Reboot.Names
import Reboot.Routing.Placement
import Reboot.Routing.StateId

/-!
# The pages of `Find`

`DatabaseService::Find` (`reboot/server/database.cc`) lists the refs of the states of one
type, a page at a time: from a key on, or backwards up to a key, at most `limit` of them, and
only those whose hash is in one of the requested shards. The iterator moves in the order of the
keys and knows nothing of shards, so a page is filled by walking over any number of states that
belong elsewhere. A client goes on from the last ref it was given, or, backwards, from the first.

`readForwards_spec` and `readBackwards_spec` say what such a client gets: every ref, once, in
order, and an end. They rest on one lemma for each direction (`find_start`, `find_until`), a page
being the first `limit` refs that the key admits.

Mirroring notes:
- A `std::string` is a list of characters, one for each byte. `iterator->status()` is OK: the
  disk can be read.
- An iterator of one call only ever moves in one direction, so it is the list of the entries
  from its position on, in that direction.
- `IsCancelled` is asked at every hundredth step; what it answers the `n`-th time is a parameter.
- The cache from refs to shards is the list of its entries, the one used last in front. It is
  part of the state, and that it only holds what would be computed is a field of it.
- `DatabaseClient.find` (`reboot/server/database.py`) does not take a ref but the id of a state,
  and makes the ref of it (`clientRequest_refId`).
-/

namespace Reboot.Persist.Find

open Reboot.Lib Reboot.Routing

/-! ## The database -/

/-- `server_info_.shard_infos()`: the first shard starts at the empty key. -/
structure ShardTable where
  infos : List ShardInfo
  startsEmpty : ∃ i ∈ infos, i.shardFirstKey = []

/-- The column families by state type, and the shards. -/
structure Database (ν : Type) where
  shards : ShardTable
  family : Str → Option (SortedAssoc Str ν)

/-- How a call ends other than with OK. -/
inductive Failure
  | invalidArgument (message : Str)
  | cancelled
  /-- a `CHECK` that ends the process -/
  | checkFailed
  deriving DecidableEq

/-- `FindRequest::Key`. -/
structure Key where
  stateRef : Str
  exclusive : Bool
  deriving DecidableEq

/-- The `direction` of a request. -/
inductive Direction
  | start (key : Key)
  | until (key : Key)
  deriving DecidableEq

/-- `FindRequest`. -/
structure Request where
  stateType : Str
  direction : Option Direction
  limit : Nat
  shardIds : List Str
  deriving DecidableEq

/-- `GetStateRefFromActorStateKey`. -/
def getStateRefFromActorStateKey (key : Str) : Str := key.drop stateKeyPrefix.length

/-! ## Which shard a ref belongs to -/

/-- `SHARD_FOR_STATE_REF_CAPACITY`. -/
def shardForStateRefCapacity : Nat := 8192

section

variable {sha1 : Str → Digest} {ν : Type}

/-- `shard_for_state_ref_`. -/
structure ShardCache (sha1 : Str → Digest) (shards : ShardTable) where
  entries : List (Str × Str)
  coherent : ∀ e ∈ entries, getShardForStateRef sha1 shards.infos e.1 = some e.2

/-- Nothing cached. -/
def ShardCache.empty (sha1 : Str → Digest) (shards : ShardTable) : ShardCache sha1 shards :=
  ⟨[], nofun⟩

/-- The binding of `ref` becomes the first, and the last ones go if there are too many: what
`get` does for a key that is cached, and `put` for one that is not. -/
def ShardCache.touch {shards : ShardTable} (cache : ShardCache sha1 shards) (ref shard : Str)
    (h : getShardForStateRef sha1 shards.infos ref = some shard) : ShardCache sha1 shards where
  entries := ((ref, shard) :: cache.entries.filter fun e => decide (e.1 ≠ ref)).take
    shardForStateRefCapacity
  coherent := by
    intro e he
    rcases List.mem_cons.mp (List.mem_of_mem_take he) with rfl | he'
    · exact h
    · exact cache.coherent e (List.mem_of_mem_filter he')

theorem ShardCache.find?_coherent {shards : ShardTable} (cache : ShardCache sha1 shards)
    {ref : Str} {e : Str × Str} (h : (cache.entries.find? fun e => decide (e.1 = ref)) = some e) :
    getShardForStateRef sha1 shards.infos ref = some e.2 := by
  have hkey : e.1 = ref := by simpa using List.find?_some h
  have he := cache.coherent e (List.mem_of_find?_eq_some h)
  rwa [hkey] at he

/-- `GetShardForStateRef` with `use_cache`; `none` if a `CHECK` fails. -/
def getShardCached {shards : ShardTable} (cache : ShardCache sha1 shards) (ref : Str) :
    Option Str × ShardCache sha1 shards :=
  match hc : cache.entries.find? fun e => decide (e.1 = ref) with
  | some e => (some e.2, cache.touch ref e.2 (cache.find?_coherent hc))
  | none =>
    match hs : getShardForStateRef sha1 shards.infos ref with
    | some shard => (some shard, cache.touch ref shard hs)
    | none => (none, cache)

/-- `BelongsToShard`. -/
def belongsToShard {shards : ShardTable} (cache : ShardCache sha1 shards) (ref : Str)
    (shardIds : List Str) : Option Bool × ShardCache sha1 shards :=
  let r := getShardCached cache ref
  (r.1.map fun shard => decide (shard ∈ shardIds), r.2)

/-! ## Find -/

/-- The two loops of `Find`, from the position of the iterator on: the refs found so far, in
the order in which they were found. -/
def collect {shards : ShardTable} (isCancelled : Nat → Bool) (limit : Nat) (shardIds : List Str) :
    List (Str × ν) → Nat → Nat → ShardCache sha1 shards → List Str →
      Except Failure (List Str) × ShardCache sha1 shards
  | [], _, _, cache, found => (.ok found, cache)
  | (key, _) :: rest, counter, checks, cache, found =>
    if found.length < limit then
      if counter + 1 = 100 ∧ isCancelled checks = true then (.error .cancelled, cache)
      else
        let counter' := if counter + 1 = 100 then 0 else counter + 1
        let checks' := if counter + 1 = 100 then checks + 1 else checks
        -- a key that is no state's
        if ¬ stateKeyPrefix.isPrefixOf key then (.ok found, cache)
        else
          let ref := getStateRefFromActorStateKey key
          match belongsToShard cache ref shardIds with
          | (none, cache') => (.error .checkFailed, cache')
          | (some true, cache') =>
            collect isCancelled limit shardIds rest counter' checks' cache' (found ++ [ref])
          | (some false, cache') =>
            collect isCancelled limit shardIds rest counter' checks' cache' found
    else (.ok found, cache)

/-- The step past the key itself. -/
def skipExclusive (key : Key) (entries : List (Str × ν)) : List (Str × ν) :=
  if key.exclusive ∧ entries.head?.map Prod.fst = some (makeActorStateKey key.stateRef) then
    entries.tail
  else entries

/-- `Seek`, and `Next` if the key is exclusive. -/
def seekStart (key : Key) (entries : List (Str × ν)) : List (Str × ν) :=
  skipExclusive key (seekAssoc (makeActorStateKey key.stateRef) entries)

/-- `SeekForPrev`, and `Prev` if the key is exclusive. -/
def seekUntil (key : Key) (entries : List (Str × ν)) : List (Str × ν) :=
  skipExclusive key
    (entries.reverse.dropWhile fun e => decide (makeActorStateKey key.stateRef < e.1))

/-- `DatabaseService::Find`. -/
def find (db : Database ν) (isCancelled : Nat → Bool) (request : Request)
    (cache : ShardCache sha1 db.shards) :
    Except Failure (List Str) × ShardCache sha1 db.shards :=
  if request.shardIds = [] then
    (.error (.invalidArgument "shard_ids are required for Find request".toList), cache)
  else match db.family request.stateType with
    | none => (.ok [], cache)
    | some family =>
      match request.direction with
      | some (.start key) =>
        collect isCancelled request.limit request.shardIds (seekStart key family.entries) 0 0
          cache []
      | some (.until key) =>
        let r := collect isCancelled request.limit request.shardIds
          (seekUntil key family.entries) 0 0 cache []
        (r.1.map List.reverse, r.2)
      | none =>
        (.error (.invalidArgument
          "Must specify either 'start' or 'until' direction".toList), cache)

/-! ## A client that reads page after page -/

/-- Pages are asked for until one comes back empty, each from behind the ref that `next` picks
from the page before it. `isCancelled n` is the context of the `n`-th call. -/
def readPages (db : Database ν) (direction : Key → Direction) (next : List Str → Option Str)
    (isCancelled : Nat → Nat → Bool) (stateType : Str) (limit : Nat) (shardIds : List Str) :
    Nat → Nat → Key → ShardCache sha1 db.shards → Option (Except Failure (List (List Str)))
  | 0, _, _, _ => none
  | fuel + 1, call, key, cache =>
    match find db (isCancelled call) ⟨stateType, some (direction key), limit, shardIds⟩ cache with
    | (.error e, _) => some (.error e)
    | (.ok page, cache') =>
      match next page with
      | none => some (.ok [])
      | some ref =>
        (readPages db direction next isCancelled stateType limit shardIds fuel (call + 1)
          ⟨ref, true⟩ cache').map fun r => r.map fun pages => page :: pages

/-- `start` is the last ref returned. -/
def readForwards (db : Database ν) := @readPages sha1 ν db .start List.getLast?

/-- `until` is the first ref returned. -/
def readBackwards (db : Database ν) := @readPages sha1 ν db .until List.head?

end

/-! ## What there is to find -/

section

variable {sha1 : Str → Digest} {ν : Type}

/-- The shard of a ref is one of those that were asked for. -/
def inShards (sha1 : Str → Digest) (shards : ShardTable) (shardIds : List Str) (ref : Str) : Bool :=
  (getShardForStateRef sha1 shards.infos ref).any fun shard => decide (shard ∈ shardIds)

/-- The refs of the states of a type, in the order of their keys. -/
def stateRefs (db : Database ν) (stateType : Str) : List Str :=
  match db.family stateType with
  | none => []
  | some family =>
    (family.entries.filter fun e => stateKeyPrefix.isPrefixOf e.1).map fun e =>
      getStateRefFromActorStateKey e.1

/-- The refs of the requested state type that belong to a requested shard. -/
def refsInShards (sha1 : Str → Digest) (db : Database ν) (stateType : Str) (shardIds : List Str) :
    List Str :=
  (stateRefs db stateType).filter (inShards sha1 db.shards shardIds)

/-- A ref that is behind the key in the order `r`, or is the key itself. -/
def Admits (r : Str → Str → Prop) (key : Key) (ref : Str) : Prop :=
  r key.stateRef ref ∨ key.exclusive = false ∧ ref = key.stateRef

instance (r : Str → Str → Prop) [DecidableRel r] (key : Key) (ref : Str) :
    Decidable (Admits r key ref) :=
  inferInstanceAs (Decidable (_ ∨ _))

/-- What a call gives: the page, unless the call is cancelled. -/
def Gives (isCancelled : Nat → Bool) (page : List Str) (result : Except Failure (List Str)) :
    Prop :=
  result = .ok page ∨ result = .error .cancelled ∧ ∃ n, isCancelled n = true

/-! ## Shards -/

theorem sortBy_pairwise {α κ : Type*} [LinearOrder κ] (f : α → κ) (l : List α) :
    (sortBy f l).Pairwise fun a b => f a ≤ f b := by
  have : Std.Total (fun a b : α => f a ≤ f b) := ⟨fun a b => le_total (f a) (f b)⟩
  have : IsTrans α (fun a b => f a ≤ f b) := ⟨fun _ _ _ => le_trans⟩
  exact List.pairwise_insertionSort _ l

/-- Some shard starts at the empty key, so every hash has one. -/
theorem ShardTable.shard_isSome (shards : ShardTable) (ref : Str) :
    ∃ shard, getShardForStateRef sha1 shards.infos ref = some shard := by
  obtain ⟨i, hi, hkey⟩ := shards.startsEmpty
  unfold getShardForStateRef getShardForHash
  generalize computeStateRefHash sha1 ref = hash
  have hmem : ([], i.shardId) ∈ sortedShardFirstKeys shards.infos := by
    refine (List.perm_insertionSort _ _).mem_iff.mpr ?_
    exact List.mem_map.mpr ⟨i, hi, by rw [hkey]⟩
  have hsorted := sortBy_pairwise (fun p : List Byte × Str => toLex p)
    (shards.infos.map fun i => (i.shardFirstKey, i.shardId))
  rw [← sortedShardFirstKeys] at hsorted
  cases hl : sortedShardFirstKeys shards.infos with
  | nil =>
    rw [hl] at hmem
    cases hmem
  | cons first rest =>
    rw [hl] at hmem hsorted
    -- the first of the sorted keys is at most the empty one
    have hfirst : first.1 = [] := by
      rcases List.mem_cons.mp hmem with rfl | hrest
      · rfl
      · have hle := (List.pairwise_cons.mp hsorted).1 _ hrest
        rw [Prod.Lex.toLex_le_toLex] at hle
        rcases hle with hlt | ⟨heq, -⟩
        · exact absurd hlt (List.not_lt_nil _)
        · exact heq
    have hle : first.1 ≤ hash := by
      rw [hfirst]
      exact not_lt.mp (List.not_lt_nil hash)
    have hpos : 0 < upperBound (List.map Prod.fst (first :: rest)) hash := by
      simp [upperBound, hle]
    have hlen := upperBound_le_length (List.map Prod.fst (first :: rest)) hash
    rw [List.length_map] at hlen
    have hlt : upperBound (List.map Prod.fst (first :: rest)) hash - 1 < (first :: rest).length := by
      omega
    have hne : ¬ (first :: rest = [] ∨ upperBound (List.map Prod.fst (first :: rest)) hash = 0) := by
      rintro (h | h)
      · cases h
      · omega
    exact ⟨_, by rw [if_neg hne, List.getElem?_eq_getElem hlt]; rfl⟩

/-- The cache makes no difference. -/
theorem belongsToShard_eq {shards : ShardTable} (cache : ShardCache sha1 shards) (ref : Str)
    (shardIds : List Str) :
    (belongsToShard cache ref shardIds).1 = some (inShards sha1 shards shardIds ref) := by
  obtain ⟨shard, hshard⟩ := @ShardTable.shard_isSome sha1 shards ref
  have hget : (getShardCached cache ref).1 = some shard := by
    unfold getShardCached
    split
    next e he =>
      have hcached := cache.find?_coherent he
      rw [hshard] at hcached
      exact hcached.symm
    next =>
      split
      next shard' hs =>
        rw [hshard] at hs
        exact hs.symm
      next hs =>
        rw [hshard] at hs
        cases hs
  unfold belongsToShard inShards
  simp only [hget, hshard, Option.map_some, Option.any_some]

/-! ## One call -/

/-- The refs that the loops meet before a key that is no state's. -/
def met (sha1 : Str → Digest) (shards : ShardTable) (shardIds : List Str)
    (entries : List (Str × ν)) : List Str :=
  ((entries.takeWhile fun e => stateKeyPrefix.isPrefixOf e.1).map fun e =>
    getStateRefFromActorStateKey e.1).filter (inShards sha1 shards shardIds)

theorem collect_gives {shards : ShardTable} {isCancelled : Nat → Bool} {limit : Nat}
    {shardIds : List Str} : ∀ (entries : List (Str × ν)) (counter checks : Nat)
      (cache : ShardCache sha1 shards) (found : List Str),
    Gives isCancelled (found ++ (met sha1 shards shardIds entries).take (limit - found.length))
      (collect isCancelled limit shardIds entries counter checks cache found).1 := by
  intro entries
  induction entries with
  | nil => exact fun _ _ _ found => .inl (by simp [collect, met])
  | cons e rest ih =>
    intro counter checks cache found
    unfold collect
    split
    next hroom =>
      split
      next hcancel => exact .inr ⟨rfl, checks, hcancel.2⟩
      next =>
        dsimp only
        split
        next hno => exact .inl (by simp [met, hno])
        next hstate =>
          rw [not_not] at hstate
          have hbelongs := belongsToShard_eq cache (getStateRefFromActorStateKey e.1) shardIds
          have htake : (e :: rest).takeWhile (fun e => stateKeyPrefix.isPrefixOf e.1) =
              e :: rest.takeWhile fun e => stateKeyPrefix.isPrefixOf e.1 :=
            List.takeWhile_cons_of_pos hstate
          have hmet : met sha1 shards shardIds (e :: rest) =
              if inShards sha1 shards shardIds (getStateRefFromActorStateKey e.1) then
                getStateRefFromActorStateKey e.1 :: met sha1 shards shardIds rest
              else met sha1 shards shardIds rest := by
            rw [met, htake, List.map_cons, List.filter_cons]
            rfl
          split
          next hb =>
            rw [hb] at hbelongs
            cases hbelongs
          next cache' hb =>
            rw [hb] at hbelongs
            -- the ref takes one of the places that are left
            have hplaces : limit - found.length =
                (limit - (found ++ [getStateRefFromActorStateKey e.1]).length) + 1 := by
              rw [List.length_append, List.length_singleton]
              omega
            have h := ih (if counter + 1 = 100 then 0 else counter + 1)
              (if counter + 1 = 100 then checks + 1 else checks) cache'
              (found ++ [getStateRefFromActorStateKey e.1])
            rw [hmet, if_pos (Option.some.inj hbelongs).symm, hplaces, List.take_succ_cons]
            rwa [List.append_assoc, List.singleton_append] at h
          next cache' hb =>
            rw [hb] at hbelongs
            have hout : ¬ inShards sha1 shards shardIds (getStateRefFromActorStateKey e.1) = true :=
              fun h => by
                rw [h] at hbelongs
                cases hbelongs
            rw [hmet, if_neg hout]
            exact ih _ _ _ _
    next hfull =>
      have hzero : limit - found.length = 0 := by omega
      exact .inl (by rw [hzero, List.take_zero, List.append_nil])

/-! ### The position of the iterator -/

/-- The key of the states as a bound on the keys of the family. -/
def Key.inFamily (key : Key) : Key := ⟨makeActorStateKey key.stateRef, key.exclusive⟩

theorem seekStart_eq (key : Key) (family : SortedAssoc Str ν) :
    seekStart key family.entries =
      family.entries.filter fun e => decide (Admits (· < ·) key.inFamily e.1) := by
  have hsorted : KeysSorted (seekAssoc (makeActorStateKey key.stateRef) family.entries) :=
    family.sorted.sublist (List.dropWhile_sublist _)
  have hge : ∀ e ∈ seekAssoc (makeActorStateKey key.stateRef) family.entries,
      e.1 = makeActorStateKey key.stateRef ∨ makeActorStateKey key.stateRef < e.1 := by
    intro e he
    rw [seekAssoc_eq_filter family.sorted, List.mem_filter, decide_eq_true_eq] at he
    exact he.2.eq_or_lt.imp Eq.symm id
  unfold seekStart skipExclusive
  cases hx : key.exclusive with
  | true =>
    simp only [true_and]
    rw [tail_eq_filter hsorted hge, seekAssoc_eq_filter family.sorted, List.filter_filter]
    refine List.filter_congr fun e _ => ?_
    simp only [Admits, Key.inFamily, hx, Bool.true_eq_false, false_and, or_false,
      Bool.and_eq_left_iff_imp, decide_eq_true_eq]
    exact le_of_lt
  | false =>
    simp only [Bool.false_eq_true, false_and, if_false]
    rw [seekAssoc_eq_filter family.sorted]
    refine List.filter_congr fun e _ => decide_eq_decide.mpr ?_
    simp only [Admits, Key.inFamily, hx, true_and]
    rw [le_iff_lt_or_eq, eq_comm (a := e.1)]

theorem seekUntil_eq (key : Key) (family : SortedAssoc Str ν) :
    seekUntil key family.entries =
      family.entries.reverse.filter fun e => decide (Admits (· > ·) key.inFamily e.1) := by
  have hrev : family.entries.reverse.Pairwise fun a b => a.1 > b.1 :=
    List.pairwise_reverse.mpr family.sorted
  have hdrop : (family.entries.reverse.dropWhile fun e =>
      decide (makeActorStateKey key.stateRef < e.1)) =
      family.entries.reverse.filter fun e => !decide (makeActorStateKey key.stateRef < e.1) := by
    refine dropWhile_eq_filter (hrev.imp fun {a b} hab => ?_)
    rw [decide_eq_true_eq, decide_eq_true_eq]
    exact fun hb => hb.trans hab
  have hsorted : (family.entries.reverse.dropWhile fun e =>
      decide (makeActorStateKey key.stateRef < e.1)).Pairwise fun a b => a.1 > b.1 :=
    hrev.sublist (List.dropWhile_sublist _)
  have hle : ∀ e ∈ family.entries.reverse.dropWhile fun e =>
      decide (makeActorStateKey key.stateRef < e.1),
      e.1 = makeActorStateKey key.stateRef ∨ makeActorStateKey key.stateRef > e.1 := by
    intro e he
    rw [hdrop, List.mem_filter, Bool.not_eq_true', decide_eq_false_iff_not, not_lt] at he
    exact he.2.eq_or_lt
  unfold seekUntil skipExclusive
  cases hx : key.exclusive with
  | true =>
    simp only [true_and]
    rw [tail_eq_filter hsorted hle, hdrop, List.filter_filter]
    refine List.filter_congr fun e _ => ?_
    simp only [Admits, Key.inFamily, hx, Bool.true_eq_false, false_and, or_false,
      Bool.and_eq_left_iff_imp, decide_eq_true_eq, Bool.not_eq_true', decide_eq_false_iff_not]
    exact fun h => not_lt.mpr (le_of_lt h)
  | false =>
    simp only [Bool.false_eq_true, false_and, if_false]
    rw [hdrop]
    refine List.filter_congr fun e _ => ?_
    rw [← decide_not]
    refine decide_eq_decide.mpr ?_
    simp only [Admits, Key.inFamily, hx, true_and, not_lt, gt_iff_lt]
    exact le_iff_lt_or_eq

/-- The refs of the states among some entries that belong to a requested shard. -/
def refsOf (sha1 : Str → Digest) (shards : ShardTable) (shardIds : List Str)
    (entries : List (Str × ν)) : List Str :=
  ((entries.filter fun e => stateKeyPrefix.isPrefixOf e.1).map fun e =>
    getStateRefFromActorStateKey e.1).filter (inShards sha1 shards shardIds)

theorem refsInShards_eq {db : Database ν} {stateType : Str} {family : SortedAssoc Str ν}
    (h : db.family stateType = some family) (shardIds : List Str) :
    refsInShards sha1 db stateType shardIds = refsOf sha1 db.shards shardIds family.entries := by
  unfold refsInShards stateRefs refsOf
  rw [h]

theorem refsOf_reverse (shards : ShardTable) (shardIds : List Str) (entries : List (Str × ν)) :
    refsOf sha1 shards shardIds entries.reverse = (refsOf sha1 shards shardIds entries).reverse := by
  unfold refsOf
  rw [List.filter_reverse, List.map_reverse, List.filter_reverse]

theorem makeActorStateKey_get {k : Str} (h : stateKeyPrefix.isPrefixOf k = true) :
    makeActorStateKey (getStateRefFromActorStateKey k) = k := by
  obtain ⟨ref, rfl⟩ := List.isPrefixOf_iff_prefix.mp h
  unfold getStateRefFromActorStateKey makeActorStateKey
  rw [List.drop_left]

/-- A bound on the keys of the family is the same bound on the refs. -/
theorem admits_inFamily {r : Str → Str → Prop} {key : Key} {k : Str}
    (hr : ∀ a b, r (makeActorStateKey a) (makeActorStateKey b) ↔ r a b)
    (h : stateKeyPrefix.isPrefixOf k = true) :
    Admits r key.inFamily k ↔ Admits r key (getStateRefFromActorStateKey k) := by
  conv_lhs => rw [← makeActorStateKey_get h]
  unfold Admits Key.inFamily
  rw [hr, makeActorStateKey, makeActorStateKey, List.append_right_inj]

theorem refsOf_filter {r : Str → Str → Prop} [DecidableRel r]
    (hr : ∀ a b, r (makeActorStateKey a) (makeActorStateKey b) ↔ r a b) (key : Key)
    (shards : ShardTable) (shardIds : List Str) (entries : List (Str × ν)) :
    refsOf sha1 shards shardIds (entries.filter fun e => decide (Admits r key.inFamily e.1)) =
      (refsOf sha1 shards shardIds entries).filter fun ref => decide (Admits r key ref) := by
  have hstates : (entries.filter fun e => decide (Admits r key.inFamily e.1)).filter (fun e =>
      stateKeyPrefix.isPrefixOf e.1) =
      (entries.filter fun e => stateKeyPrefix.isPrefixOf e.1).filter
        ((fun ref => decide (Admits r key ref)) ∘ fun e => getStateRefFromActorStateKey e.1) := by
    rw [List.filter_filter, List.filter_filter]
    refine List.filter_congr fun e _ => ?_
    rw [Bool.eq_iff_iff, Bool.and_eq_true, Bool.and_eq_true, Function.comp_apply,
      decide_eq_true_eq, decide_eq_true_eq, and_comm]
    exact and_congr_left fun hp => admits_inFamily hr hp
  unfold refsOf
  rw [hstates, ← List.filter_map, List.filter_comm]

/-- The keys of states are contiguous: from a state's key on, or down from one, the loops stop
behind the last of them. -/
theorem met_eq_refsOf {shards : ShardTable} {shardIds : List Str} {entries : List (Str × ν)}
    (h : entries.Pairwise fun a b => stateKeyPrefix.isPrefixOf b.1 = true →
      stateKeyPrefix.isPrefixOf a.1 = true) :
    met sha1 shards shardIds entries = refsOf sha1 shards shardIds entries := by
  rw [met, takeWhile_eq_filter h, refsOf]

/-- What lies between the bound of a scan and a state's key is a state's key. -/
theorem isPrefixOf_between {ref a b : Str} (h : makeActorStateKey ref ≤ a ∧ a ≤ b ∨
    b ≤ a ∧ a ≤ makeActorStateKey ref) (hb : stateKeyPrefix.isPrefixOf b = true) :
    stateKeyPrefix.isPrefixOf a = true := by
  obtain ⟨x, rfl⟩ := List.isPrefixOf_iff_prefix.mp hb
  rw [List.isPrefixOf_iff_prefix]
  rcases h with ⟨hlow, hhigh⟩ | ⟨hlow, hhigh⟩
  · exact isPrefix_of_between _ ((le_append_self _ ref).trans hlow) hhigh
  · exact isPrefix_of_between _ ((le_append_self _ x).trans hlow) hhigh

variable {db : Database ν} {isCancelled : Nat → Bool} {stateType : Str} {key : Key} {limit : Nat}
  {shardIds : List Str}

/-- A page forwards. -/
theorem find_start (h : shardIds ≠ []) (cache : ShardCache sha1 db.shards) :
    Gives isCancelled
      (((refsInShards sha1 db stateType shardIds).filter fun ref =>
        decide (Admits (· < ·) key ref)).take limit)
      (find db isCancelled ⟨stateType, some (.start key), limit, shardIds⟩ cache).1 := by
  simp only [find, if_neg h]
  cases hfamily : db.family stateType with
  | none => exact .inl (by simp [refsInShards, stateRefs, hfamily])
  | some family =>
    have hmet : met sha1 db.shards shardIds (seekStart key family.entries) =
        (refsInShards sha1 db stateType shardIds).filter fun ref =>
          decide (Admits (· < ·) key ref) := by
      rw [refsInShards_eq hfamily, ← refsOf_filter fun a b => append_lt_append_iff,
        ← seekStart_eq]
      refine met_eq_refsOf ?_
      rw [seekStart_eq, List.pairwise_filter]
      refine family.sorted.imp fun {a b} hab ha _ => @isPrefixOf_between key.stateRef _ _ ?_
      refine .inl ⟨?_, hab.le⟩
      rcases of_decide_eq_true ha with hlt | ⟨-, heq⟩
      · exact hlt.le
      · exact heq.ge
    have hcollect := @collect_gives sha1 ν _ isCancelled limit shardIds
      (seekStart key family.entries) 0 0 cache []
    rwa [hmet, List.nil_append, List.length_nil, Nat.sub_zero] at hcollect

/-- A page backwards. -/
theorem find_until (h : shardIds ≠ []) (cache : ShardCache sha1 db.shards) :
    Gives isCancelled
      (((refsInShards sha1 db stateType shardIds).reverse.filter fun ref =>
        decide (Admits (· > ·) key ref)).take limit).reverse
      (find db isCancelled ⟨stateType, some (.until key), limit, shardIds⟩ cache).1 := by
  simp only [find, if_neg h]
  cases hfamily : db.family stateType with
  | none => exact .inl (by simp [refsInShards, stateRefs, hfamily])
  | some family =>
    have hgt : ∀ a b, makeActorStateKey a > makeActorStateKey b ↔ a > b :=
      fun a b => append_lt_append_iff
    have hmet : met sha1 db.shards shardIds (seekUntil key family.entries) =
        (refsInShards sha1 db stateType shardIds).reverse.filter fun ref =>
          decide (Admits (· > ·) key ref) := by
      rw [refsInShards_eq hfamily, ← refsOf_reverse, ← refsOf_filter (r := (· > ·)) hgt,
        ← seekUntil_eq]
      refine met_eq_refsOf ?_
      rw [seekUntil_eq, List.pairwise_filter]
      refine (List.pairwise_reverse.mpr family.sorted).imp fun {a b} hab ha _ =>
        @isPrefixOf_between key.stateRef _ _ ?_
      refine .inr ⟨hab.le, ?_⟩
      rcases of_decide_eq_true ha with hlt | ⟨-, heq⟩
      · exact le_of_lt hlt
      · exact heq.le
    have hcollect := @collect_gives sha1 ν _ isCancelled limit shardIds
      (seekUntil key family.entries) 0 0 cache []
    rw [hmet, List.nil_append, List.length_nil, Nat.sub_zero] at hcollect
    rcases hcollect with hok | ⟨herr, hcancel⟩
    · exact .inl (congrArg (Except.map List.reverse) hok)
    · exact .inr ⟨congrArg (Except.map List.reverse) herr, hcancel⟩

/-! ## All pages -/

/-- A client gets the refs in order, page by page, unless one of its calls is cancelled. No page
is empty or larger than was asked for. -/
def Enumerates (isCancelled : Nat → Nat → Bool) (limit : Nat) (inOrder : List (List Str) → List Str)
    (refs : List Str) (result : Option (Except Failure (List (List Str)))) : Prop :=
  (∃ pages, result = some (.ok pages) ∧ inOrder pages = refs ∧
    ∀ page ∈ pages, page ≠ [] ∧ page.length ≤ limit) ∨
  result = some (.error .cancelled) ∧ ∃ call n, isCancelled call n = true

/-- Reading on behind the last ref of a page leaves the refs behind the page. -/
theorem filter_behind_page {r : Str → Str → Prop} [DecidableRel r] [Std.Asymm r] [IsTrans Str r]
    {l : List Str} (hl : l.Pairwise r) {n : Nat} {c : Str}
    (hc : ((l.filter fun ref => decide (Admits r key ref)).take n).getLast? = some c) :
    (l.filter fun ref => decide (Admits r ⟨c, true⟩ ref)) =
      (l.filter fun ref => decide (Admits r key ref)).drop n := by
  have hadmits : Admits r key c := by
    have hmem := List.mem_of_mem_take (List.mem_of_getLast? hc)
    exact of_decide_eq_true (List.mem_filter.mp hmem).2
  rw [← filter_behind_last (List.Pairwise.filter _ hl) hc, List.filter_filter]
  refine List.filter_congr fun ref _ => ?_
  rw [Bool.eq_iff_iff, Bool.and_eq_true, decide_eq_true_eq, decide_eq_true_eq, decide_eq_true_eq]
  constructor
  · rintro (hbehind | ⟨hx, -⟩)
    · refine ⟨hbehind, .inl ?_⟩
      rcases hadmits with hlt | ⟨-, heq⟩
      · exact Trans.trans hlt hbehind
      · exact heq ▸ hbehind
    · cases hx
  · exact fun h => .inl h.1

/-- The run of a client, in one direction: `l` are the refs in the order in which that direction
meets them, and `arrange` is how a page of them is returned. -/
theorem readPages_enumerates {direction : Key → Direction} {next : List Str → Option Str}
    {isCancelled : Nat → Nat → Bool} {arrange : List Str → List Str} {r : Str → Str → Prop}
    [DecidableRel r] [Std.Asymm r] [IsTrans Str r] {l : List Str} (hl : l.Pairwise r)
    (hfind : ∀ call key (cache : ShardCache sha1 db.shards), Gives (isCancelled call)
      (arrange ((l.filter fun ref => decide (Admits r key ref)).take limit))
      (find db (isCancelled call) ⟨stateType, some (direction key), limit, shardIds⟩ cache).1)
    (hnext : ∀ page, next (arrange page) = page.getLast?) (hlimit : 0 < limit) :
    ∀ (fuel call : Nat) (key : Key) (cache : ShardCache sha1 db.shards),
      (l.filter fun ref => decide (Admits r key ref)).length < fuel →
      (∃ pages : List (List Str),
        readPages db direction next isCancelled stateType limit shardIds fuel call key cache =
          some (.ok (pages.map arrange)) ∧
        pages.flatten = l.filter (fun ref => decide (Admits r key ref)) ∧
        ∀ page ∈ pages, page ≠ [] ∧ page.length ≤ limit) ∨
      readPages db direction next isCancelled stateType limit shardIds fuel call key cache =
        some (.error .cancelled) ∧ ∃ call n, isCancelled call n = true := by
  intro fuel
  induction fuel with
  | zero => exact fun _ _ _ h => absurd h (Nat.not_lt_zero _)
  | succ fuel ih =>
    intro call key cache hfuel
    have hpage := hfind call key cache
    unfold readPages
    cases hr : find db (isCancelled call) ⟨stateType, some (direction key), limit, shardIds⟩ cache with
    | mk result cache' =>
      rw [hr] at hpage
      rcases hpage with hok | ⟨herr, n, hn⟩
      · dsimp only at hok
        subst hok
        dsimp only
        rw [hnext]
        cases hlast : ((l.filter fun ref => decide (Admits r key ref)).take limit).getLast? with
        | none =>
          -- nothing is left
          have hnil : l.filter (fun ref => decide (Admits r key ref)) = [] := by
            rcases List.take_eq_nil_iff.mp (List.getLast?_eq_none_iff.mp hlast) with h | h
            · omega
            · exact h
          exact .inl ⟨[], rfl, hnil.symm, nofun⟩
        | some c =>
          have hrest := filter_behind_page hl hlast
          have hne : (l.filter fun ref => decide (Admits r key ref)).take limit ≠ [] := by
            intro h
            rw [h] at hlast
            cases hlast
          have hlen : 0 < (l.filter fun ref => decide (Admits r key ref)).length := by
            refine List.length_pos_iff.mpr fun h => hne ?_
            rw [h, List.take_nil]
          have hshorter : (l.filter fun ref => decide (Admits r ⟨c, true⟩ ref)).length < fuel := by
            rw [hrest, List.length_drop]
            omega
          rcases ih (call + 1) ⟨c, true⟩ cache' hshorter with ⟨pages, hread, hflat, hsmall⟩ | ⟨hread, hc⟩
          · refine .inl ⟨(l.filter fun ref => decide (Admits r key ref)).take limit :: pages,
              ?_, ?_, ?_⟩
            · dsimp only
              rw [hread]
              rfl
            · rw [List.flatten_cons, hflat, hrest, List.take_append_drop]
            · intro page hp
              rcases List.mem_cons.mp hp with rfl | hp
              · exact ⟨hne, by rw [List.length_take]; omega⟩
              · exact hsmall page hp
          · refine .inr ⟨?_, hc⟩
            dsimp only
            rw [hread]
            rfl
      · dsimp only at herr
        subst herr
        exact .inr ⟨rfl, call, n, hn⟩

/-- The refs come in ascending order, each of them once. -/
theorem refsInShards_sorted (sha1 : Str → Digest) (db : Database ν) (stateType : Str)
    (shardIds : List Str) : (refsInShards sha1 db stateType shardIds).Pairwise (· < ·) := by
  cases hfamily : db.family stateType with
  | none => simp [refsInShards, stateRefs, hfamily]
  | some family =>
    rw [refsInShards_eq hfamily]
    refine List.Pairwise.filter _ (List.pairwise_map.mpr (List.pairwise_filter.mpr ?_))
    refine List.Pairwise.imp (fun {a b} hab ha hb => ?_) family.sorted
    rw [← makeActorStateKey_get ha, ← makeActorStateKey_get hb] at hab
    exact append_lt_append_iff.mp hab

/-- They are those of the states that are stored, in the requested shards. -/
theorem mem_refsInShards_iff {ref : Str} :
    ref ∈ refsInShards sha1 db stateType shardIds ↔
      (∃ family v, db.family stateType = some family ∧
        (makeActorStateKey ref, v) ∈ family.entries) ∧
      ∃ shard ∈ shardIds, getShardForStateRef sha1 db.shards.infos ref = some shard := by
  have hshard : inShards sha1 db.shards shardIds ref = true ↔
      ∃ shard ∈ shardIds, getShardForStateRef sha1 db.shards.infos ref = some shard := by
    unfold inShards
    rw [Option.any_eq_true]
    simp only [decide_eq_true_eq]
    exact exists_congr fun shard => and_comm
  have hstored : ref ∈ stateRefs db stateType ↔ ∃ family v, db.family stateType = some family ∧
      (makeActorStateKey ref, v) ∈ family.entries := by
    unfold stateRefs
    cases hfamily : db.family stateType with
    | none => simp
    | some family =>
      simp only [List.mem_map, List.mem_filter, Option.some.injEq, exists_and_left,
        exists_eq_left']
      constructor
      · rintro ⟨⟨k, v⟩, ⟨hmem, hp⟩, rfl⟩
        exact ⟨v, by rwa [makeActorStateKey_get hp]⟩
      · rintro ⟨v, hmem⟩
        refine ⟨(makeActorStateKey ref, v), ⟨hmem, ?_⟩, ?_⟩
        · exact List.isPrefixOf_iff_prefix.mpr (List.prefix_append ..)
        · exact List.drop_left
  unfold refsInShards
  rw [List.mem_filter, hshard, hstored]

/-- What the pages promise, for one state type and one set of shards. -/
structure Exact (sha1 : Str → Digest) (db : Database ν) (stateType : Str) (limit : Nat)
    (shardIds : List Str) : Prop where
  /-- there is one order, and no ref is in it twice -/
  ascending : (refsInShards sha1 db stateType shardIds).Pairwise (· < ·)
  /-- the refs are those that are stored, in the requested shards -/
  complete : ∀ ref, ref ∈ refsInShards sha1 db stateType shardIds ↔
    (∃ family v, db.family stateType = some family ∧
      (makeActorStateKey ref, v) ∈ family.entries) ∧
    ∃ shard ∈ shardIds, getShardForStateRef sha1 db.shards.infos ref = some shard
  /-- from a key on, each page from the last ref of the one before -/
  forwards : ∀ (isCancelled : Nat → Nat → Bool) (cache : ShardCache sha1 db.shards) (key : Key)
    (fuel : Nat), (refsInShards sha1 db stateType shardIds).length < fuel →
    Enumerates isCancelled limit List.flatten
      ((refsInShards sha1 db stateType shardIds).filter fun ref => decide (Admits (· < ·) key ref))
      (readForwards db isCancelled stateType limit shardIds fuel 0 key cache)
  /-- back from a key, each page from the first ref of the one before -/
  backwards : ∀ (isCancelled : Nat → Nat → Bool) (cache : ShardCache sha1 db.shards) (key : Key)
    (fuel : Nat), (refsInShards sha1 db stateType shardIds).length < fuel →
    Enumerates isCancelled limit (fun pages => pages.reverse.flatten)
      ((refsInShards sha1 db stateType shardIds).filter fun ref => decide (Admits (· > ·) key ref))
      (readBackwards db isCancelled stateType limit shardIds fuel 0 key cache)
  /-- the empty key is before all of them -/
  fromStart : ∀ ref, Admits (· < ·) ⟨[], false⟩ ref
  /-- and a bound of all of them is behind all of them -/
  fromEnd : ∀ last, (∀ ref ∈ refsInShards sha1 db stateType shardIds, ref ≤ last) →
    ∀ ref ∈ refsInShards sha1 db stateType shardIds, Admits (· > ·) ⟨last, false⟩ ref

theorem enumerates_forwards (hshards : shardIds ≠ []) (hlimit : 0 < limit)
    (isCancelled : Nat → Nat → Bool) (cache : ShardCache sha1 db.shards) (key : Key) {fuel : Nat}
    (hfuel : (refsInShards sha1 db stateType shardIds).length < fuel) :
    Enumerates isCancelled limit List.flatten
      ((refsInShards sha1 db stateType shardIds).filter fun ref => decide (Admits (· < ·) key ref))
      (readForwards db isCancelled stateType limit shardIds fuel 0 key cache) := by
  have hlen := List.length_filter_le (fun ref => decide (Admits (· < ·) key ref))
    (refsInShards sha1 db stateType shardIds)
  rcases @readPages_enumerates sha1 ν db stateType limit shardIds _ List.getLast? isCancelled id
    _ _ _ _ _ (refsInShards_sorted sha1 db stateType shardIds)
    (fun call key cache => find_start hshards cache) (fun page => rfl) hlimit fuel 0 key
    cache (by omega) with ⟨pages, hread, hflat, hsmall⟩ | hcancelled
  · refine .inl ⟨pages, ?_, hflat, hsmall⟩
    rw [readForwards, hread, List.map_id]
  · exact .inr hcancelled

theorem enumerates_backwards (hshards : shardIds ≠ []) (hlimit : 0 < limit)
    (isCancelled : Nat → Nat → Bool) (cache : ShardCache sha1 db.shards) (key : Key) {fuel : Nat}
    (hfuel : (refsInShards sha1 db stateType shardIds).length < fuel) :
    Enumerates isCancelled limit (fun pages => pages.reverse.flatten)
      ((refsInShards sha1 db stateType shardIds).filter fun ref => decide (Admits (· > ·) key ref))
      (readBackwards db isCancelled stateType limit shardIds fuel 0 key cache) := by
  have hsorted : (refsInShards sha1 db stateType shardIds).reverse.Pairwise (· > ·) :=
    List.pairwise_reverse.mpr (refsInShards_sorted sha1 db stateType shardIds)
  have hlen := List.length_filter_le (fun ref => decide (Admits (· > ·) key ref))
    (refsInShards sha1 db stateType shardIds).reverse
  rw [List.length_reverse] at hlen
  rcases @readPages_enumerates sha1 ν db stateType limit shardIds _ List.head? isCancelled
    List.reverse _ _ _ _ _ hsorted (fun call key cache => find_until hshards cache)
    (fun page => List.head?_reverse) hlimit fuel 0 key cache (by omega)
    with ⟨pages, hread, hflat, hsmall⟩ | hcancelled
  · refine .inl ⟨pages.map List.reverse, by rw [readBackwards, hread], ?_, ?_⟩
    · dsimp only
      rw [← List.reverse_flatten, hflat, List.filter_reverse, List.reverse_reverse]
    · intro page hpage
      obtain ⟨page', hpage', rfl⟩ := List.mem_map.mp hpage
      obtain ⟨hne, hle⟩ := hsmall page' hpage'
      exact ⟨by simpa using hne, by rwa [List.length_reverse]⟩
  · exact .inr hcancelled

/-- Whatever is stored and whichever shards are asked for, as long as some are, the pages are
exact. -/
theorem find_pages (db : Database ν) (stateType : Str) (hshards : shardIds ≠ [])
    (hlimit : 0 < limit) : Exact sha1 db stateType limit shardIds where
  ascending := refsInShards_sorted sha1 db stateType shardIds
  complete ref := mem_refsInShards_iff
  forwards isCancelled cache key _ := enumerates_forwards hshards hlimit isCancelled cache key
  backwards isCancelled cache key _ := enumerates_backwards hshards hlimit isCancelled cache key
  fromStart ref := by
    cases ref with
    | nil => exact .inr ⟨rfl, rfl⟩
    | cons c ref => exact .inl (List.nil_lt_cons c ref)
  fromEnd last hlast ref href := (hlast ref href).lt_or_eq.imp id fun heq => ⟨rfl, heq⟩

/-- Three rooms, a task and a mutation; two shards, of which the second has two of the rooms. -/
def rooms : Database Unit where
  shards := ⟨[⟨"s1".toList, []⟩, ⟨"s2".toList, [128]⟩], ⟨_, List.mem_cons_self, rfl⟩⟩
  family stateType :=
    if stateType = "chat.Room".toList then
      some ((((((SortedAssoc.empty.put "state:AAJu7hC6McFOOg:lobby".toList ()).put
        "state:AAJu7hC6McFOOg:attic".toList ()).put
        "state:AAJu7hC6McFOOg:cellar".toList ()).put
        "task-v4:PENDING:AAJu7hC6McFOOg:attic:u".toList ()).put
        "idempotent-mutation-v4:AAJu7hC6McFOOg:attic:u".toList ()))
    else none

/-- SHA-1 on the refs of the rooms. -/
def roomsSha1 (s : Str) : Digest :=
  if s = "AAJu7hC6McFOOg:attic".toList then
    .ofBytes [230, 71, 32, 236, 93, 37, 247, 129, 144, 113, 208, 62, 143, 75, 162, 43, 32, 120,
      132, 233]
  else if s = "AAJu7hC6McFOOg:cellar".toList then
    .ofBytes [15, 60, 94, 92, 43, 15, 227, 254, 85, 89, 107, 96, 162, 250, 84, 111, 123, 219,
      114, 35]
  else if s = "AAJu7hC6McFOOg:lobby".toList then
    .ofBytes [132, 217, 236, 67, 111, 216, 99, 121, 18, 238, 49, 223, 112, 98, 70, 51, 47, 107,
      12, 54]
  else .ofBytes []

/-- A page of one room each; between them lies a room of the other shard. -/
theorem find_pages_rooms :
    @readForwards roomsSha1 Unit rooms (fun _ _ => false) "chat.Room".toList 1 ["s2".toList] 3 0
        ⟨[], false⟩ (.empty _ _) =
      some (.ok [["AAJu7hC6McFOOg:attic".toList], ["AAJu7hC6McFOOg:lobby".toList]]) ∧
    Exact roomsSha1 rooms "chat.Room".toList 1 ["s2".toList] :=
  ⟨by decide +kernel, find_pages rooms _ (by decide) (by decide)⟩

/-- Without shards there is an error instead of an empty page. -/
theorem find_noShards :
    @readForwards roomsSha1 Unit rooms (fun _ _ => false) "chat.Room".toList 1 [] 3 0
        ⟨[], false⟩ (.empty _ _) =
      some (.error (.invalidArgument "shard_ids are required for Find request".toList)) ∧
    ¬ Exact roomsSha1 rooms "chat.Room".toList 1 [] := by
  have hrun : @readForwards roomsSha1 Unit rooms (fun _ _ => false) "chat.Room".toList 1 [] 3 0
      ⟨[], false⟩ (.empty _ _) =
    some (.error (.invalidArgument "shard_ids are required for Find request".toList)) := by
    decide +kernel
  refine ⟨hrun, fun h => ?_⟩
  have hread := h.forwards (fun _ _ => false) (.empty _ _) ⟨[], false⟩ 3 (by decide +kernel)
  rw [hrun] at hread
  rcases hread with ⟨pages, hpages, -⟩ | ⟨hcancelled, -⟩
  · cases hpages
  · cases hcancelled

end

/-! ## Through the client -/

/-- What `DatabaseClient.find` raises before it calls. -/
inductive ClientError
  | invalidStateRef (error : InvalidStateRefError)
  | assertionError
  deriving DecidableEq

section

variable (sha1 : Str → Digest)

/-- `StateRef.from_id_prefix`: as `from_id`, but the id may be empty. -/
def fromIdPrefix (stateType stateId : Str) : Except ClientError Str :=
  match validateAscii stateId maxActorIdLength 0 illegalStateIdCharacters with
  | .error e => .error (.invalidStateRef e)
  | .ok () => .ok (refOf sha1 stateType stateId)

/-- The request that `DatabaseClient.find` makes. -/
def clientRequest (stateType : Str) (startId untilId : Option Str) (exclusive : Bool)
    (limit : Nat) (shardIds : List Str) : Except ClientError Request :=
  match startId, untilId with
  | some startId, _ => (fromIdPrefix sha1 stateType startId).map fun ref =>
    ⟨stateType, some (.start ⟨ref, exclusive⟩), limit, shardIds⟩
  | none, some untilId => (fromIdPrefix sha1 stateType untilId).map fun ref =>
    ⟨stateType, some (.until ⟨ref, exclusive⟩), limit, shardIds⟩
  | none, none => .error .assertionError

end

/-- The client can name a ref by its id if the ref is one of the type, and not colocated: the id
of the last ref of a page, or of the first, leads back to that ref. -/
theorem clientRequest_refId {sha1 : Str → Digest} {stateType stateId : Str} (h : IsStateId stateId)
    (untilId : Option Str) (exclusive : Bool) (limit : Nat) (shardIds : List Str) :
    clientRequest sha1 stateType (some (refId (refOf sha1 stateType stateId))) untilId exclusive
        limit shardIds =
      .ok ⟨stateType, some (.start ⟨refOf sha1 stateType stateId, exclusive⟩), limit, shardIds⟩ ∧
    clientRequest sha1 stateType none (some (refId (refOf sha1 stateType stateId))) exclusive
        limit shardIds =
      .ok ⟨stateType, some (.until ⟨refOf sha1 stateType stateId, exclusive⟩), limit, shardIds⟩ := by
  have hvalid : fromIdPrefix sha1 stateType stateId = .ok (refOf sha1 stateType stateId) := by
    have hok := validateAscii_ok_iff.mpr h
    unfold validateAscii at hok
    rw [if_neg (not_lt.mpr h.le_max), if_neg (not_lt.mpr h.min_le)] at hok
    unfold fromIdPrefix validateAscii
    rw [if_neg (not_lt.mpr h.le_max), if_neg (Nat.not_lt_zero _), hok]
  rw [refId_refOf h]
  exact ⟨by simp only [clientRequest, hvalid, Except.map],
    by simp only [clientRequest, hvalid, Except.map]⟩

end Reboot.Persist.Find
