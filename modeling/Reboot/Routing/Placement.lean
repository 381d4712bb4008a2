import Mathlib.Data.Prod.Lex
import Reboot.Lib.Bisect
import Reboot.Lib.SortedAssoc
import Reboot.Routing.StateRef

/-!
# Which server a state lives on

A plan cuts the space of SHA-1 hashes into shards, each of which starts at its
`first_key` and ends where the next one starts, and puts every shard on a server.
Two components look a state up in it:

* `PlanOnlyPlacementClient` (`reboot/aio/placement.py`), by `bisect_right` over the
  shard list of the application, and then the server of the shard found;
* `DatabaseService` (`reboot/server/database.cc`), by `std::upper_bound` over its
  own list of pairs, and only up to the shard.

Both hash the first `/`-separated component of the ref only, so that colocated
states share a shard. `Application.owner` is what both compute: the last shard that
starts at or before the hash.

Mirroring notes:
- Byte strings are lists of bytes in lexicographic order, as in Python and as in
  `std::string`, which compares `unsigned char`s.
- A Python `dict` is an association list with the newest binding first.
- `UnknownApplicationError`, `KeyError` and the assertions of the client are the
  errors of `Except`; a failed `CHECK` of the database is `none`.
- The least-recently-used cache of `GetShardForStateRef` holds results of the same
  pure function and is left out.
-/

namespace Reboot.Routing

open Reboot.Lib

/-- `Plan.Application.Shard`, without the replica index, which routing ignores. -/
structure Shard where
  id : Str
  firstKey : List Byte
  serverId : Str
  deriving DecidableEq

/-- `Plan.Application`, without its services. -/
structure Application where
  id : Str
  shards : List Shard
  deriving DecidableEq

/-- A plan: the shards of every application are sorted by first key and start at
the empty key. Shard ids are unique across the plan, as the plan maker asks. -/
structure Plan where
  applications : List Application
  sorted : ∀ a ∈ applications, a.shards.Pairwise (fun s t => s.firstKey < t.firstKey)
  startsEmpty : ∀ a ∈ applications, a.shards.head?.map Shard.firstKey = some []
  applicationIds : (applications.map Application.id).Nodup
  shardIds : ((applications.flatMap Application.shards).map Shard.id).Nodup

/-- The first keys of the shards of an application. -/
def Application.firstKeys (a : Application) : List (List Byte) := a.shards.map Shard.firstKey

/-- The shard that owns a hash: the last one that starts at or before it. -/
def Application.owner (a : Application) (hash : List Byte) : Option Shard :=
  a.shards[upperBound a.firstKeys hash - 1]?

/-! ## The placement client -/

/-- `ShardMapEntry`. -/
structure ShardMapEntry where
  shardId : Str
  firstKey : List Byte
  deriving DecidableEq

/-- The routing state of `PlanOnlyPlacementClient`. -/
structure PlacementClient where
  shardListByApplication : List (Str × List ShardMapEntry)
  serverByShard : List (Str × Str)
  deriving DecidableEq

/-- The inner loop of `_handle_plan`, with its assertion that shards come sorted. -/
def handleShards : List Shard → List ShardMapEntry → List (Str × Str) →
    Except PyError (List ShardMapEntry × List (Str × Str))
  | [], newShardList, serverByShard => .ok (newShardList, serverByShard)
  | shard :: rest, newShardList, serverByShard =>
    if newShardList.getLast?.all (fun e => decide (e.firstKey < shard.firstKey)) then
      handleShards rest (newShardList ++ [⟨shard.id, shard.firstKey⟩])
        ((shard.id, shard.serverId) :: serverByShard)
    else .error .assertionError

/-- The outer loop of `_handle_plan`. -/
def handleApplications : List Application → PlacementClient → Except PyError PlacementClient
  | [], client => .ok client
  | a :: rest, client =>
    match handleShards a.shards [] client.serverByShard with
    | .error e => .error e
    | .ok (newShardList, serverByShard) =>
      handleApplications rest
        ⟨(a.id, newShardList) :: client.shardListByApplication, serverByShard⟩

/-- `PlanOnlyPlacementClient._handle_plan`: everything is replaced. -/
def handlePlan (plan : Plan) : Except PyError PlacementClient :=
  handleApplications plan.applications ⟨[], []⟩

section

variable (sha1 : Str → Digest)

/-- `PlanOnlyPlacementClient.shard_for_actor`. -/
def shardForActor (client : PlacementClient) (applicationId : Str) (stateRef : StateRef) :
    Except PyError Str :=
  match client.shardListByApplication.lookup applicationId with
  | none | some [] => .error (.unknownApplicationError applicationId)
  | some (first :: rest) =>
    if first.firstKey ≠ [] then .error .assertionError
    else match stateRef.components with
      | [] => .error .indexError
      | component :: _ =>
        let stateRefHash := (sha1 component).bytes
        let index := bisectRight ((first :: rest).map ShardMapEntry.firstKey) stateRefHash
        if index < 1 then .error .assertionError
        else match (first :: rest)[index - 1]? with
          | none => .error .indexError
          | some entry => .ok entry.shardId

/-- `PlanOnlyPlacementClient.server_for_shard`. -/
def serverForShard (client : PlacementClient) (shardId : Str) : Except PyError Str :=
  match client.serverByShard.lookup shardId with
  | none => .error .keyError
  | some serverId => .ok serverId

/-- `PlacementClient.server_for_actor`. -/
def serverForActor (client : PlacementClient) (applicationId : Str) (stateRef : StateRef) :
    Except PyError Str :=
  match shardForActor sha1 client applicationId stateRef with
  | .error e => .error e
  | .ok shardId => serverForShard client shardId

/-! ## The database -/

/-- `ShardInfo`. -/
structure ShardInfo where
  shardId : Str
  shardFirstKey : List Byte
  deriving DecidableEq

/-- `sorted_shard_first_keys_`: pairs, sorted as pairs. -/
def sortedShardFirstKeys (shardInfos : List ShardInfo) : List (List Byte × Str) :=
  sortBy (fun p => toLex p) (shardInfos.map fun i => (i.shardFirstKey, i.shardId))

/-- `DatabaseService::ComputeStateRefHash`. -/
def computeStateRefHash (stateRef : Str) : List Byte :=
  let firstComponent := match cutFirst '/' stateRef with
    | some (before, _) => before
    | none => stateRef
  (sha1 firstComponent).bytes

/-- `DatabaseService::GetShardForHash`. -/
def getShardForHash (shardInfos : List ShardInfo) (hash : List Byte) : Option Str :=
  let sorted := sortedShardFirstKeys shardInfos
  let iterator := upperBound (sorted.map Prod.fst) hash
  if sorted = [] ∨ iterator = 0 then none
  else (sorted[iterator - 1]?).map Prod.snd

/-- `DatabaseService::GetShardForStateRef`. -/
def getShardForStateRef (shardInfos : List ShardInfo) (stateRef : Str) : Option Str :=
  getShardForHash shardInfos (computeStateRefHash sha1 stateRef)

end

/-! ## Every hash has an owner -/

theorem Plan.shards_cons {plan : Plan} {a : Application} (ha : a ∈ plan.applications) :
    ∃ s rest, a.shards = s :: rest ∧ s.firstKey = [] := by
  have h := plan.startsEmpty a ha
  cases hs : a.shards with
  | nil => rw [hs] at h; cases h
  | cons s rest =>
    rw [hs] at h
    exact ⟨s, rest, rfl, Option.some.inj h⟩

theorem Plan.firstKeys_sorted {plan : Plan} {a : Application} (ha : a ∈ plan.applications) :
    a.firstKeys.Pairwise (· ≤ ·) :=
  List.pairwise_map.mpr ((plan.sorted a ha).imp le_of_lt)

/-- The first shard starts at the empty key, so something starts before each hash. -/
theorem Plan.upperBound_pos {plan : Plan} {a : Application} (ha : a ∈ plan.applications)
    (hash : List Byte) : 0 < upperBound a.firstKeys hash := by
  obtain ⟨s, rest, hs, hk⟩ := Plan.shards_cons ha
  have hle : ([] : List Byte) ≤ hash := not_lt.mp (List.not_lt_nil hash)
  simp [upperBound, Application.firstKeys, hs, hk, hle]

theorem Plan.owner_isSome {plan : Plan} {a : Application} (ha : a ∈ plan.applications)
    (hash : List Byte) : ∃ s ∈ a.shards, a.owner hash = some s := by
  have hpos := Plan.upperBound_pos ha hash
  have hle := upperBound_le_length a.firstKeys hash
  have hlen : a.firstKeys.length = a.shards.length := List.length_map ..
  have hlt : upperBound a.firstKeys hash - 1 < a.shards.length := by omega
  exact ⟨a.shards[upperBound a.firstKeys hash - 1], List.getElem_mem hlt,
    List.getElem?_eq_getElem hlt⟩

/-! ## The client finds the owner -/

/-- The map entry of a shard. -/
def Shard.entry (s : Shard) : ShardMapEntry := ⟨s.id, s.firstKey⟩

/-- On sorted shards `_handle_plan` passes its assertion. -/
theorem handleShards_ok : ∀ {shards : List Shard} {acc : List ShardMapEntry}
    {dict : List (Str × Str)}, shards.Pairwise (fun s t => s.firstKey < t.firstKey) →
    (∀ e, acc.getLast? = some e → ∀ s ∈ shards, e.firstKey < s.firstKey) →
    handleShards shards acc dict = .ok (acc ++ shards.map Shard.entry,
      (shards.map fun s => (s.id, s.serverId)).reverse ++ dict)
  | [], acc, dict, _, _ => by simp [handleShards]
  | s :: shards, acc, dict, hs, hacc => by
    obtain ⟨hhd, htl⟩ := List.pairwise_cons.mp hs
    have hall : acc.getLast?.all (fun e => decide (e.firstKey < s.firstKey)) = true := by
      cases hl : acc.getLast? with
      | none => rfl
      | some e => exact decide_eq_true (hacc e hl s (List.mem_cons_self ..))
    rw [handleShards, if_pos hall, handleShards_ok htl]
    · simp [Shard.entry]
    · intro e he t ht
      simp only [List.getLast?_append, List.getLast?_singleton, Option.some_or,
        Option.some.injEq] at he
      subst he
      exact hhd t ht

theorem handleApplications_ok : ∀ {as : List Application} {client : PlacementClient},
    (∀ a ∈ as, a.shards.Pairwise (fun s t => s.firstKey < t.firstKey)) →
    handleApplications as client = .ok
      ⟨(as.map fun a => (a.id, a.shards.map Shard.entry)).reverse ++
          client.shardListByApplication,
        ((as.flatMap Application.shards).map fun s => (s.id, s.serverId)).reverse ++
          client.serverByShard⟩
  | [], client, _ => rfl
  | a :: as, client, h => by
    have ha := h a (List.mem_cons_self ..)
    have has := fun a' ha' => h a' (List.mem_cons_of_mem a ha')
    rw [handleApplications, handleShards_ok ha (by simp)]
    simp only
    rw [handleApplications_ok has]
    simp

/-- The state of the client after a plan. -/
def plannedClient (plan : Plan) : PlacementClient :=
  ⟨(plan.applications.map fun a => (a.id, a.shards.map Shard.entry)).reverse,
    ((plan.applications.flatMap Application.shards).map fun s => (s.id, s.serverId)).reverse⟩

theorem handlePlan_eq (plan : Plan) : handlePlan plan = .ok (plannedClient plan) := by
  rw [handlePlan, handleApplications_ok plan.sorted]
  simp [plannedClient]

theorem plannedClient_shardList {plan : Plan} {a : Application} (ha : a ∈ plan.applications) :
    (plannedClient plan).shardListByApplication.lookup a.id = some (a.shards.map Shard.entry) := by
  refine lookup_of_mem ?_ ?_
  · have h := List.nodup_reverse.mpr plan.applicationIds
    simpa [plannedClient, List.map_reverse, Function.comp_def] using h
  · rw [plannedClient, List.mem_reverse]
    exact List.mem_map.mpr ⟨a, ha, rfl⟩

theorem plannedClient_server {plan : Plan} {a : Application} (ha : a ∈ plan.applications)
    {s : Shard} (hs : s ∈ a.shards) :
    serverForShard (plannedClient plan) s.id = .ok s.serverId := by
  have h : (plannedClient plan).serverByShard.lookup s.id = some s.serverId := by
    refine lookup_of_mem ?_ ?_
    · have h := List.nodup_reverse.mpr plan.shardIds
      simpa [plannedClient, List.map_reverse, Function.comp_def] using h
    · rw [plannedClient, List.mem_reverse]
      exact List.mem_map.mpr ⟨s, List.mem_flatMap.mpr ⟨a, ha, hs⟩, rfl⟩
  rw [serverForShard, h]

section

variable {sha1 : Str → Digest}

/-- The server the client picks is the one of the shard that owns the hash of the
first component. -/
theorem serverForActor_eq {plan : Plan} {a : Application} (ha : a ∈ plan.applications)
    {r : StateRef} {c : Str} {cs : List Str} (hc : r.components = c :: cs) {s : Shard}
    (hs : a.owner (sha1 c).bytes = some s) :
    serverForActor sha1 (plannedClient plan) a.id r = .ok s.serverId := by
  obtain ⟨s0, rest, hshards, hk⟩ := Plan.shards_cons ha
  have hsorted := Plan.firstKeys_sorted ha
  have hpos := Plan.upperBound_pos ha (sha1 c).bytes
  have hkeys : (s0.entry :: rest.map Shard.entry).map ShardMapEntry.firstKey = a.firstKeys := by
    simp [Application.firstKeys, hshards, Shard.entry]
  have hget : (s0.entry :: rest.map Shard.entry)[upperBound a.firstKeys (sha1 c).bytes - 1]? =
      some s.entry := by
    have hmap : s0.entry :: rest.map Shard.entry = a.shards.map Shard.entry := by
      rw [hshards, List.map_cons]
    rw [hmap, List.getElem?_map]
    exact congrArg (Option.map Shard.entry) hs
  have hshard : shardForActor sha1 (plannedClient plan) a.id r = .ok s.id := by
    have hhead : ¬ s0.entry.firstKey ≠ [] := by simp [Shard.entry, hk]
    have hidx : ¬ upperBound a.firstKeys (sha1 c).bytes < 1 := by omega
    simp only [shardForActor, plannedClient_shardList ha, hshards, List.map_cons, if_neg hhead, hc]
    rw [← List.map_cons, hkeys, bisectRight_eq hsorted, if_neg hidx, hget]
    rfl
  rw [serverForActor, hshard]
  exact plannedClient_server ha (List.mem_of_getElem? hs)

/-! ## The database finds the owner -/

/-- The `ShardInfo` of a shard. -/
def Shard.info (s : Shard) : ShardInfo := ⟨s.id, s.firstKey⟩

/-- Whatever the order in which the shards are given to the database. -/
theorem sortedShardFirstKeys_eq {plan : Plan} {a : Application} (ha : a ∈ plan.applications)
    {shardInfos : List ShardInfo} (hp : shardInfos.Perm (a.shards.map Shard.info)) :
    sortedShardFirstKeys shardInfos = a.shards.map fun s => (s.firstKey, s.id) := by
  refine sortBy_eq_of_perm ?_ ?_
  · have h := hp.map fun i => (i.shardFirstKey, i.shardId)
    simpa [List.map_map, Function.comp_def, Shard.info] using h
  · refine List.pairwise_map.mpr ((plan.sorted a ha).imp ?_)
    intro s t hst
    exact Prod.Lex.toLex_lt_toLex.mpr (Or.inl hst)

theorem getShardForHash_eq {plan : Plan} {a : Application} (ha : a ∈ plan.applications)
    {shardInfos : List ShardInfo} (hp : shardInfos.Perm (a.shards.map Shard.info))
    {hash : List Byte} {s : Shard} (hs : a.owner hash = some s) :
    getShardForHash shardInfos hash = some s.id := by
  have hpos := Plan.upperBound_pos ha hash
  obtain ⟨s0, rest, hshards, -⟩ := Plan.shards_cons ha
  have hkeys : (a.shards.map fun s => (s.firstKey, s.id)).map Prod.fst = a.firstKeys := by
    simp [Application.firstKeys, Function.comp_def]
  have hne : ¬ ((a.shards.map fun s => (s.firstKey, s.id)) = [] ∨
      upperBound a.firstKeys hash = 0) := by
    rw [hshards]
    simp
    omega
  simp only [getShardForHash, sortedShardFirstKeys_eq ha hp, hkeys, if_neg hne]
  rw [List.getElem?_map]
  have h := congrArg (Option.map fun s : Shard => (s.firstKey, s.id)) hs
  rw [Application.owner] at h
  rw [h]
  rfl

/-- Both ways to find the first component agree. -/
theorem computeStateRefHash_eq {stateRef c : Str} {cs : List Str}
    (hc : stateRef.splitOn '/' = c :: cs) :
    computeStateRefHash sha1 stateRef = (sha1 c).bytes := by
  unfold computeStateRefHash
  cases h : cutFirst '/' stateRef with
  | none =>
    rw [List.splitOn_eq_singleton (cutFirst_eq_none.mp h)] at hc
    cases hc
    rfl
  | some p =>
    obtain ⟨a, b⟩ := p
    obtain ⟨rfl, hn⟩ := cutFirst_eq_some h
    rw [List.splitOn_append_cons_self_of_not_mem hn] at hc
    cases hc
    rfl

end

end Reboot.Routing
