import Mathlib.Data.List.Dedup
import Reboot.Lib.BigEndian
import Reboot.Routing.Placement

/-!
# How plans are made, and how they grow

`PlanMaker` (`reboot/controller/plan_makers.py`) cuts the keyspace of an application into
`NUM_SHARDS` shards of one size (`reboot/controller/shards.py`), puts shard `i` on server
`i % num_servers`, and server `s` into replica `s // num_servers_per_replica`. `PlacementPlanner`
(`reboot/controller/placement_planner.py`) reads the servers off the shards again.

Both formulas are meant to keep things where they are when an application grows. The first does:
when the servers double, a shard stays or moves from server `s` to server `s + num_servers`
(`mod_two_mul`). The second does under an assumption that its comment states, that the replicas
double with the servers: `replica_unchanged_iff` says exactly when no server changes its replica.

Mirroring notes:
- The services of an application have no part in where its states are placed, and neither have the
  version of a plan and what else a `ServerSpec` is given; they are left out.
- `math.log2(n).is_integer()` is the test for a power of two. A double tells powers of two from
  other numbers up to `2 ** 48`; larger numbers fail one of the two tests that follow on each other.
- The dictionary of replica indexes has the newest binding first.
- The ids of shards are unique within an application, so a `Plan` is made of one application here.
-/

namespace Reboot.Routing

open Reboot.Lib

/-! ## Shards -/

/-- `NUM_SHARDS`. -/
def numShards : Nat := 2 ^ 14

/-- `_NUM_BYTE_VALUES`. -/
def numByteValues : Nat := 256

/-- The loop over `key_length`. Fuel `NUM_SHARDS` is enough. -/
def keyLengthLoop : (fuel keyLength : Nat) → Nat
  | 0, keyLength => keyLength
  | fuel + 1, keyLength =>
    if numByteValues ^ keyLength < numShards then keyLengthLoop fuel (keyLength + 1) else keyLength

def keyLength : Nat := keyLengthLoop numShards 1

def chunkSize : Nat := numByteValues ^ keyLength / numShards

/-- The first key of a shard. -/
def shardFirstKey (i : Nat) : List Byte :=
  if i = 0 then [] else toBytesBig keyLength (i * chunkSize)

/-- `_shard_first_keys`. -/
def shardFirstKeys : List (List Byte) := (List.range numShards).map shardFirstKey

/-- `make_shard_id`. -/
def makeShardId (shardIndex : Nat) : Str := 's' :: zeroPad 9 shardIndex

/-- `make_shard_infos`. -/
def makeShardInfos : List ShardInfo :=
  shardFirstKeys.zipIdx.map fun p => ⟨makeShardId p.2, p.1⟩

/-! ## Plans -/

/-- `ApplicationConfig`: the servers are those of one replica. -/
structure ApplicationConfig where
  id : Str
  replicas : Nat
  servers : Nat
  deriving DecidableEq

/-- `Plan.Application.Shard`. -/
structure PlannedShard where
  id : Str
  serverId : Str
  replicaIndex : Nat
  firstKey : List Byte
  deriving DecidableEq

/-- `Plan.Application`. -/
structure PlannedApplication where
  id : Str
  shards : List PlannedShard
  deriving DecidableEq

/-- What `make_plan` raises. -/
inductive PlanError
  | inputError (message : Str)
  | assertionError
  deriving DecidableEq

/-- `make_server_id`. -/
def makeServerId (applicationId : Str) (serverIndex : Nat) : Str :=
  applicationId ++ "-c".toList ++ zeroPad 6 serverIndex

/-- `validate_num_servers`. -/
def validateNumServers (numServers : Nat) (description : Str) : Except PlanError Unit :=
  if numServers = 0 then
    .error (.inputError ("'".toList ++ description ++ "' must be positive; got ".toList ++
      Nat.toDigits 10 numServers ++ ".".toList))
  else if numServers ≠ 2 ^ Nat.log2 numServers then
    .error (.inputError ("'".toList ++ description ++ "' must be a power of 2; got ".toList ++
      Nat.toDigits 10 numServers ++ ".".toList))
  else .ok ()

def ApplicationConfig.numServers (c : ApplicationConfig) : Nat := c.servers * c.replicas

/-- `server_index_for_shard`. -/
def serverIndexForShard (numServers shardIndex : Nat) : Nat := shardIndex % numServers

/-- `replica_index_for_shard`, from the index of the server. -/
def replicaIndexForServer (numServers numReplicas serverIndex : Nat) : Nat :=
  serverIndex / (numServers / numReplicas)

/-- The shards of an application. -/
def ApplicationConfig.planShards (c : ApplicationConfig) : List PlannedShard :=
  makeShardInfos.zipIdx.map fun p =>
    let serverIndex := serverIndexForShard c.numServers p.2
    ⟨p.1.shardId, makeServerId c.id serverIndex,
      replicaIndexForServer c.numServers c.replicas serverIndex, p.1.shardFirstKey⟩

/-- The body of the loop of `make_plan`. -/
def makeApplication (c : ApplicationConfig) : Except PlanError PlannedApplication :=
  match validateNumServers c.numServers ("ApplicationConfig(name='".toList ++ c.id ++
      "'): spec.servers * spec.replicas".toList) with
  | .error e => .error e
  | .ok () =>
    if makeShardInfos.length % c.numServers ≠ 0 then .error .assertionError
    else if c.numServers % c.replicas ≠ 0 then .error .assertionError
    else .ok ⟨c.id, c.planShards⟩

/-- `PlanMaker.make_plan`. -/
def makePlan : List ApplicationConfig → Except PlanError (List PlannedApplication)
  | [] => .ok []
  | c :: configs =>
    match makeApplication c with
    | .error e => .error e
    | .ok a =>
      match makePlan configs with
      | .error e => .error e
      | .ok applications => .ok (a :: applications)

/-! ## Servers -/

/-- `ServerSpec`. -/
structure ServerSpec where
  id : Str
  replicaIndex : Nat
  shards : List ShardInfo
  deriving DecidableEq

/-- The `ShardInfo` that a server is given for a shard. -/
def PlannedShard.info (s : PlannedShard) : ShardInfo := ⟨s.id, s.firstKey⟩

/-- `replica_indexes`. -/
def PlannedApplication.replicaIndexes (a : PlannedApplication) : List (Str × Nat) :=
  (a.shards.map fun s => (s.serverId, s.replicaIndex)).reverse

/-- The servers of an application, in `PlacementPlanner.make_plan`. -/
def PlannedApplication.serverSpecs (a : PlannedApplication) : List ServerSpec :=
  (a.shards.map PlannedShard.serverId).dedup.map fun serverId =>
    ⟨serverId, (a.replicaIndexes.lookup serverId).getD 0,
      (a.shards.filter fun s => decide (s.serverId = serverId)).map PlannedShard.info⟩

/-! ## The shards of a plan -/

theorem keyLength_eq : keyLength = 2 := by decide +kernel

theorem chunkSize_eq : chunkSize = 4 := by decide +kernel

/-- The first keys are in the order of the shards. -/
theorem shardFirstKey_lt {i j : Nat} (hij : i < j) (hj : j < numShards) :
    shardFirstKey i < shardFirstKey j := by
  have hj0 : j ≠ 0 := by omega
  unfold shardFirstKey
  rw [if_neg hj0, keyLength_eq, chunkSize_eq]
  split
  next => exact List.nil_lt_cons _ _
  next =>
    refine toBytesBig_lt (Nat.mul_lt_mul_of_pos_right hij (by decide)) ?_
    have hbound : numShards * 4 = 256 ^ 2 := by decide
    rw [← hbound]
    exact Nat.mul_lt_mul_of_pos_right hj (by decide)

section

variable {c : ApplicationConfig}

/-- The shard at an index. -/
def ApplicationConfig.shardAt (c : ApplicationConfig) (i : Nat) : PlannedShard :=
  ⟨makeShardId i, makeServerId c.id (serverIndexForShard c.numServers i),
    replicaIndexForServer c.numServers c.replicas (serverIndexForShard c.numServers i),
    shardFirstKey i⟩

theorem planShards_eq : c.planShards = (List.range numShards).map c.shardAt := by
  refine List.ext_getElem? fun i => ?_
  simp only [ApplicationConfig.planShards, makeShardInfos, shardFirstKeys, List.getElem?_map,
    List.getElem?_zipIdx, Option.map_map, Nat.zero_add]
  by_cases hi : i < numShards
  · rw [List.getElem?_range hi]
    rfl
  · rw [List.getElem?_eq_none (by rw [List.length_range]; exact Nat.le_of_not_lt hi)]
    rfl

-- sixteen thousand shards are not for unification to look into
attribute [irreducible] ApplicationConfig.planShards

theorem length_makeShardInfos : makeShardInfos.length = numShards := by
  simp [makeShardInfos, shardFirstKeys]

theorem getElem?_planShards {i : Nat} {s : PlannedShard} :
    c.planShards[i]? = some s ↔ i < numShards ∧ s = c.shardAt i := by
  rw [planShards_eq, List.getElem?_map]
  by_cases hi : i < numShards
  · rw [List.getElem?_range hi, Option.map_some, Option.some.injEq]
    exact ⟨fun h => ⟨hi, h.symm⟩, fun h => h.2.symm⟩
  · rw [List.getElem?_eq_none (by rw [List.length_range]; exact Nat.le_of_not_lt hi)]
    exact iff_of_false nofun fun h => hi h.1

theorem mem_planShards {s : PlannedShard} :
    s ∈ c.planShards ↔ ∃ i < numShards, s = c.shardAt i := by
  rw [List.mem_iff_getElem?]
  exact exists_congr fun i => getElem?_planShards

/-- The configurations that get a plan. -/
structure ApplicationConfig.Valid (c : ApplicationConfig) : Prop where
  servers : 0 < c.servers
  replicas : 0 < c.replicas
  power : c.numServers = 2 ^ Nat.log2 c.numServers
  divides : c.numServers ∣ numShards

theorem makeApplication_ok_iff {a : PlannedApplication} :
    makeApplication c = .ok a ↔ c.Valid ∧ a = ⟨c.id, c.planShards⟩ := by
  unfold makeApplication validateNumServers
  rw [length_makeShardInfos]
  by_cases hzero : c.numServers = 0
  · rw [if_pos hzero]
    refine iff_of_false nofun fun h => ?_
    have hpos := Nat.mul_pos h.1.servers h.1.replicas
    exact Nat.ne_of_gt hpos hzero
  · rw [if_neg hzero]
    have hservers : 0 < c.servers := Nat.pos_of_ne_zero fun h => hzero (by
      rw [ApplicationConfig.numServers, h, Nat.zero_mul])
    have hreplicas : 0 < c.replicas := Nat.pos_of_ne_zero fun h => hzero (by
      rw [ApplicationConfig.numServers, h, Nat.mul_zero])
    by_cases hpower : c.numServers = 2 ^ Nat.log2 c.numServers
    · rw [if_neg (not_not.mpr hpower)]
      dsimp only
      by_cases hdivides : numShards % c.numServers = 0
      · have hmod : ¬ c.numServers % c.replicas ≠ 0 := fun h => h (Nat.mul_mod_left _ _)
        rw [if_neg (not_not.mpr hdivides), if_neg hmod, Except.ok.injEq]
        exact ⟨fun h => ⟨⟨hservers, hreplicas, hpower, Nat.dvd_of_mod_eq_zero hdivides⟩, h.symm⟩,
          fun h => h.2.symm⟩
      · rw [if_pos hdivides]
        exact iff_of_false nofun fun h => hdivides (Nat.mod_eq_zero_of_dvd h.1.divides)
    · rw [if_pos hpower]
      exact iff_of_false nofun fun h => hpower h.1.power

theorem ApplicationConfig.Valid.pos (h : c.Valid) : 0 < c.numServers :=
  Nat.mul_pos h.servers h.replicas

theorem ApplicationConfig.Valid.le (h : c.Valid) : c.numServers ≤ numShards :=
  Nat.le_of_dvd (by decide) h.divides

/-- Servers of a replica are next to each other. -/
theorem replicaIndexForServer_eq (h : c.Valid) (serverIndex : Nat) :
    replicaIndexForServer c.numServers c.replicas serverIndex = serverIndex / c.servers := by
  rw [replicaIndexForServer, ApplicationConfig.numServers, Nat.mul_div_cancel _ h.replicas]

/-! ## The plan as a placement -/

theorem planShards_sorted : c.planShards.Pairwise fun s t => s.firstKey < t.firstKey := by
  rw [planShards_eq, List.pairwise_map, List.pairwise_iff_getElem]
  intro i j hi hj hij
  rw [List.length_range] at hi hj
  rw [List.getElem_range, List.getElem_range]
  exact shardFirstKey_lt hij hj

theorem planShards_head : c.planShards.head?.map PlannedShard.firstKey = some [] := by
  have hpos : 0 < numShards := by decide
  rw [List.head?_eq_getElem?, getElem?_planShards.mpr ⟨hpos, rfl⟩]
  rfl

/-- The shard as routing sees it. -/
def PlannedShard.toShard (s : PlannedShard) : Shard := ⟨s.id, s.firstKey, s.serverId⟩

theorem makeShardId_injective : Function.Injective makeShardId := fun _ _ h =>
  zeroPad_injective 9 (List.cons.inj h).2

theorem makeServerId_injective (id : Str) : Function.Injective (makeServerId id) := fun _ _ h =>
  zeroPad_injective 6 (List.append_cancel_left h)

variable (c) in
/-- The plan of one application. -/
def ApplicationConfig.plan : Plan where
  applications := [⟨c.id, c.planShards.map PlannedShard.toShard⟩]
  sorted a ha := by
    rw [List.mem_singleton] at ha
    subst ha
    dsimp only
    rw [List.pairwise_map]
    exact planShards_sorted
  startsEmpty a ha := by
    rw [List.mem_singleton] at ha
    subst ha
    rw [List.head?_map, Option.map_map]
    exact planShards_head
  applicationIds := List.nodup_singleton _
  shardIds := by
    have hids : ((c.planShards.map PlannedShard.toShard).map Shard.id) =
        (List.range numShards).map makeShardId := by
      rw [planShards_eq, List.map_map, List.map_map]
      rfl
    rw [List.flatMap_singleton, hids]
    exact List.nodup_range.map makeShardId_injective

/-! ## The servers of a plan -/

/-- The server with an index. -/
def ApplicationConfig.serverAt (c : ApplicationConfig) (serverIndex : Nat) : ServerSpec :=
  ⟨makeServerId c.id serverIndex, serverIndex / c.servers,
    (c.planShards.filter fun s => decide (s.serverId = makeServerId c.id serverIndex)).map
      PlannedShard.info⟩

/-- All shards of a server have its replica index. -/
theorem shardAt_replicaIndex (h : c.Valid) (i : Nat) :
    (c.shardAt i).replicaIndex = serverIndexForShard c.numServers i / c.servers :=
  replicaIndexForServer_eq h _

theorem serverIndexForShard_lt (h : c.Valid) (i : Nat) :
    serverIndexForShard c.numServers i < c.numServers := Nat.mod_lt _ h.pos

/-- The first shards are on the servers of the same index. -/
theorem serverIndexForShard_of_lt {serverIndex : Nat} (hlt : serverIndex < c.numServers) :
    serverIndexForShard c.numServers serverIndex = serverIndex := Nat.mod_eq_of_lt hlt

theorem mem_serverIds (h : c.Valid) {id : Str} :
    id ∈ (c.planShards.map PlannedShard.serverId).dedup ↔
      ∃ serverIndex < c.numServers, id = makeServerId c.id serverIndex := by
  rw [List.mem_dedup, List.mem_map]
  constructor
  · rintro ⟨s, hs, rfl⟩
    obtain ⟨i, -, rfl⟩ := mem_planShards.mp hs
    exact ⟨_, serverIndexForShard_lt h i, rfl⟩
  · rintro ⟨serverIndex, hlt, rfl⟩
    refine ⟨c.shardAt serverIndex, mem_planShards.mpr ⟨_, Nat.lt_of_lt_of_le hlt h.le, rfl⟩, ?_⟩
    rw [ApplicationConfig.shardAt, serverIndexForShard_of_lt hlt]

/-- The dictionary of replica indexes agrees with every shard of a server. -/
theorem lookup_replicaIndexes (h : c.Valid) {serverIndex : Nat} (hlt : serverIndex < c.numServers) :
    (PlannedApplication.mk c.id c.planShards).replicaIndexes.lookup
      (makeServerId c.id serverIndex) = some (serverIndex / c.servers) := by
  have hmem : ∀ p ∈ (PlannedApplication.mk c.id c.planShards).replicaIndexes,
      ∃ i, p = (makeServerId c.id (serverIndexForShard c.numServers i),
        serverIndexForShard c.numServers i / c.servers) := by
    intro p hp
    obtain ⟨s, hs, rfl⟩ := List.mem_map.mp (List.mem_reverse.mp hp)
    obtain ⟨i, -, rfl⟩ := mem_planShards.mp hs
    exact ⟨i, Prod.ext rfl (shardAt_replicaIndex h i)⟩
  cases hlookup : (PlannedApplication.mk c.id c.planShards).replicaIndexes.lookup
      (makeServerId c.id serverIndex) with
  | none =>
    obtain ⟨s, hs, hid⟩ := List.mem_map.mp
      (List.mem_dedup.mp ((mem_serverIds h).mpr ⟨serverIndex, hlt, rfl⟩))
    have hno := List.lookup_eq_none_iff.mp hlookup (s.serverId, s.replicaIndex)
      (List.mem_reverse.mpr (List.mem_map.mpr ⟨s, hs, rfl⟩))
    rw [hid] at hno
    exact absurd rfl (bne_iff_ne.mp hno)
  | some replicaIndex =>
    obtain ⟨front, back, hsplit, -⟩ := List.lookup_eq_some_iff.mp hlookup
    obtain ⟨i, hi⟩ := hmem (makeServerId c.id serverIndex, replicaIndex) (by
      rw [hsplit]
      exact List.mem_append_right _ List.mem_cons_self)
    obtain ⟨hid, rfl⟩ := Prod.mk.inj hi
    rw [makeServerId_injective c.id hid]

theorem mem_serverSpecs (h : c.Valid) {server : ServerSpec} :
    server ∈ (PlannedApplication.mk c.id c.planShards).serverSpecs ↔
      ∃ serverIndex < c.numServers, server = c.serverAt serverIndex := by
  have hspec : ∀ serverIndex < c.numServers,
      (⟨makeServerId c.id serverIndex,
        ((PlannedApplication.mk c.id c.planShards).replicaIndexes.lookup
          (makeServerId c.id serverIndex)).getD 0,
        (c.planShards.filter fun s => decide (s.serverId = makeServerId c.id serverIndex)).map
          PlannedShard.info⟩ : ServerSpec) = c.serverAt serverIndex := by
    intro serverIndex hlt
    rw [lookup_replicaIndexes h hlt]
    rfl
  unfold PlannedApplication.serverSpecs
  rw [List.mem_map]
  constructor
  · rintro ⟨id, hid, rfl⟩
    obtain ⟨serverIndex, hlt, rfl⟩ := (mem_serverIds h).mp hid
    exact ⟨serverIndex, hlt, hspec serverIndex hlt⟩
  · rintro ⟨serverIndex, hlt, rfl⟩
    exact ⟨_, (mem_serverIds h).mpr ⟨serverIndex, hlt, rfl⟩, hspec serverIndex hlt⟩

theorem mem_serverAt_shards {serverIndex i : Nat} (hi : i < numShards) :
    (c.shardAt i).info ∈ (c.serverAt serverIndex).shards ↔
      serverIndexForShard c.numServers i = serverIndex := by
  unfold ApplicationConfig.serverAt
  rw [List.mem_map]
  constructor
  · rintro ⟨s, hs, hinfo⟩
    rw [List.mem_filter, decide_eq_true_iff] at hs
    obtain ⟨j, -, rfl⟩ := mem_planShards.mp hs.1
    rw [← makeShardId_injective (congrArg ShardInfo.shardId hinfo)]
    exact makeServerId_injective c.id hs.2
  · rintro rfl
    refine ⟨c.shardAt i, List.mem_filter.mpr ⟨mem_planShards.mpr ⟨i, hi, rfl⟩, ?_⟩, rfl⟩
    exact decide_eq_true rfl

/-! ## Partitions -/

/-- A hash is in the range of a shard, which ends where the next shard begins. -/
def PlannedApplication.InRange (a : PlannedApplication) (i : Nat) (hash : List Byte) : Prop :=
  (∃ s, a.shards[i]? = some s ∧ s.firstKey ≤ hash) ∧
    ∀ next, a.shards[i + 1]? = some next → hash < next.firstKey

/-- The shards of a plan partition the keyspace, the servers the shards, and the replicas the
servers. -/
structure Partitions (c : ApplicationConfig) (a : PlannedApplication) : Prop where
  id : a.id = c.id
  startsEmpty : a.shards.head?.map PlannedShard.firstKey = some []
  sorted : a.shards.Pairwise fun s t => s.firstKey < t.firstKey
  covers : ∀ hash, ∃! i, a.InRange i hash
  oneServer : ∀ s ∈ a.shards, ∃! server, server ∈ a.serverSpecs ∧ s.info ∈ server.shards
  serverIds : (a.serverSpecs.map ServerSpec.id).Nodup
  oneReplica : ∀ server ∈ a.serverSpecs, server.replicaIndex < c.replicas ∧
    ∀ s ∈ a.shards, s.serverId = server.id → s.replicaIndex = server.replicaIndex

theorem partitions (h : c.Valid) : Partitions c ⟨c.id, c.planShards⟩ where
  id := rfl
  startsEmpty := planShards_head
  sorted := planShards_sorted
  covers hash := by
    have hsorted : (c.planShards.map PlannedShard.firstKey).Pairwise (· < ·) := by
      rw [List.pairwise_map]
      exact planShards_sorted
    have hhead : (c.planShards.map PlannedShard.firstKey).head? = some [] := by
      rw [List.head?_map]
      exact planShards_head
    have hnil : ([] : List Byte) ≤ hash := not_lt.mp (List.not_lt_nil hash)
    simpa only [PlannedApplication.InRange, List.getElem?_map, Option.map_eq_some_iff,
      exists_exists_and_eq_and, forall_exists_index, and_imp, forall_apply_eq_imp_iff₂] using
      existsUnique_range hsorted hhead hnil
  oneServer s hs := by
    obtain ⟨i, hi, rfl⟩ := mem_planShards.mp hs
    refine ⟨c.serverAt (serverIndexForShard c.numServers i),
      ⟨(mem_serverSpecs h).mpr ⟨_, serverIndexForShard_lt h i, rfl⟩,
        (mem_serverAt_shards hi).mpr rfl⟩, ?_⟩
    rintro server ⟨hserver, hshard⟩
    obtain ⟨serverIndex, -, rfl⟩ := (mem_serverSpecs h).mp hserver
    rw [(mem_serverAt_shards hi).mp hshard]
  serverIds := by
    unfold PlannedApplication.serverSpecs
    rw [List.map_map]
    exact List.map_id _ ▸ List.nodup_dedup _
  oneReplica server hserver := by
    obtain ⟨serverIndex, hlt, rfl⟩ := (mem_serverSpecs h).mp hserver
    refine ⟨Nat.div_lt_of_lt_mul hlt, fun s hs hid => ?_⟩
    obtain ⟨i, -, rfl⟩ := mem_planShards.mp hs
    rw [shardAt_replicaIndex h, makeServerId_injective c.id hid]
    rfl

/-- All applications of a plan are partitioned. -/
theorem partitions_makePlan : ∀ {configs : List ApplicationConfig}
    {applications : List PlannedApplication}, makePlan configs = .ok applications →
    List.Forall₂ Partitions configs applications
  | [], _, h => by
    cases h
    exact .nil
  | c :: configs, _, h => by
    unfold makePlan at h
    split at h
    next => cases h
    next a ha =>
      split at h
      next => cases h
      next applications happlications =>
        cases h
        obtain ⟨hvalid, rfl⟩ := makeApplication_ok_iff.mp ha
        exact .cons (partitions hvalid) (partitions_makePlan happlications)

/-! ## Growth -/

/-- With twice the servers a shard stays, or moves up by the number of servers there were. -/
theorem mod_two_mul (numServers i : Nat) :
    i % (2 * numServers) = i % numServers ∨ i % (2 * numServers) = i % numServers + numServers := by
  rw [Nat.mul_comm, Nat.mod_mul]
  rcases Nat.mod_two_eq_zero_or_one (i / numServers) with h | h
  · exact .inl (by rw [h, Nat.mul_zero, Nat.add_zero])
  · exact .inr (by rw [h, Nat.mul_one])

/-- The shard of a hash, which no configuration has a part in. -/
def shardIndexOf (hash : List Byte) : Nat := upperBound shardFirstKeys hash - 1

theorem shardIndexOf_lt (hash : List Byte) : shardIndexOf hash < numShards := by
  have hle := upperBound_le_length shardFirstKeys hash
  have hlen : shardFirstKeys.length = numShards := by
    rw [shardFirstKeys, List.length_map, List.length_range]
  have hpos : 0 < numShards := by decide
  unfold shardIndexOf
  omega

/-- The client finds the server of a state by the shard of its hash. -/
theorem serverForActor_plan (sha1 : Str → Digest) {ref : StateRef} {component : Str}
    {components : List Str} (href : ref.components = component :: components) :
    serverForActor sha1 (plannedClient c.plan) c.id ref =
      .ok (makeServerId c.id
        (serverIndexForShard c.numServers (shardIndexOf (sha1 component).bytes))) := by
  have hmem : (⟨c.id, c.planShards.map PlannedShard.toShard⟩ : Application) ∈
      c.plan.applications := List.mem_singleton.mpr rfl
  have hkeys : (Application.mk c.id (c.planShards.map PlannedShard.toShard)).firstKeys =
      shardFirstKeys := by
    unfold Application.firstKeys shardFirstKeys
    rw [List.map_map, planShards_eq, List.map_map]
    rfl
  have howner : (Application.mk c.id (c.planShards.map PlannedShard.toShard)).owner
      (sha1 component).bytes = some (c.shardAt (shardIndexOf (sha1 component).bytes)).toShard := by
    unfold Application.owner
    rw [hkeys, List.getElem?_map]
    have hget := getElem?_planShards.mpr ⟨shardIndexOf_lt (sha1 component).bytes,
      (rfl : c.shardAt _ = _)⟩
    unfold shardIndexOf at hget
    rw [hget]
    rfl
  exact serverForActor_eq hmem href howner

theorem exists_components (ref : StateRef) :
    ∃ component components, ref.components = component :: components := by
  unfold StateRef.components
  cases h : ref.ref.splitOn '/' with
  | nil => exact absurd h (List.splitOn_ne_nil _ _)
  | cons component components => exact ⟨component, components, rfl⟩

/-- A state stays on its server or moves to the one that is as many servers further. -/
theorem state_grows (sha1 : Str → Digest) {c' : ApplicationConfig} (h : c.Valid)
    (hid : c'.id = c.id) (hdouble : c'.numServers = 2 * c.numServers) (ref : StateRef) :
    ∃ serverIndex < c.numServers,
      serverForActor sha1 (plannedClient c.plan) c.id ref = .ok (makeServerId c.id serverIndex) ∧
      (serverForActor sha1 (plannedClient c'.plan) c.id ref =
          .ok (makeServerId c.id serverIndex) ∨
        serverForActor sha1 (plannedClient c'.plan) c.id ref =
          .ok (makeServerId c.id (serverIndex + c.numServers))) := by
  obtain ⟨component, components, href⟩ := exists_components ref
  have hbefore := serverForActor_plan (c := c) sha1 href
  have hafter := serverForActor_plan (c := c') sha1 href
  rw [hid, hdouble] at hafter
  refine ⟨_, serverIndexForShard_lt h _, hbefore, ?_⟩
  rw [hafter]
  unfold serverIndexForShard
  rcases mod_two_mul c.numServers (shardIndexOf (sha1 component).bytes) with heq | heq
  · exact .inl (by rw [heq])
  · exact .inr (by rw [heq])

/-- All servers keep their replica exactly if a replica keeps its number of servers, or if there was
one replica, which does not get smaller. -/
theorem replica_unchanged_iff {servers replicas servers' : Nat} (hs : 0 < servers)
    (hr : 0 < replicas) (hs' : 0 < servers') :
    (∀ serverIndex < servers * replicas, serverIndex / servers' = serverIndex / servers) ↔
      servers' = servers ∨ replicas = 1 ∧ servers ≤ servers' := by
  constructor
  · intro hsame
    rcases Nat.lt_trichotomy servers' servers with hlt | heq | hlt
    · -- the last server of the first replica would have to move up
      have hone := hsame servers' (Nat.lt_of_lt_of_le hlt (Nat.le_mul_of_pos_right _ hr))
      rw [Nat.div_self hs', Nat.div_eq_of_lt hlt] at hone
      cases hone
    · exact .inl heq
    · refine .inr ⟨?_, Nat.le_of_lt hlt⟩
      by_contra hmany
      have htwo : 2 ≤ replicas := by omega
      have hin : servers < servers * replicas := by
        have hmul := Nat.mul_le_mul_left servers htwo
        omega
      have hone := hsame servers hin
      rw [Nat.div_self hs, Nat.div_eq_of_lt hlt] at hone
      cases hone
  · rintro (rfl | ⟨rfl, hle⟩) serverIndex hlt
    · rfl
    · rw [Nat.mul_one] at hlt
      rw [Nat.div_eq_of_lt hlt, Nat.div_eq_of_lt (Nat.lt_of_lt_of_le hlt hle)]

/-- Every server is there after growth, and none has another replica exactly if … as above. -/
theorem replicas_grow_iff {c' : ApplicationConfig} (h : c.Valid) (h' : c'.Valid)
    (hid : c'.id = c.id) (hdouble : c'.numServers = 2 * c.numServers) :
    (∀ server ∈ (PlannedApplication.mk c.id c.planShards).serverSpecs,
      ∃ server' ∈ (PlannedApplication.mk c'.id c'.planShards).serverSpecs,
        server'.id = server.id ∧ server'.replicaIndex = server.replicaIndex) ↔
      c'.servers = c.servers ∨ c.replicas = 1 ∧ c.servers ≤ c'.servers := by
  rw [← replica_unchanged_iff h.servers h.replicas h'.servers]
  constructor
  · intro hall serverIndex hlt
    obtain ⟨server', hmem', hid', hreplica⟩ := hall _ ((mem_serverSpecs h).mpr ⟨_, hlt, rfl⟩)
    obtain ⟨serverIndex', -, rfl⟩ := (mem_serverSpecs h').mp hmem'
    have hindex : serverIndex' = serverIndex := by
      refine makeServerId_injective c.id ?_
      have hids : makeServerId c'.id serverIndex' = makeServerId c.id serverIndex := hid'
      rwa [hid] at hids
    subst hindex
    exact hreplica
  · intro hall server hmem
    obtain ⟨serverIndex, hlt, rfl⟩ := (mem_serverSpecs h).mp hmem
    have hlt' : serverIndex < c'.numServers := by
      rw [hdouble]
      omega
    refine ⟨_, (mem_serverSpecs h').mpr ⟨serverIndex, hlt', rfl⟩, ?_, hall serverIndex hlt⟩
    exact congrArg (fun id => makeServerId id serverIndex) hid

end

/-- Plans are partitions; when the servers of an application double, its states stay or move by the
number of servers there were, and its servers stay in their replicas exactly if a replica keeps its
number of servers, or if there was one replica, which does not get smaller. -/
theorem plans_partition_grow (sha1 : Str → Digest) :
    (∀ configs applications, makePlan configs = .ok applications →
      List.Forall₂ Partitions configs applications) ∧
    ∀ c c' a a', makeApplication c = .ok a → makeApplication c' = .ok a' → c'.id = c.id →
      c'.numServers = 2 * c.numServers →
      (∀ ref, ∃ serverIndex < c.numServers,
        serverForActor sha1 (plannedClient c.plan) c.id ref =
          .ok (makeServerId c.id serverIndex) ∧
        (serverForActor sha1 (plannedClient c'.plan) c.id ref =
            .ok (makeServerId c.id serverIndex) ∨
          serverForActor sha1 (plannedClient c'.plan) c.id ref =
            .ok (makeServerId c.id (serverIndex + c.numServers)))) ∧
      ((∀ server ∈ a.serverSpecs, ∃ server' ∈ a'.serverSpecs,
          server'.id = server.id ∧ server'.replicaIndex = server.replicaIndex) ↔
        c'.servers = c.servers ∨ c.replicas = 1 ∧ c.servers ≤ c'.servers) := by
  refine ⟨fun _ _ h => partitions_makePlan h, fun c c' a a' ha ha' hid hdouble => ?_⟩
  obtain ⟨hvalid, rfl⟩ := makeApplication_ok_iff.mp ha
  obtain ⟨hvalid', rfl⟩ := makeApplication_ok_iff.mp ha'
  exact ⟨state_grows sha1 hvalid hid hdouble, replicas_grow_iff hvalid hvalid' hid hdouble⟩

/-- The configurations of the chat, by replicas and servers per replica. -/
def chatConfig (replicas servers : Nat) : ApplicationConfig := ⟨"chat".toList, replicas, servers⟩

/-- One server becomes two replicas of one server each. -/
theorem chat_grows :
    Partitions (chatConfig 1 1) ⟨"chat".toList, (chatConfig 1 1).planShards⟩ ∧
    ∀ server ∈ (PlannedApplication.mk "chat".toList (chatConfig 1 1).planShards).serverSpecs,
      ∃ server' ∈ (PlannedApplication.mk "chat".toList (chatConfig 2 1).planShards).serverSpecs,
        server'.id = server.id ∧ server'.replicaIndex = server.replicaIndex := by
  have hone : makeApplication (chatConfig 1 1) = .ok ⟨"chat".toList, (chatConfig 1 1).planShards⟩ :=
    makeApplication_ok_iff.mpr ⟨⟨by decide, by decide, by decide, ⟨numShards, rfl⟩⟩, rfl⟩
  have htwo : makeApplication (chatConfig 2 1) = .ok ⟨"chat".toList, (chatConfig 2 1).planShards⟩ :=
    makeApplication_ok_iff.mpr ⟨⟨by decide, by decide, by decide, ⟨8192, by decide⟩⟩, rfl⟩
  obtain ⟨hpartition, hgrow⟩ := plans_partition_grow fun _ => ⟨List.replicate 20 0, rfl⟩
  have hplan : makePlan [chatConfig 1 1] =
      .ok [⟨"chat".toList, (chatConfig 1 1).planShards⟩] := by
    rw [makePlan, hone]
    rfl
  refine ⟨?_, (hgrow _ _ _ _ hone htwo rfl rfl).2.mpr (.inl rfl)⟩
  cases hpartition _ _ hplan with
  | cons hfirst _ => exact hfirst

/-- Two replicas of one server become two replicas of two: the second server changes its replica. -/
theorem chat_replica_changes :
    ∃ a a', makeApplication (chatConfig 2 1) = .ok a ∧ makeApplication (chatConfig 2 2) = .ok a' ∧
      (chatConfig 2 1).serverAt 1 ∈ a.serverSpecs ∧ (chatConfig 2 2).serverAt 1 ∈ a'.serverSpecs ∧
      ((chatConfig 2 1).serverAt 1).id = ((chatConfig 2 2).serverAt 1).id ∧
      ((chatConfig 2 1).serverAt 1).replicaIndex = 1 ∧
      ((chatConfig 2 2).serverAt 1).replicaIndex = 0 := by
  have htwo : (chatConfig 2 1).Valid := ⟨by decide, by decide, by decide, ⟨8192, by decide⟩⟩
  have hfour : (chatConfig 2 2).Valid := ⟨by decide, by decide, by decide, ⟨4096, by decide⟩⟩
  exact ⟨_, _, makeApplication_ok_iff.mpr ⟨htwo, rfl⟩, makeApplication_ok_iff.mpr ⟨hfour, rfl⟩,
    (mem_serverSpecs htwo).mpr ⟨1, by decide, rfl⟩, (mem_serverSpecs hfour).mpr ⟨1, by decide, rfl⟩,
    rfl, rfl, rfl⟩

end Reboot.Routing
