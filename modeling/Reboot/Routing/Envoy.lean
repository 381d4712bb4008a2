import Mathlib.Algebra.Group.Nat.Defs
import Reboot.Routing.Placement

/-!
# Routing in Envoy

The Lua filter `compute_header_x_reboot_server_id.lua.j2` picks the server for a
request that carries an `x-reboot-state-ref` header, and
`_http_filter_compute_header_x_reboot_server_id` (`reboot/routing/envoy_config.py`)
renders its tables from the servers of the application.

The filter has its own base64 encoder, its own normalization of the ref and its own
binary search, and each is modelled as it is written. The encoder works on strings
of bits and agrees with Python's (`base64Urlsafe_eq`), so tags agree
(`luaStateTypeTagForName_eq`). The search agrees with `Application.owner`
(`pickServer_eq`). What is left of the difference to the placement client is in
`stateRefFromMaybeHumanReadable` and in what is hashed: the *whole* normalized ref.

Mirroring notes:
- Lua's 1-based positions are kept in the search loop.
- The literal `"\x41\x00"` that `RouteMapEntry.from_key_bytes` renders denotes the
  bytes it was made from, so a route map holds bytes.
- LuaJIT compares strings bytewise.
- Empty components never reach the loop, because `gmatch("[^/]+")` yields the
  maximal nonempty runs between slashes.
- `math.random` is a parameter; logging is left out.
-/

namespace Reboot.Routing

open Reboot.Lib

/-! ## The base64 encoder of the filter -/

/-- Whether bit `i` (1 to 8) of a byte is set: `b%2^i-b%2^(i-1)>0`. -/
def luaBit (b : Byte) (i : Nat) : Bool := decide (b.val % 2 ^ i - b.val % 2 ^ (i - 1) > 0)

/-- The eight binary digits of a byte. -/
def luaByteBits (b : Byte) : List Bool :=
  [luaBit b 8, luaBit b 7, luaBit b 6, luaBit b 5, luaBit b 4, luaBit b 3, luaBit b 2, luaBit b 1]

/-- The digit for a full group of six. -/
def luaDigit (x1 x2 x3 x4 x5 x6 : Bool) : Char :=
  base64Char (x1.toNat * 2 ^ 5 + x2.toNat * 2 ^ 4 + x3.toNat * 2 ^ 3 + x4.toNat * 2 ^ 2 +
    x5.toNat * 2 ^ 1 + x6.toNat * 2 ^ 0)

/-- `gsub('%d%d%d?%d?%d?%d?', ..)`: a match of fewer than six digits is dropped, and
a single digit is no match and stays. -/
def luaGroups : List Bool → Str
  | x1 :: x2 :: x3 :: x4 :: x5 :: x6 :: rest => luaDigit x1 x2 x3 x4 x5 x6 :: luaGroups rest
  | [] => []
  | [x] => [if x then '1' else '0']
  | _ => []

/-- `base64_urlsafe`. -/
def base64Urlsafe (data : List Byte) : Str :=
  luaGroups (data.flatMap luaByteBits ++ [false, false, false, false]) ++
    (["", "==", "="].getD (data.length % 3) "").toList

/-- The bits of a byte, read in the pieces that base64 cuts it into. -/
theorem luaBit_values : ∀ b : Byte,
    (luaBit b 8).toNat * 2 ^ 5 + (luaBit b 7).toNat * 2 ^ 4 + (luaBit b 6).toNat * 2 ^ 3 +
      (luaBit b 5).toNat * 2 ^ 2 + (luaBit b 4).toNat * 2 ^ 1 + (luaBit b 3).toNat = b.val / 4 ∧
    (luaBit b 2).toNat * 2 ^ 5 + (luaBit b 1).toNat * 2 ^ 4 = b.val % 4 * 16 ∧
    (luaBit b 8).toNat * 2 ^ 3 + (luaBit b 7).toNat * 2 ^ 2 + (luaBit b 6).toNat * 2 ^ 1 +
      (luaBit b 5).toNat = b.val / 16 ∧
    (luaBit b 4).toNat * 2 ^ 5 + (luaBit b 3).toNat * 2 ^ 4 + (luaBit b 2).toNat * 2 ^ 3 +
      (luaBit b 1).toNat * 2 ^ 2 = b.val % 16 * 4 ∧
    (luaBit b 8).toNat * 2 ^ 1 + (luaBit b 7).toNat = b.val / 64 ∧
    (luaBit b 6).toNat * 2 ^ 5 + (luaBit b 5).toNat * 2 ^ 4 + (luaBit b 4).toNat * 2 ^ 3 +
      (luaBit b 3).toNat * 2 ^ 2 + (luaBit b 2).toNat * 2 ^ 1 + (luaBit b 1).toNat =
        b.val % 64 := by
  decide +kernel

section

variable {a b c : Byte}

theorem luaDigit_first :
    luaDigit (luaBit a 8) (luaBit a 7) (luaBit a 6) (luaBit a 5) (luaBit a 4) (luaBit a 3) =
      base64Char (a / 4) := by
  obtain ⟨h, -⟩ := luaBit_values a
  exact congrArg base64Char (by omega)

theorem luaDigit_second_pad :
    luaDigit (luaBit a 2) (luaBit a 1) false false false false = base64Char (a % 4 * 16) := by
  obtain ⟨-, h, -⟩ := luaBit_values a
  exact congrArg base64Char (by simp only [Bool.toNat_false]; omega)

theorem luaDigit_second :
    luaDigit (luaBit a 2) (luaBit a 1) (luaBit b 8) (luaBit b 7) (luaBit b 6) (luaBit b 5) =
      base64Char (a % 4 * 16 + b / 16) := by
  obtain ⟨-, ha, -⟩ := luaBit_values a
  obtain ⟨-, -, hb, -⟩ := luaBit_values b
  exact congrArg base64Char (by omega)

theorem luaDigit_third_pad :
    luaDigit (luaBit b 4) (luaBit b 3) (luaBit b 2) (luaBit b 1) false false =
      base64Char (b % 16 * 4) := by
  obtain ⟨-, -, -, h, -⟩ := luaBit_values b
  exact congrArg base64Char (by simp only [Bool.toNat_false]; omega)

theorem luaDigit_third :
    luaDigit (luaBit b 4) (luaBit b 3) (luaBit b 2) (luaBit b 1) (luaBit c 8) (luaBit c 7) =
      base64Char (b % 16 * 4 + c / 64) := by
  obtain ⟨-, -, -, hb, -⟩ := luaBit_values b
  obtain ⟨-, -, -, -, hc, -⟩ := luaBit_values c
  exact congrArg base64Char (by omega)

theorem luaDigit_fourth :
    luaDigit (luaBit c 6) (luaBit c 5) (luaBit c 4) (luaBit c 3) (luaBit c 2) (luaBit c 1) =
      base64Char (c % 64) := by
  obtain ⟨-, -, -, -, -, h⟩ := luaBit_values c
  exact congrArg base64Char (by omega)

end

/-- The encoder of the filter is Python's. -/
theorem base64Urlsafe_eq (data : List Byte) : base64Urlsafe data = urlsafeB64encode data := by
  induction data using urlsafeB64encode.induct with
  | case1 => simp [base64Urlsafe, luaGroups, urlsafeB64encode]
  | case2 a =>
    simp [base64Urlsafe, luaByteBits, luaGroups, urlsafeB64encode, luaDigit_first,
      luaDigit_second_pad]
  | case3 a b =>
    simp [base64Urlsafe, luaByteBits, luaGroups, urlsafeB64encode, luaDigit_first,
      luaDigit_second, luaDigit_third_pad]
  | case4 a b c rest ih =>
    have hlen : (rest.length + 1 + 1 + 1) % 3 = rest.length % 3 := by omega
    rw [urlsafeB64encode, ← ih]
    simp [base64Urlsafe, luaByteBits, luaGroups, luaDigit_first, luaDigit_second,
      luaDigit_third, luaDigit_fourth, hlen]

/-! ## Normalization -/

section

variable (sha1 : Str → Digest)

/-- `state_type_tag_for_name` of the filter; the error is its message. -/
def luaStateTypeTagForName (stateType : Str) : Except Str Str :=
  let stateTypeHash := (sha1 stateType).bytes
  let halfLength := stateTypeHash.length / 2
  let stateTypeBytes := stateTypeHash.take halfLength
  let stateTypeBytes := 0 :: stateTypeBytes.drop 1
  let stateTypeTag := base64Urlsafe stateTypeBytes
  if stateTypeTag.drop (stateTypeTag.length - 2) ≠ "==".toList then
    .error "Unexpected base64 padding".toList
  else
    let stateTypeTag := stateTypeTag.take (stateTypeTag.length - 2)
    if stateTypeTag.length ≠ stateTypeTagLength then .error "Incorrect tag length".toList
    else .ok stateTypeTag

/-- The text of the error for a component. -/
def luaInvalidComponentMessage (component : Str) : Str :=
  "Invalid state reference component '".toList ++ component ++
  ("': must contain an encoded state type or state type string, separated from an id by a " ++
    "':'. If your state ID contains slashes ('/'), remember to replace them with their " ++
    "escape character: a backslash ('\\').").toList

/-- The loop of `state_ref_from_maybe_human_readable`. -/
def luaComponents : List Str → Except Str (List Str)
  | [] => .ok []
  | component :: rest =>
    match cutFirst ':' component with
    | none => .error (luaInvalidComponentMessage component)
    | some (stateType, stateId) =>
      if stateType = [] then .error (luaInvalidComponentMessage component)
      else
        -- a type without a period is taken for a tag and kept
        match (if '.' ∈ stateType then
            (luaStateTypeTagForName sha1 stateType).map (· ++ ':' :: stateId)
          else .ok component) with
        | .error e => .error e
        | .ok c =>
          match luaComponents rest with
          | .error e => .error e
          | .ok result => .ok (c :: result)

/-- `state_ref_from_maybe_human_readable`. -/
def stateRefFromMaybeHumanReadable (stateRef : Str) : Except Str Str :=
  match luaComponents sha1 ((stateRef.splitOn '/').filter (fun c => decide (c ≠ []))) with
  | .error e => .error e
  | .ok result =>
    if result = [] then .error "Cannot create empty StateRef.".toList
    else .ok (['/'].intercalate result)

/-! ## The filter -/

/-- `RouteMapEntry`, with the bytes that its literal denotes. -/
structure RouteMapEntry where
  shardKeyrangeStart : List Byte
  serverId : Str
  deriving DecidableEq

/-- What the template is rendered from. -/
structure FilterConfig where
  serverIds : List Str
  thisReplicaServerIds : List Str
  routeMap : List RouteMapEntry
  deriving DecidableEq

/-- The headers the filter reads. -/
structure Request where
  serverId : Option Str
  stateRef : Option Str
  deriving DecidableEq

/-- What becomes of a request. -/
inductive Outcome
  /-- answered by the filter -/
  | respond (status : Nat) (body : Str)
  /-- passed on with an added `x-reboot-server-id` -/
  | addServerId (serverId : Str)
  /-- passed on as it is -/
  | passOn
  /-- the filter raised a Lua error -/
  | raised
  deriving DecidableEq

/-- The binary search of the filter: positions are 1-based. -/
def luaSearch (starts : List (List Byte)) (hash : List Byte) : Nat :=
  bisectLoop (fun middle => match starts[middle - 1]? with
    | some start => decide (start ≤ hash)
    | none => false) starts.length 1 (starts.length + 1)

/-- The choice of a server for a normalized ref. The table from starts to servers
is built in order, so the last entry for a start counts. -/
def pickServer (config : FilterConfig) (stateRef : Str) : Outcome :=
  let hashedStateRef := (sha1 stateRef).bytes
  let starts := config.routeMap.map RouteMapEntry.shardKeyrangeStart
  let low := luaSearch starts hashedStateRef
  if low - 1 = 0 then .respond 500 "Router internal error".toList
  else match starts[low - 1 - 1]? with
    | none => .respond 500 "Router internal error".toList
    | some start =>
      match (config.routeMap.map fun e => (e.shardKeyrangeStart, e.serverId)).reverse.lookup
          start with
      | none => .raised
      | some serverId => .addServerId serverId

/-- `envoy_on_request`. -/
def envoyOnRequest (config : FilterConfig) (random : Nat) (request : Request) : Outcome :=
  if config.serverIds = [] then
    .respond 502 "Route not configured yet (no servers available)".toList
  else match request.serverId with
    | some serverId =>
      if serverId ∈ config.serverIds then .passOn
      else .respond 502 ("Unknown server '".toList ++ serverId ++ "'".toList)
    | none =>
      match request.stateRef with
      | none =>
        match config.thisReplicaServerIds[random % config.thisReplicaServerIds.length]? with
        | none => .respond 502 "No servers available on this replica".toList
        | some serverId => .addServerId serverId
      | some stateRef =>
        match stateRefFromMaybeHumanReadable sha1 stateRef with
        | .error message => .respond 400 message
        | .ok stateRef => pickServer sha1 config stateRef

end

/-! ## The tables of the filter -/

/-- `envoy_config.ServerInfo`, without the address. -/
structure ServerInfo where
  serverId : Str
  shards : List ShardInfo
  onThisReplica : Bool
  deriving DecidableEq

/-- `_http_filter_compute_header_x_reboot_server_id`, up to the rendering. -/
def computeHeaderFilter (servers : List ServerInfo) : FilterConfig :=
  let allShards := sortBy ShardInfo.shardFirstKey (servers.flatMap ServerInfo.shards)
  let serverIdByShardId :=
    (servers.flatMap fun server => server.shards.map fun s => (s.shardId, server.serverId)).reverse
  { serverIds := servers.map ServerInfo.serverId
    thisReplicaServerIds := (servers.filter ServerInfo.onThisReplica).map ServerInfo.serverId
    -- every shard is a key of the dict, which is built from the same shards
    routeMap := allShards.map fun s =>
      ⟨s.shardFirstKey, (serverIdByShardId.lookup s.shardId).getD []⟩ }

/-- How an application runs: its servers, in the order in which the controller
happens to keep them, and the shards its database was started with. -/
structure Deployment (a : Application) where
  serverIds : List Str
  nodup : serverIds.Nodup
  mem_iff : ∀ serverId, serverId ∈ serverIds ↔ ∃ s ∈ a.shards, s.serverId = serverId
  onThisReplica : Str → Bool
  shardInfos : List ShardInfo
  shardInfos_perm : shardInfos.Perm (a.shards.map Shard.info)

/-- The servers as the placement planner makes them: each with the shards the plan
puts on it. -/
def Deployment.servers {a : Application} (d : Deployment a) : List ServerInfo :=
  d.serverIds.map fun serverId =>
    ⟨serverId, (a.shards.filter fun s => decide (s.serverId = serverId)).map Shard.info,
      d.onThisReplica serverId⟩

/-! ## Normalization, as a function of the components -/

section

variable {sha1 : Str → Digest}

/-- The filter computes the tags that Python computes. -/
theorem luaStateTypeTagForName_eq (ty : Str) :
    luaStateTypeTagForName sha1 ty = .ok (stateTypeTagForName sha1 ty) := by
  have hbytes : 0 :: ((sha1 ty).bytes.take ((sha1 ty).bytes.length / 2)).drop 1 =
      stateTypeBytes sha1 ty := by
    unfold stateTypeBytes
    cases h : (sha1 ty).bytes.take ((sha1 ty).bytes.length / 2) with
    | nil =>
      have hlen := congrArg List.length h
      simp [(sha1 ty).length_eq] at hlen
    | cons b bs => rfl
  have hlen := stateTypeTagForName_length sha1 ty
  simp only [luaStateTypeTagForName, hbytes, base64Urlsafe_eq, tagEncoding_eq]
  simp [hlen]

/-- What the filter makes of a valid component. -/
def luaComponent (sha1 : Str → Digest) (component : Str) : Str :=
  match cutFirst ':' component with
  | some (stateType, stateId) =>
    if '.' ∈ stateType then stateTypeTagForName sha1 stateType ++ ':' :: stateId else component
  | none => component

variable (sha1) in
theorem luaComponents_ok : ∀ {cs : List Str}, (∀ c ∈ cs, ValidComponent c) →
    luaComponents sha1 cs = .ok (cs.map (luaComponent sha1))
  | [], _ => rfl
  | c :: cs, h => by
    obtain ⟨ty, stateId, hc, hty⟩ := h c (List.mem_cons_self ..)
    have ih := luaComponents_ok fun c' hc' => h c' (List.mem_cons_of_mem _ hc')
    by_cases hdot : '.' ∈ ty
    · simp [luaComponents, hc, hty, ih, luaComponent, hdot, luaStateTypeTagForName_eq, Except.map]
    · simp [luaComponents, hc, hty, ih, luaComponent, hdot]

theorem luaComponents_valid : ∀ {cs r : List Str},
    luaComponents sha1 cs = .ok r → ∀ c ∈ cs, ValidComponent c
  | [], _, _, _, hc => absurd hc (List.not_mem_nil)
  | c :: cs, r, h, c', hc' => by
    simp only [luaComponents] at h
    split at h
    next => cases h
    next ty stateId hcut =>
      split at h
      next => cases h
      next hty =>
        split at h
        next => cases h
        next =>
          split at h
          next => cases h
          next heq =>
            rcases List.mem_cons.mp hc' with rfl | hm
            · exact ⟨ty, stateId, hcut, hty⟩
            · exact luaComponents_valid heq c' hm

/-- The components the filter sees. -/
def luaParts (stateRef : Str) : List Str :=
  (stateRef.splitOn '/').filter (fun c => decide (c ≠ []))

/-- The refs the filter does not answer with a 400: some component is not empty, and
those that are not have a type and a `:`. -/
def EnvoyAccepts (stateRef : Str) : Prop :=
  luaParts stateRef ≠ [] ∧ ∀ c ∈ luaParts stateRef, ValidComponent c

theorem stateRefFromMaybeHumanReadable_eq {stateRef : Str} (h : EnvoyAccepts stateRef) :
    stateRefFromMaybeHumanReadable sha1 stateRef =
      .ok (['/'].intercalate ((luaParts stateRef).map (luaComponent sha1))) := by
  have hne : ¬ (luaParts stateRef).map (luaComponent sha1) = [] := by
    simpa using h.1
  have hok := luaComponents_ok sha1 h.2
  unfold luaParts at hok hne ⊢
  simp only [stateRefFromMaybeHumanReadable, hok, if_neg hne]

theorem envoyAccepts_of_ok {stateRef r : Str}
    (h : stateRefFromMaybeHumanReadable sha1 stateRef = .ok r) : EnvoyAccepts stateRef := by
  simp only [stateRefFromMaybeHumanReadable] at h
  split at h
  next => cases h
  next result hok =>
    split at h
    next => cases h
    next hne =>
      have hv := luaComponents_valid hok
      refine ⟨fun hnil => hne ?_, hv⟩
      unfold luaParts at hnil
      rw [hnil] at hok
      exact (Except.ok.inj hok).symm

/-! ## The search finds the owner -/

/-- The 1-based search ends one after the last start at or before the hash. -/
theorem luaSearch_eq {starts : List (List Byte)} (hs : starts.Pairwise (· ≤ ·))
    (hash : List Byte) : luaSearch starts hash = upperBound starts hash + 1 := by
  have hle := upperBound_le_length starts hash
  refine bisectLoop_eq _ (by omega) (by omega) (by omega) ?_
  intro i h1 h2
  have hi : i - 1 < starts.length := by omega
  have hget : starts[i - 1]? = some starts[i - 1] := List.getElem?_eq_getElem hi
  have hiff := getElem?_iff_lt_takeWhile (p := fun k => decide (k ≤ hash))
    (fun a b hab hb => decide_eq_true (le_trans hab (of_decide_eq_true hb))) hs hget
  simp only [hget]
  rw [hiff]
  have hub : (starts.takeWhile fun k => decide (k ≤ hash)).length = upperBound starts hash := rfl
  omega

section

variable {plan : Plan} {a : Application} (ha : a ∈ plan.applications) (d : Deployment a)

include ha

theorem Plan.shards_nodup : a.shards.Nodup :=
  (plan.sorted a ha).imp fun {s t} h he => by
    subst he
    exact lt_irrefl _ h

/-- The servers together hold the shards of the application. -/
theorem Deployment.shards_perm :
    (d.servers.flatMap ServerInfo.shards).Perm (a.shards.map Shard.info) := by
  have h : (d.serverIds.flatMap fun serverId =>
      a.shards.filter fun s => decide (s.serverId = serverId)).Perm a.shards := by
    refine (List.perm_ext_iff_of_nodup ?_ (Plan.shards_nodup ha)).mpr ?_
    · refine List.nodup_flatMap.mpr ⟨fun _ _ => (Plan.shards_nodup ha).filter _, ?_⟩
      refine d.nodup.imp ?_
      intro x y hne s hx hy
      have hx' := of_decide_eq_true (List.mem_filter.mp hx).2
      have hy' := of_decide_eq_true (List.mem_filter.mp hy).2
      exact hne (hx'.symm.trans hy')
    · intro s
      simp only [List.mem_flatMap, List.mem_filter, decide_eq_true_eq]
      constructor
      · rintro ⟨_, _, hs, _⟩
        exact hs
      · intro hs
        exact ⟨s.serverId, (d.mem_iff _).mpr ⟨s, hs, rfl⟩, hs, rfl⟩
  have hmap := h.map Shard.info
  simpa [List.map_flatMap, Deployment.servers, List.flatMap_map] using hmap

theorem Plan.shards_id_nodup : (a.shards.map Shard.id).Nodup := by
  have hsub : a.shards.Sublist (plan.applications.flatMap Application.shards) :=
    List.sublist_flatten_of_mem (List.mem_map.mpr ⟨a, ha, rfl⟩)
  exact (hsub.map Shard.id).nodup plan.shardIds

/-- The dict of the servers has every shard, with the server the plan puts it on. -/
theorem Deployment.serverIdByShardId_lookup {s : Shard} (hs : s ∈ a.shards) :
    (d.servers.flatMap fun server =>
      server.shards.map fun i => (i.shardId, server.serverId)).reverse.lookup s.id =
        some s.serverId := by
  refine lookup_of_mem ?_ ?_
  · have hkeys : ((d.servers.flatMap fun server =>
        server.shards.map fun i => (i.shardId, server.serverId)).map Prod.fst).Perm
        (a.shards.map Shard.id) := by
      have h := (d.shards_perm ha).map ShardInfo.shardId
      simpa [List.map_flatMap, List.map_map, Function.comp_def, Shard.info] using h
    rw [List.map_reverse, List.nodup_reverse]
    exact hkeys.nodup_iff.mpr (Plan.shards_id_nodup ha)
  · rw [List.mem_reverse, List.mem_flatMap]
    refine ⟨_, List.mem_map.mpr ⟨s.serverId, (d.mem_iff _).mpr ⟨s, hs, rfl⟩, rfl⟩, ?_⟩
    exact List.mem_map.mpr ⟨s.info, List.mem_map.mpr
      ⟨s, List.mem_filter.mpr ⟨hs, decide_eq_true rfl⟩, rfl⟩, rfl⟩

/-- The route map lists the shards of the plan in order. -/
theorem Deployment.routeMap_eq :
    (computeHeaderFilter d.servers).routeMap =
      a.shards.map fun s => ⟨s.firstKey, s.serverId⟩ := by
  have hsort : sortBy ShardInfo.shardFirstKey (d.servers.flatMap ServerInfo.shards) =
      a.shards.map Shard.info :=
    sortBy_eq_of_perm (d.shards_perm ha) (List.pairwise_map.mpr (plan.sorted a ha))
  simp only [computeHeaderFilter, hsort, List.map_map]
  refine List.map_congr_left fun s hs => ?_
  have hlookup := d.serverIdByShardId_lookup ha hs
  simp only [Function.comp_apply, Shard.info]
  rw [hlookup]
  rfl

/-- The filter sends a normalized ref to the server of the shard that owns the hash
of the whole ref. -/
theorem pickServer_eq {stateRef : Str} {s : Shard}
    (hs : a.owner (sha1 stateRef).bytes = some s) :
    pickServer sha1 (computeHeaderFilter d.servers) stateRef = .addServerId s.serverId := by
  have hpos := Plan.upperBound_pos ha (sha1 stateRef).bytes
  have hstarts : (a.shards.map fun s => (⟨s.firstKey, s.serverId⟩ : RouteMapEntry)).map
      RouteMapEntry.shardKeyrangeStart = a.firstKeys := by
    simp [Application.firstKeys, Function.comp_def]
  have hlow : ¬ upperBound a.firstKeys (sha1 stateRef).bytes + 1 - 1 = 0 := by omega
  have hget : a.firstKeys[upperBound a.firstKeys (sha1 stateRef).bytes + 1 - 1 - 1]? =
      some s.firstKey := by
    have h := congrArg (Option.map Shard.firstKey) hs
    rw [Application.owner, ← List.getElem?_map] at h
    exact h
  have hserver : (a.shards.map fun s => (s.firstKey, s.serverId)).reverse.lookup s.firstKey =
      some s.serverId := by
    refine lookup_of_mem ?_ ?_
    · rw [List.map_reverse, List.nodup_reverse, List.map_map]
      exact List.pairwise_map.mpr ((plan.sorted a ha).imp ne_of_lt)
    · rw [List.mem_reverse]
      exact List.mem_map.mpr ⟨s, List.mem_of_getElem? hs, rfl⟩
  simp only [pickServer, d.routeMap_eq ha, hstarts, luaSearch_eq (Plan.firstKeys_sorted ha),
    if_neg hlow, hget, List.map_map, Function.comp_def, hserver]

/-- An accepted ref goes to the owner of the hash of its normalized form. -/
theorem envoyOnRequest_eq {stateRef : Str} (hacc : EnvoyAccepts stateRef) (random : Nat)
    {s : Shard} (hs : a.owner (sha1 (['/'].intercalate
      ((luaParts stateRef).map (luaComponent sha1)))).bytes = some s) :
    envoyOnRequest sha1 (computeHeaderFilter d.servers) random ⟨none, some stateRef⟩ =
      .addServerId s.serverId := by
  have hne : ¬ (computeHeaderFilter d.servers).serverIds = [] := by
    obtain ⟨s0, rest, hshards, -⟩ := Plan.shards_cons ha
    have hmem : s0.serverId ∈ d.serverIds :=
      (d.mem_iff _).mpr ⟨s0, hshards ▸ List.mem_cons_self .., rfl⟩
    intro hnil
    have hids : d.serverIds = [] := by
      simpa [computeHeaderFilter, Deployment.servers] using hnil
    rw [hids] at hmem
    exact absurd hmem List.not_mem_nil
  simp only [envoyOnRequest, if_neg hne, stateRefFromMaybeHumanReadable_eq hacc,
    pickServer_eq ha d hs]

omit ha in
/-- A ref the filter does not accept is answered, not routed. -/
theorem envoyOnRequest_not_accepted {config : FilterConfig} {stateRef : Str}
    (h : ¬ EnvoyAccepts stateRef) (random : Nat) (serverId : Str) :
    envoyOnRequest sha1 config random ⟨none, some stateRef⟩ ≠ .addServerId serverId := by
  simp only [envoyOnRequest]
  split
  · simp
  · cases hr : stateRefFromMaybeHumanReadable sha1 stateRef with
    | error e => simp
    | ok r => exact absurd (envoyAccepts_of_ok hr) h

end

end

end Reboot.Routing
