import Reboot.Routing.Envoy

/-!
# Do the three routers agree?

A request for a state passes three lookups that have to meet: Envoy sends it to a
server, the server asks the placement client whether the state is its own, and the
database assigns the state to a shard. `RoutesAgree` says that they do.

They agree on the shard of a given string (`serverForActor_eq`, `getShardForHash_eq`
and `pickServer_eq` all speak of `Application.owner`), so what counts is *which*
string each of them hashes: `pyFirst`, the first component of the ref that
`from_maybe_readable` returns, or `luaWhole`, the whole of the ref that the filter
normalized itself. `routesAgree_iff` is the exact answer. The two coincide for every
SHA-1 when the ref is simple and both sides see the same kind of state type in it,
and otherwise agreement is an accident of the plan: a SHA-1 under which the servers
differ exists as soon as two hashes have owners on different servers.
-/

namespace Reboot.Routing

open Reboot.Lib

/-- Envoy, the placement client and the database agree on a ref that
`from_maybe_readable` turns into `r`. -/
def RoutesAgree (sha1 : Str → Digest) (plan : Plan) (a : Application) (d : Deployment a)
    (stateRef : Str) : Prop :=
  ∃ r client serverId, ∃ shard ∈ a.shards,
    fromMaybeReadable sha1 stateRef = .ok r ∧
    handlePlan plan = .ok client ∧
    (∀ random, envoyOnRequest sha1 (computeHeaderFilter d.servers) random
      ⟨none, some stateRef⟩ = .addServerId serverId) ∧
    serverForActor sha1 client a.id r = .ok serverId ∧
    getShardForStateRef sha1 d.shardInfos r.ref = some shard.id ∧
    shard.serverId = serverId

/-- The state type as it is written at the start of a simple ref. -/
def writtenType (stateRef : Str) : Str :=
  match cutFirst ':' stateRef with
  | some (stateType, _) => stateType
  | none => stateRef

/-- The refs that both sides read alike: simple, with a state type, and with a
period in the type exactly if `is_state_ref` does not take it for a tag. -/
structure ReadAlike (stateRef : Str) : Prop where
  simple : '/' ∉ stateRef
  typed : stateRef.head? ≠ some ':'
  period : '.' ∈ writtenType stateRef ↔ isStateRef stateRef = .ok false

/-- Two hashes whose owners are on the same server. -/
def SameServer (a : Application) (x y : Digest) : Prop :=
  (a.owner x.bytes).map Shard.serverId = (a.owner y.bytes).map Shard.serverId

/-- All hashes are owned by the same server. -/
def OneServer (a : Application) : Prop := ∀ x y, SameServer a x y

/-! ## What is hashed -/

/-- The string the placement client and the database hash. -/
def pyFirst (sha1 : Str → Digest) (stateRef : Str) : Str :=
  match stateRef.splitOn '/' with
  | [] => []
  | c :: _ =>
    match isStateRef stateRef with
    | .ok true => c
    | _ => tagComponent sha1 c

/-- The string the filter hashes. -/
def luaWhole (sha1 : Str → Digest) (stateRef : Str) : Str :=
  ['/'].intercalate ((luaParts stateRef).map (luaComponent sha1))

section

variable {sha1 : Str → Digest} {s : Str}

/-- The first part of a string is free of the separator. -/
theorem exists_first (s : Str) : ∃ c cs, s.splitOn '/' = c :: cs ∧ '/' ∉ c := by
  by_cases h : '/' ∈ s
  · obtain ⟨c, c', cs, hs, hn⟩ := splitOn_of_mem h
    exact ⟨c, c' :: cs, hs, hn⟩
  · exact ⟨s, [], List.splitOn_eq_singleton h, h⟩

/-- The first part of joined parts. -/
theorem splitOn_intercalate_cons {c : Str} (h : '/' ∉ c) (cs : List Str) :
    ∃ rest, (['/'].intercalate (c :: cs)).splitOn '/' = c :: rest := by
  cases cs with
  | nil =>
    refine ⟨[], ?_⟩
    rw [List.intercalate_singleton]
    exact List.splitOn_eq_singleton h
  | cons c' cs =>
    rw [List.intercalate_cons_cons, List.append_assoc, List.singleton_append]
    exact ⟨_, List.splitOn_append_cons_self_of_not_mem h _⟩

variable (sha1) in
/-- What `from_maybe_readable` returns starts with `pyFirst`. -/
theorem fromMaybeReadable_first (hacc : Accepts s) :
    ∃ r cs, fromMaybeReadable sha1 s = .ok r ∧ r.components = pyFirst sha1 s :: cs := by
  obtain ⟨c, cs, hs, hn⟩ := exists_first s
  rcases hacc with h | ⟨h, hv⟩
  · refine ⟨⟨s, none⟩, cs, fromMaybeReadable_of_isStateRef h, ?_⟩
    simp only [StateRef.components, pyFirst, hs, h]
  · obtain ⟨readableRef, hr⟩ := fromMaybeReadable_of_not sha1 h hv
    rw [hs, List.map_cons] at hr
    obtain ⟨rest, hrest⟩ := splitOn_intercalate_cons (not_mem_tagComponent sha1 hn)
      (cs.map (tagComponent sha1))
    refine ⟨_, rest, hr, ?_⟩
    simp only [StateRef.components, pyFirst, hs, h]
    exact hrest

/-- Agreement is that Envoy accepts the ref and that the two strings hash to shards
of one server. -/
theorem routesAgree_iff_sameServer {plan : Plan} {a : Application} (ha : a ∈ plan.applications)
    (d : Deployment a) (hacc : Accepts s) :
    RoutesAgree sha1 plan a d s ↔
      EnvoyAccepts s ∧ SameServer a (sha1 (pyFirst sha1 s)) (sha1 (luaWhole sha1 s)) := by
  obtain ⟨r, cs, hr, hcomp⟩ := fromMaybeReadable_first sha1 hacc
  obtain ⟨sp, hsp, hop⟩ := Plan.owner_isSome ha (sha1 (pyFirst sha1 s)).bytes
  obtain ⟨sl, -, hol⟩ := Plan.owner_isSome ha (sha1 (luaWhole sha1 s)).bytes
  have hserver := serverForActor_eq ha hcomp hop
  have hsame : SameServer a (sha1 (pyFirst sha1 s)) (sha1 (luaWhole sha1 s)) ↔
      sp.serverId = sl.serverId := by
    simp [SameServer, hop, hol]
  rw [hsame]
  constructor
  · rintro ⟨r', client, serverId, shard, -, hr', hplan, henvoy, hclient, -, -⟩
    have hEnv : EnvoyAccepts s :=
      Classical.byContradiction fun h => envoyOnRequest_not_accepted h 0 serverId (henvoy 0)
    rw [hr] at hr'
    rw [handlePlan_eq] at hplan
    cases hr'
    cases hplan
    rw [hserver] at hclient
    have he := henvoy 0
    rw [envoyOnRequest_eq ha d hEnv 0 hol] at he
    exact ⟨hEnv, (Except.ok.inj hclient).trans (Outcome.addServerId.inj he).symm⟩
  · rintro ⟨hEnv, heq⟩
    refine ⟨r, plannedClient plan, sp.serverId, sp, hsp, hr, handlePlan_eq plan, ?_, hserver,
      ?_, rfl⟩
    · intro random
      rw [envoyOnRequest_eq ha d hEnv random hol, heq]
    · rw [getShardForStateRef, computeStateRefHash_eq hcomp]
      exact getShardForHash_eq ha d.shardInfos_perm hop

/-! ## Refs that are read alike -/

theorem isStateRef_ne_nil (h : isStateRef s = .ok true) : s ≠ [] := by
  rintro rfl
  exact absurd h (by decide)

/-- An encoded simple ref has a `:`. -/
theorem mem_colon_of_isStateRef (h : isStateRef s = .ok true) : ':' ∈ s := by
  simp only [isStateRef] at h
  split at h
  next => cases h
  next hc =>
    rw [not_or, not_not] at hc
    exact List.mem_of_getElem? hc.2

theorem luaParts_of_simple (hs : '/' ∉ s) (hne : s ≠ []) : luaParts s = [s] := by
  simp [luaParts, List.splitOn_eq_singleton hs, hne]

theorem validComponent_of_simple (hacc : Accepts s) (hs : '/' ∉ s) (ht : s.head? ≠ some ':') :
    ValidComponent s := by
  rcases hacc with h | ⟨-, hv⟩
  · have hmem := mem_colon_of_isStateRef h
    cases hcut : cutFirst ':' s with
    | none => exact absurd hmem (cutFirst_eq_none.mp hcut)
    | some p =>
      obtain ⟨ty, stateId⟩ := p
      refine ⟨ty, stateId, hcut, ?_⟩
      rintro rfl
      obtain ⟨rfl, -⟩ := cutFirst_eq_some hcut
      exact ht rfl
  · rw [List.splitOn_eq_singleton hs] at hv
    exact hv s (List.mem_singleton.mpr rfl)

/-- A string with something before its first `:` does not start with one. -/
theorem head_ne_colon {ty stateId : Str} (hty : ty ≠ []) (hcolon : ':' ∉ ty) :
    (ty ++ ':' :: stateId).head? ≠ some ':' := by
  cases ty with
  | nil => exact absurd rfl hty
  | cons x ty' =>
    intro he
    rw [List.cons_append, List.head?_cons, Option.some.injEq] at he
    exact hcolon (he ▸ List.mem_cons_self ..)

theorem ValidComponent.ne_nil {c : Str} (h : ValidComponent c) : c ≠ [] := by
  obtain ⟨ty, stateId, hcut, -⟩ := h
  rintro rfl
  cases hcut

variable (sha1) in
/-- On a ref that is read alike both sides hash the same string. -/
theorem ReadAlike.same (hacc : Accepts s) (h : ReadAlike s) :
    EnvoyAccepts s ∧ pyFirst sha1 s = luaWhole sha1 s := by
  have hvalid := validComponent_of_simple hacc h.simple h.typed
  have hparts := luaParts_of_simple h.simple hvalid.ne_nil
  have hEnv : EnvoyAccepts s := by
    constructor
    · rw [hparts]
      exact List.cons_ne_nil _ _
    · intro c hc
      rw [hparts, List.mem_singleton] at hc
      exact hc ▸ hvalid
  refine ⟨hEnv, ?_⟩
  obtain ⟨ty, stateId, hcut, -⟩ := hvalid
  have hperiod := h.period
  simp only [writtenType, hcut] at hperiod
  simp only [luaWhole, hparts, List.map_cons, List.map_nil, List.intercalate_singleton,
    luaComponent, hcut, pyFirst, List.splitOn_eq_singleton h.simple]
  rcases hacc with hst | ⟨hst, -⟩
  · have hdot : '.' ∉ ty := by
      intro hd
      rw [hst] at hperiod
      exact absurd (hperiod.mp hd) (by simp)
    simp [hst, hdot]
  · have hdot : '.' ∈ ty := hperiod.mpr hst
    simp [hst, hdot, tagComponent, hcut]

/-! ## Refs that are not -/

/-- If a property tells the two strings apart for every SHA-1, then a SHA-1 that
follows the property tells the servers apart, unless there is only one. -/
theorem oneServer_of_separated {a : Application} (Q : Str → Bool)
    (hp : ∀ sha1, Q (pyFirst sha1 s) = true) (hl : ∀ sha1, Q (luaWhole sha1 s) = false)
    (hsame : ∀ sha1 : Str → Digest,
      SameServer a (sha1 (pyFirst sha1 s)) (sha1 (luaWhole sha1 s))) :
    OneServer a := by
  intro x y
  have h := hsame fun z => if Q z then x else y
  simpa [hp, hl] using h

variable (sha1) in
theorem luaComponent_ne_nil {c : Str} (h : c ≠ []) : luaComponent sha1 c ≠ [] := by
  unfold luaComponent
  split
  next =>
    split
    · simp
    · exact h
  next => exact h

theorem luaParts_ne_nil_mem {c : Str} (h : c ∈ luaParts s) : c ≠ [] :=
  of_decide_eq_true (List.mem_filter.mp h).2

variable (sha1) in
/-- With two nonempty components the filter hashes a string with a slash. -/
theorem slash_mem_luaWhole {c c' : Str} {cs : List Str} (h : luaParts s = c :: c' :: cs) :
    '/' ∈ luaWhole sha1 s := by
  rw [luaWhole, h, List.map_cons, List.map_cons, List.intercalate_cons_cons]
  simp

theorem luaWhole_ne_nil (h : EnvoyAccepts s) : luaWhole sha1 s ≠ [] := by
  cases hparts : luaParts s with
  | nil => exact absurd hparts h.1
  | cons c cs =>
    have hc := luaComponent_ne_nil sha1
      (luaParts_ne_nil_mem (hparts ▸ List.mem_cons_self ..))
    cases cs with
    | nil => simpa [luaWhole, hparts] using hc
    | cons c' cs =>
      intro hnil
      have := slash_mem_luaWhole sha1 hparts
      rw [hnil] at this
      exact absurd this List.not_mem_nil

/-- An encoded ref does not end in a slash: its last component holds a tag. -/
theorem isStateRef_not_slash (t : Str) : isStateRef (t ++ ['/']) = .ok false := by
  have h : rfindNext '/' (t ++ ['/']) = (t ++ ['/']).length := by simp [rfindNext]
  unfold isStateRef
  rw [h]
  exact if_pos (Or.inl (by omega))

/-- Behind the first slash of an encoded ref there is a nonempty component. -/
theorem exists_part_of_isStateRef {c t : Str} (h : isStateRef (c ++ '/' :: t) = .ok true) :
    ∃ p ∈ t.splitOn '/', p ≠ [] := by
  by_cases hall : ∀ x ∈ t, x = '/'
  · exfalso
    rcases List.eq_nil_or_concat t with rfl | ⟨t', x, rfl⟩
    · rw [isStateRef_not_slash] at h
      cases h
    · have hx : x = '/' := hall x (by simp)
      rw [hx, List.concat_eq_append, ← List.cons_append, ← List.append_assoc,
        isStateRef_not_slash] at h
      cases h
  · push Not at hall
    obtain ⟨x, hx, hne⟩ := hall
    obtain ⟨p, hp, hxp⟩ := exists_mem_splitOn hne hx
    exact ⟨p, hp, List.ne_nil_of_mem hxp⟩

/-- On an encoded compound ref the filter hashes something else than the first
component. -/
theorem luaWhole_ne_first {c : Str} {cs : List Str} (hst : isStateRef s = .ok true)
    (hslash : '/' ∈ s) (hEnv : EnvoyAccepts s) (hs : s.splitOn '/' = c :: cs) :
    luaWhole sha1 s ≠ c := by
  by_cases hc : c = []
  · rw [hc]
    exact luaWhole_ne_nil hEnv
  · cases hcut : cutFirst '/' s with
    | none => exact absurd hslash (cutFirst_eq_none.mp hcut)
    | some p =>
      obtain ⟨c₀, t⟩ := p
      obtain ⟨rfl, hn⟩ := cutFirst_eq_some hcut
      rw [List.splitOn_append_cons_self_of_not_mem hn] at hs
      have he : c₀ = c := (List.cons.inj hs).1
      subst he
      obtain ⟨p, hp, hpne⟩ := exists_part_of_isStateRef hst
      have hparts : luaParts (c₀ ++ '/' :: t) =
          c₀ :: (t.splitOn '/').filter (fun c => decide (c ≠ [])) := by
        rw [luaParts, List.splitOn_append_cons_self_of_not_mem hn, List.filter_cons]
        exact if_pos (decide_eq_true hc)
      cases hrest : (t.splitOn '/').filter (fun c => decide (c ≠ [])) with
      | nil =>
        have hmem : p ∈ (t.splitOn '/').filter (fun c => decide (c ≠ [])) :=
          List.mem_filter.mpr ⟨hp, decide_eq_true hpne⟩
        rw [hrest] at hmem
        exact absurd hmem List.not_mem_nil
      | cons c' cs' =>
        rw [hrest] at hparts
        intro he
        have := slash_mem_luaWhole sha1 hparts
        rw [he] at this
        exact hn this

/-- A ref that is not read alike is only routed alike where all is one server. -/
theorem oneServer_of_not_readAlike {a : Application} (hacc : Accepts s) (hEnv : EnvoyAccepts s)
    (hnot : ¬ ReadAlike s)
    (hsame : ∀ sha1 : Str → Digest,
      SameServer a (sha1 (pyFirst sha1 s)) (sha1 (luaWhole sha1 s))) :
    OneServer a := by
  by_cases hslash : '/' ∈ s
  · obtain ⟨c, c', cs, hs, hn⟩ := splitOn_of_mem hslash
    rcases hacc with hst | ⟨hst, hv⟩
    · -- encoded: the client hashes the first component, whatever SHA-1 is
      refine oneServer_of_separated (fun z => decide (z = c)) ?_ ?_ hsame
      · intro sha1
        simp [pyFirst, hs, hst]
      · intro sha1
        exact decide_eq_false (luaWhole_ne_first hst hslash hEnv hs)
    · -- readable: the client hashes a string without a slash, the filter one with
      refine oneServer_of_separated (fun z => decide ('/' ∉ z)) ?_ ?_ hsame
      · intro sha1
        simp only [pyFirst, hs, hst]
        exact decide_eq_true (not_mem_tagComponent sha1 hn)
      · intro sha1
        have hparts : luaParts s = c :: c' :: cs := by
          rw [luaParts, hs, List.filter_eq_self]
          intro p hp
          exact decide_eq_true (hv p (hs ▸ hp)).ne_nil
        exact decide_eq_false (not_not.mpr (slash_mem_luaWhole sha1 hparts))
  · have hne : s ≠ [] := by
      rcases hacc with hst | ⟨-, hv⟩
      · exact isStateRef_ne_nil hst
      · exact (hv s (by simp [List.splitOn_eq_singleton hslash])).ne_nil
    have hparts := luaParts_of_simple hslash hne
    obtain ⟨ty, stateId, hcut, hty⟩ := hEnv.2 s (hparts ▸ List.mem_cons_self ..)
    obtain ⟨rfl, hcolon⟩ := cutFirst_eq_some hcut
    have hlua : ∀ sha1, luaWhole sha1 (ty ++ ':' :: stateId) =
        luaComponent sha1 (ty ++ ':' :: stateId) := by
      intro sha1
      simp [luaWhole, hparts]
    rcases hacc with hst | ⟨hst, hv⟩
    · -- a tag with a period in it: kept by the client, replaced by the filter
      have hdot : '.' ∈ ty := by
        by_contra hd
        refine hnot ⟨hslash, head_ne_colon hty hcolon, ?_⟩
        simp [writtenType, hcut, hd, hst]
      refine oneServer_of_separated (fun z => decide (z = ty ++ ':' :: stateId)) ?_ ?_ hsame
      · intro sha1
        simp [pyFirst, List.splitOn_eq_singleton hslash, hst]
      · intro sha1
        rw [hlua, luaComponent, hcut]
        refine decide_eq_false ?_
        simp only [hdot, if_true]
        intro he
        have hcut' := cutFirst_append (c := ':') (b := stateId)
          (not_mem_stateTypeTagForName sha1 (Or.inr (Or.inl rfl)) ty)
        rw [he, hcut] at hcut'
        have hty' : ty = stateTypeTagForName sha1 ty := (Prod.mk.inj (Option.some.inj hcut')).1
        exact not_mem_stateTypeTagForName sha1 (Or.inr (Or.inr rfl)) ty (hty' ▸ hdot)
    · -- a name without a period: replaced by the client, kept by the filter
      have hdot : '.' ∉ ty := by
        intro hd
        refine hnot ⟨hslash, head_ne_colon hty hcolon, ?_⟩
        simp [writtenType, hcut, hd, hst]
      refine oneServer_of_separated (fun z => decide (z ≠ ty ++ ':' :: stateId)) ?_ ?_ hsame
      · intro sha1
        simp only [pyFirst, List.splitOn_eq_singleton hslash, hst, tagComponent, hcut]
        refine decide_eq_true ?_
        intro he
        have hid : '/' ∉ stateId := fun h => hslash (by simp [h])
        have htag := isStateRef_tagged sha1 ty hid
        rw [he, hst] at htag
        cases htag
      · intro sha1
        rw [hlua, luaComponent, hcut]
        simp [hdot]

end

/-! ## A colocated state -/

/-- Two shards on two servers, cut in the middle of the key space. -/
def twoServers : Application :=
  ⟨"app".toList, [⟨"s0".toList, [], "server-0".toList⟩, ⟨"s1".toList, [128], "server-1".toList⟩]⟩

/-- The plan of that one application. -/
def twoServersPlan : Plan where
  applications := [twoServers]
  sorted := by decide
  startsEmpty := by decide
  applicationIds := by decide
  shardIds := by decide

/-- Both servers run. -/
def twoServersDeployment : Deployment twoServers where
  serverIds := ["server-0".toList, "server-1".toList]
  nodup := by decide
  mem_iff := by
    intro serverId
    simp [twoServers, eq_comm]
  onThisReplica := fun _ => true
  shardInfos := twoServers.shards.map Shard.info
  shardInfos_perm := List.Perm.refl _

/-- A message colocated with its room, in readable form. -/
def roomMessage : Str := "chat.Room:lobby/chat.Message:1".toList

/-- SHA-1 on the strings that are hashed while `roomMessage` is routed. -/
def roomSha1 (s : Str) : Digest :=
  if s = "chat.Room".toList then
    .ofBytes [249, 2, 110, 238, 16, 186, 49, 193, 78, 58, 207, 74, 124, 182, 62, 109, 54, 122,
      66, 249]
  else if s = "chat.Message".toList then
    .ofBytes [214, 25, 135, 38, 208, 217, 223, 44, 96, 154, 83, 126, 136, 241, 138, 69, 195, 32,
      237, 89]
  else if s = "AAJu7hC6McFOOg:lobby".toList then
    .ofBytes [132, 217, 236, 67, 111, 216, 99, 121, 18, 238, 49, 223, 112, 98, 70, 51, 47, 107,
      12, 54]
  else if s = "AAJu7hC6McFOOg:lobby/ABmHJtDZ3yxgmg:1".toList then
    .ofBytes [51, 168, 32, 147, 200, 67, 104, 209, 37, 148, 45, 111, 198, 74, 110, 87, 175, 204,
      185, 66]
  else .ofBytes []

end Reboot.Routing
