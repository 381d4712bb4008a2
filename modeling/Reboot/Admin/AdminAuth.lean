import Reboot.Lib.Text
import Reboot.Names

/-!
# Who gets at the admin surface

`ensure_admin_auth_or_fail` (`reboot/aio/auth/admin_auth.py`) stands at the top of every
method of the admin surface (`reboot/admin/export_import_servicer.py`,
`reboot/inspect/servicer.py`). It refuses by raising and approves by returning, so what it
says is where it ends: with `return`, with an abort or with an exception.

An admin is `Entitled` by the configured secret or, without one, by the answer of the
configured external application. `surface_closed_iff` says when a body is only reached by
who is entitled: the last branch, without a secret and without an application, logs that
the admin surface is disabled and then falls off the end, which is a return.

A method that concerns several servers calls itself there with the caller's own
credentials, and each server checks again; `forwarded_checked` says that it comes to the
same decision as long as the header occurs once.

Mirroring notes:
- The variables of `os.environ` are read at each request, so they are an argument.
- What the external application answers, or that the call of it fails, is an argument
  too: it may answer differently each time. Logging is left out.
- Keys of gRPC metadata are lower case already and values of keys that do not end in `-bin` are
  strings, so that the `except Exception` around the extraction has nothing to catch.
- The bodies of the methods are given by what they do past the check.
-/

namespace Reboot.Admin

open Reboot.Lib

/-! ## The run environment -/

/-- The variables that are read. -/
structure Environ where
  /-- `ENVVAR_REBOOT_CLOUD_VERSION` -/
  rebootCloudVersion : Option Str
  /-- `ENVVAR_RBT_DEV` -/
  rbtDev : Option Str
  /-- `ENVVAR_RBT_SERVE` -/
  rbtServe : Option Str
  /-- `ENVVAR_SECRET_REBOOT_ADMIN_TOKEN` -/
  rebootAdminToken : Option Str
  /-- `ENVVAR_REBOOT_ADMIN_AUTH_URL` -/
  rebootAdminAuthUrl : Option Str
  deriving DecidableEq

/-- `RunEnvironment`. -/
inductive RunEnvironment
  | rbtDev
  | rbtServe
  | rbtCloud
  deriving DecidableEq

/-- `os.environ.get(.., 'false').lower() == 'true'`. -/
def isTrue (value : Option Str) : Bool :=
  decide ((value.getD "false".toList).map Char.toLower = "true".toList)

/-- `detect_run_environment`; `none` is `InvalidRunEnvironment`. -/
def detectRunEnvironment (environ : Environ) : Option RunEnvironment :=
  if environ.rebootCloudVersion.isSome then some .rbtCloud
  else if isTrue environ.rbtDev then some .rbtDev
  else if isTrue environ.rbtServe then some .rbtServe
  else none

/-- `running_rbt_dev`. -/
def runningRbtDev (environ : Environ) : Bool :=
  decide (detectRunEnvironment environ = some .rbtDev)

/-! ## Metadata -/

/-- `grpc.StatusCode`. -/
inductive StatusCode
  | ok | cancelled | unknown | invalidArgument | deadlineExceeded | notFound | alreadyExists
  | permissionDenied | resourceExhausted | failedPrecondition | aborted | outOfRange
  | unimplemented | internal | unavailable | dataLoss | unauthenticated
  deriving DecidableEq

abbrev Metadata := List (Str × Str)

/-- `AUTHORIZATION_HEADER`. -/
def authorizationHeader : Str := "authorization".toList

/-- `dict(metadata).get(key)`: the last entry counts. -/
def lookupLast (metadata : Metadata) (key : Str) : Option Str :=
  (metadata.reverse.find? fun e => decide (e.1 = key)).map (·.2)

/-- `value.removeprefix(..)`. -/
def removePrefix (start value : Str) : Str :=
  if start.isPrefixOf value then value.drop start.length else value

/-- The bearer token; `none` is the `KeyError`. -/
def bearerToken (metadata : Metadata) : Option Str :=
  (lookupLast metadata authorizationHeader).map (removePrefix "Bearer ".toList)

/-- `auth_metadata_from_metadata`: the first entry. -/
def authMetadataFromMetadata (metadata : Metadata) : Metadata :=
  match metadata.find? fun e => decide (e.1 = authorizationHeader) with
  | some e => [e]
  | none => []

/-! ## The check -/

/-- What the call of `IsAdmin` comes back with. -/
inductive Reply
  | response (isAdmin : Bool) (userId : Str)
  /-- `AioRpcError` -/
  | rpcError (code : StatusCode) (details : Str)
  /-- any other exception -/
  | raised
  deriving DecidableEq

/-- The external application, reached with or without TLS at an endpoint. -/
abbrev External := Bool → Str → Str → Reply

/-- How `ensure_admin_auth_or_fail` ends. -/
inductive Checked
  | returned
  | aborted (code : StatusCode) (details : Str)
  /-- `ValueError`, or whatever was raised below -/
  | raised
  deriving DecidableEq

/-- Whether a URL is reached with TLS, and its endpoint. -/
def channelTo (url : Str) : Option (Bool × Str) :=
  if "http://".toList.isPrefixOf url then some (false, removePrefix "http://".toList url)
  else if "https://".toList.isPrefixOf url then some (true, removePrefix "https://".toList url)
  else none

/-- The part that delegates to the external application. -/
def askExternal (external : External) (url token : Str) : Checked :=
  match channelTo url with
  | none => .raised
  | some (secure, endpoint) =>
    match external secure endpoint token with
    | .response true _ => .returned
    | .response false _ =>
      .aborted .permissionDenied
        "The user identified by the bearer token is not an admin".toList
    | .rpcError code details => .aborted code details
    | .raised => .raised

/-- `ensure_admin_auth_or_fail`. -/
def ensureAdminAuthOrFail (environ : Environ) (external : External) (metadata : Metadata) :
    Checked :=
  if runningRbtDev environ then .returned
  else
    match bearerToken metadata with
    | none => .aborted .unauthenticated "Missing bearer token".toList
    | some token =>
      match environ.rebootAdminToken with
      | some secret =>
        if token = secret then .returned
        else .aborted .unauthenticated "Bearer token does not match the admin secret".toList
      | none =>
        match environ.rebootAdminAuthUrl with
        | some url => askExternal external url token
        | none =>
          -- the warning that the admin API is disabled, and nothing after it
          .returned

/-! ## The methods -/

/-- What the methods do past the check, for a request of type `ρ`. -/
structure Bodies (ρ β : Type) where
  listServers : ρ → β
  exportItems : ρ → β
  importItems : ρ → β
  getStateTypes : ρ → β
  listStates : ρ → β
  getState : ρ → β

/-- The check, and then the body. -/
def afterCheck {β : Type} (checked : Checked) (body : β) : Except Checked β :=
  match checked with
  | .returned => .ok body
  | refusal => .error refusal

section

variable {ρ β : Type} (bodies : Bodies ρ β) (checked : Checked) (request : ρ)

/-- `ListServers`. -/
def listServers : Except Checked β := afterCheck checked (bodies.listServers request)

/-- `Export`. -/
def exportItems : Except Checked β := afterCheck checked (bodies.exportItems request)

/-- `Import`. -/
def importItems : Except Checked β := afterCheck checked (bodies.importItems request)

/-- `GetStateTypes`. -/
def getStateTypes : Except Checked β := afterCheck checked (bodies.getStateTypes request)

/-- `ListStates`. -/
def listStates : Except Checked β := afterCheck checked (bodies.listStates request)

/-- `GetState`. -/
def getState : Except Checked β := afterCheck checked (bodies.getState request)

/-- The methods of the admin surface. -/
inductive Rpc
  | listServers
  | exportItems
  | importItems
  | getStateTypes
  | listStates
  | getState
  deriving DecidableEq

/-- What a request to a server comes to. -/
def serve (rpc : Rpc) : Except Checked β :=
  match rpc with
  | .listServers => listServers bodies checked request
  | .exportItems => exportItems bodies checked request
  | .importItems => importItems bodies checked request
  | .getStateTypes => getStateTypes bodies checked request
  | .listStates => listStates bodies checked request
  | .getState => getState bodies checked request

end

/-- The body of the method is reached. -/
def Reached {β : Type} (handled : Except Checked β) : Prop := ∃ result, handled = .ok result

/-- A body is reached exactly when the check returns. -/
theorem serve_reached {ρ β : Type} {bodies : Bodies ρ β} {checked : Checked} {request : ρ}
    {rpc : Rpc} : Reached (serve bodies checked request rpc) ↔ checked = .returned := by
  have hafter : ∀ body : β, Reached (afterCheck checked body) ↔ checked = .returned := by
    intro body
    cases checked with
    | returned => exact ⟨fun _ => rfl, fun _ => ⟨body, rfl⟩⟩
    | aborted code details => exact ⟨fun ⟨_, h⟩ => (nomatch h), nofun⟩
    | raised => exact ⟨fun ⟨_, h⟩ => (nomatch h), nofun⟩
  cases rpc <;> exact hafter _

/-! ## Who is entitled -/

/-- The external application says that the token is that of an admin. -/
def AnsweredIsAdmin (external : External) (url token : Str) : Prop :=
  ∃ secure endpoint user, channelTo url = some (secure, endpoint) ∧
    external secure endpoint token = .response true user

/-- The bearer token is the configured secret or, when no secret is configured, that of an
admin of the configured external application. -/
def Entitled (environ : Environ) (external : External) (metadata : Metadata) : Prop :=
  ∃ token, bearerToken metadata = some token ∧
    (environ.rebootAdminToken = some token ∨
      environ.rebootAdminToken = none ∧
        ∃ url, environ.rebootAdminAuthUrl = some url ∧ AnsweredIsAdmin external url token)

theorem askExternal_returned {external : External} {url token : Str} :
    askExternal external url token = .returned ↔ AnsweredIsAdmin external url token := by
  unfold askExternal AnsweredIsAdmin
  cases hchannel : channelTo url with
  | none => simp
  | some channel =>
    obtain ⟨secure, endpoint⟩ := channel
    simp only [Option.some.injEq, Prod.mk.injEq]
    constructor
    · intro h
      split at h
      next user hreply => exact ⟨secure, endpoint, user, ⟨rfl, rfl⟩, hreply⟩
      all_goals cases h
    · rintro ⟨_, _, user, ⟨rfl, rfl⟩, hreply⟩
      rw [hreply]

section

variable {environ : Environ} {external : External} {metadata : Metadata}

/-- The check returns for who is entitled, and for anybody with a token when nothing is
configured. -/
theorem ensureAdminAuthOrFail_returned (hdev : runningRbtDev environ = false) :
    ensureAdminAuthOrFail environ external metadata = .returned ↔
      Entitled environ external metadata ∨
        (environ.rebootAdminToken = none ∧ environ.rebootAdminAuthUrl = none ∧
          bearerToken metadata ≠ none) := by
  unfold ensureAdminAuthOrFail Entitled
  rw [hdev]
  simp only [Bool.false_eq_true, if_false]
  cases htoken : bearerToken metadata with
  | none => simp
  | some token =>
    cases hsecret : environ.rebootAdminToken with
    | some secret =>
      by_cases heq : token = secret
      · simp [heq]
      · have hne : ¬ secret = token := fun h => heq h.symm
        simp [heq, hne]
    | none =>
      cases hurl : environ.rebootAdminAuthUrl with
      | some url => simp [askExternal_returned]
      | none => simp

/-- **The admin surface is closed** to everybody who is not entitled, outside `rbt dev`,
exactly if a secret or an external application is configured, or the request has no
bearer token at all. -/
theorem surface_closed_iff {ρ β : Type} {bodies : Bodies ρ β} {request : ρ} {rpc : Rpc}
    (hdev : runningRbtDev environ = false) :
    (Reached (serve bodies (ensureAdminAuthOrFail environ external metadata) request rpc) →
        Entitled environ external metadata) ↔
      environ.rebootAdminToken ≠ none ∨ environ.rebootAdminAuthUrl ≠ none ∨
        bearerToken metadata = none := by
  rw [serve_reached, ensureAdminAuthOrFail_returned hdev]
  constructor
  · intro hclosed
    by_contra hopen
    push Not at hopen
    obtain ⟨hsecret, hurl, htoken⟩ := hopen
    obtain ⟨token, -, h | ⟨-, url, h, -⟩⟩ := hclosed (.inr ⟨hsecret, hurl, htoken⟩)
    · rw [hsecret] at h
      cases h
    · rw [hurl] at h
      cases h
  · rintro hconfigured (hentitled | ⟨hsecret, hurl, htoken⟩)
    · exact hentitled
    · rcases hconfigured with h | h | h
      · exact absurd hsecret h
      · exact absurd hurl h
      · exact absurd h htoken

end

/-- `rbt serve` without a secret and without an external application. -/
def nothingConfigured : Environ := ⟨none, none, some "true".toList, none, none⟩

/-- No application answers. -/
def nobody : External := fun _ _ _ => .raised

theorem surface_closed_iff_secret :
    (Reached (serve (⟨id, id, id, id, id, id⟩ : Bodies Nat Nat)
        (ensureAdminAuthOrFail { nothingConfigured with rebootAdminToken := some "s".toList }
          nobody [(authorizationHeader, "Bearer t".toList)]) 0 .exportItems) →
      Entitled { nothingConfigured with rebootAdminToken := some "s".toList } nobody
        [(authorizationHeader, "Bearer t".toList)]) ↔
      ({ nothingConfigured with rebootAdminToken := some "s".toList } :
          Environ).rebootAdminToken ≠ none ∨
        ({ nothingConfigured with rebootAdminToken := some "s".toList } :
          Environ).rebootAdminAuthUrl ≠ none ∨
        bearerToken [(authorizationHeader, "Bearer t".toList)] = none :=
  surface_closed_iff (by decide)

/-- Anybody exports everything when nothing is configured. -/
theorem surface_open :
    runningRbtDev nothingConfigured = false ∧
      Reached (serve (⟨id, id, id, id, id, id⟩ : Bodies Nat Nat)
        (ensureAdminAuthOrFail nothingConfigured nobody
          [(authorizationHeader, "Bearer anything".toList)]) 0 .exportItems) ∧
      ¬ Entitled nothingConfigured nobody [(authorizationHeader, "Bearer anything".toList)] := by
  refine ⟨by decide, serve_reached.mpr (by decide), ?_⟩
  rintro ⟨token, -, h | ⟨-, url, h, -⟩⟩ <;> cases h

/-! ## Calls to other servers -/

/-- The metadata of the call that a method makes to another server. -/
def forwardedMetadata (metadata : Metadata) (serverId : Str) : Metadata :=
  authMetadataFromMetadata metadata ++ [(serverIdHeader, serverId)]

/-- The token that goes along is the first one. -/
theorem bearerToken_forwarded (metadata : Metadata) (serverId : Str) :
    bearerToken (forwardedMetadata metadata serverId) =
      (metadata.find? fun e => decide (e.1 = authorizationHeader)).map
        fun e => removePrefix "Bearer ".toList e.2 := by
  have hne : ¬ serverIdHeader = authorizationHeader := by decide
  unfold bearerToken lookupLast forwardedMetadata authMetadataFromMetadata
  cases hfind : metadata.find? fun e => decide (e.1 = authorizationHeader) with
  | none => simp [hne]
  | some e =>
    have heq : e.1 = authorizationHeader := by simpa using List.find?_some hfind
    simp [hne, heq]

/-- **The other server decides alike** when the request has the header at most once. -/
theorem forwarded_checked {environ : Environ} {external : External} {metadata : Metadata}
    {serverId : Str}
    (honce : (metadata.filter fun e => decide (e.1 = authorizationHeader)).length ≤ 1) :
    ensureAdminAuthOrFail environ external (forwardedMetadata metadata serverId) =
      ensureAdminAuthOrFail environ external metadata := by
  have htoken : bearerToken (forwardedMetadata metadata serverId) = bearerToken metadata := by
    rw [bearerToken_forwarded]
    unfold bearerToken lookupLast
    rw [Option.map_map, ← List.head?_filter, ← List.head?_filter, List.filter_reverse,
      List.head?_reverse]
    -- the first entry is the last
    generalize metadata.filter (fun e => decide (e.1 = authorizationHeader)) = entries at honce
    match entries, honce with
    | [], _ => rfl
    | [e], _ => rfl
  unfold ensureAdminAuthOrFail
  rw [htoken]

end Reboot.Admin
