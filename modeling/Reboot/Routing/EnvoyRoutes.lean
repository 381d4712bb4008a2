import Reboot.Lib.Text
import Reboot.Names

/-!
# The routes of a listener, and the caller ID

The route configuration that `reboot/routing/envoy_config.py` writes for a listener, with
the path prefixes of `reboot/helpers.py` that it is built from, and what Envoy does with a
request under it: it takes the first route that matches and, where the route has the
gRPC-JSON transcoder on, hands it to the transcoder and chooses again.

A caller ID (`x-reboot-caller-id`) makes a call internal to the application, so a listener
that does not trust it has to take it out of whatever goes to a gRPC port. Two kinds of
routes lead there, `grpcRoute` and `prefixRoute`.

Mirroring notes:
- A request is as it comes to the transcoder, after the Lua filters, which leave the content
  type and the caller ID alone. Its path is without query and fragment, which routes do
  not look at; values of one header are one entry, as Envoy joins them.
- A request to be transcoded has no query: `reject_unknown_query_parameters` is not set, so the
  transcoder lets one with a parameter that is no field of the message through as it came.
- A cluster is given by what `_cluster_name` makes its name of.
- Of a route are left out timeouts, CORS, metadata and the rewriting of the host.
- `set` is a list: prefixes of one set lead to one cluster, in any order.
- The transcoder is a parameter, and so are what regular expressions accept and what is
  within the `auth` of a caller ID.
-/

namespace Reboot.Routing.Listener

open Reboot.Lib

/-! ## Path prefixes -/

/-- The `pattern` of a `google.api.http` rule. -/
inductive Pattern
  | get (path : Str)
  | put (path : Str)
  | post (path : Str)
  | delete (path : Str)
  | patch (path : Str)
  | custom (kind path : Str)
  deriving DecidableEq

/-- `HttpRule`; the pattern may be unset. -/
inductive HttpRule
  | mk (pattern : Option Pattern) (additionalBindings : List HttpRule)

structure MethodDescriptorProto where
  name : Str
  /-- the extension `google.api.http` of the options -/
  http : Option HttpRule

structure ServiceDescriptorProto where
  name : Str
  method : List MethodDescriptorProto

structure FileDescriptorProto where
  package : Option Str
  service : List ServiceDescriptorProto

abbrev FileDescriptorSet := List FileDescriptorProto

/-- What is raised on a rule. -/
inductive RuleError
  | unknownPattern
  | notAbsolute (path : Str)
  deriving DecidableEq

def Pattern.path : Pattern → Str
  | .get path => path
  | .put path => path
  | .post path => path
  | .delete path => path
  | .patch path => path
  | .custom _ path => path

/-- A path up to its first variable. -/
def upToVariable (path : Str) : Str :=
  match cutFirst '{' path with
  | none => path
  | some (before, _) => before

mutual

/-- `_extract_prefixes_from_http_rule`. -/
def extractPrefixesFromHttpRule : HttpRule → Except RuleError (List Str)
  | .mk none _ => .error .unknownPattern
  | .mk (some pattern) additionalBindings =>
    if "/".toList.isPrefixOf pattern.path then
      match extractPrefixesFromBindings additionalBindings with
      | .ok prefixes => .ok (upToVariable pattern.path :: prefixes)
      | .error e => .error e
    else .error (.notAbsolute pattern.path)

/-- The same for each of the additional bindings. -/
def extractPrefixesFromBindings : List HttpRule → Except RuleError (List Str)
  | [] => .ok []
  | rule :: rules =>
    match extractPrefixesFromHttpRule rule with
    | .error e => .error e
    | .ok prefixes =>
      match extractPrefixesFromBindings rules with
      | .error e => .error e
      | .ok others => .ok (prefixes ++ others)

end

/-- The name of a service with that of its package. -/
def qualifiedServiceName (package : Option Str) (service : Str) : Str :=
  match package with
  | some package => package ++ '.' :: service
  | none => service

/-- The prefixes of a method. -/
def prefixesOfMethod (package : Option Str) (service : Str) (method : MethodDescriptorProto) :
    Except RuleError (List Str) :=
  match method.http with
  | some rule => extractPrefixesFromHttpRule rule
  | none => .ok ['/' :: qualifiedServiceName package service ++ '/' :: method.name]

/-- `get_path_prefixes_from_file_descriptor_set`. -/
def getPathPrefixesFromFileDescriptorSet (fileDescriptorSet : FileDescriptorSet) :
    Except RuleError (List Str) :=
  List.flatten <$> (fileDescriptorSet.flatMap fun file =>
    file.service.flatMap fun service =>
      service.method.map fun method => (file.package, service.name, method)).mapM
    fun (package, service, method) => prefixesOfMethod package service method

/-- The services that the transcoder knows. -/
def transcoderServices (fileDescriptorSet : FileDescriptorSet) : List Str :=
  fileDescriptorSet.flatMap fun file =>
    file.service.map fun service => file.package.getD [] ++ '.' :: service.name

/-- Without services there are no prefixes. -/
theorem prefixes_of_no_services {fileDescriptorSet : FileDescriptorSet} {prefixes : List Str}
    (hnone : transcoderServices fileDescriptorSet = [])
    (hprefixes : getPathPrefixesFromFileDescriptorSet fileDescriptorSet = .ok prefixes) :
    prefixes = [] := by
  have hservice : ∀ file ∈ fileDescriptorSet, file.service = [] := by
    simpa [transcoderServices] using hnone
  have hmethods : (fileDescriptorSet.flatMap fun file =>
      file.service.flatMap fun service =>
        service.method.map fun method => (file.package, service.name, method)) = [] := by
    rw [List.flatMap_eq_nil_iff]
    intro file hfile
    rw [hservice file hfile]
    rfl
  unfold getPathPrefixesFromFileDescriptorSet at hprefixes
  rw [hmethods] at hprefixes
  cases hprefixes
  rfl

theorem upToVariable_absolute {path : Str} (h : "/".toList.isPrefixOf path = true) :
    "/".toList.isPrefixOf (upToVariable path) = true := by
  unfold upToVariable
  cases path with
  | nil => exact absurd h (by decide)
  | cons c path =>
    obtain rfl : c = '/' := by simpa using Eq.symm (by simpa [List.isPrefixOf] using h)
    have hne : ¬ ('/' : Char) = '{' := by decide
    simp only [cutFirst, hne, if_false]
    cases cutFirst '{' path <;> rfl

mutual

/-- Prefixes are absolute. -/
theorem extractPrefixesFromHttpRule_absolute : ∀ (rule : HttpRule) {prefixes : List Str},
    extractPrefixesFromHttpRule rule = .ok prefixes →
      ∀ start ∈ prefixes, "/".toList.isPrefixOf start = true
  | .mk none _, prefixes, h => by
    rw [extractPrefixesFromHttpRule] at h
    cases h
  | .mk (some pattern) additionalBindings, prefixes, h => by
    rw [extractPrefixesFromHttpRule] at h
    split at h
    next habsolute =>
      split at h
      next others hothers =>
        cases h
        intro start hstart
        rcases List.mem_cons.mp hstart with rfl | hstart
        · exact upToVariable_absolute habsolute
        · exact extractPrefixesFromBindings_absolute additionalBindings hothers start hstart
      next => cases h
    next => cases h

theorem extractPrefixesFromBindings_absolute : ∀ (rules : List HttpRule) {prefixes : List Str},
    extractPrefixesFromBindings rules = .ok prefixes →
      ∀ start ∈ prefixes, "/".toList.isPrefixOf start = true
  | [], prefixes, h => by
    rw [extractPrefixesFromBindings] at h
    cases h
    exact fun _ hstart => nomatch hstart
  | rule :: rules, prefixes, h => by
    rw [extractPrefixesFromBindings] at h
    split at h
    next => cases h
    next first hfirst =>
      split at h
      next => cases h
      next others hothers =>
        cases h
        intro start hstart
        rcases List.mem_append.mp hstart with hstart | hstart
        · exact extractPrefixesFromHttpRule_absolute rule hfirst start hstart
        · exact extractPrefixesFromBindings_absolute rules hothers start hstart

end

/-- What a map of a list in `Except` consists of. -/
theorem mem_of_mapM_ok {α β ε : Type} {f : α → Except ε β} : ∀ {xs : List α} {ys : List β},
    xs.mapM f = .ok ys → ∀ y ∈ ys, ∃ x ∈ xs, f x = .ok y
  | [], ys, h, y, hy => by
    cases h
    cases hy
  | x :: xs, ys, h, y, hy => by
    rw [List.mapM_cons] at h
    cases hx : f x with
    | error e =>
      rw [hx] at h
      cases h
    | ok first =>
      rw [hx] at h
      cases hxs : xs.mapM f with
      | error e =>
        rw [hxs] at h
        cases h
      | ok others =>
        rw [hxs] at h
        cases h
        rcases List.mem_cons.mp hy with rfl | hy
        · exact ⟨x, List.mem_cons_self .., hx⟩
        · obtain ⟨x', hx', hy'⟩ := mem_of_mapM_ok hxs y hy
          exact ⟨x', List.mem_cons_of_mem _ hx', hy'⟩

theorem getPathPrefixesFromFileDescriptorSet_absolute {fileDescriptorSet : FileDescriptorSet}
    {prefixes : List Str}
    (hprefixes : getPathPrefixesFromFileDescriptorSet fileDescriptorSet = .ok prefixes)
    {start : Str} (hstart : start ∈ prefixes) : "/".toList.isPrefixOf start = true := by
  unfold getPathPrefixesFromFileDescriptorSet at hprefixes
  generalize hmethods : (fileDescriptorSet.flatMap fun file =>
    file.service.flatMap fun service =>
      service.method.map fun method => (file.package, service.name, method)) = methods at hprefixes
  generalize hresults : methods.mapM (fun (package, service, method) =>
    prefixesOfMethod package service method) = results at hprefixes
  cases results with
  | error e => cases hprefixes
  | ok results =>
    cases hprefixes
    obtain ⟨result, hresult, hstart⟩ := List.mem_flatten.mp hstart
    obtain ⟨⟨package, service, method⟩, -, hmethod⟩ := mem_of_mapM_ok hresults result hresult
    change prefixesOfMethod package service method = .ok result at hmethod
    unfold prefixesOfMethod at hmethod
    cases hhttp : method.http with
    | some rule =>
      rw [hhttp] at hmethod
      exact extractPrefixesFromHttpRule_absolute rule hmethod start hstart
    | none =>
      rw [hhttp] at hmethod
      cases hmethod
      obtain rfl := List.mem_singleton.mp hstart
      rfl

/-! ## Requests and routes -/

abbrev Headers := List (Str × Str)

/-- The value of a header. -/
def header (headers : Headers) (name : Str) : Option Str :=
  (headers.find? fun e => decide (e.1 = name)).map (·.2)

def callerIdHeader : Str := "x-reboot-caller-id".toList

structure Request where
  path : Str
  headers : Headers
  deriving DecidableEq

inductive ClusterKind
  | grpc
  | websocket
  | http
  deriving DecidableEq

/-- Where a route leads. -/
inductive Cluster
  | frontend
  | server (serverId : Str) (kind : ClusterKind)
  deriving DecidableEq

inductive PathSpecifier
  | pathPrefix (start : Str)
  | path (path : Str)
  /-- a regular expression, by what it accepts -/
  | safeRegex (accepts : Str → Bool)

structure RouteMatch where
  specifier : PathSpecifier
  /-- header matchers, of which all are for an exact value -/
  headers : Headers
  /-- whether there are `GrpcRouteMatchOptions` -/
  grpc : Bool

structure Route where
  routeMatch : RouteMatch
  cluster : Cluster
  requestHeadersToRemove : List Str
  responseHeadersToRemove : List Str
  /-- no `EMPTY_GRPC_JSON_TRANSCODER_CONFIG` -/
  transcoder : Bool

structure ServerInfo where
  serverId : Str
  deriving DecidableEq

structure FrontendConfig where
  webApp : Bool
  deriving DecidableEq

/-! ## What the configuration says -/

def serverHeaderMatcher (server : ServerInfo) : Str × Str := (serverIdHeader, server.serverId)

/-- The route of gRPC requests. -/
def grpcRoute (server : ServerInfo) (trustCallerId : Bool) : Route where
  routeMatch :=
    { specifier := .pathPrefix "/".toList
      headers :=
        [serverHeaderMatcher server, ("content-type".toList, "application/grpc".toList)]
      grpc := true }
  cluster := .server server.serverId .grpc
  requestHeadersToRemove := if trustCallerId then [] else [callerIdHeader]
  responseHeadersToRemove := []
  transcoder := true

/-- The route of a path prefix. -/
def prefixRoute (server : ServerInfo) (start : Str) : Route where
  routeMatch := ⟨.pathPrefix start, [serverHeaderMatcher server], false⟩
  cluster := .server server.serverId .grpc
  requestHeadersToRemove := []
  responseHeadersToRemove := []
  transcoder := true

/-- `http_route`, and with it `_oauth_route`. -/
def httpRoute (server : ServerInfo) (routeMatch : RouteMatch) : Route where
  routeMatch := routeMatch
  cluster := .server server.serverId .http
  requestHeadersToRemove := []
  responseHeadersToRemove := []
  transcoder := false

/-- `_for_server`. -/
def forServer (routeMatch : RouteMatch) (server : ServerInfo) : RouteMatch :=
  { routeMatch with headers := routeMatch.headers ++ [serverHeaderMatcher server] }

def websocketRoute (server : ServerInfo) : Route where
  routeMatch :=
    { specifier := .pathPrefix "/".toList
      headers := [("upgrade".toList, "websocket".toList), serverHeaderMatcher server]
      grpc := false }
  cluster := .server server.serverId .websocket
  requestHeadersToRemove := []
  responseHeadersToRemove := []
  transcoder := false

/-- What a listener is configured from. -/
structure ListenerConfig where
  servers : List ServerInfo
  fileDescriptorSet : FileDescriptorSet
  trustCallerId : Bool
  allowedOrigins : Option (List Str)
  routeMatches : List RouteMatch
  frontend : Option FrontendConfig

section

variable (config : ListenerConfig)

/-- With `--web-app` the frontend answers whatever is left. -/
def ListenerConfig.webApp : Bool := config.frontend.any (·.webApp)

/-- `_routes_for_server`. -/
def routesForServer (server : ServerInfo) : ClusterKind → Except RuleError (List Route)
  | .grpc =>
    match getPathPrefixesFromFileDescriptorSet config.fileDescriptorSet with
    | .error e => .error e
    | .ok prefixes =>
      .ok (grpcRoute server config.trustCallerId :: prefixes.map (prefixRoute server))
  | .http => .ok (
    (if config.allowedOrigins.isNone then []
      else [httpRoute server
        ⟨.pathPrefix oauthPathPrefix, [serverHeaderMatcher server], false⟩]) ++
    config.routeMatches.map (fun routeMatch => httpRoute server (forServer routeMatch server)) ++
    if config.webApp then []
      else [httpRoute server ⟨.pathPrefix "/".toList, [serverHeaderMatcher server], false⟩])
  | .websocket => .ok [websocketRoute server]

/-- `_frontend_route`. -/
def frontendRoute (routeMatch : RouteMatch) : Route where
  routeMatch := routeMatch
  cluster := .frontend
  requestHeadersToRemove := []
  responseHeadersToRemove := []
  transcoder := false

/-- `_frontend_routes`. -/
def frontendRoutes : List Route :=
  if config.frontend.isNone then []
  else [frontendRoute ⟨.pathPrefix "/__/frontend/".toList, [], false⟩]

/-- `_frontend_catch_all_routes`. -/
def frontendCatchAllRoutes : List Route :=
  if config.webApp then [frontendRoute ⟨.pathPrefix "/".toList, [], false⟩] else []

/-- `route.match.prefix`, which is empty where another specifier is set. -/
def RouteMatch.pathPrefix (routeMatch : RouteMatch) : Str :=
  match routeMatch.specifier with
  | .pathPrefix start => start
  | _ => []

/-- The body of the loop in `_without_cookies`. -/
def withoutCookie (route : Route) : Route :=
  if route.routeMatch.pathPrefix = oauthPathPrefix then route
  else
    { route with
      requestHeadersToRemove := route.requestHeadersToRemove ++ ["cookie".toList]
      responseHeadersToRemove := route.responseHeadersToRemove ++ ["set-cookie".toList] }

/-- `_without_cookies`. -/
def withoutCookies (routes : List Route) : List Route := routes.map withoutCookie

/-- The routes of `_filter_http_connection_manager`. -/
def connectionManagerRoutes : Except RuleError (List Route) := do
  let routes ← config.servers.mapM fun server =>
    List.flatten <$> [ClusterKind.websocket, .grpc, .http].mapM (routesForServer config server)
  return withoutCookies (frontendRoutes config ++ routes.flatten ++ frontendCatchAllRoutes config)

end

/-! ## What Envoy does -/

def contentType (request : Request) : Option Str := header request.headers "content-type".toList

/-- The content type is `application/grpc` or that with a suffix. -/
def isGrpcRequest (request : Request) : Bool :=
  match contentType request with
  | none => false
  | some value =>
    decide (value = "application/grpc".toList) || "application/grpc+".toList.isPrefixOf value

def PathSpecifier.accepts (specifier : PathSpecifier) (path : Str) : Bool :=
  match specifier with
  | .pathPrefix start => start.isPrefixOf path
  | .path exact => decide (path = exact)
  | .safeRegex accepts => accepts path

def RouteMatch.accepts (routeMatch : RouteMatch) (request : Request) : Bool :=
  routeMatch.specifier.accepts request.path &&
    routeMatch.headers.all (fun e => decide (header request.headers e.1 = some e.2)) &&
    (!routeMatch.grpc || isGrpcRequest request)

/-- The first route that matches. -/
def chooseRoute (routes : List Route) (request : Request) : Option Route :=
  routes.find? fun route => route.routeMatch.accepts request

/-- The transcoder: the request in gRPC, or `none` where it is rejected. -/
abbrev Transcoder := Request → Option Request

/-- Where a request goes, and what it has become. The transcoder leaves gRPC requests alone,
and all requests where it has no services. -/
def forward (transcode : Transcoder) (services : List Str) (routes : List Route)
    (request : Request) : Option (Route × Request) :=
  let route := chooseRoute routes request
  if isGrpcRequest request || services.isEmpty || !(route.all (·.transcoder)) then
    route.map fun route => (route, request)
  else
    match transcode request with
    | none => none
    | some transcoded => (chooseRoute routes transcoded).map fun route => (route, transcoded)

/-- The headers as they are sent on. -/
def sentHeaders (route : Route) (request : Request) : Headers :=
  request.headers.filter fun e => !route.requestHeadersToRemove.contains e.1

/-! ## Caller IDs -/

/-- `CallerID`, with an `auth` of type `α`. -/
structure CallerID (α : Type) where
  applicationId : Str
  spaceId : Option Str
  auth : Option α

/-- `_is_valid_id_suffix` of ten characters, after a letter. -/
def isValidId (letter : Char) (id : Str) : Bool :=
  decide (id.head? = some letter) && decide (id.length = 11) &&
    id.tail.all fun c => c.isDigit || c.isLower

/-- `is_valid_application_id`, as long as there are at most so many `-facilitator`. -/
def isValidApplicationIdWithin : Nat → Str → Bool
  | 0, _ => false
  | n + 1, id =>
    isValidId 'a' id || decide (id = "cloud".toList) ||
      ("-facilitator".toList.isSuffixOf id &&
        isValidApplicationIdWithin n (id.take (id.length - "-facilitator".length)))

def isValidApplicationId (id : Str) : Bool := isValidApplicationIdWithin (id.length + 1) id

/-- The key and value of a part; `none` is the `ValueError`. -/
def keyValues : List Str → Option (List (Str × Str))
  | [] => some []
  | part :: parts =>
    if part = [] then keyValues parts
    else (cutFirst '=' part).bind fun entry => (keyValues parts).map (entry :: ·)

/-- The last value of a key. -/
def valueOf (values : List (Str × Str)) (key : Str) : Option Str :=
  (values.reverse.find? fun e => decide (e.1 = key)).map (·.2)

/-- `CallerID.parse`; `none` where it raises. -/
def CallerID.parse {α : Type} (authFrom : Str → Option α) (callerId : Str) :
    Option (CallerID α) := do
  let values ← keyValues (callerId.splitOn ',')
  let applicationId ← valueOf values "application_id".toList
  let spaceId := valueOf values "space_id".toList
  guard (spaceId.all (isValidId 's'))
  guard (isValidApplicationId applicationId)
  match valueOf values "auth".toList with
  | none => some ⟨applicationId, spaceId, none⟩
  | some auth => (authFrom auth).map fun auth => ⟨applicationId, spaceId, some auth⟩

/-- The `caller_id` of `Headers.from_grpc_context`; `none` where that raises. -/
def callerIdOf {α : Type} (authFrom : Str → Option α) (headers : Headers) :
    Option (Option (CallerID α)) :=
  match header headers callerIdHeader with
  | none => some none
  | some callerId => (CallerID.parse authFrom callerId).map some

/-- `Context.is_app_internal`. -/
def isAppInternal {α : Type} (callerId : Option (CallerID α)) (applicationId : Str) : Bool :=
  callerId.any fun callerId => decide (callerId.applicationId = applicationId)

/-- The `Auth` that is taken over from the caller. -/
def callerAuth {α : Type} (callerId : Option (CallerID α)) (applicationId : Str)
    (bearerToken : Option Str) : Option α :=
  if bearerToken.isNone && isAppInternal callerId applicationId then
    callerId.bind (·.auth)
  else none

end Reboot.Routing.Listener
