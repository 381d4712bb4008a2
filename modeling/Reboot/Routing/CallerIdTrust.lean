import Reboot.Routing.EnvoyRoutes

/-!
# Whose caller ID a servicer sees

Of the routes that lead to a gRPC port (`Reboot.Routing.EnvoyRoutes`), the one for gRPC
requests takes the caller ID out if the listener does not trust it. The ones for the path
prefixes do not: they are there for a request to be handed to the transcoder, and what
comes back from there takes the route for gRPC requests.

> `untrusted_iff`: the caller ID is taken out of a request unless it `FallsThrough`, as a
> gRPC request, which is not transcoded, whose content type is not exactly
> `application/grpc`.

`find_serverRoutes` says which of the routes of a server is taken; both directions read it.
-/

namespace Reboot.Routing.Listener

open Reboot.Lib

/-! ## Reading the routes -/

section

variable {config : ListenerConfig} {prefixes : List Str} {server : ServerInfo}
  {request : Request}

/-- The routes of a server to its HTTP port. -/
def httpRoutes (config : ListenerConfig) (server : ServerInfo) : List Route :=
  (if config.allowedOrigins.isNone then []
    else [httpRoute server ⟨.pathPrefix oauthPathPrefix, [serverHeaderMatcher server], false⟩]) ++
  config.routeMatches.map (fun routeMatch => httpRoute server (forServer routeMatch server)) ++
  if config.webApp then []
    else [httpRoute server ⟨.pathPrefix "/".toList, [serverHeaderMatcher server], false⟩]

/-- The routes of a server, where the prefixes are known. -/
def serverRoutes (config : ListenerConfig) (prefixes : List Str) (server : ServerInfo) :
    List Route :=
  websocketRoute server ::
    (grpcRoute server config.trustCallerId :: prefixes.map (prefixRoute server)) ++
    httpRoutes config server

/-- The routes of a listener, where the prefixes are known. -/
def routesOf (config : ListenerConfig) (prefixes : List Str) : List Route :=
  withoutCookies (frontendRoutes config ++ config.servers.flatMap (serverRoutes config prefixes) ++
    frontendCatchAllRoutes config)

theorem routesForServer_ok
    (hprefixes : getPathPrefixesFromFileDescriptorSet config.fileDescriptorSet = .ok prefixes) :
    List.flatten <$> [ClusterKind.websocket, .grpc, .http].mapM (routesForServer config server) =
      .ok (serverRoutes config prefixes server) := by
  have hgrpc : routesForServer config server .grpc =
      .ok (grpcRoute server config.trustCallerId :: prefixes.map (prefixRoute server)) := by
    unfold routesForServer
    rw [hprefixes]
  have hhttp : routesForServer config server .http = .ok (httpRoutes config server) := rfl
  have hwebsocket : routesForServer config server .websocket = .ok [websocketRoute server] := rfl
  simp only [List.mapM_cons, List.mapM_nil, hgrpc, hhttp, hwebsocket]
  change Except.ok (List.flatten _) = _
  simp [serverRoutes]

theorem connectionManagerRoutes_ok
    (hprefixes : getPathPrefixesFromFileDescriptorSet config.fileDescriptorSet = .ok prefixes) :
    connectionManagerRoutes config = .ok (routesOf config prefixes) := by
  have hservers : ∀ servers : List ServerInfo,
      servers.mapM (fun server =>
        List.flatten <$> [ClusterKind.websocket, .grpc, .http].mapM (routesForServer config server)) =
      Except.ok (servers.map (serverRoutes config prefixes)) := by
    intro servers
    induction servers with
    | nil => rfl
    | cons server servers ih =>
      rw [List.mapM_cons, routesForServer_ok hprefixes, ih]
      rfl
  unfold connectionManagerRoutes routesOf
  rw [hservers]
  rfl

/-- A listener with servers cannot do without the prefixes. -/
theorem connectionManagerRoutes_error {e : RuleError} {routes : List Route}
    (hprefixes : getPathPrefixesFromFileDescriptorSet config.fileDescriptorSet = .error e)
    (hroutes : connectionManagerRoutes config = .ok routes) :
    config.servers = [] := by
  cases hservers : config.servers with
  | nil => rfl
  | cons server servers =>
    have herror : List.flatten <$>
        [ClusterKind.websocket, .grpc, .http].mapM (routesForServer config server) =
        Except.error e := by
      have hgrpc : routesForServer config server .grpc = .error e := by
        unfold routesForServer
        rw [hprefixes]
      have hwebsocket :
          routesForServer config server .websocket = .ok [websocketRoute server] := rfl
      simp only [List.mapM_cons, hgrpc, hwebsocket]
      rfl
    unfold connectionManagerRoutes at hroutes
    rw [hservers, List.mapM_cons, herror] at hroutes
    cases hroutes

/-! ## Which route is taken -/

theorem accepts_iff {routeMatch : RouteMatch} :
    routeMatch.accepts request = true ↔
      routeMatch.specifier.accepts request.path = true ∧
        (∀ e ∈ routeMatch.headers, header request.headers e.1 = some e.2) ∧
        (routeMatch.grpc = true → isGrpcRequest request = true) := by
  unfold RouteMatch.accepts
  cases routeMatch.grpc <;> simp [and_assoc]

/-- The routes of a server are for requests that name it. -/
theorem accepts_server {routeMatch : RouteMatch}
    (hmem : serverHeaderMatcher server ∈ routeMatch.headers)
    (haccepts : routeMatch.accepts request = true) :
    header request.headers serverIdHeader = some server.serverId :=
  (accepts_iff.mp haccepts).2.1 _ hmem

theorem httpRoutes_spec {route : Route} (hmem : route ∈ httpRoutes config server) :
    route.cluster = .server server.serverId .http ∧ route.transcoder = false ∧
      serverHeaderMatcher server ∈ route.routeMatch.headers := by
  simp only [httpRoutes, List.mem_append, List.mem_map] at hmem
  obtain (h | ⟨routeMatch, -, rfl⟩) | h := hmem
  · split at h
    · cases h
    · obtain rfl := List.mem_singleton.mp h
      exact ⟨rfl, rfl, List.mem_singleton.mpr rfl⟩
  · exact ⟨rfl, rfl, List.mem_append_right _ (List.mem_singleton.mpr rfl)⟩
  · split at h
    · cases h
    · obtain rfl := List.mem_singleton.mp h
      exact ⟨rfl, rfl, List.mem_singleton.mpr rfl⟩

theorem prefixRoute_accepts {start : Str} :
    (prefixRoute server start).routeMatch.accepts request = true ↔
      start.isPrefixOf request.path = true ∧
        header request.headers serverIdHeader = some server.serverId := by
  rw [accepts_iff]
  simp [prefixRoute, PathSpecifier.accepts, serverHeaderMatcher]

theorem websocketRoute_accepts :
    (websocketRoute server).routeMatch.accepts request = true ↔
      "/".toList.isPrefixOf request.path = true ∧
        header request.headers "upgrade".toList = some "websocket".toList ∧
        header request.headers serverIdHeader = some server.serverId := by
  rw [accepts_iff]
  simp [websocketRoute, PathSpecifier.accepts, serverHeaderMatcher]

theorem grpcRoute_accepts {trustCallerId : Bool} :
    (grpcRoute server trustCallerId).routeMatch.accepts request = true ↔
      "/".toList.isPrefixOf request.path = true ∧
        header request.headers serverIdHeader = some server.serverId ∧
        contentType request = some "application/grpc".toList := by
  have hgrpc : contentType request = some "application/grpc".toList →
      isGrpcRequest request = true := by
    intro h
    unfold isGrpcRequest
    rw [h]
    rfl
  rw [accepts_iff]
  constructor
  · rintro ⟨hpath, hheaders, -⟩
    exact ⟨hpath, hheaders _ (List.mem_cons_self ..),
      hheaders _ (List.mem_cons_of_mem _ (List.mem_cons_self ..))⟩
  · rintro ⟨hpath, hserver, hcontent⟩
    refine ⟨hpath, fun e he => ?_, fun _ => hgrpc hcontent⟩
    obtain rfl | he := List.mem_cons.mp he
    · exact hserver
    · obtain rfl := List.mem_singleton.mp he
      exact hcontent

/-- A route of a server that leads to its gRPC port and is taken is the one for gRPC requests
or, if that and the one for websockets do not match, one for a prefix. -/
theorem taken_of_server {route : Route}
    (htaken : (serverRoutes config prefixes server).find? (fun route =>
      route.routeMatch.accepts request) = some route) :
    route.cluster = .server server.serverId .grpc →
      route = grpcRoute server config.trustCallerId ∨
        ∃ start ∈ prefixes, route = prefixRoute server start ∧
          start.isPrefixOf request.path = true ∧
          (websocketRoute server).routeMatch.accepts request = false ∧
          (grpcRoute server config.trustCallerId).routeMatch.accepts request = false := by
  intro hcluster
  unfold serverRoutes at htaken
  rw [List.cons_append, List.find?_cons, List.cons_append, List.find?_cons] at htaken
  split at htaken
  next =>
    cases htaken
    cases hcluster
  next hwebsocket =>
    split at htaken
    next =>
      cases htaken
      exact .inl rfl
    next hgrpc =>
      rw [List.find?_append] at htaken
      rcases Option.or_eq_some_iff.mp htaken with h | ⟨-, h⟩
      · have haccepts := List.find?_some h
        obtain ⟨start, hstart, rfl⟩ := List.mem_map.mp (List.mem_of_find?_eq_some h)
        exact .inr ⟨start, hstart, rfl, (prefixRoute_accepts.mp haccepts).1, hwebsocket, hgrpc⟩
      · -- the routes to the HTTP port lead elsewhere
        rw [(httpRoutes_spec (List.mem_of_find?_eq_some h)).1] at hcluster
        cases hcluster

/-- Every route of a server is for requests that name it. -/
theorem serverRoutes_names {route : Route} (hmem : route ∈ serverRoutes config prefixes server) :
    serverHeaderMatcher server ∈ route.routeMatch.headers := by
  unfold serverRoutes at hmem
  rcases List.mem_append.mp hmem with h | h
  · rcases List.mem_cons.mp h with rfl | h
    · exact List.mem_cons_of_mem _ (List.mem_singleton.mpr rfl)
    · rcases List.mem_cons.mp h with rfl | h
      · exact List.mem_cons_self ..
      · obtain ⟨start, -, rfl⟩ := List.mem_map.mp h
        exact List.mem_singleton.mpr rfl
  · exact (httpRoutes_spec h).2.2

/-- A route to a port of a server is one of its own. -/
theorem serverRoutes_cluster {route : Route}
    (hmem : route ∈ serverRoutes config prefixes server) :
    ∃ kind, route.cluster = .server server.serverId kind := by
  unfold serverRoutes at hmem
  rcases List.mem_append.mp hmem with h | h
  · rcases List.mem_cons.mp h with rfl | h
    · exact ⟨_, rfl⟩
    · rcases List.mem_cons.mp h with rfl | h
      · exact ⟨_, rfl⟩
      · obtain ⟨start, -, rfl⟩ := List.mem_map.mp h
        exact ⟨_, rfl⟩
  · exact ⟨_, (httpRoutes_spec h).1⟩

/-- A prefix route is taken where only it matches. -/
theorem prefixRoute_taken {start : Str} (hstart : start ∈ prefixes)
    (hpath : start.isPrefixOf request.path = true)
    (hserver : header request.headers serverIdHeader = some server.serverId)
    (hwebsocket : header request.headers "upgrade".toList ≠ some "websocket".toList)
    (hcontent : contentType request ≠ some "application/grpc".toList) :
    ∃ start, (serverRoutes config prefixes server).find? (fun route =>
      route.routeMatch.accepts request) = some (prefixRoute server start) := by
  have hws : (websocketRoute server).routeMatch.accepts request = false := by
    rw [← Bool.not_eq_true, websocketRoute_accepts]
    exact fun h => hwebsocket h.2.1
  have hgrpc : (grpcRoute server config.trustCallerId).routeMatch.accepts request = false := by
    rw [← Bool.not_eq_true, grpcRoute_accepts]
    exact fun h => hcontent h.2.2
  have hsome : ((prefixes.map (prefixRoute server)).find? fun route =>
      route.routeMatch.accepts request).isSome = true := by
    rw [List.find?_isSome]
    exact ⟨_, List.mem_map_of_mem hstart, prefixRoute_accepts.mpr ⟨hpath, hserver⟩⟩
  obtain ⟨route, hroute⟩ := Option.isSome_iff_exists.mp hsome
  obtain ⟨found, -, rfl⟩ := List.mem_map.mp (List.mem_of_find?_eq_some hroute)
  refine ⟨found, ?_⟩
  unfold serverRoutes
  rw [List.cons_append, List.find?_cons, hws, List.cons_append, List.find?_cons, hgrpc,
    List.find?_append, hroute]
  rfl

/-! ## Which route of the listener is taken -/

theorem withoutCookie_spec (route : Route) :
    (withoutCookie route).routeMatch = route.routeMatch ∧
      (withoutCookie route).cluster = route.cluster ∧
      (withoutCookie route).transcoder = route.transcoder ∧
      (callerIdHeader ∈ (withoutCookie route).requestHeadersToRemove ↔
        callerIdHeader ∈ route.requestHeadersToRemove) := by
  have hne : callerIdHeader ≠ "cookie".toList := by decide
  unfold withoutCookie
  split
  · exact ⟨rfl, rfl, rfl, Iff.rfl⟩
  · refine ⟨rfl, rfl, rfl, ?_⟩
    simp only [List.mem_append, List.mem_singleton]
    exact ⟨fun h => h.resolve_right hne, .inl⟩

theorem chooseRoute_withoutCookies (routes : List Route) :
    chooseRoute (withoutCookies routes) request = (chooseRoute routes request).map withoutCookie := by
  unfold chooseRoute withoutCookies
  rw [List.find?_map]
  congr 2
  funext route
  simp only [Function.comp_apply, (withoutCookie_spec route).1]

/-- The frontend is asked first for what is its own. -/
def IsForFrontend (config : ListenerConfig) (request : Request) : Prop :=
  config.frontend.isSome = true ∧ "/__/frontend/".toList.isPrefixOf request.path = true

theorem frontendRoutes_find :
    (frontendRoutes config).find? (fun route => route.routeMatch.accepts request) = none ↔
      ¬ IsForFrontend config request := by
  unfold frontendRoutes IsForFrontend
  cases config.frontend with
  | none => simp
  | some frontend => simp [frontendRoute, RouteMatch.accepts, PathSpecifier.accepts]

theorem frontend_cluster {route : Route}
    (hmem : route ∈ frontendRoutes config ∨ route ∈ frontendCatchAllRoutes config) :
    route.cluster = .frontend := by
  unfold frontendRoutes frontendCatchAllRoutes at hmem
  rcases hmem with h | h
  · split at h
    · cases h
    · obtain rfl := List.mem_singleton.mp h
      rfl
  · split at h
    · obtain rfl := List.mem_singleton.mp h
      rfl
    · cases h

/-- **What leads to a gRPC port** is the route for gRPC requests or, where that does not
match, a route for a prefix. -/
theorem chooseRoute_grpc {route : Route} {serverId : Str}
    (hchosen : chooseRoute (routesOf config prefixes) request = some route)
    (hcluster : route.cluster = .server serverId .grpc) :
    ∃ server ∈ config.servers,
      route = withoutCookie (grpcRoute server config.trustCallerId) ∨
        ¬ IsForFrontend config request ∧
          ∃ start ∈ prefixes, route = withoutCookie (prefixRoute server start) ∧
            start.isPrefixOf request.path = true ∧
            header request.headers serverIdHeader = some server.serverId ∧
            (websocketRoute server).routeMatch.accepts request = false ∧
            (grpcRoute server config.trustCallerId).routeMatch.accepts request = false := by
  unfold routesOf at hchosen
  rw [chooseRoute_withoutCookies] at hchosen
  obtain ⟨bare, hbare, rfl⟩ := Option.map_eq_some_iff.mp hchosen
  rw [(withoutCookie_spec bare).2.1] at hcluster
  unfold chooseRoute at hbare
  rw [List.find?_append, List.find?_append] at hbare
  have hfrontend : ∀ routes, (routes = frontendRoutes config ∨ routes = frontendCatchAllRoutes config) →
      routes.find? (fun route => route.routeMatch.accepts request) ≠ some bare := by
    intro routes hroutes hfind
    have hmem := List.mem_of_find?_eq_some hfind
    have : bare.cluster = .frontend := by
      rcases hroutes with rfl | rfl
      · exact frontend_cluster (.inl hmem)
      · exact frontend_cluster (.inr hmem)
    rw [this] at hcluster
    cases hcluster
  rcases Option.or_eq_some_iff.mp hbare with hbare | ⟨-, hbare⟩
  · rcases Option.or_eq_some_iff.mp hbare with hbare | ⟨hnot, hbare⟩
    · exact absurd hbare (hfrontend _ (.inl rfl))
    · rw [List.find?_flatMap] at hbare
      obtain ⟨server, hserver, htaken⟩ := List.exists_of_findSome?_eq_some hbare
      have hmem := List.mem_of_find?_eq_some htaken
      obtain ⟨kind, hkind⟩ := serverRoutes_cluster hmem
      have hgrpc : bare.cluster = .server server.serverId .grpc := by
        rw [hkind] at hcluster ⊢
        cases hcluster
        rfl
      have haccepts : bare.routeMatch.accepts request = true := by
        simpa using List.find?_some htaken
      have hnames := accepts_server (serverRoutes_names hmem) haccepts
      refine ⟨server, hserver, ?_⟩
      rcases taken_of_server htaken hgrpc with rfl | ⟨start, hstart, rfl, hpath, hws, hno⟩
      · exact .inl rfl
      · exact .inr ⟨frontendRoutes_find.mp hnot, start, hstart, rfl, hpath, hnames, hws, hno⟩
  · exact absurd hbare (hfrontend _ (.inr rfl))

/-! ## The caller ID -/

/-- A gRPC request that no route for gRPC requests matches, and a route for a prefix does. -/
structure FallsThrough (config : ListenerConfig) (request : Request) : Prop where
  isGrpc : isGrpcRequest request = true
  suffixed : contentType request ≠ some "application/grpc".toList
  notFrontend : ¬ IsForFrontend config request
  notWebsocket : header request.headers "upgrade".toList ≠ some "websocket".toList
  server : ∃ server ∈ config.servers,
    header request.headers serverIdHeader = some server.serverId
  path : ∃ prefixes, getPathPrefixesFromFileDescriptorSet config.fileDescriptorSet = .ok prefixes ∧
    ∃ start ∈ prefixes, start.isPrefixOf request.path = true

/-- What goes to a gRPC port goes there without the caller ID, so that the call is not
internal to any application and nobody's `Auth` is taken over. -/
def Untrusted {α : Type} (authFrom : Str → Option α) (forwarded : Option (Route × Request)) :
    Prop :=
  ∀ route request serverId, forwarded = some (route, request) →
    route.cluster = .server serverId .grpc →
      callerIdHeader ∈ route.requestHeadersToRemove ∧
        ∀ applicationId bearerToken, ∃ callerId,
          callerIdOf authFrom (sentHeaders route request) = some callerId ∧
            isAppInternal callerId applicationId = false ∧
            callerAuth callerId applicationId bearerToken = none

/-- A header that is taken out is not sent. -/
theorem header_sentHeaders {route : Route} {name : Str}
    (hremoved : name ∈ route.requestHeadersToRemove) :
    header (sentHeaders route request) name = none := by
  unfold header sentHeaders
  rw [Option.map_eq_none_iff, List.find?_eq_none]
  intro e he hname
  have hkept := (List.mem_filter.mp he).2
  obtain rfl : e.1 = name := by simpa using hname
  simp [hremoved] at hkept

/-- The removal is all that it takes. -/
theorem untrusted_of_removed {α : Type} {authFrom : Str → Option α}
    {forwarded : Option (Route × Request)}
    (hremoved : ∀ route request serverId, forwarded = some (route, request) →
      route.cluster = .server serverId .grpc → callerIdHeader ∈ route.requestHeadersToRemove) :
    Untrusted authFrom forwarded := by
  intro route request serverId hforwarded hcluster
  have hmem := hremoved route request serverId hforwarded hcluster
  refine ⟨hmem, fun applicationId bearerToken => ⟨none, ?_, rfl, ?_⟩⟩
  · unfold callerIdOf
    rw [header_sentHeaders hmem]
  · unfold callerAuth
    split <;> rfl

/-- The route for gRPC requests takes the caller ID out. -/
theorem grpcRoute_removes (htrust : config.trustCallerId = false) :
    callerIdHeader ∈
      (withoutCookie (grpcRoute server config.trustCallerId)).requestHeadersToRemove := by
  rw [(withoutCookie_spec _).2.2.2, htrust]
  exact List.mem_singleton.mpr rfl

/-- A route for a prefix does not. -/
theorem prefixRoute_keeps {start : Str} :
    callerIdHeader ∉ (withoutCookie (prefixRoute server start)).requestHeadersToRemove := by
  rw [(withoutCookie_spec _).2.2.2]
  exact List.not_mem_nil

/-- What falls through goes to a gRPC port by a route for a prefix. -/
theorem FallsThrough.taken (hprefixes :
      getPathPrefixesFromFileDescriptorSet config.fileDescriptorSet = .ok prefixes)
    (hfalls : FallsThrough config request) :
    ∃ server start, chooseRoute (routesOf config prefixes) request =
      some (withoutCookie (prefixRoute server start)) := by
  obtain ⟨named, hnamed, hheader⟩ := hfalls.server
  obtain ⟨_, hprefixes', start, hstart, hpath⟩ := hfalls.path
  obtain rfl : prefixes = _ := Except.ok.inj (hprefixes.symm.trans hprefixes')
  -- the first server of that name
  have hsome : (config.servers.findSome? fun server =>
      (serverRoutes config prefixes server).find? fun route =>
        route.routeMatch.accepts request).isSome = true := by
    rw [List.findSome?_isSome_iff]
    obtain ⟨found, hfound⟩ := prefixRoute_taken hstart hpath hheader
      hfalls.notWebsocket hfalls.suffixed
    exact ⟨named, hnamed, by rw [hfound]; rfl⟩
  obtain ⟨bare, hbare⟩ := Option.isSome_iff_exists.mp hsome
  obtain ⟨server, -, htaken⟩ := List.exists_of_findSome?_eq_some hbare
  have haccepts : bare.routeMatch.accepts request = true := by
    simpa using List.find?_some htaken
  have hserver := accepts_server (serverRoutes_names (List.mem_of_find?_eq_some htaken)) haccepts
  obtain ⟨found, hfound⟩ := prefixRoute_taken hstart hpath hserver
    hfalls.notWebsocket hfalls.suffixed
  obtain rfl : bare = _ := Option.some.inj (htaken.symm.trans hfound)
  refine ⟨server, found, ?_⟩
  unfold routesOf
  rw [chooseRoute_withoutCookies]
  unfold chooseRoute
  rw [List.find?_append, List.find?_append, frontendRoutes_find.mpr hfalls.notFrontend,
    List.find?_flatMap, hbare]
  rfl

/-- What is sent takes the route chosen for it, as it came or as the transcoder made it. -/
theorem forward_cases {transcode : Transcoder} {services : List Str} {routes : List Route}
    {route : Route} {sent : Request}
    (hforward : forward transcode services routes request = some (route, sent)) :
    chooseRoute routes sent = some route ∧
      (sent = request ∧
          (isGrpcRequest request = true ∨ services = [] ∨ route.transcoder = false) ∨
        transcode request = some sent) := by
  unfold forward at hforward
  dsimp only at hforward
  split at hforward
  next huntouched =>
    obtain ⟨chosen, hchosen, heq⟩ := Option.map_eq_some_iff.mp hforward
    cases heq
    refine ⟨hchosen, .inl ⟨rfl, ?_⟩⟩
    simpa [hchosen, or_assoc] using huntouched
  next =>
    split at hforward
    next => cases hforward
    next htranscoded =>
      obtain ⟨chosen, hchosen, heq⟩ := Option.map_eq_some_iff.mp hforward
      cases heq
      exact ⟨hchosen, .inr htranscoded⟩

/-- What does not fall through takes the route for gRPC requests, if it goes to a gRPC port
at all. -/
theorem removed_of_not_fallsThrough (htrust : config.trustCallerId = false)
    (hprefixes : getPathPrefixesFromFileDescriptorSet config.fileDescriptorSet = .ok prefixes)
    {transcode : Transcoder}
    (htranscode : ∀ request transcoded, transcode request = some transcoded →
      contentType transcoded = some "application/grpc".toList)
    (hfalls : ¬ FallsThrough config request) {route : Route} {sent : Request} {serverId : Str}
    (hforward : forward transcode (transcoderServices config.fileDescriptorSet)
      (routesOf config prefixes) request = some (route, sent))
    (hcluster : route.cluster = .server serverId .grpc) :
    callerIdHeader ∈ route.requestHeadersToRemove := by
  obtain ⟨hchosen, horigin⟩ := forward_cases hforward
  obtain ⟨server, hserver, rfl | ⟨hfrontend, start, hstart, rfl, hpath, hnames, hws, hgrpc⟩⟩ :=
    chooseRoute_grpc hchosen hcluster
  · exact grpcRoute_removes htrust
  -- a route for a prefix, so that neither of the routes ahead of it matches
  exfalso
  have habsolute : "/".toList.isPrefixOf sent.path = true := by
    have hslash := getPathPrefixesFromFileDescriptorSet_absolute hprefixes hstart
    rw [List.isPrefixOf_iff_prefix] at hslash hpath ⊢
    exact hslash.trans hpath
  have hsuffixed : contentType sent ≠ some "application/grpc".toList := by
    intro hcontent
    rw [grpcRoute_accepts.mpr ⟨habsolute, hnames, hcontent⟩] at hgrpc
    cases hgrpc
  have hupgrade : header sent.headers "upgrade".toList ≠ some "websocket".toList := by
    intro hupgrade
    rw [websocketRoute_accepts.mpr ⟨habsolute, hupgrade, hnames⟩] at hws
    cases hws
  rcases horigin with ⟨rfl, hisGrpc | hnone | htranscoder⟩ | htranscoded
  · exact hfalls ⟨hisGrpc, hsuffixed, hfrontend, hupgrade, ⟨server, hserver, hnames⟩,
      ⟨prefixes, hprefixes, start, hstart, hpath⟩⟩
  · rw [prefixes_of_no_services hnone hprefixes] at hstart
    cases hstart
  · rw [(withoutCookie_spec _).2.2.1] at htranscoder
    cases htranscoder
  · exact hsuffixed (htranscode _ _ htranscoded)

/-- Without servers nothing goes to a gRPC port. -/
theorem no_servers_grpc {routes : List Route} {route : Route} {serverId : Str}
    (hservers : config.servers = []) (hroutes : connectionManagerRoutes config = .ok routes)
    (hchosen : chooseRoute routes request = some route) :
    route.cluster ≠ .server serverId .grpc := by
  intro hcluster
  have hnone : connectionManagerRoutes config = .ok (routesOf config []) := by
    unfold connectionManagerRoutes routesOf
    rw [hservers]
    rfl
  obtain rfl : routes = _ := Except.ok.inj (hroutes.symm.trans hnone)
  obtain ⟨server, hserver, -⟩ := chooseRoute_grpc hchosen hcluster
  rw [hservers] at hserver
  cases hserver

/-- **The caller ID of strangers is taken out** of a request exactly if the request does
not fall through to a route for a prefix. -/
theorem untrusted_iff {α : Type} {authFrom : Str → Option α} {routes : List Route}
    {transcode : Transcoder} (htrust : config.trustCallerId = false)
    (hroutes : connectionManagerRoutes config = .ok routes)
    (htranscode : ∀ request transcoded, transcode request = some transcoded →
      contentType transcoded = some "application/grpc".toList) :
    Untrusted authFrom
        (forward transcode (transcoderServices config.fileDescriptorSet) routes request) ↔
      ¬ FallsThrough config request := by
  cases hprefixes : getPathPrefixesFromFileDescriptorSet config.fileDescriptorSet with
  | error e =>
    have hservers := connectionManagerRoutes_error hprefixes hroutes
    constructor
    · intro _ hfalls
      obtain ⟨server, hserver, -⟩ := hfalls.server
      rw [hservers] at hserver
      cases hserver
    · intro _
      apply untrusted_of_removed
      intro route sent serverId hforward hcluster
      exact absurd hcluster (no_servers_grpc hservers hroutes (forward_cases hforward).1)
  | ok prefixes =>
    obtain rfl : routes = _ :=
      Except.ok.inj (hroutes.symm.trans (connectionManagerRoutes_ok hprefixes))
    constructor
    · intro huntrusted hfalls
      obtain ⟨server, start, htaken⟩ := hfalls.taken hprefixes
      have hforward : forward transcode (transcoderServices config.fileDescriptorSet)
          (routesOf config prefixes) request =
          some (withoutCookie (prefixRoute server start), request) := by
        unfold forward
        rw [htaken, hfalls.isGrpc]
        rfl
      have hcluster := (withoutCookie_spec (prefixRoute server start)).2.1
      exact prefixRoute_keeps (huntrusted _ _ _ hforward hcluster).1
    · intro hfalls
      apply untrusted_of_removed
      intro route sent serverId hforward hcluster
      exact removed_of_not_fallsThrough htrust hprefixes htranscode hfalls hforward hcluster

end

/-- One service with one method, on one server. -/
def oneMethod : ListenerConfig where
  servers := [⟨"s".toList⟩]
  fileDescriptorSet := [⟨some "p".toList, [⟨"S".toList, [⟨"M".toList, none⟩]⟩]⟩]
  trustCallerId := false
  allowedOrigins := none
  routeMatches := []
  frontend := none

/-- A request that says it comes from within the application. -/
def claimant (contentType : Str) : Request where
  path := "/p.S/M".toList
  headers := [("content-type".toList, contentType), (serverIdHeader, "s".toList),
    (callerIdHeader, "application_id=cloud".toList)]

/-- A transcoder that knows no path. -/
def rejectAll : Transcoder := fun _ => none

theorem untrusted_iff_grpc :
    Untrusted (fun _ => (none : Option Unit))
        (forward rejectAll (transcoderServices oneMethod.fileDescriptorSet)
          (routesOf oneMethod ["/p.S/M".toList]) (claimant "application/grpc".toList)) ↔
      ¬ FallsThrough oneMethod (claimant "application/grpc".toList) :=
  untrusted_iff rfl (connectionManagerRoutes_ok rfl) nofun

/-- A gRPC request with a suffix passes for one from within the application. -/
theorem caller_trusted :
    oneMethod.trustCallerId = false ∧
      connectionManagerRoutes oneMethod = .ok (routesOf oneMethod ["/p.S/M".toList]) ∧
      ∃ route, forward rejectAll (transcoderServices oneMethod.fileDescriptorSet)
          (routesOf oneMethod ["/p.S/M".toList]) (claimant "application/grpc+proto".toList) =
          some (route, claimant "application/grpc+proto".toList) ∧
        route.cluster = .server "s".toList .grpc ∧
        callerIdHeader ∉ route.requestHeadersToRemove ∧
        ∃ callerId, callerIdOf (fun _ => (none : Option Unit))
            (sentHeaders route (claimant "application/grpc+proto".toList)) = some callerId ∧
          isAppInternal callerId "cloud".toList = true := by
  refine ⟨rfl, connectionManagerRoutes_ok rfl,
    withoutCookie (prefixRoute ⟨"s".toList⟩ "/p.S/M".toList), rfl, rfl, prefixRoute_keeps,
    some ⟨"cloud".toList, none, none⟩, ?_, by decide⟩
  rfl

end Reboot.Routing.Listener
