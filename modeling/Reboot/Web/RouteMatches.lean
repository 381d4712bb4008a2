import Mathlib.Data.List.DropRight
import Reboot.Web.PathTemplates

/-!
# What Envoy forwards to the web framework

`PythonWebFramework` of `reboot/aio/http.py` tells Envoy by `route_matches` which request paths to
forward to it, and `start` registers the routes and mounts with FastAPI. A path that is forwarded and
that nothing of it matches is taken away from the web app that Envoy serves otherwise.

A mount is forwarded by a prefix of the path that does not stop at a slash, and a parameter with a
convertor as any segment. `forwards_iff` says that Envoy forwards exactly what the framework matches
unless a request comes beside a mount or beside a convertor, and nothing else happens to match it. For
the parameters `{name}` and `{name:path}` there is no beside (`agrees_of_plain`).

Mirroring notes:
- A mount at `p` matches `p`, a slash and anything; its path has no parameters.
- What answers `/` is left out, as are methods: Envoy looks at the path.
- Request paths have no percent escapes: Envoy and Starlette see the same text.
-/

namespace Reboot.Web.Routes

open Reboot.Lib

/-! ## Model -/

/-- `_internal_api_routes` -/
def internalApiRoutes : List Str := ["/__/rootpage/\x7bfile:path\x7d".toList, "/__/probe".toList]

/-- The paths of the application's routes and mounts. -/
structure Framework where
  apiRoutes : List Str
  mounts : List Str

/-- `route_components_pb2.RouteMatch` -/
inductive RouteMatch
  | path (path : Str)
  | startsWith (start : Str)
  | safeRegex (regex : Str)
  deriving DecidableEq

/-- Whether Envoy takes a path. -/
def RouteMatch.takes : RouteMatch → Str → Bool
  | .path p, url => url = p
  | .startsWith start, url => start.isPrefixOf url
  | .safeRegex regex, url => patternTakes (re2Pieces regex) url

/-- `_route_match` -/
def routeMatch (route : Str) : RouteMatch :=
  if '{' ∉ route then .path route else .safeRegex (routeRegex route)

/-- `path.rstrip("/")` -/
def rstrip (path : Str) : Str := path.rdropWhile (· = '/')

/-- `or "/"` -/
def orRoot (path : Str) : Str := if path = [] then ['/'] else path

namespace Framework

def routeMatches (w : Framework) : List RouteMatch :=
  internalApiRoutes.map routeMatch ++ w.mounts.map (fun mount => .startsWith (orRoot (rstrip mount))) ++
    w.apiRoutes.map routeMatch

end Framework

/-- What `start` registers. -/
inductive Registered
  | route (path : Str)
  | mount (path : Str)
  | mountRoot (path : Str)
  deriving DecidableEq

/-- Whether Starlette matches a path. -/
def Registered.matchesPath : Registered → Str → Bool
  | .route p, url => templateTakes p url
  | .mount p, url => (p ++ ['/']).isPrefixOf url
  | .mountRoot p, url => url = p

/-- A mount, and the route for its path where it has one. -/
def registerMount (mount : Str) : List Registered :=
  if rstrip mount = [] then [.mount []]
  else [.mount (rstrip mount), .mountRoot (rstrip mount)]

namespace Framework

def registered (w : Framework) : List Registered :=
  internalApiRoutes.map .route ++ w.mounts.flatMap registerMount ++ w.apiRoutes.map .route

/-- Some `RouteMatch` takes the path. -/
def Forwards (w : Framework) (url : Str) : Prop := ∃ m ∈ w.routeMatches, m.takes url = true

/-- Some route or mount matches the path. -/
def Serves (w : Framework) (url : Str) : Prop := ∃ r ∈ w.registered, r.matchesPath url = true

/-- Reboot's routes and the application's. -/
def routes (w : Framework) : List Str := internalApiRoutes ++ w.apiRoutes

end Framework

/-! ## Where they differ -/

/-- The path goes on behind the mount's without a slash. -/
def Beside (mount url : Str) : Prop :=
  rstrip mount ≠ [] ∧ ∃ c rest, c ≠ '/' ∧ url = rstrip mount ++ c :: rest

/-- The path fits the route with its parameters loosened to segments, and not what its convertors
demand. -/
def LooseAt (route url : Str) : Prop :=
  ∃ pieces, compilePath route = some pieces ∧ .literal '{' ∉ pieces ∧
    patternTakes (pieces.map Piece.loosen) url = true ∧ patternTakes pieces url = false

/-- The route has a brace that belongs to no parameter, or a convertor that Starlette does not have,
and Envoy's reading of it takes a path that it does not match. -/
def StrayAt (route url : Str) : Prop :=
  ¬ Wellformed route ∧ routeTakes route url = true ∧ templateTakes route url = false

/-- The route has such a brace, and Envoy's reading of it does not take a path that it matches. -/
def MissedAt (route url : Str) : Prop :=
  ¬ Wellformed route ∧ templateTakes route url = true ∧ routeTakes route url = false

namespace Framework

def Loose (w : Framework) (url : Str) : Prop :=
  (∃ mount ∈ w.mounts, Beside mount url) ∨ ∃ route ∈ w.routes, LooseAt route url ∨ StrayAt route url

def Missed (w : Framework) (url : Str) : Prop := ∃ route ∈ w.routes, MissedAt route url

end Framework

theorem takes_routeMatch (route url : Str) : (routeMatch route).takes url = routeTakes route url := by
  unfold routeMatch routeTakes
  split <;> rfl

/-- Envoy takes too much for a route where the convertors or a stray brace make the difference. -/
theorem looseAt_or_strayAt_iff {route url : Str} : LooseAt route url ∨ StrayAt route url ↔
    routeTakes route url = true ∧ templateTakes route url = false := by
  constructor
  · rintro (⟨pieces, hpieces, hbraces, htakes, hnot⟩ | hstray)
    · refine ⟨(routeTakes_iff_loosen hpieces hbraces).mpr htakes, ?_⟩
      unfold templateTakes
      rwa [hpieces, Option.any_some]
    · exact hstray.2
  · rintro ⟨htakes, hnot⟩
    by_cases hwellformed : Wellformed route
    · obtain ⟨pieces, hpieces, hbraces⟩ := hwellformed
      refine .inl ⟨pieces, hpieces, hbraces, (routeTakes_iff_loosen hpieces hbraces).mp htakes, ?_⟩
      unfold templateTakes at hnot
      rwa [hpieces, Option.any_some] at hnot
    · exact .inr ⟨hwellformed, htakes, hnot⟩

/-- The parameters `{name}` and `{name:path}` are as loose as they are, so that nothing differs. -/
theorem agrees_of_plain {route url : Str} (h : Plain route) :
    ¬ (LooseAt route url ∨ StrayAt route url) ∧ ¬ MissedAt route url := by
  constructor
  · intro hat
    obtain ⟨htakes, hnot⟩ := looseAt_or_strayAt_iff.mp hat
    rw [(routeTakes_iff_of_plain h).mp htakes] at hnot
    cases hnot
  · intro hmissed
    obtain ⟨pieces, hpieces, hbraces, -⟩ := h
    exact hmissed.1 ⟨pieces, hpieces, hbraces⟩

/-- A prefix takes what the mount matches and what is beside it. -/
theorem takes_mount_iff (mount url : Str) :
    (RouteMatch.startsWith (orRoot (rstrip mount))).takes url = true ↔
      (∃ r ∈ registerMount mount, r.matchesPath url = true) ∨ Beside mount url := by
  unfold RouteMatch.takes orRoot registerMount Beside
  by_cases hroot : rstrip mount = []
  · simp [hroot, Registered.matchesPath]
  · rw [if_neg hroot, if_neg hroot]
    simp only [List.mem_cons, List.not_mem_nil, or_false, exists_eq_or_imp, exists_eq_left,
      Registered.matchesPath, decide_eq_true_eq, List.isPrefixOf_iff_prefix]
    constructor
    · rintro ⟨rest, rfl⟩
      cases rest with
      | nil => exact .inl (.inr (List.append_nil _))
      | cons c rest =>
        by_cases hc : c = '/'
        · subst hc
          exact .inl (.inl ⟨rest, by simp⟩)
        · exact .inr ⟨hroot, c, rest, hc, rfl⟩
    · rintro ((⟨rest, rfl⟩ | rfl) | ⟨-, c, rest, -, rfl⟩)
      · exact ⟨'/' :: rest, by simp⟩
      · exact List.prefix_rfl
      · exact ⟨c :: rest, rfl⟩

namespace Framework

/-- What is forwarded is forwarded for a route or for a mount. -/
theorem forwards_cases {w : Framework} {url : Str} : w.Forwards url ↔
    (∃ route ∈ w.routes, routeTakes route url = true) ∨
      ∃ mount ∈ w.mounts, (∃ r ∈ registerMount mount, r.matchesPath url = true) ∨
        Beside mount url := by
  unfold Forwards routeMatches routes
  simp only [List.mem_append, or_and_right, exists_or, List.mem_map, exists_exists_and_eq_and,
    takes_routeMatch, takes_mount_iff]
  exact or_right_comm

theorem matchesPath_route (route url : Str) :
    (Registered.route route).matchesPath url = templateTakes route url := rfl

theorem exists_registered {mounts : List Str} {url : Str} :
    (∃ r, (∃ mount ∈ mounts, r ∈ registerMount mount) ∧ r.matchesPath url = true) ↔
      ∃ mount ∈ mounts, ∃ r ∈ registerMount mount, r.matchesPath url = true := by
  constructor
  · rintro ⟨r, ⟨mount, hmount, hr⟩, hmatches⟩
    exact ⟨mount, hmount, r, hr, hmatches⟩
  · rintro ⟨mount, hmount, r, hr, hmatches⟩
    exact ⟨r, ⟨mount, hmount, hr⟩, hmatches⟩

theorem serves_cases {w : Framework} {url : Str} : w.Serves url ↔
    (∃ route ∈ w.routes, templateTakes route url = true) ∨
      ∃ mount ∈ w.mounts, ∃ r ∈ registerMount mount, r.matchesPath url = true := by
  unfold Serves registered routes
  simp only [List.mem_append, or_and_right, exists_or, List.mem_map, exists_exists_and_eq_and,
    List.mem_flatMap, matchesPath_route, exists_registered]
  exact or_right_comm

/-- Envoy forwards a path if and only if the framework matches it exactly where what comes beside a
mount or beside a typed parameter is matched by something else, and what only Starlette takes for a
route is forwarded for something else. -/
theorem forwards_iff (w : Framework) (url : Str) : (w.Forwards url ↔ w.Serves url) ↔
    (w.Loose url → w.Serves url) ∧ (w.Missed url → w.Forwards url) := by
  constructor
  · intro hiff
    refine ⟨fun hloose => hiff.mp (forwards_cases.mpr ?_), fun hmissed => hiff.mpr (serves_cases.mpr ?_)⟩
    · rcases hloose with ⟨mount, hmount, hbeside⟩ | ⟨route, hroute, hat⟩
      · exact .inr ⟨mount, hmount, .inr hbeside⟩
      · exact .inl ⟨route, hroute, (looseAt_or_strayAt_iff.mp hat).1⟩
    · obtain ⟨route, hroute, -, htakes, -⟩ := hmissed
      exact .inl ⟨route, hroute, htakes⟩
  · rintro ⟨hloose, hmissed⟩
    constructor
    · intro hforwards
      rcases forwards_cases.mp hforwards with ⟨route, hroute, htakes⟩ | ⟨mount, hmount, hcases⟩
      · by_cases htemplate : templateTakes route url = true
        · exact serves_cases.mpr (.inl ⟨route, hroute, htemplate⟩)
        · exact hloose (.inr ⟨route, hroute,
            looseAt_or_strayAt_iff.mpr ⟨htakes, by simpa using htemplate⟩⟩)
      · rcases hcases with hmatches | hbeside
        · exact serves_cases.mpr (.inr ⟨mount, hmount, hmatches⟩)
        · exact hloose (.inl ⟨mount, hmount, hbeside⟩)
    · intro hserves
      rcases serves_cases.mp hserves with ⟨route, hroute, htemplate⟩ | ⟨mount, hmount, hmatches⟩
      · by_cases htakes : routeTakes route url = true
        · exact forwards_cases.mpr (.inl ⟨route, hroute, htakes⟩)
        · refine hmissed ⟨route, hroute, fun hwellformed => ?_, htemplate, by simpa using htakes⟩
          exact htakes (templateTakes_routeTakes hwellformed htemplate)
      · exact forwards_cases.mpr (.inr ⟨mount, hmount, .inl hmatches⟩)

/-- A mount takes a neighbouring path away, and a typed parameter one that it does not match. -/
theorem forwards_more :
    (¬ ∀ (w : Framework) (url : Str), w.Forwards url ↔ w.Serves url) ∧
      ¬ ∀ (w : Framework) (url : Str), w.mounts = [] → (w.Forwards url ↔ w.Serves url) := by
  constructor
  · intro h
    have hiff := h ⟨[], ["/mcp".toList]⟩ "/mcpx".toList
    have hforwards : Forwards ⟨[], ["/mcp".toList]⟩ "/mcpx".toList :=
      ⟨.startsWith "/mcp".toList, by decide +kernel, by decide⟩
    have hnone : ∀ r ∈ registered ⟨[], ["/mcp".toList]⟩,
        r.matchesPath "/mcpx".toList = false := by decide +kernel
    obtain ⟨r, hr, hmatches⟩ := hiff.mp hforwards
    rw [hnone r hr] at hmatches
    cases hmatches
  · intro h
    have hiff := h ⟨["/users/\x7bid:int\x7d".toList], []⟩ "/users/me".toList rfl
    have hforwards : Forwards ⟨["/users/\x7bid:int\x7d".toList], []⟩ "/users/me".toList :=
      ⟨.safeRegex "^/users/[^/]+$".toList, by decide +kernel, by decide +kernel⟩
    have hnone : ∀ r ∈ registered ⟨["/users/\x7bid:int\x7d".toList], []⟩,
        r.matchesPath "/users/me".toList = false := by decide +kernel
    obtain ⟨r, hr, hmatches⟩ := hiff.mp hforwards
    rw [hnone r hr] at hmatches
    cases hmatches

end Framework

end Reboot.Web.Routes
