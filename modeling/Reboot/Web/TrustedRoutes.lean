import Reboot.Lib.Run
import Reboot.Web.RouteMatches

/-!
# Trusted contexts

`PythonWebFramework.HTTP` of `reboot/aio/http.py` keeps the paths of the routes that are registered
with `app_internal=True` or `require_oauth_token=True` in two sets, and the middleware looks a request
up in them by its path. Which handler answers is decided by the routes in the order of their
registration, by path and method.

A route that requires a token has a path without parameters, so who is answered by it has shown one
(`Inv.verified`). But a context is given by the path alone: any other route, template or mount that
answers on the path of an app-internal route is given the app-internal context. `trusted_iff` says
that this is all: the context is right for a request exactly where whatever overlaps the path of an
app-internal route is registered behind the app-internal route for that path and method.

Mirroring notes:
- `_api_route` is called when a route is declared and `decorate` when the decorator it returned is
  applied, at any time and any number of times.
- Starlette dispatches to the first route that matches the path and has the method. FastAPI adds no
  methods to the ones that are given; a mount, and the route for its path, has all.
- What answers `/` comes last: the web app, mounted at the root, or the root page.
- `own` are the routes that `FastAPI()` has from the start, those of its documentation.
-/

namespace Reboot.Web.Routes

open Reboot.Lib

variable {H : Type}

/-! ## Model -/

inductive Verb
  | get | post | options
  deriving DecidableEq

/-- The method in `methods=[...]`. -/
def Verb.method : Verb → Str
  | .get => "GET".toList
  | .post => "POST".toList
  | .options => "OPTIONS".toList

/-- What `_api_route` is called with. -/
structure Declaration where
  path : Str
  verb : Verb
  appInternal : Bool
  requireOauthToken : Bool
  deriving DecidableEq

structure Request (H : Type) where
  url : Str
  method : Str
  headers : H

/-- `PythonWebFramework.HTTP` -/
structure Http (H : Type) where
  declarations : List Declaration
  apiRoutes : List Declaration
  mounts : List Str
  webApp : Bool
  appInternalPaths : List Str
  requireOauthTokenPaths : List Str
  verifyOauthToken : Option (Request H → Option Str)

def Http.init : Http H := ⟨[], [], [], false, [], [], none⟩

inductive Call (H : Type)
  | apiRoute (declaration : Declaration)
  | decorate (i : Nat)
  | mount (path : Str)
  | serveWebApp
  | verifyOauthTokenWith (verify : Request H → Option Str)

/-- Add to a set. -/
def addPath (flag : Bool) (path : Str) (paths : List Str) : List Str :=
  if flag then path :: paths else paths

/-- One call; an `InputError` leaves everything as it was. -/
def Http.step (s : Http H) : Call H → Option (Http H)
  | .apiRoute d =>
    if (d.appInternal || d.requireOauthToken) && decide ('{' ∈ d.path) then some s
    else some { s with
      declarations := s.declarations ++ [d]
      appInternalPaths := addPath d.appInternal d.path s.appInternalPaths
      requireOauthTokenPaths := addPath d.requireOauthToken d.path s.requireOauthTokenPaths }
  | .decorate i =>
    match s.declarations[i]? with
    | none => none
    | some d => some { s with apiRoutes := s.apiRoutes ++ [d] }
  | .mount path => some { s with mounts := s.mounts ++ [path] }
  | .serveWebApp => some { s with webApp := true }
  | .verifyOauthTokenWith verify => some { s with verifyOauthToken := some verify }

/-- What is registered with FastAPI: a pattern, its methods (`none` is any), and how the application
has registered it. -/
structure Entry where
  pattern : Registered
  methods : Option (List Str)
  appInternal : Bool
  requireOauthToken : Bool
  deriving DecidableEq

/-- A route or a mount of no special kind. -/
def Entry.plain (pattern : Registered) (methods : Option (List Str)) : Entry :=
  ⟨pattern, methods, false, false⟩

def Declaration.entry (d : Declaration) : Entry :=
  ⟨.route d.path, some [d.verb.method], d.appInternal, d.requireOauthToken⟩

/-- What answers `/`. -/
def rootEntry (webApp : Bool) : Entry :=
  if webApp then .plain (.mount []) none else .plain (.route ['/']) (some ["GET".toList])

section Dispatch

variable (own : List (Str × List Str))

/-- `start`, in the order of registration. -/
def Http.entries (s : Http H) : List Entry :=
  own.map (fun route => .plain (.route route.1) (some route.2)) ++
    internalApiRoutes.map (fun path => .plain (.route path) (some ["GET".toList])) ++
    (s.mounts.flatMap registerMount).map (fun pattern => .plain pattern none) ++
    s.apiRoutes.map Declaration.entry ++ [rootEntry s.webApp]

/-- Whether a request is for the entry. -/
def Entry.takes (e : Entry) (request : Request H) : Bool :=
  e.pattern.matchesPath request.url && e.methods.all fun methods => request.method ∈ methods

/-- `require_oauth_token_middleware`: whether it lets the request pass. Without a verifier it fails its
assertion. -/
def Http.admits (s : Http H) (request : Request H) : Bool :=
  if request.url ∉ s.requireOauthTokenPaths then true
  else s.verifyOauthToken.any fun verify => (verify request).isSome

/-- `external_context_middleware`: whether the context is app-internal. -/
def Http.internalContext (s : Http H) (request : Request H) : Bool :=
  request.url ∈ s.appInternalPaths

/-- The entry that answers. -/
def Http.answer (s : Http H) (request : Request H) : Option Entry :=
  if s.admits request then (s.entries own).find? (·.takes request) else none

/-! ## Trust -/

/-- Whether a request has a token that the verifier accepts. -/
def Http.verified (s : Http H) (request : Request H) : Prop :=
  ∃ verify token, s.verifyOauthToken = some verify ∧ verify request = some token

/-- An app-internal context is given to an app-internal route, and a route that requires a token is
run with one. -/
structure Http.Trusted (s : Http H) (request : Request H) : Prop where
  context : ∀ e ∈ s.answer own request, s.internalContext request = true → e.appInternal = true
  token : ∀ e ∈ s.answer own request, e.requireOauthToken = true → s.verified request

/-- The route is app-internal for this very path and method. -/
def Declaration.InternalFor (d : Declaration) (request : Request H) : Prop :=
  d.appInternal = true ∧ d.path = request.url ∧ d.verb.method = request.method

/-- What is not app-internal and overlaps the path of an app-internal route comes behind the
app-internal route for this path and method, unless the request is refused. -/
def Http.InOrder (s : Http H) (request : Request H) : Prop :=
  request.url ∈ s.appInternalPaths → s.admits request = true →
    ∀ front e back, s.entries own = front ++ e :: back → e.takes request = true →
      e.appInternal = false → ∃ d ∈ s.apiRoutes, d.entry ∈ front ∧ d.InternalFor request

end Dispatch

/-- A route of a special kind has no parameters, and the path of one that requires a token is among
the paths. -/
structure Declaration.Kept (paths : List Str) (d : Declaration) : Prop where
  literal : d.appInternal = true ∨ d.requireOauthToken = true → '{' ∉ d.path
  token : d.requireOauthToken = true → d.path ∈ paths

/-- All that was declared is kept, and all that was registered. -/
structure Http.Inv (s : Http H) : Prop where
  declared : ∀ d ∈ s.declarations, d.Kept s.requireOauthTokenPaths
  registered : ∀ d ∈ s.apiRoutes, d.Kept s.requireOauthTokenPaths

theorem mem_addPath {flag : Bool} {path : Str} {paths : List Str} {p : Str} (h : p ∈ paths) :
    p ∈ addPath flag path paths := by
  unfold addPath
  split
  · exact List.mem_cons_of_mem _ h
  · exact h

theorem Http.Inv.preserved {s s' : Http H} {call : Call H} (h : s.Inv) (hs : s.step call = some s') :
    s'.Inv := by
  cases call with
  | apiRoute d =>
    simp only [Http.step] at hs
    split at hs
    · cases hs
      exact h
    · next hguard =>
      cases hs
      have hkept : ∀ {d' : Declaration}, d'.Kept s.requireOauthTokenPaths →
          d'.Kept (addPath d.requireOauthToken d.path s.requireOauthTokenPaths) :=
        fun hd' => ⟨hd'.literal, fun htoken => mem_addPath (hd'.token htoken)⟩
      refine ⟨fun d' hd' => ?_, fun d' hd' => hkept (h.registered d' hd')⟩
      rcases List.mem_append.mp hd' with hold | hnew
      · exact hkept (h.declared d' hold)
      · obtain rfl := List.mem_singleton.mp hnew
        refine ⟨fun hspecial hbrace => hguard ?_, fun htoken => ?_⟩
        · simp [hspecial, hbrace]
        · show d'.path ∈ addPath d'.requireOauthToken d'.path _
          unfold addPath
          rw [if_pos htoken]
          exact List.mem_cons_self
  | decorate i =>
    simp only [Http.step] at hs
    split at hs
    · cases hs
    · next d hd =>
      cases hs
      refine ⟨h.declared, fun d' hd' => ?_⟩
      rcases List.mem_append.mp hd' with hold | hnew
      · exact h.registered d' hold
      · obtain rfl := List.mem_singleton.mp hnew
        exact h.declared d' (List.mem_of_getElem? hd)
  | mount path =>
    cases hs
    exact ⟨h.declared, h.registered⟩
  | serveWebApp =>
    cases hs
    exact ⟨h.declared, h.registered⟩
  | verifyOauthTokenWith verify =>
    cases hs
    exact ⟨h.declared, h.registered⟩

/-- Only routes of the application are of a special kind. -/
theorem Http.mem_entries_special {own : List (Str × List Str)} {s : Http H} {e : Entry}
    (he : e ∈ s.entries own) (hspecial : e.appInternal = true ∨ e.requireOauthToken = true) :
    ∃ d ∈ s.apiRoutes, d.entry = e := by
  unfold Http.entries at he
  simp only [List.mem_append, List.mem_map, List.mem_singleton] at he
  rcases he with (((⟨route, -, rfl⟩ | ⟨path, -, rfl⟩) | ⟨pattern, -, rfl⟩) | hroute) | rfl
  · rcases hspecial with h | h <;> cases h
  · rcases hspecial with h | h <;> cases h
  · rcases hspecial with h | h <;> cases h
  · exact hroute
  · unfold rootEntry at hspecial
    split at hspecial <;> rcases hspecial with h | h <;> cases h

/-- A route of a special kind is taken by its path and its method. -/
theorem Http.Inv.takes_special {s : Http H} (h : s.Inv) {request : Request H} {d : Declaration}
    (hd : d ∈ s.apiRoutes) (hspecial : d.appInternal = true ∨ d.requireOauthToken = true) :
    d.entry.takes request = true ↔ d.path = request.url ∧ d.verb.method = request.method := by
  have hroute : d.entry.pattern.matchesPath request.url = true ↔ request.url = d.path :=
    templateTakes_literal ((h.registered d hd).literal hspecial)
  rw [Entry.takes, Bool.and_eq_true, hroute]
  simp [Declaration.entry, eq_comm]

/-- Who is answered by a route that requires a token has shown one. -/
theorem Http.Inv.verified {own : List (Str × List Str)} {s : Http H} (h : s.Inv)
    {request : Request H} {e : Entry} (he : e ∈ s.answer own request)
    (htoken : e.requireOauthToken = true) : s.verified request := by
  unfold Http.answer at he
  split at he
  · next hadmits =>
    obtain ⟨d, hd, rfl⟩ := Http.mem_entries_special (List.mem_of_find?_eq_some he) (.inr htoken)
    have htakes : d.entry.takes request = true := by simpa using List.find?_some he
    have hurl := ((h.takes_special hd (.inr htoken)).mp htakes).1
    have hpath := (h.registered d hd).token htoken
    -- the path has no parameters, so the middleware has looked for the very path of the request
    unfold Http.admits at hadmits
    rw [if_neg (not_not_intro (hurl ▸ hpath)), Option.any_eq_true] at hadmits
    obtain ⟨verify, hverify, hsome⟩ := hadmits
    obtain ⟨token, htoken⟩ := Option.isSome_iff_exists.mp hsome
    exact ⟨verify, token, hverify, htoken⟩
  · cases he

/-- What answers is the first entry that matches. -/
theorem Http.answer_eq_some {own : List (Str × List Str)} {s : Http H} {request : Request H}
    {e : Entry} : s.answer own request = some e ↔ s.admits request = true ∧ e.takes request = true ∧
      ∃ front back, s.entries own = front ++ e :: back ∧ ∀ e' ∈ front, e'.takes request = false := by
  unfold Http.answer
  by_cases hadmits : s.admits request = true
  · rw [if_pos hadmits, List.find?_eq_some_iff_append]
    simp [hadmits]
  · rw [if_neg hadmits]
    simp [hadmits]

/-- The context is right if and only if what overlaps comes behind the app-internal route. -/
theorem Http.Inv.context_iff {own : List (Str × List Str)} {s : Http H} (h : s.Inv)
    {request : Request H} :
    (∀ e ∈ s.answer own request, s.internalContext request = true → e.appInternal = true) ↔
      s.InOrder own request := by
  unfold Http.internalContext
  constructor
  · intro hcontext hpath hadmits front e back hentries htakes hexternal
    have hpath' : decide (request.url ∈ s.appInternalPaths) = true := by simpa using hpath
    cases hfind : front.find? (·.takes request) with
    | none =>
      -- nothing in front matches, and so it answers itself
      have hanswer : s.answer own request = some e :=
        Http.answer_eq_some.mpr ⟨hadmits, htakes, front, back, hentries,
          fun e' he' => by simpa using List.find?_eq_none.mp hfind e' he'⟩
      rw [hcontext e hanswer hpath'] at hexternal
      cases hexternal
    | some e' =>
      have hanswer : s.answer own request = some e' := by
        unfold Http.answer
        rw [if_pos hadmits, hentries, List.find?_append, hfind, Option.some_or]
      have hinternal := hcontext e' hanswer hpath'
      have hmem := List.mem_of_find?_eq_some hfind
      have hentry : e' ∈ s.entries own := hentries ▸ List.mem_append_left _ hmem
      obtain ⟨d, hd, rfl⟩ := Http.mem_entries_special hentry (.inl hinternal)
      have hfirst : d.entry.takes request = true := by simpa using List.find?_some hfind
      exact ⟨d, hd, hmem, hinternal, (h.takes_special hd (.inl hinternal)).mp hfirst⟩
  · intro horder e he hpath
    obtain ⟨hadmits, htakes, front, back, hentries, hfront⟩ := Http.answer_eq_some.mp he
    by_contra hexternal
    obtain ⟨d, hd, hmem, hinternal, hsame⟩ := horder (by simpa using hpath) hadmits front e back
      hentries htakes (by simpa using hexternal)
    have hnot := hfront d.entry hmem
    rw [(h.takes_special hd (.inl hinternal)).mpr hsame] at hnot
    cases hnot

theorem Http.inv_of_reach {s : Http H}
    (h : Reach Http.step (fun _ _ => True) Http.init s) : s.Inv :=
  h.invariant Http.Inv ⟨by simp [Http.init], by simp [Http.init]⟩
    fun _ _ _ hinv _ hs => hinv.preserved hs

/-- Whatever has been registered, an app-internal context goes to an app-internal route and a route
that requires a token is run with one exactly for the requests to which nothing that overlaps the path
of an app-internal route is registered in front of it. -/
theorem Http.trusted_iff {own : List (Str × List Str)} {s : Http H}
    (h : Reach Http.step (fun _ _ => True) Http.init s) (request : Request H) :
    s.Trusted own request ↔ s.InOrder own request := by
  constructor
  · intro htrusted
    exact (inv_of_reach h).context_iff.mp htrusted.context
  · intro horder
    exact ⟨(inv_of_reach h).context_iff.mpr horder, fun e he htoken => (inv_of_reach h).verified he htoken⟩

/-- The routes of FastAPI's documentation. -/
def docsRoutes : List (Str × List Str) :=
  ["/openapi.json", "/docs", "/docs/oauth2-redirect", "/redoc"].map fun path =>
    (path.toList, ["GET".toList, "HEAD".toList])

/-- An app-internal `GET` and an ordinary `POST` on one path. -/
def sharedPath : List (Call Unit) :=
  [.apiRoute ⟨"/a".toList, .get, true, false⟩, .decorate 0,
    .apiRoute ⟨"/a".toList, .post, false, false⟩, .decorate 1]

theorem Http.trusted_sharedPath_get :
    (last Http.step Http.init sharedPath).Trusted docsRoutes ⟨"/a".toList, "GET".toList, ()⟩ := by
  have hreach : Reach Http.step (fun _ _ => True) Http.init (last Http.step Http.init sharedPath) :=
    reach_last sharedPath .init (by decide)
  refine (Http.trusted_iff hreach _).mpr ((Http.inv_of_reach hreach).context_iff.mp fun e he _ => ?_)
  have hanswer : (last Http.step Http.init sharedPath).answer docsRoutes ⟨"/a".toList, "GET".toList, ()⟩ =
      some (Declaration.entry ⟨"/a".toList, .get, true, false⟩) := by decide +kernel
  rw [hanswer] at he
  cases he
  rfl

/-- The `POST` on the path is given the app-internal context. -/
theorem Http.not_trusted_post :
    ¬ ∀ (own : List (Str × List Str)) (s : Http Unit), Reach Http.step (fun _ _ => True) Http.init s →
      ∀ request, s.Trusted own request := by
  intro h
  have hreach : Reach Http.step (fun _ _ => True) Http.init (last Http.step Http.init sharedPath) :=
    reach_last sharedPath .init (by decide)
  have htrusted := h docsRoutes _ hreach ⟨"/a".toList, "POST".toList, ()⟩
  have hanswer := htrusted.context (Declaration.entry ⟨"/a".toList, .post, false, false⟩)
    (by decide +kernel) (by decide +kernel)
  cases hanswer

end Reboot.Web.Routes
