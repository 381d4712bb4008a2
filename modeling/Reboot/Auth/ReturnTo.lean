import Reboot.Auth.OAuthServer
import Reboot.Lib.WebUrl

/-!
# Where `return_to` leads

`/finish` redirects the browser to the `return_to` that `_is_valid_return_to` accepted. An absolute
URL is accepted for the scheme and the network location that Python reads off it, by an exact match
with a trusted origin, and a browser reads the same origin off it (`host_absolute`). A path is
accepted without a look at it if it starts with one slash. The browser, for which a backslash is a
slash and a tab is nothing, may still see two of them there, and then what follows is a host:
`return_to_safe_iff` says exactly when an accepted `return_to` leads to a trusted origin.

Mirroring notes:
- `urlparse` is `urllib.parse.urlparse` up to the network location; `raises` is what its checks of
  the location (brackets, and what it is under NFKC) raise a `ValueError` for.
- The server's own URL is the one that `origin_from_request` names.
- An origin is trusted if `is_allowed_origin` accepts a text that a browser reads this origin off.
- What is resolved is `return_to` as it was accepted. `RedirectResponse` writes it into the header
  with backslashes, tabs and newlines percent-encoded, which nothing here relies on.
-/

namespace Reboot.Auth

open Reboot.Lib Reboot.Lib.WebUrl

/-! ## What Python reads -/

/-- Stripped on the left, and without tabs and newlines. -/
def urlsplitText (url : Str) : Str :=
  (url.dropWhile isC0OrSpace).filter fun c => !isTabOrNewline c

/-- A delimiter of `_splitnetloc`. -/
def isNetlocEnd (c : Char) : Bool := c == '/' || c == '?' || c == '#'

/-- `_splitnetloc`, of what follows the scheme. -/
def splitNetloc (url : Str) : Str :=
  if url.take 2 = "//".toList then (url.drop 2).takeWhile fun c => !isNetlocEnd c else []

/-- `urllib.parse.urlparse` -/
def urlparse (raises : Str → Bool) (url : Str) : Option ParsedUrl :=
  let split := (cutScheme (urlsplitText url)).getD ([], urlsplitText url)
  if raises (splitNetloc split.2) then none else some ⟨split.1, splitNetloc split.2⟩

/-- A library with this parser. -/
def Library.withUrlparse (lib : Library) (raises : Str → Bool) : Library :=
  { lib with urlparse := Auth.urlparse raises }

/-! ## What a browser is led to -/

section

variable {η : Type*} (parseHost : Str → Option η) (config : Config) (lib : Library) (origin : Str)

/-- The origin of a text that `is_allowed_origin` accepts. -/
def Trusted (o : Origin η) : Prop :=
  ∃ text, isAllowedOrigin config lib text origin = true ∧ originOf parseHost text = some o

/-- The browser resolves it, to a URL of a trusted origin. -/
def LeadsToTrusted (base : Origin η) (returnTo : Str) : Prop :=
  ∃ o, resolve parseHost base returnTo = some (.origin o) ∧ Trusted parseHost config lib origin o

/-- No backslash, and no space or control at the end. -/
def PlainNetloc (netloc : Str) : Prop :=
  '\\' ∉ netloc ∧ ∀ d ∈ netloc.getLast?, isC0OrSpace d = false

/-- The scheme that a text is read under, and what stands behind its slashes. -/
def behindSlashes (base : Origin η) (returnTo : Str) : Str × Str :=
  match cutScheme (clean returnTo) with
  | some (scheme, rest) => (scheme, rest.dropWhile isSlash)
  | none => (base.scheme, (clean returnTo).dropWhile isSlash)

/-- The host, port and scheme that are read behind the slashes. -/
def hostBehindSlashes (base : Origin η) (returnTo : Str) : Option (Origin η) :=
  authority parseHost (behindSlashes base returnTo).1 (behindSlashes base returnTo).2

/-- They are those of a text that `is_allowed_origin` accepts. -/
def HostAllowed (base : Origin η) (returnTo : Str) : Prop :=
  ∃ text, isAllowedOrigin config lib text origin = true ∧ (originOf parseHost text).isSome ∧
    hostBehindSlashes parseHost base returnTo = originOf parseHost text

/-- What an accepted `return_to` has to be besides. A path: behind its first slash there is none
that a browser would take for another one, or else the host behind them is an allowed one. A URL:
there is a host behind the slashes, and the network location is a plain one, or else the host is an
allowed one. -/
def SafeReturnTo (base : Origin η) (returnTo : Str) : Prop :=
  if "/".toList.isPrefixOf returnTo then
    (∀ c ∈ (clean returnTo).tail.head?, isSlash c = false) ∨
      HostAllowed parseHost config lib origin base returnTo
  else
    (hostBehindSlashes parseHost base returnTo).isSome ∧
      ((∀ parsed ∈ lib.urlparse returnTo, PlainNetloc parsed.netloc) ∨
        HostAllowed parseHost config lib origin base returnTo)

end

/-! ## Paths -/

section

variable {η : Type*} {parseHost : Str → Option η} {config : Config} {lib : Library} {origin : Str}

/-- A text that starts with a slash still does so for a browser. -/
theorem clean_slash (rest : Str) : ∃ rest', clean ('/' :: rest) = '/' :: rest' := by
  have hdrop : ('/' :: rest).dropWhile isC0OrSpace = ['/'] ++ rest :=
    List.dropWhile_cons_of_neg (by decide)
  have hsplit := List.rdropWhile_append_rtakeWhile (p := isC0OrSpace) (l := '/' :: rest)
  obtain ⟨y, hy, -⟩ := prefix_of_append (x := ['/']) hsplit (by decide)
    fun d hd => List.mem_rtakeWhile_imp hd
  exact ⟨y.filter fun c => !isTabOrNewline c, by rw [clean, hdrop, List.singleton_append, hy]; rfl⟩

variable (parseHost) in
/-- A path leads to the server itself, or to the host behind its slashes. -/
theorem resolve_slash (base : Origin η) (rest : Str) :
    resolve parseHost base ('/' :: rest) =
      if ∃ c ∈ (clean ('/' :: rest)).tail.head?, isSlash c = true then
        (hostBehindSlashes parseHost base ('/' :: rest)).map .origin
      else some (.origin base) := by
  obtain ⟨rest', hclean⟩ := clean_slash rest
  rw [resolve, hostBehindSlashes, behindSlashes, hclean, cutScheme_slash]
  cases rest' with
  | nil => simp [relative]
  | cons c rest' =>
    have hslash : isSlash '/' = true := rfl
    simp only [relative, hslash, true_and, List.tail_cons, List.head?_cons, Option.mem_some_iff,
      exists_eq_left']

/-- It leads to a trusted origin behind its slashes just where the host there is allowed. -/
theorem leadsToTrusted_of_map {base : Origin η} {returnTo : Str}
    (h : resolve parseHost base returnTo =
      (hostBehindSlashes parseHost base returnTo).map .origin) :
    LeadsToTrusted parseHost config lib origin base returnTo ↔
      HostAllowed parseHost config lib origin base returnTo := by
  rw [LeadsToTrusted, h]
  constructor
  · rintro ⟨o, ho, text, hallowed, htext⟩
    obtain ⟨o', ho', heq⟩ := Option.map_eq_some_iff.mp ho
    cases heq
    exact ⟨text, hallowed, by rw [htext]; rfl, ho'.trans htext.symm⟩
  · rintro ⟨text, hallowed, hsome, hhost⟩
    obtain ⟨o, htext⟩ := Option.isSome_iff_exists.mp hsome
    exact ⟨o, by rw [hhost, htext]; rfl, text, hallowed, htext⟩

/-! ## Absolute URLs -/

/-- A network location stands behind two slashes, and ends at a delimiter. -/
theorem eq_of_splitNetloc {url : Str} (h : splitNetloc url ≠ []) :
    ∃ rest, url = '/' :: '/' :: (splitNetloc url ++ rest) ∧
      (∀ c ∈ splitNetloc url, isNetlocEnd c = false) ∧ ∀ c ∈ rest.head?, isNetlocEnd c = true := by
  unfold splitNetloc at h ⊢
  by_cases hslashes : url.take 2 = "//".toList
  · rw [if_pos hslashes]
    refine ⟨(url.drop 2).dropWhile fun c => !isNetlocEnd c, ?_, fun c hc => ?_, fun c hc => ?_⟩
    · rw [List.takeWhile_append_dropWhile]
      conv_lhs => rw [← List.take_append_drop 2 url, hslashes]
      rfl
    · simpa using List.mem_takeWhile_imp hc
    · have hnot := List.head?_dropWhile_not (fun c => !isNetlocEnd c) (url.drop 2)
      rw [hc] at hnot
      simpa using hnot
  · exact absurd (if_neg hslashes) h

/-- An accepted text that is no path has a trusted scheme and network location. -/
theorem urlparse_of_accepted {returnTo : Str} (h : isValidReturnTo config lib returnTo origin = true)
    (hpath : ¬ "/".toList.isPrefixOf returnTo) :
    ∃ parsed, lib.urlparse returnTo = some parsed ∧
      (parsed.scheme = "http".toList ∨ parsed.scheme = "https".toList) ∧ parsed.netloc ≠ [] ∧
      isAllowedOrigin config lib (parsed.scheme ++ "://".toList ++ parsed.netloc) origin = true := by
  unfold isValidReturnTo at h
  split at h
  next => cases h
  next =>
    rw [if_neg (fun hslash => hpath (Bool.and_eq_true_iff.mp hslash).1)] at h
    split at h
    next => cases h
    next parsed hparse =>
      split at h
      next => cases h
      next hscheme =>
        split at h
        next => cases h
        next hne =>
          refine ⟨parsed, hparse, ?_, hne, h⟩
          rw [not_not, List.mem_cons, List.mem_singleton] at hscheme
          exact hscheme

/-- What an accepted text that is no path looks like to both parsers: scheme, network location,
and behind it a delimiter or nothing. -/
theorem accepted_absolute {raises : Str → Bool} {returnTo : Str}
    (h : isValidReturnTo config (lib.withUrlparse raises) returnTo origin = true)
    (hpath : ¬ "/".toList.isPrefixOf returnTo) :
    ∃ scheme netloc rest, urlparse raises returnTo = some ⟨scheme, netloc⟩ ∧
      (scheme = "http".toList ∨ scheme = "https".toList) ∧ netloc ≠ [] ∧
      (∀ c ∈ netloc, isNetlocEnd c = false) ∧ (∀ c ∈ rest.head?, isNetlocEnd c = true) ∧
      cutScheme (urlsplitText returnTo) = some (scheme, '/' :: '/' :: (netloc ++ rest)) ∧
      isAllowedOrigin config (lib.withUrlparse raises) (scheme ++ "://".toList ++ netloc) origin =
        true := by
  obtain ⟨parsed, hparse, hscheme, hne, hallowed⟩ := urlparse_of_accepted h hpath
  change urlparse raises returnTo = some parsed at hparse
  have hparse' := hparse
  unfold urlparse at hparse'
  dsimp only at hparse'
  split at hparse'
  next => cases hparse'
  next =>
    obtain rfl := Option.some.inj hparse'
    -- the scheme is there, so it was cut off
    cases hcut : cutScheme (urlsplitText returnTo) with
    | none =>
      rw [hcut] at hscheme
      have hnone : ([] : Str) = "http".toList ∨ ([] : Str) = "https".toList := hscheme
      exact absurd hnone (by decide)
    | some split =>
      rw [hcut] at hscheme hne hallowed hparse
      obtain ⟨rest, hurl, hnetloc, hrest⟩ := eq_of_splitNetloc hne
      refine ⟨split.1, splitNetloc split.2, rest, hparse, hscheme, hne, hnetloc, hrest, ?_, hallowed⟩
      exact congrArg some (Prod.ext rfl hurl)

/-- The trusted text is clean as it is, and its authority is the network location. -/
theorem originOf_trusted {scheme netloc : Str}
    (hscheme : scheme = "http".toList ∨ scheme = "https".toList) (hne : netloc ≠ [])
    (hends : ∀ c ∈ netloc, endsAuthority c = false) (htabs : ∀ c ∈ netloc, isTabOrNewline c = false)
    (hplain : PlainNetloc netloc) :
    originOf parseHost (scheme ++ "://".toList ++ netloc) = authority parseHost scheme netloc := by
  have hclean : clean (scheme ++ "://".toList ++ netloc) = scheme ++ "://".toList ++ netloc := by
    refine clean_eq_self ?_ ?_ ?_
    · rcases hscheme with rfl | rfl <;> exact fun d hd => by cases hd; rfl
    · intro d hd
      rw [List.getLast?_append_of_ne_nil _ hne] at hd
      exact hplain.2 d hd
    · intro d hd
      rcases List.mem_append.mp hd with hd | hd
      · rcases hscheme with rfl | rfl
        · exact (by decide : ∀ d ∈ "http".toList ++ "://".toList, isTabOrNewline d = false) d hd
        · exact (by decide : ∀ d ∈ "https".toList ++ "://".toList, isTabOrNewline d = false) d hd
      · exact htabs d hd
  have hcut : cutScheme (scheme ++ "://".toList ++ netloc) =
      some (scheme, '/' :: '/' :: (netloc ++ [])) := by
    rw [List.append_nil]
    rcases hscheme with rfl | rfl
    · exact @cutScheme_append 'h' "ttp".toList _ (by decide) (by decide) (by decide)
    · exact @cutScheme_append 'h' "ttps".toList _ (by decide) (by decide) (by decide)
  have hdefault : (defaultPorts.lookup scheme).isSome := by
    rcases hscheme with rfl | rfl <;> rfl
  rw [originOf, hclean, hcut]
  dsimp only
  rw [if_pos hdefault, dropWhile_slashes hne hends, List.append_nil]

variable (parseHost) in
/-- A browser reads the same scheme off a URL with slashes behind it, and then its host. -/
theorem resolve_url {text scheme rest : Str}
    (hscheme : scheme = "http".toList ∨ scheme = "https".toList)
    (hcut : cutScheme (urlsplitText text) = some (scheme, '/' :: '/' :: rest)) (base : Origin η) :
    ∃ rest' t, rest = rest' ++ t ∧ (∀ d ∈ t, isC0OrSpace d = true) ∧
      hostBehindSlashes parseHost base text =
        authority parseHost scheme (('/' :: '/' :: rest').dropWhile isSlash) ∧
      resolve parseHost base text = (hostBehindSlashes parseHost base text).map .origin := by
  obtain ⟨c, front, htext, hcolon, hc, hfront, hlower⟩ := cutScheme_eq_some hcut
  have hdefault : (defaultPorts.lookup scheme).isSome := by
    rcases hscheme with rfl | rfl <;> rfl
  -- only spaces and controls at the end are stripped off
  obtain ⟨t, happend, ht⟩ := clean_append text
  have hsplit : clean text ++ t = (c :: front ++ [':', '/', '/']) ++ rest := by
    rw [← happend]
    change urlsplitText text = _
    rw [htext]
    simp
  have hlast : ∀ d ∈ (c :: front ++ [':', '/', '/']).getLast?, isC0OrSpace d = false := by
    intro d hd
    rw [List.getLast?_append] at hd
    obtain rfl : '/' = d := by simpa using hd
    decide
  obtain ⟨rest', hclean, hrest'⟩ := prefix_of_append hsplit hlast ht
  have hcut' : cutScheme (clean text) = some (scheme, '/' :: '/' :: rest') := by
    have hclean' : clean text = c :: front ++ ':' :: '/' :: '/' :: rest' := by
      rw [hclean]
      simp
    rw [hclean', cutScheme_append hcolon hc hfront, hlower]
  have hhost : hostBehindSlashes parseHost base text =
      authority parseHost scheme (('/' :: '/' :: rest').dropWhile isSlash) := by
    rw [hostBehindSlashes, behindSlashes, hcut']
  refine ⟨rest', t, hrest', ht, hhost, ?_⟩
  rw [hhost, resolve, hcut']
  dsimp only
  rw [if_pos hdefault, if_neg (by simp)]

variable (parseHost) in
/-- Behind the slashes of an accepted URL with a plain network location stands what a browser reads
off the trusted text. -/
theorem host_absolute {text scheme netloc rest : Str}
    (hscheme : scheme = "http".toList ∨ scheme = "https".toList) (hne : netloc ≠ [])
    (hnetloc : ∀ c ∈ netloc, isNetlocEnd c = false) (hrest : ∀ c ∈ rest.head?, isNetlocEnd c = true)
    (hcut : cutScheme (urlsplitText text) = some (scheme, '/' :: '/' :: (netloc ++ rest)))
    (hplain : PlainNetloc netloc) (base : Origin η) :
    hostBehindSlashes parseHost base text =
      originOf parseHost (scheme ++ "://".toList ++ netloc) := by
  have hends : ∀ c ∈ netloc, endsAuthority c = false := by
    intro c hc
    have hslash : c ≠ '\\' := fun h => hplain.1 (h ▸ hc)
    have hend := hnetloc c hc
    simp only [isNetlocEnd, Bool.or_eq_false_iff, beq_eq_false_iff_ne] at hend
    simp [endsAuthority, isSlash, hend, hslash]
  have hends' : ∀ c ∈ rest.head?, endsAuthority c = true := by
    intro c hc
    have hend := hrest c hc
    simp only [isNetlocEnd, Bool.or_eq_true] at hend
    simp only [endsAuthority, isSlash, Bool.or_eq_true]
    tauto
  obtain ⟨rest', t, hsplit, ht, hhost, -⟩ := resolve_url parseHost hscheme hcut base
  -- what the browser sees of the text ends behind the network location
  obtain ⟨rest'', rfl, hrest''⟩ := prefix_of_append hsplit.symm hplain.2 ht
  have hends'' : ∀ c ∈ rest''.head?, endsAuthority c = true := by
    intro e he
    refine hends' e ?_
    rw [hrest'', List.head?_append, he]
    rfl
  -- and the trusted text is clean as it is
  have htabs : ∀ c ∈ netloc, isTabOrNewline c = false := by
    intro e he
    obtain ⟨c, front, htext, -⟩ := cutScheme_eq_some hcut
    have hmem : e ∈ urlsplitText text := by
      rw [htext]
      simp [he]
    have := (List.mem_filter.mp hmem).2
    simpa using this
  rw [hhost, dropWhile_slashes hne hends, authority_append hends hends'',
    originOf_trusted hscheme hne hends htabs hplain]

/-! ## Accepted destinations -/

variable (parseHost config lib) in
/-- The server's own URL is trusted. -/
theorem trusted_own {base : Origin η} (hown : originOf parseHost origin = some base) :
    Trusted parseHost config lib origin base := by
  refine ⟨origin, ?_, hown⟩
  unfold isAllowedOrigin
  split
  next => rfl
  next => exact if_pos rfl

variable (parseHost config lib) in
/-- An accepted `return_to` leads to a trusted origin if and only if it is a safe one. -/
theorem return_to_safe_iff (raises : Str → Bool) {base : Origin η}
    (hown : originOf parseHost origin = some base) {returnTo : Str}
    (haccepted : isValidReturnTo config (lib.withUrlparse raises) returnTo origin = true) :
    LeadsToTrusted parseHost config (lib.withUrlparse raises) origin base returnTo ↔
      SafeReturnTo parseHost config (lib.withUrlparse raises) origin base returnTo := by
  have htrusted := trusted_own parseHost config (lib.withUrlparse raises) hown
  by_cases hpath : "/".toList.isPrefixOf returnTo
  · obtain ⟨rest, rfl⟩ : ∃ rest, returnTo = '/' :: rest := by
      obtain ⟨rest, hrest⟩ := List.isPrefixOf_iff_prefix.mp hpath
      exact ⟨rest, hrest.symm⟩
    rw [SafeReturnTo, if_pos hpath]
    have hresolve := resolve_slash parseHost base rest
    by_cases hslash : ∃ c ∈ (clean ('/' :: rest)).tail.head?, isSlash c = true
    · rw [if_pos hslash] at hresolve
      refine (leadsToTrusted_of_map hresolve).trans (or_iff_right fun hplain => ?_).symm
      obtain ⟨c, hc, hcslash⟩ := hslash
      rw [hplain c hc] at hcslash
      exact absurd hcslash Bool.false_ne_true
    · rw [if_neg hslash] at hresolve
      have hplain : ∀ c ∈ (clean ('/' :: rest)).tail.head?, isSlash c = false := fun c hc =>
        Bool.eq_false_iff.mpr fun h => hslash ⟨c, hc, h⟩
      exact iff_of_true ⟨base, hresolve, htrusted⟩ (.inl hplain)
  · obtain ⟨scheme, netloc, rest, hparse, hscheme, hne, hnetloc, hrest, hcut, hallowed⟩ :=
      accepted_absolute haccepted hpath
    rw [SafeReturnTo, if_neg hpath]
    obtain ⟨-, -, -, -, -, hresolve⟩ := resolve_url parseHost hscheme hcut base
    refine (leadsToTrusted_of_map hresolve).trans ?_
    constructor
    · intro h
      obtain ⟨text, htext, hsome, hhost⟩ := h
      exact ⟨hhost ▸ hsome, .inr ⟨text, htext, hsome, hhost⟩⟩
    · rintro ⟨hsome, hplain | h⟩
      · -- the trusted text is the one that was looked up
        have hhost := host_absolute parseHost hscheme hne hnetloc hrest hcut
          (hplain _ hparse) base
        exact ⟨_, hallowed, hhost ▸ hsome, hhost⟩
      · exact h

end

/-- Hosts that are their own text, without a slash, a space or a backslash. -/
def exampleHost (host : Str) : Option Str :=
  if host.any (fun c => endsAuthority c || isC0OrSpace c) then none else some host

def exampleReturnConfig : Config :=
  ⟨"Hipster Chat".toList, ["https://chat.example".toList], [], 1800,
    ⟨none, none, none, none, none⟩⟩

def exampleReturnLibrary : Library where
  sha256 _ := []
  urlparse _ := none
  isDecimal c := c.isDigit

theorem return_to_safe_trusted :
    LeadsToTrusted exampleHost exampleReturnConfig
      (exampleReturnLibrary.withUrlparse fun _ => false) "https://api.chat.example".toList
      ⟨"https".toList, "api.chat.example".toList, none⟩ "https://chat.example/room?id=1".toList := by
  refine (return_to_safe_iff exampleHost exampleReturnConfig exampleReturnLibrary
    (fun _ => false) (by decide +kernel) (by decide +kernel)).mpr ?_
  unfold SafeReturnTo
  rw [if_neg (by decide)]
  refine ⟨by decide +kernel, .inl ?_⟩
  intro parsed hparsed
  have hnetloc : (exampleReturnLibrary.withUrlparse fun _ => false).urlparse
      "https://chat.example/room?id=1".toList =
        some ⟨"https".toList, "chat.example".toList⟩ := by
    rfl
  rw [hnetloc] at hparsed
  cases hparsed
  exact ⟨by decide, by decide⟩

/-- A slash and a backslash are accepted, and lead to another host. -/
theorem return_to_backslash :
    isValidReturnTo exampleReturnConfig (exampleReturnLibrary.withUrlparse fun _ => false)
      "/\\evil.example".toList "https://api.chat.example".toList = true ∧
    resolve exampleHost ⟨"https".toList, "api.chat.example".toList, none⟩
      "/\\evil.example".toList =
        some (.origin ⟨"https".toList, "evil.example".toList, none⟩) ∧
    ¬ LeadsToTrusted exampleHost exampleReturnConfig
      (exampleReturnLibrary.withUrlparse fun _ => false) "https://api.chat.example".toList
      ⟨"https".toList, "api.chat.example".toList, none⟩ "/\\evil.example".toList := by
  have hresolve : resolve exampleHost ⟨"https".toList, "api.chat.example".toList, none⟩
      "/\\evil.example".toList =
        some (.origin ⟨"https".toList, "evil.example".toList, none⟩) := by
    decide +kernel
  refine ⟨by decide +kernel, hresolve, ?_⟩
  rintro ⟨o, ho, text, hallowed, horigin⟩
  rw [hresolve] at ho
  cases ho
  -- outside `rbt dev` only the two texts are trusted
  have htext : text = "https://chat.example".toList ∨ text = "https://api.chat.example".toList := by
    unfold isAllowedOrigin at hallowed
    split at hallowed
    next hmem => exact .inl (List.mem_singleton.mp hmem)
    next =>
      split at hallowed
      next heq => exact .inr heq
      next =>
        have hdev : Admin.runningRbtDev exampleReturnConfig.environ = false := by decide
        rw [hdev] at hallowed
        cases hallowed
  rcases htext with rfl | rfl
  · exact absurd horigin (by decide +kernel)
  · exact absurd horigin (by decide +kernel)

end Reboot.Auth
