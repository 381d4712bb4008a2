import Reboot.Lib.Pieces
import Reboot.Lib.Text

/-!
# Path templates

A route is registered under a path in which `{name}` and `{name:convertor}` are parameters. What
Starlette makes of such a path is a pattern (`compilePath`), and what Envoy is given is a regular
expression that `_route_regex` of `reboot/aio/http.py` makes of the same text: escaped, with the
braces unescaped, and with whatever stands between braces replaced by `[^/]+`, or by `.*` where it
ends in `:path`.

`re2Pieces_routeRegex`: where each brace belongs to a parameter, Envoy's pattern is Starlette's with
every parameter that is not a `path` read as a segment. So the two are the same for the parameters
`{name}` and `{name:path}` (`routeTakes_iff_of_plain`), and with other convertors Envoy takes more
(`templateTakes_routeTakes`).

Mirroring notes:
- Request paths have no newline, so that `.` is any character.
- `float` and `uuid` are the convertors of Starlette's documentation; others are not registered.
- RE2 takes an escaped character that is no letter, digit or underscore for itself. A brace that is
  left in the expression opens no repetition, for what stands between two braces was replaced.
-/

namespace Reboot.Web.Routes

open Reboot.Lib

/-! ## Starlette -/

/-- The convertors that Starlette has. -/
inductive Convertor
  | str | path | int | float | uuid
  deriving DecidableEq

def digits (s : Str) : Bool := !s.isEmpty && s.all Char.isDigit

def isHex (c : Char) : Bool := c.isDigit || ('a' ≤ c && c ≤ 'f') || ('A' ≤ c && c ≤ 'F')

/-- `[0-9a-fA-F]{n}` -/
def hexDigits (n : Nat) (s : Str) : Bool := s.length = n && s.all isHex

/-- `-?` -/
def optionalDash (s : Str) : Bool := s = [] || s = ['-']

/-- `[^/]+` -/
def segment (s : Str) : Bool := !s.isEmpty && s.all (· ≠ '/')

/-- The texts of a parameter. -/
def Convertor.language : Convertor → Str → Bool
  | .str => segment
  | .path => fun _ => true
  | .int => digits
  | .float => fun s => digits s || accepts [digits, letter '.', digits] s
  | .uuid => accepts [hexDigits 8, optionalDash, hexDigits 4, optionalDash, hexDigits 4,
      optionalDash, hexDigits 4, optionalDash, hexDigits 12]

/-- `CONVERTOR_TYPES` -/
def convertorOf (name : Str) : Option Convertor :=
  if name = "str".toList then some .str
  else if name = "path".toList then some .path
  else if name = "int".toList then some .int
  else if name = "float".toList then some .float
  else if name = "uuid".toList then some .uuid
  else none

/-- What a pattern consists of. -/
inductive Piece
  | literal (c : Char)
  | param (convertor : Convertor)
  deriving DecidableEq

def Piece.language : Piece → Str → Bool
  | .literal c => letter c
  | .param convertor => convertor.language

def isIdentStart (c : Char) : Bool := c.isAlpha || c = '_'

def isIdentChar (c : Char) : Bool := c.isAlphanum || c = '_'

/-- `[a-zA-Z_][a-zA-Z0-9_]*`, as far as it goes. -/
def scanIdent : Str → Option (Str × Str)
  | [] => none
  | c :: s => if isIdentStart c then some (c :: s.takeWhile isIdentChar, s.dropWhile isIdentChar)
      else none

/-- A match of `PARAM_REGEX` behind an opening brace: the name of the convertor and what follows. -/
def scanParam (s : Str) : Option (Str × Str) :=
  match scanIdent s with
  | some (_, '}' :: rest) => some ("str".toList, rest)
  | some (_, ':' :: rest) =>
    match scanIdent rest with
    | some (convertor, '}' :: rest) => some (convertor, rest)
    | _ => none
  | _ => none

theorem scanIdent_length {s name rest : Str} (h : scanIdent s = some (name, rest)) :
    rest.length < s.length := by
  cases s with
  | nil => cases h
  | cons c s =>
    simp only [scanIdent] at h
    split at h
    · cases h
      have := (List.dropWhile_suffix (l := s) isIdentChar).length_le
      simp only [List.length_cons]
      omega
    · cases h

theorem scanParam_length {s convertor rest : Str} (h : scanParam s = some (convertor, rest)) :
    rest.length < s.length := by
  unfold scanParam at h
  split at h
  · next name rest' hident =>
    cases h
    have := scanIdent_length hident
    simp only [List.length_cons] at this
    omega
  · next name rest' hident =>
    have hfirst := scanIdent_length hident
    split at h
    · next convertor' rest'' hident' =>
      cases h
      have hsecond := scanIdent_length hident'
      simp only [List.length_cons] at hfirst hsecond
      omega
    · cases h
  · cases h

/-- `compile_path`: `none` is the assertion that the convertor is known. -/
def compilePath (path : Str) : Option (List Piece) :=
  match path with
  | [] => some []
  | '{' :: s =>
    match _hparam : scanParam s with
    | some (name, rest) =>
      match convertorOf name with
      | some convertor => (compilePath rest).map (.param convertor :: ·)
      | none => none
    | none => (compilePath s).map (.literal '{' :: ·)
  | c :: s => (compilePath s).map (.literal c :: ·)
termination_by path.length
decreasing_by
  · have := scanParam_length _hparam
    simp only [List.length_cons]
    omega
  · exact Nat.lt_succ_self _
  · exact Nat.lt_succ_self _

def patternTakes (pieces : List Piece) (path : Str) : Bool := accepts (pieces.map Piece.language) path

/-! ## Envoy -/

/-- The characters that `re.escape` escapes. -/
def specialChars : Str := "()[]\x7b\x7d?*+-|^$\\.&~# \t\n\r\x0b\x0c".toList

/-- `re.escape` -/
def escape (s : Str) : Str := s.flatMap fun c => if c ∈ specialChars then ['\\', c] else [c]

/-- `str.replace` of two characters by the second. -/
def unescape (c : Char) : Str → Str
  | '\\' :: d :: s => if d = c then c :: unescape c s else '\\' :: unescape c (d :: s)
  | d :: s => d :: unescape c s
  | [] => []

/-- `[^}:]` -/
def nameChar (c : Char) : Bool := c ≠ '}' && c ≠ ':'

/-- `[^}]` -/
def groupChar (c : Char) : Bool := c ≠ '}'

/-- The group behind its colon, up to the closing brace: whether it is `:path`, and what follows. -/
def scanGroup (s : Str) : Option (Bool × Str) :=
  if s.takeWhile groupChar = [] then none
  else
    match s.dropWhile groupChar with
    | '}' :: rest => some (s.takeWhile groupChar = "path".toList, rest)
    | _ => none

/-- A match of the expression that `_route_regex` replaces, behind an opening brace: whether its
group is `:path`, and what follows. -/
def scanBraces (s : Str) : Option (Bool × Str) :=
  if s.takeWhile nameChar = [] then none
  else
    match s.dropWhile nameChar with
    | '}' :: rest => some (false, rest)
    | ':' :: rest => scanGroup rest
    | _ => none

theorem length_of_dropWhile {p : Char → Bool} {s rest : Str} {c : Char}
    (h : s.dropWhile p = c :: rest) : rest.length < s.length := by
  have hle := (List.dropWhile_suffix (l := s) p).length_le
  rw [h, List.length_cons] at hle
  omega

theorem scanGroup_length {s rest : Str} {path : Bool} (h : scanGroup s = some (path, rest)) :
    rest.length < s.length := by
  unfold scanGroup at h
  split at h
  · cases h
  · split at h
    · next rest' heq =>
      cases h
      exact length_of_dropWhile heq
    · cases h

theorem scanBraces_length {s rest : Str} {path : Bool} (h : scanBraces s = some (path, rest)) :
    rest.length < s.length := by
  unfold scanBraces at h
  split at h
  · cases h
  · split at h
    · next rest' heq =>
      cases h
      exact length_of_dropWhile heq
    · next rest' heq =>
      exact Nat.lt_trans (scanGroup_length h) (length_of_dropWhile heq)
    · cases h

/-- `re.sub` of what stands between braces. -/
def subParams (s : Str) : Str :=
  match s with
  | [] => []
  | '{' :: s =>
    match _hbraces : scanBraces s with
    | some (path, rest) => (if path then ".*" else "[^/]+").toList ++ subParams rest
    | none => '{' :: subParams s
  | c :: s => c :: subParams s
termination_by s.length
decreasing_by
  · have := scanBraces_length _hbraces
    simp only [List.length_cons]
    omega
  · exact Nat.lt_succ_self _
  · exact Nat.lt_succ_self _

/-- `_route_regex` -/
def routeRegex (path : Str) : Str :=
  '^' :: subParams (unescape '}' (unescape '{' (escape path))) ++ ['$']

/-- How RE2 reads what stands between the anchors. -/
def re2Body : Str → List Piece
  | ['$'] => []
  | '[' :: '^' :: '/' :: ']' :: '+' :: s => .param .str :: re2Body s
  | '.' :: '*' :: s => .param .path :: re2Body s
  | '\\' :: c :: s => .literal c :: re2Body s
  | c :: s => .literal c :: re2Body s
  | [] => []

def re2Pieces : Str → List Piece
  | '^' :: s => re2Body s
  | s => re2Body s

/-- `_route_match`: whether Envoy takes a request path for the route. -/
def routeTakes (route path : Str) : Bool :=
  if '{' ∉ route then path = route else patternTakes (re2Pieces (routeRegex route)) path

/-- Whether Starlette matches the path with the route. -/
def templateTakes (route path : Str) : Bool :=
  (compilePath route).any fun pieces => patternTakes pieces path

/-! ## What Envoy reads -/

/-- Every parameter that is not a path as a segment. -/
def Piece.loosen : Piece → Piece
  | .literal c => .literal c
  | .param .path => .param .path
  | .param _ => .param .str

/-- The text with its special characters escaped, but for those that are kept. -/
def escapeBut (kept : Char → Bool) (s : Str) : Str :=
  s.flatMap fun c => if c ∈ specialChars ∧ kept c = false then ['\\', c] else [c]

theorem escapeBut_cons (kept : Char → Bool) (c : Char) (s : Str) : escapeBut kept (c :: s) =
    (if c ∈ specialChars ∧ kept c = false then ['\\', c] else [c]) ++ escapeBut kept s := rfl

theorem escape_eq (s : Str) : escape s = escapeBut (fun _ => false) s := by
  simp [escape, escapeBut]

theorem unescape_cons {c d : Char} (hd : d ≠ '\\') (s : Str) :
    unescape c (d :: s) = d :: unescape c s := by
  rw [unescape]
  exact fun _ _ heq => absurd heq hd

theorem unescape_escaped (c : Char) (s : Str) : unescape c ('\\' :: c :: s) = c :: unescape c s := by
  rw [unescape, if_pos rfl]

theorem unescape_other {c d : Char} (hd : d ≠ c) (s : Str) :
    unescape c ('\\' :: d :: s) = '\\' :: unescape c (d :: s) := by
  rw [unescape, if_neg hd]

/-- Behind an escaped character nothing starts that would be unescaped. -/
theorem unescape_backslash {c : Char} {s : Str} (hs : s.head? ≠ some c) :
    unescape c ('\\' :: s) = '\\' :: unescape c s := by
  cases s with
  | nil => rfl
  | cons d s =>
    refine unescape_other (fun heq => hs ?_) s
    rw [heq]
    rfl

/-- A text that is escaped does not start with a special character that is not kept. -/
theorem escapeBut_head {kept : Char → Bool} {c : Char} (hc : c ∈ specialChars)
    (hkept : kept c = false) (hne : c ≠ '\\') (s : Str) : (escapeBut kept s).head? ≠ some c := by
  cases s with
  | nil => exact nofun
  | cons d s =>
    rw [escapeBut_cons]
    split
    · intro heq
      exact hne (Option.some.inj heq).symm
    · next hd =>
      intro heq
      have hdc : d = c := Option.some.inj heq
      exact hd (hdc ▸ ⟨hc, hkept⟩)

/-- Unescaping a character leaves the others as they are. -/
theorem unescape_escapeBut {kept : Char → Bool} {brace : Char} (hbrace : brace ∈ specialChars)
    (hkept : kept brace = false) (hne : brace ≠ '\\') (hslash : kept '\\' = false) (s : Str) :
    unescape brace (escapeBut kept s) = escapeBut (fun c => kept c || c = brace) s := by
  induction s with
  | nil => rfl
  | cons c s ih =>
    rw [escapeBut_cons, escapeBut_cons]
    by_cases hc : c ∈ specialChars ∧ kept c = false
    · rw [if_pos hc]
      by_cases hcb : c = brace
      · subst hcb
        rw [if_neg (by simp)]
        show unescape c ('\\' :: c :: escapeBut kept s) = c :: escapeBut _ s
        rw [unescape_escaped, ih]
      · rw [if_pos ⟨hc.1, by simp [hc.2, hcb]⟩]
        show unescape brace ('\\' :: c :: escapeBut kept s) = '\\' :: c :: escapeBut _ s
        rw [unescape_other hcb]
        by_cases hcs : c = '\\'
        · subst hcs
          rw [unescape_backslash (escapeBut_head hbrace hkept hne s), ih]
        · rw [unescape_cons hcs, ih]
    · have hcs : c ≠ '\\' := fun heq => hc (heq ▸ ⟨by decide, hslash⟩)
      have hc' : ¬ (c ∈ specialChars ∧ (kept c || decide (c = brace)) = false) := by
        rintro ⟨hmem, hfalse⟩
        exact hc ⟨hmem, (Bool.or_eq_false_iff.mp hfalse).1⟩
      rw [if_neg hc, if_neg hc']
      show unescape brace (c :: escapeBut kept s) = c :: escapeBut _ s
      rw [unescape_cons hcs, ih]

/-- A brace of either kind. -/
def isBrace (c : Char) : Bool := c = '{' || c = '}'

/-- In the end the braces are as they were. -/
theorem unescape_braces (s : Str) :
    unescape '}' (unescape '{' (escape s)) = escapeBut isBrace s := by
  rw [escape_eq, unescape_escapeBut (by decide) rfl (by decide) rfl,
    unescape_escapeBut (by decide) (by decide) (by decide) (by decide)]
  rfl

theorem escapeBut_brace (s : Str) : escapeBut isBrace ('{' :: s) = '{' :: escapeBut isBrace s := rfl

/-- Identifiers and colons are not escaped. -/
theorem escapeBut_plain {c : Char} (h : c ∉ specialChars ∨ isBrace c = true) (s : Str) :
    escapeBut isBrace (c :: s) = c :: escapeBut isBrace s := by
  rw [escapeBut_cons, if_neg]
  · rfl
  · rintro ⟨hmem, hfalse⟩
    rcases h with hnot | hbrace
    · exact hnot hmem
    · rw [hbrace] at hfalse
      cases hfalse

theorem escapeBut_append_plain {front : Str} (h : ∀ c ∈ front, c ∉ specialChars) (s : Str) :
    escapeBut isBrace (front ++ s) = front ++ escapeBut isBrace s := by
  induction front with
  | nil => rfl
  | cons c front ih =>
    rw [List.forall_mem_cons] at h
    rw [List.cons_append, escapeBut_plain (.inl h.1), ih h.2]
    rfl

theorem isIdentChar_notSpecial {c : Char} (h : isIdentChar c = true) : c ∉ specialChars := by
  intro hmem
  have hall : specialChars.all (fun c => !isIdentChar c) = true := by decide
  have hnot := List.all_eq_true.mp hall c hmem
  rw [h] at hnot
  cases hnot

theorem isIdentChar_of_start {c : Char} (h : isIdentStart c = true) : isIdentChar c = true := by
  unfold isIdentStart at h
  unfold isIdentChar Char.isAlphanum
  rcases Bool.or_eq_true _ _ |>.mp h with halpha | hline
  · rw [halpha]
    rfl
  · rw [hline, Bool.or_true]

/-- An identifier and what follows it. -/
theorem scanIdent_spec {s name rest : Str} (h : scanIdent s = some (name, rest)) :
    s = name ++ rest ∧ name ≠ [] ∧ ∀ c ∈ name, isIdentChar c = true := by
  cases s with
  | nil => cases h
  | cons c s =>
    simp only [scanIdent] at h
    split at h
    · next hstart =>
      cases h
      refine ⟨?_, List.cons_ne_nil _ _, fun d hd => ?_⟩
      · rw [List.cons_append, List.takeWhile_append_dropWhile]
      · rcases List.mem_cons.mp hd with rfl | hd
        · exact isIdentChar_of_start hstart
        · exact List.all_eq_true.mp List.all_takeWhile d hd
    · cases h

/-- A parameter with or without a convertor. -/
theorem scanParam_spec {s convertor rest : Str} (h : scanParam s = some (convertor, rest)) :
    ∃ name, name ≠ [] ∧ (∀ c ∈ name, isIdentChar c = true) ∧
      (s = name ++ '}' :: rest ∧ convertor = "str".toList ∨
        s = name ++ ':' :: (convertor ++ '}' :: rest) ∧ convertor ≠ [] ∧
          ∀ c ∈ convertor, isIdentChar c = true) := by
  unfold scanParam at h
  split at h
  · next name rest' hident =>
    obtain ⟨rfl, hne, hname⟩ := scanIdent_spec hident
    cases h
    exact ⟨name, hne, hname, .inl ⟨rfl, rfl⟩⟩
  · next name rest' hident =>
    obtain ⟨rfl, hne, hname⟩ := scanIdent_spec hident
    split at h
    · next convertor' rest'' hident' =>
      obtain ⟨rfl, hne', hname'⟩ := scanIdent_spec hident'
      cases h
      exact ⟨name, hne, hname, .inr ⟨rfl, hne', hname'⟩⟩
    · cases h
  · cases h

theorem takeWhile_append_cons {p : Char → Bool} {front : Str} {c : Char}
    (hfront : ∀ d ∈ front, p d = true) (hc : p c = false) (s : Str) :
    (front ++ c :: s).takeWhile p = front ∧ (front ++ c :: s).dropWhile p = c :: s := by
  constructor
  · rw [List.takeWhile_append_of_pos hfront, List.takeWhile_cons_of_neg (by simp [hc]),
      List.append_nil]
  · rw [List.dropWhile_append_of_pos hfront, List.dropWhile_cons_of_neg (by simp [hc])]

theorem isIdentChar_nameChar {c : Char} (h : isIdentChar c = true) : nameChar c = true := by
  unfold nameChar
  have hbrace : c ≠ '}' := by
    rintro rfl
    exact absurd h (by decide)
  have hcolon : c ≠ ':' := by
    rintro rfl
    exact absurd h (by decide)
  simp [hbrace, hcolon]

theorem isIdentChar_groupChar {c : Char} (h : isIdentChar c = true) : groupChar c = true := by
  have hname := isIdentChar_nameChar h
  unfold nameChar at hname
  exact (Bool.and_eq_true _ _ |>.mp hname).1

/-- What `_route_regex` finds at a parameter. -/
theorem scanBraces_escaped {s convertor rest : Str} (h : scanParam s = some (convertor, rest)) :
    scanBraces (escapeBut isBrace s) =
      some (decide (convertor = "path".toList), escapeBut isBrace rest) := by
  obtain ⟨name, hne, hname, hcases⟩ := scanParam_spec h
  have hplain : ∀ c ∈ name, c ∉ specialChars := fun c hc => isIdentChar_notSpecial (hname c hc)
  have hnameChars : ∀ c ∈ name, nameChar c = true := fun c hc => isIdentChar_nameChar (hname c hc)
  rcases hcases with ⟨rfl, rfl⟩ | ⟨rfl, hne', hconvertor⟩
  · rw [escapeBut_append_plain hplain, escapeBut_plain (.inr rfl)]
    obtain ⟨htake, hdrop⟩ := takeWhile_append_cons hnameChars (c := '}') rfl (escapeBut isBrace rest)
    unfold scanBraces
    rw [htake, hdrop, if_neg hne]
    rfl
  · have hplain' : ∀ c ∈ convertor, c ∉ specialChars := fun c hc =>
      isIdentChar_notSpecial (hconvertor c hc)
    have hgroupChars : ∀ c ∈ convertor, groupChar c = true := fun c hc =>
      isIdentChar_groupChar (hconvertor c hc)
    rw [escapeBut_append_plain hplain, escapeBut_plain (.inl (by decide)),
      escapeBut_append_plain hplain', escapeBut_plain (.inr rfl)]
    obtain ⟨htake, hdrop⟩ := takeWhile_append_cons hnameChars (c := ':') rfl
      (convertor ++ '}' :: escapeBut isBrace rest)
    obtain ⟨htake', hdrop'⟩ := takeWhile_append_cons hgroupChars (c := '}') rfl
      (escapeBut isBrace rest)
    unfold scanBraces
    rw [htake, hdrop, if_neg hne]
    show scanGroup (convertor ++ '}' :: escapeBut isBrace rest) = _
    unfold scanGroup
    rw [htake', hdrop', if_neg hne']
    rfl

/-- The pieces of the expression that replaces a parameter. -/
theorem re2Body_param (path : Bool) (s : Str) :
    re2Body ((if path then ".*" else "[^/]+").toList ++ s) =
      .param (if path then .path else .str) :: re2Body s := by
  cases path with
  | true =>
    show re2Body ('.' :: '*' :: s) = _
    rw [re2Body]
    rfl
  | false =>
    show re2Body ('[' :: '^' :: '/' :: ']' :: '+' :: s) = _
    rw [re2Body]
    rfl

theorem re2Body_escaped (c : Char) (s : Str) :
    re2Body ('\\' :: c :: s) = .literal c :: re2Body s := by
  rw [re2Body]

/-- A character that means nothing else. -/
theorem re2Body_literal {c : Char} (hdollar : c ≠ '$') (hbracket : c ≠ '[') (hdot : c ≠ '.')
    (hslash : c ≠ '\\') (s : Str) : re2Body (c :: s) = .literal c :: re2Body s := by
  rw [re2Body]
  · exact fun heq _ => hdollar heq
  · exact fun _ heq _ => hbracket heq
  · exact fun _ heq _ => hdot heq
  · exact fun _ _ heq _ => hslash heq

theorem subParams_cons {c : Char} (hc : c ≠ '{') (s : Str) : subParams (c :: s) = c :: subParams s := by
  rw [subParams]
  exact hc

theorem subParams_braces {s rest : Str} {path : Bool} (h : scanBraces s = some (path, rest)) :
    subParams ('{' :: s) = (if path then ".*" else "[^/]+").toList ++ subParams rest := by
  rw [subParams]
  split
  · next path' rest' heq =>
    rw [h] at heq
    cases heq
    rfl
  · next heq =>
    rw [h] at heq
    cases heq

theorem loosen_convertorOf {name : Str} {convertor : Convertor}
    (h : convertorOf name = some convertor) : Piece.loosen (.param convertor) =
      .param (if decide (name = "path".toList) then .path else .str) := by
  unfold convertorOf at h
  split at h
  · next heq =>
    cases h
    rw [heq]
    rfl
  split at h
  · next heq =>
    cases h
    rw [heq]
    rfl
  split at h
  · next heq =>
    cases h
    rw [heq]
    rfl
  split at h
  · next heq =>
    cases h
    rw [heq]
    rfl
  split at h
  · next heq =>
    cases h
    rw [heq]
    rfl
  · cases h

/-- Where each brace belongs to a parameter, Envoy reads the template with its parameters
loosened. -/
theorem re2Body_subParams {route : Str} {pieces : List Piece} (h : compilePath route = some pieces)
    (hbraces : .literal '{' ∉ pieces) :
    re2Body (subParams (escapeBut isBrace route) ++ ['$']) = pieces.map Piece.loosen := by
  induction hn : route.length using Nat.strongRecOn generalizing route pieces with
  | ind n ih =>
    rw [compilePath.eq_def] at h
    split at h
    · cases h
      show re2Body (subParams [] ++ ['$']) = []
      rw [subParams]
      rfl
    · next s =>
      split at h
      · next name rest hparam =>
        split at h
        · next convertor hconvertor =>
          obtain ⟨pieces', hpieces', rfl⟩ := Option.map_eq_some_iff.mp h
          have hlt : rest.length < n := by
            have := scanParam_length hparam
            rw [← hn, List.length_cons]
            omega
          have hrest := ih rest.length hlt hpieces' (fun hmem =>
            hbraces (List.mem_cons_of_mem _ hmem)) rfl
          rw [escapeBut_brace, subParams_braces (scanBraces_escaped hparam), List.append_assoc,
            re2Body_param, hrest, List.map_cons, loosen_convertorOf hconvertor]
        · cases h
      · obtain ⟨pieces', -, rfl⟩ := Option.map_eq_some_iff.mp h
        exact absurd List.mem_cons_self hbraces
    · next c s hc =>
      obtain ⟨pieces', hpieces', rfl⟩ := Option.map_eq_some_iff.mp h
      have hrest := ih s.length (by rw [← hn]; exact Nat.lt_succ_self _) hpieces' (fun hmem =>
        hbraces (List.mem_cons_of_mem _ hmem)) rfl
      have hbrace : c ≠ '{' := fun heq => hc heq
      rw [escapeBut_cons, List.map_cons]
      by_cases hspecial : c ∈ specialChars ∧ isBrace c = false
      · rw [if_pos hspecial]
        show re2Body (subParams ('\\' :: c :: escapeBut isBrace s) ++ ['$']) = _
        rw [subParams_cons (by decide), subParams_cons hbrace]
        show re2Body ('\\' :: c :: (subParams (escapeBut isBrace s) ++ ['$'])) = _
        rw [re2Body_escaped, hrest]
        rfl
      · rw [if_neg hspecial]
        show re2Body (subParams (c :: escapeBut isBrace s) ++ ['$']) = _
        rw [subParams_cons hbrace]
        have hother : ∀ d, d ∈ specialChars → isBrace d = false → c ≠ d := by
          rintro d hd hfalse rfl
          exact hspecial ⟨hd, hfalse⟩
        show re2Body (c :: (subParams (escapeBut isBrace s) ++ ['$'])) = _
        rw [re2Body_literal (hother _ (by decide) (by decide)) (hother _ (by decide) (by decide))
          (hother _ (by decide) (by decide)) (hother _ (by decide) (by decide)), hrest]
        rfl

theorem re2Pieces_routeRegex {route : Str} {pieces : List Piece}
    (h : compilePath route = some pieces) (hbraces : .literal '{' ∉ pieces) :
    re2Pieces (routeRegex route) = pieces.map Piece.loosen := by
  unfold routeRegex re2Pieces
  rw [unescape_braces]
  exact re2Body_subParams h hbraces

/-! ## What Envoy takes -/

/-- Without a brace a path is what it says. -/
theorem compilePath_literal {route : Str} (h : '{' ∉ route) :
    compilePath route = some (route.map .literal) := by
  induction route with
  | nil => rw [compilePath]; rfl
  | cons c route ih =>
    rw [List.mem_cons, not_or] at h
    rw [compilePath.eq_def]
    split
    · next heq => cases heq
    · next heq =>
      cases heq
      exact absurd rfl h.1
    · next heq =>
      cases heq
      rw [ih h.2]
      rfl

theorem patternTakes_literal {route path : Str} :
    patternTakes (route.map .literal) path = true ↔ path = route := by
  unfold patternTakes
  rw [List.map_map]
  exact accepts_letters

theorem templateTakes_literal {route path : Str} (h : '{' ∉ route) :
    templateTakes route path = true ↔ path = route := by
  unfold templateTakes
  rw [compilePath_literal h, Option.any_some]
  exact patternTakes_literal

theorem segment_iff {s : Str} : segment s = true ↔ s ≠ [] ∧ ∀ c ∈ s, c ≠ '/' := by
  simp [segment]

theorem digits_spec {s : Str} (h : digits s = true) : s ≠ [] ∧ ∀ c ∈ s, c ≠ '/' := by
  unfold digits at h
  rw [Bool.and_eq_true, List.all_eq_true] at h
  refine ⟨by simpa using h.1, ?_⟩
  rintro c hc rfl
  exact absurd (h.2 _ hc) (by decide)

theorem hexDigits_spec {n : Nat} {s : Str} (h : hexDigits n s = true) :
    s.length = n ∧ ∀ c ∈ s, c ≠ '/' := by
  unfold hexDigits at h
  rw [Bool.and_eq_true, decide_eq_true_eq, List.all_eq_true] at h
  refine ⟨h.1, ?_⟩
  rintro c hc rfl
  exact absurd (h.2 _ hc) (by decide)

theorem optionalDash_spec {s : Str} (h : optionalDash s = true) : ∀ c ∈ s, c ≠ '/' := by
  unfold optionalDash at h
  rw [Bool.or_eq_true, decide_eq_true_eq, decide_eq_true_eq] at h
  rintro c hc rfl
  rcases h with rfl | rfl
  · cases hc
  · exact absurd hc (by decide)

theorem segment_float {s : Str} (h : Convertor.float.language s = true) : segment s = true := by
  rw [segment_iff]
  rcases Bool.or_eq_true _ _ |>.mp h with hdigits | haccepts
  · exact digits_spec hdigits
  · constructor
    · obtain ⟨front, back, rfl, hfront, -⟩ := accepts_cons_iff.mp haccepts
      exact List.append_ne_nil_of_left_ne_nil (digits_spec hfront).1 back
    · refine accepts_forall (fun language hlanguage word hword => ?_) haccepts
      simp only [List.mem_cons, List.not_mem_nil, or_false] at hlanguage
      rcases hlanguage with rfl | rfl | rfl
      · exact (digits_spec hword).2
      · have heq : word = ['.'] := of_decide_eq_true hword
        rw [heq]
        decide
      · exact (digits_spec hword).2

theorem segment_uuid {s : Str} (h : Convertor.uuid.language s = true) : segment s = true := by
  rw [segment_iff]
  constructor
  · obtain ⟨front, back, rfl, hfront, -⟩ := accepts_cons_iff.mp h
    refine List.append_ne_nil_of_left_ne_nil (fun hnil => ?_) back
    have hlength := (hexDigits_spec hfront).1
    rw [hnil] at hlength
    cases hlength
  · refine accepts_forall (fun language hlanguage word hword => ?_) h
    have hcases : (∃ n, language = hexDigits n) ∨ language = optionalDash := by
      simp only [List.mem_cons, List.not_mem_nil, or_false] at hlanguage
      rcases hlanguage with rfl | rfl | rfl | rfl | rfl | rfl | rfl | rfl | rfl
      · exact .inl ⟨8, rfl⟩
      · exact .inr rfl
      · exact .inl ⟨4, rfl⟩
      · exact .inr rfl
      · exact .inl ⟨4, rfl⟩
      · exact .inr rfl
      · exact .inl ⟨4, rfl⟩
      · exact .inr rfl
      · exact .inl ⟨12, rfl⟩
    rcases hcases with ⟨n, rfl⟩ | rfl
    · exact (hexDigits_spec hword).2
    · exact optionalDash_spec hword

/-- What a convertor demands is a segment, or anything. -/
theorem language_loosen (piece : Piece) (s : Str) (h : piece.language s = true) :
    piece.loosen.language s = true := by
  cases piece with
  | literal c => exact h
  | param convertor =>
    cases convertor with
    | str => exact h
    | path => exact h
    | int => exact segment_iff.mpr (digits_spec h)
    | float => exact segment_float h
    | uuid => exact segment_uuid h

/-- Each brace of the path belongs to a parameter. -/
def Wellformed (route : Str) : Prop :=
  ∃ pieces, compilePath route = some pieces ∧ .literal '{' ∉ pieces

/-- A parameter other than `{name}` and `{name:path}`. -/
def Piece.isTyped : Piece → Bool
  | .param .int | .param .float | .param .uuid => true
  | _ => false

/-- The path has no parameters but `{name}` and `{name:path}`, and no other brace. -/
def Plain (route : Str) : Prop :=
  ∃ pieces, compilePath route = some pieces ∧ .literal '{' ∉ pieces ∧
    ∀ piece ∈ pieces, piece.isTyped = false

theorem loosen_of_not_typed {piece : Piece} (h : piece.isTyped = false) : piece.loosen = piece := by
  cases piece with
  | literal c => rfl
  | param convertor => cases convertor <;> first | rfl | cases h

/-- Envoy takes what its pattern takes, also where it is given the path itself. -/
theorem routeTakes_iff_loosen {route path : Str} {pieces : List Piece}
    (h : compilePath route = some pieces) (hbraces : .literal '{' ∉ pieces) :
    routeTakes route path = true ↔ patternTakes (pieces.map Piece.loosen) path = true := by
  unfold routeTakes
  by_cases hbrace : '{' ∈ route
  · rw [if_neg (not_not_intro hbrace), re2Pieces_routeRegex h hbraces]
  · rw [if_pos hbrace, decide_eq_true_eq]
    rw [compilePath_literal hbrace] at h
    obtain rfl := Option.some.inj h
    have hmap : (route.map Piece.literal).map Piece.loosen = route.map .literal := by
      rw [List.map_map]
      rfl
    rw [hmap]
    exact patternTakes_literal.symm

/-- For `{name}` and `{name:path}` Envoy takes exactly what Starlette matches. -/
theorem routeTakes_iff_of_plain {route path : Str} (h : Plain route) :
    routeTakes route path = true ↔ templateTakes route path = true := by
  obtain ⟨pieces, hpieces, hbraces, htyped⟩ := h
  rw [routeTakes_iff_loosen hpieces hbraces]
  unfold templateTakes
  have hmap : pieces.map Piece.loosen = pieces.map id :=
    List.map_congr_left fun piece hpiece => loosen_of_not_typed (htyped piece hpiece)
  rw [hpieces, Option.any_some, hmap, List.map_id]

/-- With any convertors Envoy takes no less. -/
theorem templateTakes_routeTakes {route path : Str} (h : Wellformed route)
    (htakes : templateTakes route path = true) : routeTakes route path = true := by
  obtain ⟨pieces, hpieces, hbraces⟩ := h
  rw [routeTakes_iff_loosen hpieces hbraces]
  unfold templateTakes at htakes
  rw [hpieces, Option.any_some] at htakes
  unfold patternTakes at htakes ⊢
  refine accepts_mono ?_ htakes
  rw [List.map_map, List.forall₂_map_left_iff, List.forall₂_map_right_iff]
  exact List.forall₂_same.mpr fun piece _ word hword => language_loosen piece word hword

end Reboot.Web.Routes
