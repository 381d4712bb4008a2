import Reboot.Lib.Text

/-!
# JSON texts of a known shape

What Python's `json.dumps` writes, and `json.loads` reads, for values whose shape is known: strings,
lists and objects of one kind of value. A `Codec` is a printer with a parser that reads back what
was printed and leaves what follows it; `Codec.string`, `Codec.array` and `Codec.object` build one
from another, so a codec for a shape comes with its round trip.

The printer is `json.dumps` with its defaults: everything but printable ASCII is escaped, and what
is above the first plane as two UTF-16 surrogates. The parser takes whitespace and every escape
that JSON has. An object is the list of its members.
-/

namespace Reboot.Lib

/-! ## UTF-16 -/

/-- The code units of a character. -/
def utf16Units (c : Char) : List Nat :=
  if c.toNat < 0x10000 then [c.toNat]
  else [0xD800 + (c.toNat - 0x10000) / 0x400, 0xDC00 + (c.toNat - 0x10000) % 0x400]

/-- The character of a code point, if it is one. -/
@[irreducible] def charOfNat (n : Nat) : Option Char :=
  if n.isValidChar then some (Char.ofNat n) else none

-- irreducible: unfolding compares with these numbers one by one
@[irreducible] def isHighSurrogate (n : Nat) : Bool := decide (0xD800 ≤ n ∧ n < 0xDC00)

@[irreducible] def isLowSurrogate (n : Nat) : Bool := decide (0xDC00 ≤ n ∧ n < 0xE000)

def joinSurrogates (high low : Nat) : Nat := 0x10000 + (high - 0xD800) * 0x400 + (low - 0xDC00)

/-- A high surrogate is joined with the low one behind it. -/
def fromUtf16 : List Nat → Option Str
  | [] => some []
  | [n] => (charOfNat n).map fun c => [c]
  | high :: low :: rest =>
    if isHighSurrogate high && isLowSurrogate low then
      match charOfNat (joinSurrogates high low), fromUtf16 rest with
      | some c, some s => some (c :: s)
      | _, _ => none
    else
      match charOfNat high, fromUtf16 (low :: rest) with
      | some c, some s => some (c :: s)
      | _, _ => none

theorem charOfNat_toNat (c : Char) : charOfNat c.toNat = some c := by
  unfold charOfNat
  rw [if_pos (show c.toNat.isValidChar from c.valid), Char.ofNat_toNat]

/-- A code point is no surrogate. -/
theorem toNat_bounds (c : Char) : c.toNat < 0xD800 ∨ 0xE000 ≤ c.toNat ∧ c.toNat < 0x110000 := by
  rcases c.valid with h | ⟨h, h'⟩
  · exact .inl h
  · refine .inr ⟨?_, h'⟩
    have hlt : 0xDFFF < c.toNat := h
    omega

theorem utf16Units_cases (c : Char) :
    (utf16Units c = [c.toNat] ∧ isHighSurrogate c.toNat = false) ∨
      ∃ high low, utf16Units c = [high, low] ∧ isHighSurrogate high = true ∧
        isLowSurrogate low = true ∧ joinSurrogates high low = c.toNat := by
  have hbounds := toNat_bounds c
  unfold utf16Units isHighSurrogate isLowSurrogate joinSurrogates
  by_cases hc : c.toNat < 0x10000
  · rw [if_pos hc]
    exact .inl ⟨rfl, decide_eq_false (by omega)⟩
  · rw [if_neg hc]
    exact .inr ⟨_, _, rfl, decide_eq_true (by omega), decide_eq_true (by omega), by omega⟩

theorem fromUtf16_cons (c : Char) (rest : List Nat) :
    fromUtf16 (utf16Units c ++ rest) = (fromUtf16 rest).map fun s => c :: s := by
  rcases utf16Units_cases c with ⟨hunits, hhigh⟩ | ⟨high, low, hunits, hhigh, hlow, hjoin⟩
  · rw [hunits]
    cases rest with
    | nil =>
      show (charOfNat c.toNat).map (fun c => [c]) = some [c]
      rw [charOfNat_toNat]
      rfl
    | cons low rest =>
      rw [List.singleton_append, fromUtf16, hhigh, Bool.false_and, if_neg Bool.false_ne_true,
        charOfNat_toNat]
      cases fromUtf16 (low :: rest) <;> rfl
  · rw [hunits, List.cons_append, List.singleton_append, fromUtf16, hhigh, hlow, Bool.true_and,
      if_pos rfl, hjoin, charOfNat_toNat]
    cases fromUtf16 rest <;> rfl

theorem fromUtf16_units : ∀ s : Str, fromUtf16 (s.flatMap utf16Units) = some s
  | [] => rfl
  | c :: s => by rw [List.flatMap_cons, fromUtf16_cons, fromUtf16_units s]; rfl

/-! ## Escapes -/

def hexValue (c : Char) : Option Nat :=
  if '0' ≤ c ∧ c ≤ '9' then some (c.toNat - 48)
  else if 'a' ≤ c ∧ c ≤ 'f' then some (c.toNat - 97 + 10)
  else if 'A' ≤ c ∧ c ≤ 'F' then some (c.toNat - 65 + 10)
  else none

def hex4 (n : Nat) : Str :=
  [Nat.digitChar (n / 4096 % 16), Nat.digitChar (n / 256 % 16), Nat.digitChar (n / 16 % 16),
    Nat.digitChar (n % 16)]

def hexValue4 (a b c d : Char) : Option Nat :=
  match hexValue a, hexValue b, hexValue c, hexValue d with
  | some a, some b, some c, some d => some (a * 4096 + b * 256 + c * 16 + d)
  | _, _, _, _ => none

theorem hexValue_digitChar : ∀ n < 16, hexValue (Nat.digitChar n) = some n := by decide

theorem hexValue4_hex4 {n : Nat} (h : n < 0x10000) :
    hexValue4 (Nat.digitChar (n / 4096 % 16)) (Nat.digitChar (n / 256 % 16))
      (Nat.digitChar (n / 16 % 16)) (Nat.digitChar (n % 16)) = some n := by
  unfold hexValue4
  rw [hexValue_digitChar _ (by omega), hexValue_digitChar _ (by omega),
    hexValue_digitChar _ (by omega), hexValue_digitChar _ (by omega)]
  dsimp only
  congr 1
  omega

/-- The escapes of one character. -/
def shortEscapes : List (Nat × Char) :=
  [(0x22, '"'), (0x5C, '\\'), (0x0A, 'n'), (0x0D, 'r'), (0x09, 't'), (0x0C, 'f'), (0x08, 'b')]

/-- How a code unit is written. -/
def escapeUnit (n : Nat) : Str :=
  match shortEscapes.lookup n with
  | some c => ['\\', c]
  | none => if 0x20 ≤ n ∧ n < 0x7F then [Char.ofNat n] else '\\' :: 'u' :: hex4 n

/-- What an escape of one character stands for; `/` may be escaped as well. -/
def unescape (c : Char) : Option Nat :=
  if c = '/' then some 0x2F
  else (shortEscapes.find? fun e => e.2 = c).map Prod.fst

/-- The code units of a string, behind its opening quote, and what follows the closing one. -/
def parseUnits : Str → Option (List Nat × Str)
  | [] => none
  | '"' :: rest => some ([], rest)
  | '\\' :: 'u' :: a :: b :: c :: d :: rest =>
    match hexValue4 a b c d, parseUnits rest with
    | some n, some (ns, rest) => some (n :: ns, rest)
    | _, _ => none
  | '\\' :: c :: rest =>
    match unescape c, parseUnits rest with
    | some n, some (ns, rest) => some (n :: ns, rest)
    | _, _ => none
  | ['\\'] => none
  | c :: rest =>
    -- control characters are not allowed in a string
    if c.toNat < 0x20 then none
    else
      match parseUnits rest with
      | some (ns, rest) => some (c.toNat :: ns, rest)
      | none => none

theorem lookup_shortEscapes {n : Nat} {c : Char} (h : shortEscapes.lookup n = some c) :
    c ≠ 'u' ∧ c ≠ '/' ∧ unescape c = some n := by
  obtain ⟨front, back, heq, -⟩ := List.lookup_eq_some_iff.mp h
  have hmem : (n, c) ∈ shortEscapes := by
    rw [heq]
    exact List.mem_append_right _ List.mem_cons_self
  have hall : ∀ e ∈ shortEscapes, e.2 ≠ 'u' ∧ e.2 ≠ '/' ∧ unescape e.2 = some e.1 := by decide
  exact hall _ hmem

theorem parseUnits_escape {c : Char} (hc : c ≠ 'u') (rest : Str) :
    parseUnits ('\\' :: c :: rest) =
      match unescape c, parseUnits rest with
      | some n, some (ns, rest) => some (n :: ns, rest)
      | _, _ => none := by
  rw [parseUnits]
  intro a b d e rest' heq
  exact absurd heq hc

theorem parseUnits_plain {c : Char} (hquote : c ≠ '"') (hback : c ≠ '\\') (hc : 0x20 ≤ c.toNat)
    (rest : Str) : parseUnits (c :: rest) =
      match parseUnits rest with
      | some (ns, rest) => some (c.toNat :: ns, rest)
      | none => none := by
  rw [parseUnits]
  · rw [if_neg (by omega)]
  all_goals simp [hquote, hback]

theorem parseUnits_unit {n : Nat} (h : n < 0x10000) (rest : Str) :
    parseUnits (escapeUnit n ++ rest) =
      (parseUnits rest).map fun p => (n :: p.1, p.2) := by
  unfold escapeUnit
  cases hshort : shortEscapes.lookup n with
  | some c =>
    obtain ⟨hu, -, hunescape⟩ := lookup_shortEscapes hshort
    show parseUnits ('\\' :: c :: rest) = _
    rw [parseUnits_escape hu, hunescape]
    cases parseUnits rest <;> rfl
  | none =>
    dsimp only
    split
    next hprintable =>
      have hval : (Char.ofNat n).toNat = n := by
        rw [Char.ofNat, dif_pos (Or.inl (by omega))]
        rfl
      have hne : ∀ m c, (m, c) ∈ shortEscapes → n ≠ m := by
        rintro m c hmem rfl
        rw [List.lookup_eq_none_iff] at hshort
        exact absurd (hshort _ hmem) (by simp)
      show parseUnits (Char.ofNat n :: rest) = _
      rw [parseUnits_plain, hval]
      · cases parseUnits rest <;> rfl
      · intro hc
        rw [hc] at hval
        exact hne 0x22 '"' (by decide) hval.symm
      · intro hc
        rw [hc] at hval
        exact hne 0x5C '\\' (by decide) hval.symm
      · omega
    next =>
      show parseUnits ('\\' :: 'u' :: _ :: _ :: _ :: _ :: rest) = _
      rw [parseUnits, hexValue4_hex4 h]
      cases parseUnits rest <;> rfl

/-! ## Codecs -/

def isSpace (c : Char) : Bool := c == ' ' || c == '\t' || c == '\n' || c == '\r'

def skipSpaces (text : Str) : Str := text.dropWhile isSpace

/-- The characters that a string, a list or an object begins with. -/
def isOpening (c : Char) : Bool := c == '"' || c == '[' || c == '{'

theorem skipSpaces_cons {c : Char} (h : isSpace c = false) (text : Str) :
    skipSpaces (c :: text) = c :: text := List.dropWhile_cons_of_neg (by simp [h])

theorem isSpace_of_isOpening {c : Char} (h : isOpening c = true) : isSpace c = false := by
  unfold isOpening at h
  rw [Bool.or_eq_true, Bool.or_eq_true, beq_iff_eq, beq_iff_eq, beq_iff_eq] at h
  rcases h with (rfl | rfl) | rfl <;> rfl

/-- A way to write the values of a type and to read them back. -/
structure Codec (α : Type) where
  print : α → Str
  /-- Reads a value at the head of a text, and returns what follows it. -/
  parse : Str → Option (α × Str)
  print_head : ∀ a, ∃ c text, print a = c :: text ∧ isOpening c = true
  parse_print : ∀ a rest, parse (print a ++ rest) = some (a, rest)

namespace Codec

variable {α : Type}

/-- Python's `json.dumps`. -/
def dumps (codec : Codec α) (a : α) : Str := codec.print a

/-- Python's `json.loads`; nothing but whitespace may stand around the value. -/
def loads (codec : Codec α) (text : Str) : Option α :=
  match codec.parse (skipSpaces text) with
  | some (a, rest) => if skipSpaces rest = [] then some a else none
  | none => none

theorem skipSpaces_print (codec : Codec α) (a : α) (rest : Str) :
    skipSpaces (codec.print a ++ rest) = codec.print a ++ rest := by
  obtain ⟨c, text, hprint, hc⟩ := codec.print_head a
  rw [hprint, List.cons_append, skipSpaces_cons (isSpace_of_isOpening hc)]

theorem loads_dumps (codec : Codec α) (a : α) : codec.loads (codec.dumps a) = some a := by
  have hskip := codec.skipSpaces_print a []
  have hparse := codec.parse_print a []
  rw [List.append_nil] at hskip hparse
  unfold loads dumps
  rw [hskip, hparse]
  rfl

/-! ### Strings -/

def printString (s : Str) : Str := '"' :: ((s.flatMap utf16Units).flatMap escapeUnit ++ ['"'])

def parseString : Str → Option (Str × Str)
  | [] => none
  | c :: text =>
    if c ≠ '"' then none
    else
      match parseUnits text with
      | some (units, rest) => (fromUtf16 units).map fun s => (s, rest)
      | none => none

theorem parseUnits_units (rest : Str) : ∀ {units : List Nat}, (∀ n ∈ units, n < 0x10000) →
    parseUnits (units.flatMap escapeUnit ++ '"' :: rest) = some (units, rest)
  | [], _ => rfl
  | n :: units, h => by
    rw [List.flatMap_cons, List.append_assoc, parseUnits_unit (h n List.mem_cons_self),
      parseUnits_units rest fun m hm => h m (List.mem_cons_of_mem _ hm)]
    rfl

theorem utf16Units_lt (c : Char) : ∀ n ∈ utf16Units c, n < 0x10000 := by
  have hbounds := toNat_bounds c
  unfold utf16Units
  intro n hn
  split at hn
  next h =>
    rw [List.mem_singleton] at hn
    omega
  next h =>
    rw [List.mem_cons, List.mem_singleton] at hn
    rcases hn with hn | hn <;> omega

def string : Codec Str where
  print := printString
  parse := parseString
  print_head _ := ⟨'"', _, rfl, rfl⟩
  parse_print s rest := by
    have hunits : ∀ n ∈ s.flatMap utf16Units, n < 0x10000 := by
      intro n hn
      obtain ⟨c, -, hc⟩ := List.mem_flatMap.mp hn
      exact utf16Units_lt c n hc
    show parseString ('"' :: ((s.flatMap utf16Units).flatMap escapeUnit ++ ['"'] ++ rest)) = _
    rw [List.append_assoc, List.singleton_append, parseString, if_neg (not_not_intro rfl),
      parseUnits_units rest hunits]
    dsimp only
    rw [fromUtf16_units]
    rfl

/-! ### Lists -/

/-- The values with `, ` between them. -/
def printItems (codec : Codec α) : List α → Str
  | [] => []
  | [a] => codec.print a
  | a :: b :: items => codec.print a ++ (',' :: ' ' :: printItems codec (b :: items))

/-- Values up to the closing bracket; `fuel` bounds their number. -/
def parseItems (codec : Codec α) (closing : Char) : Nat → Str → Option (List α × Str)
  | 0, _ => none
  | fuel + 1, text =>
    match codec.parse (skipSpaces text) with
    | none => none
    | some (a, rest) =>
      match skipSpaces rest with
      | [] => none
      | c :: rest =>
        if c = ',' then (parseItems codec closing fuel rest).map fun p => (a :: p.1, p.2)
        else if c = closing then some ([a], rest)
        else none

def parseList (codec : Codec α) (opening closing : Char) : Str → Option (List α × Str)
  | [] => none
  | c :: text =>
    if c ≠ opening then none
    else
      match skipSpaces text with
      | [] => none
      | c :: rest =>
        if c = closing then some ([], rest) else parseItems codec closing (text.length + 1) text

theorem printItems_head (codec : Codec α) {items : List α} (h : items ≠ []) :
    ∃ c text, codec.printItems items = c :: text ∧ isOpening c = true := by
  rcases items with - | ⟨a, - | ⟨b, items⟩⟩
  · exact absurd rfl h
  · exact codec.print_head a
  · obtain ⟨c, text, hprint, hc⟩ := codec.print_head a
    refine ⟨c, text ++ (',' :: ' ' :: codec.printItems (b :: items)), ?_, hc⟩
    rw [printItems, hprint]
    rfl

theorem length_le_printItems (codec : Codec α) : ∀ items : List α,
    items.length ≤ (codec.printItems items).length
  | [] => Nat.le_refl _
  | [a] => by
    obtain ⟨c, text, hprint, -⟩ := codec.print_head a
    rw [printItems, hprint]
    exact Nat.succ_le_succ (Nat.zero_le _)
  | a :: b :: items => by
    have ih := length_le_printItems codec (b :: items)
    rw [printItems]
    simp only [List.length_append, List.length_cons] at ih ⊢
    omega

theorem parseItems_print (codec : Codec α) {closing : Char} (hcomma : closing ≠ ',')
    (hspace : isSpace closing = false) (rest : Str) : ∀ (fuel : Nat) {items : List α},
    items ≠ [] → items.length ≤ fuel →
    codec.parseItems closing fuel (codec.printItems items ++ closing :: rest) =
      some (items, rest)
  | _, [], h, _ => absurd rfl h
  | 0, a :: items, _, h => absurd h (Nat.not_succ_le_zero _)
  | fuel + 1, [a], _, _ => by
    rw [printItems, parseItems, skipSpaces_print, parse_print]
    dsimp only
    rw [skipSpaces_cons hspace]
    dsimp only
    rw [if_neg hcomma, if_pos rfl]
  | fuel + 1, a :: b :: items, _, h => by
    have ih := parseItems_print codec hcomma hspace rest fuel (List.cons_ne_nil b items)
      (Nat.le_of_succ_le_succ h)
    -- the blank behind the comma is skipped by the parser of the next item
    have hblank : codec.parseItems closing fuel
        (' ' :: (codec.printItems (b :: items) ++ closing :: rest)) = some (b :: items, rest) := by
      rw [← ih]
      cases fuel <;> rfl
    rw [printItems, List.append_assoc, parseItems, skipSpaces_print, parse_print]
    dsimp only [List.cons_append]
    rw [skipSpaces_cons (by rfl)]
    dsimp only
    rw [if_pos rfl, hblank]
    rfl

theorem closing_ne_of_isOpening {c closing : Char} (hc : isOpening c = true)
    (hclosing : isOpening closing = false) : c ≠ closing := by
  rintro rfl
  rw [hc] at hclosing
  exact Bool.noConfusion hclosing

theorem parseList_print (codec : Codec α) {opening closing : Char} (hcomma : closing ≠ ',')
    (hspace : isSpace closing = false) (hclosing : isOpening closing = false) (items : List α)
    (rest : Str) :
    codec.parseList opening closing (opening :: (codec.printItems items ++ closing :: rest)) =
      some (items, rest) := by
  rw [parseList, if_neg (not_not_intro rfl)]
  by_cases hitems : items = []
  · subst hitems
    rw [printItems, List.nil_append, skipSpaces_cons hspace]
    dsimp only
    rw [if_pos rfl]
  · obtain ⟨c, text, hprint, hc⟩ := codec.printItems_head hitems
    have hlength := codec.length_le_printItems items
    have hparse := codec.parseItems_print hcomma hspace rest
      ((codec.printItems items ++ closing :: rest).length + 1) hitems
      (by rw [List.length_append]; omega)
    have hskip : skipSpaces (codec.printItems items ++ closing :: rest) =
        c :: (text ++ closing :: rest) := by
      rw [hprint, List.cons_append, skipSpaces_cons (isSpace_of_isOpening hc)]
    rw [hskip]
    dsimp only
    rw [if_neg (closing_ne_of_isOpening hc hclosing), hparse]

/-- The texts between two brackets. -/
def bracketed (codec : Codec α) (opening closing : Char) (hopening : isOpening opening = true)
    (hcomma : closing ≠ ',') (hspace : isSpace closing = false)
    (hclosing : isOpening closing = false) : Codec (List α) where
  print items := opening :: (codec.printItems items ++ [closing])
  parse := codec.parseList opening closing
  print_head items := ⟨opening, _, rfl, hopening⟩
  parse_print items rest := by
    rw [List.cons_append, List.append_assoc, List.singleton_append]
    exact codec.parseList_print hcomma hspace hclosing items rest

def array (codec : Codec α) : Codec (List α) :=
  codec.bracketed '[' ']' rfl (by decide) rfl rfl

/-! ### Objects -/

/-- One member of an object. -/
def parseMember (codec : Codec α) (text : Str) : Option ((Str × α) × Str) :=
  match string.parse text with
  | none => none
  | some (key, rest) =>
    match skipSpaces rest with
    | [] => none
    | c :: rest =>
      if c ≠ ':' then none
      else (codec.parse (skipSpaces rest)).map fun p => ((key, p.1), p.2)

def member (codec : Codec α) : Codec (Str × α) where
  print m := string.print m.1 ++ (':' :: ' ' :: codec.print m.2)
  parse := codec.parseMember
  print_head m := ⟨'"', _, rfl, rfl⟩
  parse_print m rest := by
    have hblank : skipSpaces (' ' :: (codec.print m.2 ++ rest)) = codec.print m.2 ++ rest :=
      codec.skipSpaces_print m.2 rest
    rw [List.append_assoc, parseMember, parse_print]
    dsimp only
    rw [List.cons_append, skipSpaces_cons (by rfl)]
    dsimp only
    rw [if_neg (not_not_intro rfl), List.cons_append, hblank, parse_print]
    rfl

/-- The members of an object, in the order of the text. -/
def object (codec : Codec α) : Codec (List (Str × α)) :=
  codec.member.bracketed '{' '}' rfl (by decide) rfl rfl

example : string.array.object.dumps [(['é'], [['a', '"'], []]), ([], [])] =
    "\x7b\"\\u00e9\": [\"a\\\"\", \"\"], \"\": []\x7d".toList := by decide

end Codec

end Reboot.Lib
