import Reboot.Lib.Text

/-!
# Command lines

What Python's standard library makes of the words of a command line: `shlex.split`, and the walk
of an `argparse` parser over its arguments, as far as it decides which flags were given with which
values.

An argument is classified by the parser that is at it: a flag it knows, with its value after `=` or
in the next argument; something that looks like a flag; or a positional, which selects a subparser
or goes to the command. After `--`, and in a positional that takes the remainder, nothing is a
flag: `scan_dashDash` says that a walk reads the same without what follows the `--`.

Abbreviations are off. What else a parser checks, of the number of its positionals, of values, of
flags that must be given or were given twice, is not part of the walk.
-/

namespace Reboot.Lib.CommandLine

/-! ## `shlex.split` -/

inductive Quoting
  | plain
  | escape
  | single
  | double
  | doubleEscape

/-- The words from here on, `word` being the one that is read. -/
def splitFrom : Quoting → Option Str → Str → Option (List Str)
  | .plain, word, [] => some word.toList
  | _, _, [] => none
  | .plain, word, c :: s =>
    if c = ' ' ∨ c = '\t' ∨ c = '\r' ∨ c = '\n' then
      (splitFrom .plain none s).map (word.toList ++ ·)
    else if c = '\\' then splitFrom .escape (some (word.getD [])) s
    else if c = '\'' then splitFrom .single (some (word.getD [])) s
    else if c = '"' then splitFrom .double (some (word.getD [])) s
    else splitFrom .plain (some (word.getD [] ++ [c])) s
  | .escape, word, c :: s => splitFrom .plain (some (word.getD [] ++ [c])) s
  | .single, word, c :: s =>
    if c = '\'' then splitFrom .plain word s
    else splitFrom .single (some (word.getD [] ++ [c])) s
  | .double, word, c :: s =>
    if c = '"' then splitFrom .plain word s
    else if c = '\\' then splitFrom .doubleEscape word s
    else splitFrom .double (some (word.getD [] ++ [c])) s
  | .doubleEscape, word, c :: s =>
    -- within double quotes the backslash only escapes a quote and itself
    if c = '"' ∨ c = '\\' then splitFrom .double (some (word.getD [] ++ [c])) s
    else splitFrom .double (some (word.getD [] ++ ['\\', c])) s

/-- `shlex.split`; `none` if a quotation is left open. -/
def shlexSplit (s : Str) : Option (List Str) := splitFrom .plain none s

example : shlexSplit "--env='A=b c' x\\ y \"\"".toList =
    some ["--env=A=b c".toList, "x y".toList, []] := by decide

/-! ## The walk of a parser -/

inductive Arity
  | value
  | bare
  /-- prints something and exits -/
  | exits
  deriving DecidableEq

inductive Parser
  /-- a positional selects the parser for what follows -/
  | group (flags : List (Str × Arity)) (subparsers : List (Str × Parser))
  /-- positionals go to the command; the first takes what follows as well if `remainder` -/
  | command (flags : List (Str × Arity)) (remainder : Bool)

def Parser.flags : Parser → List (Str × Arity)
  | group flags _ | command flags _ => flags

def dashDash : Str := ['-', '-']

def allDigits (s : Str) : Bool := s.all Char.isDigit

/-- `-` and a number. -/
def isNegativeNumber : Str → Bool
  | '-' :: s =>
    (s != [] && allDigits s) ||
      match cutFirst '.' s with
      | some (whole, fraction) => allDigits whole && fraction != [] && allDigits fraction
      | none => false
  | _ => false

inductive Kind
  | positional
  /-- looks like a flag, which the parser does not know -/
  | unknown
  | exits
  | bare
  | explicit (flag value : Str)
  | separate (flag : Str)
  deriving DecidableEq

def unknownKind (arg : Str) : Kind :=
  -- `-h` followed by something is taken for `-h`
  if ['-', 'h'].isPrefixOf arg then .exits
  else if isNegativeNumber arg || arg.contains ' ' then .positional
  else .unknown

def kindOf (flags : List (Str × Arity)) : Str → Kind
  | '-' :: rest =>
    match flags.lookup ('-' :: rest) with
    | some .value => .separate ('-' :: rest)
    | some .bare => .bare
    | some .exits => .exits
    | none =>
      if rest = [] then .positional
      else
        match cutFirst '=' ('-' :: rest) with
        | none => unknownKind ('-' :: rest)
        | some (flag, value) =>
          match flags.lookup flag with
          | some .value => .explicit flag value
          | some _ => .exits
          | none => unknownKind ('-' :: rest)
  | _ => .positional

structure Namespace where
  /-- the subparsers that were selected -/
  subcommand : List Str
  /-- the values that the last of them was given for its flags -/
  values : List (Str × Str)
  deriving DecidableEq

/-- The namespace when the flags are over; a subcommand is required. -/
def Parser.finish (subcommand : List Str) (values : List (Str × Str)) : Parser → Option Namespace
  | group _ _ => none
  | command _ _ => some ⟨subcommand, values⟩

/-- The walk of a parser over its arguments; `none` if it exits. -/
def scan (p : Parser) (subcommand : List Str) (values : List (Str × Str)) :
    List Str → Option Namespace
  | [] => p.finish subcommand values
  | arg :: args =>
    if arg = dashDash then p.finish subcommand values
    else
      match kindOf p.flags arg with
      | .exits => none
      | .unknown | .bare => scan p subcommand values args
      | .explicit flag value => scan p subcommand (values ++ [(flag, value)]) args
      | .separate flag =>
        match args with
        | [] => none
        | value :: rest =>
          if value ≠ dashDash ∧ kindOf p.flags value = .positional then
            scan p subcommand (values ++ [(flag, value)]) rest
          else none
      | .positional =>
        match p with
        | .group _ subparsers =>
          match subparsers.lookup arg with
          -- a subparser has a namespace of its own, with its defaults, which wins over this one
          | some q => scan q (subcommand ++ [arg]) [] args
          | none => none
        | .command flags remainder =>
          if remainder then some ⟨subcommand, values⟩
          else scan (.command flags false) subcommand values args

/-- What follows a `--` does not matter to the flags before it. -/
theorem scan_dashDash (b : List Str) {ns : Namespace} {a : List Str} (ha : dashDash ∉ a)
    {p : Parser} {subcommand : List Str} {values : List (Str × Str)}
    (h : scan p subcommand values (a ++ dashDash :: b) = some ns) :
    scan p subcommand values a = some ns := by
  induction hn : a.length using Nat.strongRecOn generalizing a p subcommand values with
  | _ n ih =>
    cases a with
    | nil =>
      rw [List.nil_append] at h
      unfold scan at h ⊢
      rwa [if_pos rfl] at h
    | cons arg args =>
      rw [List.mem_cons, not_or] at ha
      obtain ⟨harg, hargs⟩ := ha
      have hlt : args.length < n := by
        rw [← hn, List.length_cons]
        omega
      have hrest : ∀ (q : Parser) (sub : List Str) (vals : List (Str × Str)),
          scan q sub vals (args ++ dashDash :: b) = some ns → scan q sub vals args = some ns :=
        fun q sub vals hq => ih _ hlt hargs hq rfl
      rw [List.cons_append] at h
      unfold scan at h ⊢
      rw [if_neg (Ne.symm harg)] at h ⊢
      cases hkind : kindOf p.flags arg with
      | exits => rw [hkind] at h; exact nomatch h
      | unknown => rw [hkind] at h; exact hrest _ _ _ h
      | bare => rw [hkind] at h; exact hrest _ _ _ h
      | explicit flag value => rw [hkind] at h; exact hrest _ _ _ h
      | separate flag =>
        rw [hkind] at h
        cases args with
        | nil =>
          have hnot : ¬ (dashDash ≠ dashDash ∧ kindOf p.flags dashDash = .positional) :=
            fun hne => hne.1 rfl
          dsimp only [List.nil_append] at h
          rw [if_neg hnot] at h
          exact nomatch h
        | cons value rest =>
          rw [List.mem_cons, not_or] at hargs
          dsimp only [List.cons_append] at h ⊢
          split at h
          · next hvalue =>
            rw [if_pos hvalue]
            rw [List.length_cons] at hlt
            exact ih rest.length (by omega) hargs.2 h rfl
          · exact nomatch h
      | positional =>
        rw [hkind] at h
        cases p with
        | group flags subparsers =>
          dsimp only at h ⊢
          cases hsub : subparsers.lookup arg with
          | none => rw [hsub] at h; exact nomatch h
          | some q => rw [hsub] at h; exact hrest _ _ _ h
        | command flags remainder =>
          dsimp only at h ⊢
          cases remainder with
          | true => exact h
          | false => exact hrest _ _ _ h

end Reboot.Lib.CommandLine
