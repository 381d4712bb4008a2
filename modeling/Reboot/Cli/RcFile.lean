import Mathlib.Data.Char
import Mathlib.Data.List.Lex
import Mathlib.Data.List.Sort
import Reboot.Lib.CommandLine
import Reboot.Lib.Dict

/-!
# Reading a `.rbtrc` file

`_read_flags_from_dot_rc` of the `ArgumentParser` in `reboot/cli/common/rc.py`: a line has a
subcommand, a config maybe, and arguments, and the arguments of all lines with the same subcommand
and config are put together.

> `readFlags_getD`: what is found for a subcommand and a config are the arguments of their lines,
> each line once and in the order of the file.

Mirroring notes:
- The file is the list of its lines. The regular expressions are written out: of the alternatives
  for the subcommand, the first in the sorted order after which the rest of the line matches is
  taken; one blank stands before the arguments, which then go to the end of the line.
- `\s` and `str.strip` know the same characters. Letters are ASCII, as in the patterns.
- A path is its text; `str(root / path)` drops empty and `.` components (`joinPath`).
-/

namespace Reboot.Cli

open Reboot.Lib
open Reboot.Lib.CommandLine (Arity Parser shlexSplit dashDash)

/-- Why a command line is not parsed. -/
inductive Failure
  /-- `terminal.fail(message)` -/
  | fail (message : Str)
  /-- `parser.error(message)` with a message of our own -/
  | error (message : Str)
  /-- `argparse` exits -/
  | exit
  /-- `shlex.split` raises -/
  | quotation
  /-- the subcommand is not the one it was -/
  | assertion
  /-- the loop over the configs ran out of fuel; not part of the code -/
  | exhausted
  deriving DecidableEq

inductive ArgumentType
  | bool
  | path
  | other
  deriving DecidableEq

/-- `ArgumentParser`, once its arguments were added. -/
structure ArgumentParser where
  parser : Parser
  /-- the keys of `_subcommand_parsers` -/
  subcommands : List Str
  subcommand : Str
  /-- `_argument_types` of the parser of the subcommand -/
  argumentTypes : List (Str × ArgumentType)
  /-- `_arg_by_envvar_name` of the parser of the subcommand -/
  argByEnvvarName : List (Str × Str)
  dotRcFilename : Str
  cwd : Str
  /-- what else `parse_known_args` exits for -/
  rejects : List Str → Bool
  /-- what `parse_args` exits for beyond that: arguments that are not recognized -/
  refuses : List Str → Bool

/-! ## Paths -/

def pathParts (path : Str) : List Str := (path.splitOn '/').filter fun p => p ≠ [] ∧ p ≠ ['.']

/-- `str(root / path)` for an absolute root. -/
def joinPath (root path : Str) : Str :=
  '/' :: List.intercalate ['/'] (pathParts root ++ pathParts path)

/-- `Path(path).parent`. -/
def parentPath (path : Str) : Str := '/' :: List.intercalate ['/'] (pathParts path).dropLast

namespace ArgumentParser

variable (cli : ArgumentParser)

/-- `_normalize_path_arguments`, for one argument. -/
def normalize (root arg : Str) : Str :=
  match cutFirst '=' arg with
  | none => arg
  | some (name, value) =>
    if cli.argumentTypes.lookup name ≠ some .path then arg
    else if ['/'].isPrefixOf value then arg
    else name ++ '=' :: joinPath root value

end ArgumentParser

/-! ## Lines -/

/-- `COMMON_PATTERN` -/
def commonPattern : Str := ['.', '.', '.']

/-- A subcommand, or `...`, with a config or none. -/
abbrev Key := Str × Option Str

structure RcLine where
  key : Key
  arguments : List Str
  deriving DecidableEq

def isSpace (c : Char) : Bool :=
  let n := c.toNat
  (9 ≤ n && n ≤ 13) || (28 ≤ n && n ≤ 32) || n == 0x85 || n == 0xa0 || n == 0x1680 ||
    (0x2000 ≤ n && n ≤ 0x200a) || n == 0x2028 || n == 0x2029 || n == 0x202f || n == 0x205f ||
    n == 0x3000

def strip (s : Str) : Str := (s.dropWhile isSpace).reverse.dropWhile isSpace |>.reverse

def isLetter (c : Char) : Bool := ('a' ≤ c && c ≤ 'z') || ('A' ≤ c && c ≤ 'Z')

def isConfigChar (c : Char) : Bool := isLetter c || ('0' ≤ c && c ≤ '9') || c == '-'

/-- One blank and the arguments. -/
def matchArguments : Str → Option Str
  | blank :: c :: s => if isSpace blank && !isSpace c then some (c :: s) else none
  | _ => none

/-- What follows the subcommand: a config maybe, and the arguments. -/
def matchRest : Str → Option (Option Str × Str)
  | ':' :: c :: s =>
    if isLetter c then
      (matchArguments (s.dropWhile isConfigChar)).map
        fun arguments => (some (c :: s.takeWhile isConfigChar), arguments)
    else none
  | s => (matchArguments s).map fun arguments => (none, arguments)

/-- A line against one alternative for the subcommand. -/
def matchSubcommand (line subcommand : Str) : Option (Str × Option Str × Str) :=
  if subcommand.isPrefixOf line then
    (matchRest (line.drop subcommand.length)).map fun rest => (subcommand, rest)
  else none

namespace ArgumentParser

variable (cli : ArgumentParser)

/-- The longest first. -/
def validSubcommands : List Str :=
  cli.subcommands.insertionSort fun x y => y.length < x.length ∨ x.length = y.length ∧ x ≤ y

/-- The line that is at `number` of the file at `dotRc`; `none` if there is nothing on it. -/
def readLine (dotRc : Str) (number : Nat) (line : Str) : Except Failure (Option RcLine) :=
  let line := (strip line).takeWhile (· ≠ '#')
  let place := dotRc ++ ':' :: (toString number).toList ++ ": ".toList
  if line = [] then .ok none
  else
    match (commonPattern :: cli.validSubcommands).findSome? (matchSubcommand line) with
    | some (subcommand, config, arguments) =>
      match shlexSplit arguments with
      | none => .error .quotation
      | some words =>
        .ok (some ⟨(subcommand, config), words.map (cli.normalize (parentPath dotRc))⟩)
    | none =>
      if (commonPattern :: cli.validSubcommands).any (·.isPrefixOf line) then
        .error (.fail (place ++ "failed to parse '".toList ++ cli.dotRcFilename ++
          "' file:\n'".toList ++ line ++ ['\'']))
      else
        .error (.fail (place ++ '\'' :: strip (line.takeWhile fun c => c ≠ '-' ∧ c ≠ ':') ++
          "' is not a valid subcommand (available subcommands: ".toList ++
          List.intercalate ", ".toList cli.validSubcommands ++ [')']))

end ArgumentParser

/-! ## Flags -/

abbrev Flags := Dict Key (List Str)

/-- `flags[key].extend(arguments)` -/
def Flags.extend (flags : Flags) (line : RcLine) : Flags :=
  flags.set line.key ((flags.find? line.key).getD [] ++ line.arguments)

/-- The arguments of the lines with a key, in the order of the lines. -/
def argumentsOf (lines : List RcLine) (key : Key) : List Str :=
  (lines.filter fun line => line.key = key).flatMap RcLine.arguments

theorem argumentsOf_cons_self (line : RcLine) (lines : List RcLine) :
    argumentsOf (line :: lines) line.key = line.arguments ++ argumentsOf lines line.key := by
  unfold argumentsOf
  rw [List.filter_cons, if_pos (decide_eq_true rfl), List.flatMap_cons]

theorem argumentsOf_cons_of_ne {line : RcLine} {key : Key} (h : line.key ≠ key)
    (lines : List RcLine) : argumentsOf (line :: lines) key = argumentsOf lines key := by
  unfold argumentsOf
  rw [List.filter_cons, if_neg fun hdec => h (of_decide_eq_true hdec)]

theorem Flags.find?_extend_self (flags : Flags) (line : RcLine) :
    (flags.extend line).find? line.key =
      some ((flags.find? line.key).getD [] ++ line.arguments) :=
  flags.find?_set_self line.key _

theorem Flags.find?_extend_of_ne (flags : Flags) {line : RcLine} {key : Key}
    (h : line.key ≠ key) : (flags.extend line).find? key = flags.find? key :=
  flags.find?_set_of_ne h.symm _

namespace ArgumentParser

variable (cli : ArgumentParser)

def readFrom (dotRc : Str) (number : Nat) (flags : Flags) : List Str → Except Failure Flags
  | [] => .ok flags
  | line :: lines =>
    match cli.readLine dotRc number line with
    | .error failure => .error failure
    | .ok none => readFrom dotRc (number + 1) flags lines
    | .ok (some rcLine) => readFrom dotRc (number + 1) (flags.extend rcLine) lines

/-- `_read_flags_from_dot_rc` -/
def readFlags (dotRc : Str) (lines : List Str) : Except Failure Flags :=
  cli.readFrom dotRc 1 .empty lines

/-- The lines of a file that has something on them. -/
def rcLines (dotRc : Str) (number : Nat) : List Str → List RcLine
  | [] => []
  | line :: lines =>
    match cli.readLine dotRc number line with
    | .ok (some rcLine) => rcLine :: rcLines dotRc (number + 1) lines
    | _ => rcLines dotRc (number + 1) lines

variable {cli}

theorem readFrom_find? {dotRc : Str} {lines : List Str} {number : Nat} {flags flags' : Flags}
    (h : cli.readFrom dotRc number flags lines = .ok flags') (key : Key) :
    (flags'.find? key).getD [] =
      (flags.find? key).getD [] ++ argumentsOf (cli.rcLines dotRc number lines) key ∧
    ((flags'.find? key).isSome ↔ (flags.find? key).isSome ∨
      ∃ line ∈ cli.rcLines dotRc number lines, line.key = key) := by
  induction lines generalizing number flags with
  | nil =>
    obtain rfl := Except.ok.inj h
    refine ⟨(List.append_nil _).symm, Or.inl, ?_⟩
    rintro (hsome | ⟨line, hmem, -⟩)
    · exact hsome
    · exact absurd hmem List.not_mem_nil
  | cons line lines ih =>
    unfold readFrom at h
    unfold rcLines
    cases hline : cli.readLine dotRc number line with
    | error failure =>
      rw [hline] at h
      exact nomatch h
    | ok read =>
      rw [hline] at h
      cases read with
      | none => exact ih h
      | some rcLine =>
        obtain ⟨hget, hsome⟩ := ih h
        dsimp only
        by_cases hkey : rcLine.key = key
        · subst hkey
          rw [hget, hsome, flags.find?_extend_self, argumentsOf_cons_self, Option.getD_some,
            List.append_assoc]
          exact ⟨rfl, fun _ => Or.inr ⟨rcLine, List.mem_cons_self, rfl⟩, fun _ => Or.inl rfl⟩
        · rw [hget, hsome, flags.find?_extend_of_ne hkey, argumentsOf_cons_of_ne hkey]
          refine ⟨rfl, or_congr_right ?_⟩
          constructor
          · rintro ⟨line', hmem, he⟩
            exact ⟨line', List.mem_cons_of_mem _ hmem, he⟩
          · rintro ⟨line', hmem, he⟩
            rcases List.mem_cons.mp hmem with rfl | hmem
            · exact absurd he hkey
            · exact ⟨line', hmem, he⟩

theorem readFlags_getD {dotRc : Str} {lines : List Str} {flags : Flags}
    (h : cli.readFlags dotRc lines = .ok flags) (key : Key) :
    (flags.find? key).getD [] = argumentsOf (cli.rcLines dotRc 1 lines) key :=
  (readFrom_find? h key).1

end ArgumentParser

end Reboot.Cli
