import Mathlib.Data.List.Nodup
import Mathlib.Data.List.TakeWhile
import Reboot.Cli.RcFile

/-!
# Expanding the `.rbtrc` file into a command line

`parse_args` of the `ArgumentParser` in `reboot/cli/common/rc.py`: the arguments of the command
line, the flags that environment variables give, and the lines of the file that apply, among them
those of the configs that `--config` names, also in the lines themselves. What stands behind a `--`
is not for the parser, and is returned beside its namespace.

> `Exact`: the parser is given what each of these sources has before its `--`, and what is returned
> is what they have behind it.

The flags of the environment and of the file are put behind the command line, so that a `--` on the
command line is before them: they are no flags any more, and neither is a `--config` among them.
The same happens behind a `--` in the file. `rcExpansion` has it that nothing else is in the way:
the expansion is exact if and only if nothing follows a source with a `--`. That the loop over the
configs ends holds always.

Mirroring notes:
- `argv` is kept as the list of the pieces it was put together from, without the name of the
  program; a piece may be empty. The list `configs` of the two dictionaries are their keys; what
  they have for a key was added to `argv`, and is of no use but for the log.
- What `argparse` makes of the flags is in `CommandLine.scan`; `rejects` and `refuses` are arbitrary.
  `--help` is handled before. Transformers change the values of the namespace only.
- `parse_known_args` and the assertion about the subcommand after it are one (`parseKnownArgs`).
-/

namespace Reboot.Cli

open Reboot.Lib
open Reboot.Lib.CommandLine (Namespace scan scan_dashDash dashDash)

/-- What a command is run with. -/
structure Invocation where
  /-- `sys.argv[1:]` -/
  argv : List Str
  environ : List (Str × Str)
  /-- the path and the lines of the file, if there is one -/
  dotRc : Option (Str × List Str)

/-! ## Model -/

def configFlag : Str := "--config".toList

def defaultConfigFlag : Str := "--default-config".toList

/-- `namespace.config or []` -/
def configsOf (namesp : Namespace) : List Str :=
  (namesp.values.filter fun v => v.1 = configFlag).map Prod.snd

/-- `namespace.default_config`, which is given once and counts if it is not empty. -/
def defaultConfigOf (namesp : Namespace) : Option Str :=
  ((namesp.values.find? fun v => v.1 = defaultConfigFlag).map Prod.snd).filter (· ≠ [])

/-- The configs of the command line, or the default config. -/
def firstConfigs (namesp : Namespace) : List Str :=
  if configsOf namesp = [] then (defaultConfigOf namesp).toList else configsOf namesp

def beforeDashDash (args : List Str) : List Str := args.takeWhile (· ≠ dashDash)

def afterDashDash (args : List Str) : List Str := (args.dropWhile (· ≠ dashDash)).tail

/-- The state of the expansion. -/
structure Expanding where
  pieces : List (List Str)
  /-- the keys of `common_config_flags` -/
  common : List Str
  /-- the keys of `subcommand_config_flags` -/
  subcommand : List Str

/-- What `parse_args` made of the arguments. -/
structure Parsed where
  /-- what the arguments were put together from; not part of the code -/
  pieces : List (List Str)
  /-- the arguments that were given to the parser -/
  args : List Str
  argsAfterDashDash : List Str

namespace ArgumentParser

variable (cli : ArgumentParser)

def parseKnownArgs (args : List Str) : Except Failure Namespace :=
  if cli.rejects args then .error .exit
  else
    match scan cli.parser [] [] args with
    | none => .error .exit
    | some namesp =>
      if List.intercalate [' '] namesp.subcommand = cli.subcommand then .ok namesp
      else .error .assertion

/-- One turn of `for config in configs`. -/
def expandConfig (dotRc : Str) (flags : Flags) (config : Str) (s : Expanding) :
    Except Failure Expanding :=
  let common := flags.find? (commonPattern, some config)
  let lines := flags.find? (cli.subcommand, some config)
  if config ∈ s.common ∧ config ∈ s.subcommand ∨ config ∉ s.common ∧ common.isSome = true ∨
      config ∉ s.subcommand ∧ lines.isSome = true then
    .ok {
      pieces := (if config ∈ s.common then s.pieces else common.getD [] :: s.pieces) ++
        if config ∈ s.subcommand then [] else [lines.getD []]
      common := if config ∈ s.common then s.common else s.common ++ [config]
      subcommand := if config ∈ s.subcommand then s.subcommand else s.subcommand ++ [config] }
  else
    .error (.fail ("--config=".toList ++ config ++ " is invalid, no '".toList ++ commonPattern ++
      ':' :: config ++ "' nor '".toList ++ cli.subcommand ++ ':' :: config ++
      "' lines found in ".toList ++ dotRc))

def expandConfigs (dotRc : Str) (flags : Flags) :
    List Str → Expanding → Except Failure Expanding
  | [], s => .ok s
  | config :: configs, s =>
    match cli.expandConfig dotRc flags config s with
    | .error failure => .error failure
    | .ok s => expandConfigs dotRc flags configs s

/-- `while not all(..)` -/
def expandLoop (dotRc : Str) (flags : Flags) :
    Nat → List Str → Expanding → Except Failure Expanding
  | 0, _, _ => .error .exhausted
  | fuel + 1, configs, s =>
    if ∀ config ∈ configs, config ∈ s.common ∧ config ∈ s.subcommand then .ok s
    else
      match cli.expandConfigs dotRc flags configs s with
      | .error failure => .error failure
      | .ok s =>
        match cli.parseKnownArgs s.pieces.flatten with
        | .error failure => .error failure
        | .ok namesp => expandLoop dotRc flags fuel (configsOf namesp) s

/-- The lines that always apply, before and behind. -/
def addLines (flags : Flags) (pieces : List (List Str)) : List (List Str) :=
  (flags.find? (commonPattern, none)).getD [] ::
    (pieces ++ [(flags.find? (cli.subcommand, none)).getD []])

/-- `_expand_dot_rc`, from the command line and the environment. -/
def expandDotRc (dotRc : Option (Str × List Str)) (pieces : List (List Str)) :
    Except Failure (List (List Str)) :=
  match dotRc with
  | none => .ok pieces
  | some (dotRc, lines) =>
    match cli.readFlags dotRc lines with
    | .error failure => .error failure
    | .ok flags =>
      match cli.parseKnownArgs (cli.addLines flags pieces).flatten with
      | .error failure => .error failure
      | .ok namesp =>
        match cli.expandLoop dotRc flags (flags.items.length + 1) (firstConfigs namesp)
            ⟨cli.addLines flags pieces, [], []⟩ with
        | .error failure => .error failure
        | .ok s => .ok s.pieces

/-- `_expand_environment_variables` -/
def environmentFlags (environ : List (Str × Str)) : List Str :=
  cli.argByEnvvarName.filterMap fun e =>
    (environ.lookup e.1).map fun value => e.2 ++ '=' :: value

/-- That every flag that takes a value has a `=`. -/
def checkFlags : List Str → Option Failure
  | [] => none
  | arg :: args =>
    if dashDash.isPrefixOf arg then
      let name := arg.takeWhile (· ≠ '=')
      let value := cutFirst '=' arg
      match cli.argumentTypes.lookup name, value with
      | none, some (_, value) =>
        if value.contains ' ' then
          some (.error ("unrecognized arguments: '".toList ++ arg ++ ['\'']))
        else checkFlags args
      | none, none => checkFlags args
      | some type, none =>
        if type ≠ .bool then
          let didYouMean := match args with
            | [] => []
            | next :: _ =>
              let quote := if next.contains ' ' then ['\''] else []
              " (did you mean ".toList ++ arg ++ '=' :: quote ++ next ++ quote ++ [')']
          some (.error ("expected ".toList ++ arg ++ "=VALUE, missing '=VALUE'".toList ++
            didYouMean))
        else checkFlags args
      | some _, some _ => checkFlags args
    else checkFlags args

/-- The arguments before the file is looked at. -/
def commandLine (run : Invocation) : List (List Str) :=
  [run.argv.map (cli.normalize cli.cwd), cli.environmentFlags run.environ]

/-- `parse_args` -/
def parseArgs (run : Invocation) : Except Failure Parsed :=
  match cli.expandDotRc run.dotRc (cli.commandLine run) with
  | .error failure => .error failure
  | .ok pieces =>
    let args := beforeDashDash pieces.flatten
    match cli.checkFlags args with
    | some failure => .error failure
    | none =>
      match cli.parseKnownArgs args with
      | .error failure => .error failure
      | .ok _ =>
        if cli.refuses args then .error .exit
        else .ok ⟨pieces, args, afterDashDash pieces.flatten⟩

end ArgumentParser

/-! ## The promise -/

/-- The configs that are named for the first time, after those that are known. -/
def addAll (known configs : List Str) : List Str :=
  configs.foldl (fun known config => if config ∈ known then known else known ++ [config]) known

namespace Invocation

variable (cli : ArgumentParser) (run : Invocation)

/-- The lines of the file. -/
def rcLines : List RcLine :=
  match run.dotRc with
  | none => []
  | some (dotRc, lines) => cli.rcLines dotRc 1 lines

/-- Where the arguments come from, given the configs that apply. The lines for all subcommands are
before the command line, the others behind it. -/
def sources (configs : List Str) : List (List Str) :=
  match run.dotRc with
  | none => cli.commandLine run
  | some _ =>
    let lines := argumentsOf (run.rcLines cli)
    configs.reverse.map (fun config => lines (commonPattern, some config)) ++
      (lines (commonPattern, none) :: (cli.commandLine run ++ [lines (cli.subcommand, none)]) ++
        configs.map fun config => lines (cli.subcommand, some config))

/-- What the sources have before their `--`. -/
def given (configs : List Str) : List Str :=
  ((run.sources cli configs).map beforeDashDash).flatten

/-- What the sources have behind their `--`. -/
def behind (configs : List Str) : List Str :=
  ((run.sources cli configs).map afterDashDash).flatten

/-- The configs that are named by `--config`, or by `--default-config` if there is none. -/
def named (configs : List Str) : List Str :=
  match scan cli.parser [] [] (run.given cli configs) with
  | none => []
  | some namesp =>
    if configs = [] then firstConfigs namesp else configsOf namesp

/-- The configs that are reached from the command line in so many rounds. -/
def reached : Nat → List Str
  | 0 => []
  | n + 1 => addAll (reached n) (run.named cli (reached n))

/-- The configs that are reached are these. -/
def Reaches (configs : List Str) : Prop :=
  match run.dotRc with
  | none => configs = []
  | some _ => (∃ n, configs = run.reached cli n) ∧ ∀ config ∈ run.named cli configs, config ∈ configs

end Invocation

/-- The expansion has each source once, and leaves what it has where it stands relative to `--`. -/
def Exact (cli : ArgumentParser) (run : Invocation) (p : Parsed) : Prop :=
  ∃ configs, run.Reaches cli configs ∧ p.pieces = run.sources cli configs ∧
    p.args = run.given cli configs ∧ p.argsAfterDashDash = run.behind cli configs

/-- Nothing follows a piece with a `--`. -/
def Trailing (pieces : List (List Str)) : Prop :=
  pieces.Pairwise fun p q => dashDash ∈ p → q = []

/-- No argument of the environment or of the file is behind a `--`, unless in its own source. -/
def NothingBehind (cli : ArgumentParser) (run : Invocation) : Prop :=
  ∃ configs, run.Reaches cli configs ∧ Trailing (run.sources cli configs)

/-! ## Before and behind -/

theorem keeps_of_not_mem {args : List Str} (h : dashDash ∉ args) :
    ∀ arg ∈ args, decide (arg ≠ dashDash) = true :=
  fun _ harg => decide_eq_true fun he => h (he ▸ harg)

theorem stops : ¬ decide (dashDash ≠ dashDash) = true := by decide

theorem before_of_not_mem {args : List Str} (h : dashDash ∉ args) : beforeDashDash args = args :=
  List.takeWhile_eq_self_iff.mpr (keeps_of_not_mem h)

theorem after_of_not_mem {args : List Str} (h : dashDash ∉ args) : afterDashDash args = [] := by
  have hdrop : args.dropWhile (· ≠ dashDash) = [] :=
    List.dropWhile_eq_nil_iff.mpr (keeps_of_not_mem h)
  unfold afterDashDash
  rw [hdrop]
  rfl

theorem before_split {a : List Str} (ha : dashDash ∉ a) (b : List Str) :
    beforeDashDash (a ++ dashDash :: b) = a := by
  unfold beforeDashDash
  rw [List.takeWhile_append_of_pos (keeps_of_not_mem ha),
    List.takeWhile_cons, if_neg stops, List.append_nil]

theorem after_split {a : List Str} (ha : dashDash ∉ a) (b : List Str) :
    afterDashDash (a ++ dashDash :: b) = b := by
  unfold afterDashDash
  rw [List.dropWhile_append_of_pos (keeps_of_not_mem ha),
    List.dropWhile_cons, if_neg stops, List.tail_cons]

/-- Behind the `--` there is less than there was. -/
theorem length_after (args : List Str) :
    (afterDashDash args).length ≤ args.length ∧
      ((afterDashDash args).length = args.length → args = []) := by
  have hdrop := (List.dropWhile_suffix (· ≠ dashDash) (l := args)).length_le
  have htail : (afterDashDash args).length = (args.dropWhile (· ≠ dashDash)).length - 1 :=
    List.length_tail
  refine ⟨by omega, fun he => List.eq_nil_of_length_eq_zero ?_⟩
  omega

/-- Pieces that have nothing before their `--`, nor a `--`, are empty. -/
theorem nil_of_length_behind {pieces : List (List Str)}
    (h : (pieces.map afterDashDash).flatten.length = pieces.flatten.length) :
    ∀ q ∈ pieces, q = [] := by
  have hle : ∀ ps : List (List Str),
      (ps.map afterDashDash).flatten.length ≤ ps.flatten.length := by
    intro ps
    induction ps with
    | nil => exact Nat.le_refl 0
    | cons p ps ih =>
      rw [List.map_cons, List.flatten_cons, List.flatten_cons, List.length_append,
        List.length_append]
      exact Nat.add_le_add (length_after p).1 ih
  induction pieces with
  | nil => exact fun q hq => absurd hq List.not_mem_nil
  | cons p ps ih =>
    rw [List.map_cons, List.flatten_cons, List.flatten_cons, List.length_append,
      List.length_append] at h
    have hp := length_after p
    have hps := hle ps
    intro q hq
    rcases List.mem_cons.mp hq with rfl | hq
    · exact hp.2 (by omega)
    · exact ih (by omega) q hq

/-- Cutting the whole at its first `--` and cutting each piece at its own is the same if nothing
follows a piece with a `--`, and only then. -/
theorem split_flatten_iff (pieces : List (List Str)) :
    (beforeDashDash pieces.flatten = (pieces.map beforeDashDash).flatten ∧
      afterDashDash pieces.flatten = (pieces.map afterDashDash).flatten) ↔ Trailing pieces := by
  induction pieces with
  | nil => exact ⟨fun _ => List.Pairwise.nil, fun _ => ⟨rfl, rfl⟩⟩
  | cons p ps ih =>
    unfold Trailing
    rw [List.pairwise_cons, List.map_cons, List.map_cons, List.flatten_cons, List.flatten_cons,
      List.flatten_cons]
    by_cases hp : dashDash ∈ p
    · obtain ⟨a, b, rfl, ha⟩ := List.eq_append_cons_of_mem hp
      rw [List.append_assoc, List.cons_append, before_split ha, after_split ha, before_split ha,
        after_split ha]
      constructor
      · rintro ⟨-, hbehind⟩
        have hnil := nil_of_length_behind
          (congrArg List.length (List.append_cancel_left hbehind)).symm
        refine ⟨fun q hq _ => hnil q hq, ?_⟩
        exact List.pairwise_of_forall_mem_list fun _ _ q hq _ => hnil q hq
      · rintro ⟨hnil, -⟩
        have hnil' : ∀ q ∈ ps, q = [] := fun q hq => hnil q hq hp
        have hflat : ∀ f : List Str → List Str, f [] = [] → (ps.map f).flatten = [] := by
          intro f hf
          refine List.flatten_eq_nil_iff.mpr fun q hq => ?_
          obtain ⟨q', hq', rfl⟩ := List.mem_map.mp hq
          rw [hnil' q' hq', hf]
        have hps : ps.flatten = [] := List.flatten_eq_nil_iff.mpr hnil'
        rw [hflat beforeDashDash rfl, hflat afterDashDash rfl, hps]
        exact ⟨(List.append_nil a).symm, rfl⟩
    · have hbefore : beforeDashDash (p ++ ps.flatten) = p ++ beforeDashDash ps.flatten :=
        List.takeWhile_append_of_pos (keeps_of_not_mem hp)
      have hafter : afterDashDash (p ++ ps.flatten) = afterDashDash ps.flatten := by
        unfold afterDashDash
        rw [List.dropWhile_append_of_pos (keeps_of_not_mem hp)]
      rw [hbefore, hafter, before_of_not_mem hp, after_of_not_mem hp, List.nil_append,
        List.append_cancel_left_eq]
      exact ih.trans ⟨fun h => ⟨fun q _ hmem => absurd hmem hp, h⟩, And.right⟩

theorem Trailing.before {pieces : List (List Str)} (h : Trailing pieces) :
    beforeDashDash pieces.flatten = (pieces.map beforeDashDash).flatten :=
  ((split_flatten_iff pieces).mpr h).1

/-- A parser reads the same flags without what is behind the `--`. -/
theorem scan_before {p : CommandLine.Parser} {args : List Str} {namesp : Namespace}
    (h : scan p [] [] args = some namesp) : scan p [] [] (beforeDashDash args) = some namesp := by
  by_cases hmem : dashDash ∈ args
  · obtain ⟨a, b, rfl, ha⟩ := List.eq_append_cons_of_mem hmem
    rw [before_split ha]
    exact scan_dashDash b ha h
  · rwa [before_of_not_mem hmem]

/-! ## The configs that are reached -/

theorem prefix_addAll (known configs : List Str) : known <+: addAll known configs := by
  induction configs generalizing known with
  | nil => exact List.prefix_rfl
  | cons config configs ih =>
    show known <+: addAll (if config ∈ known then known else known ++ [config]) configs
    split
    · exact ih known
    · exact (List.prefix_append known [config]).trans (ih _)

theorem addAll_eq_self {known configs : List Str} (h : ∀ config ∈ configs, config ∈ known) :
    addAll known configs = known := by
  induction configs with
  | nil => rfl
  | cons config configs ih =>
    show addAll (if config ∈ known then known else known ++ [config]) configs = known
    rw [if_pos (h config List.mem_cons_self)]
    exact ih fun other hother => h other (List.mem_cons_of_mem config hother)

theorem mem_addAll {configs : List Str} {config : Str} (h : config ∈ configs) (known : List Str) :
    config ∈ addAll known configs := by
  induction configs generalizing known with
  | nil => exact absurd h List.not_mem_nil
  | cons other configs ih =>
    show config ∈ addAll (if other ∈ known then known else known ++ [other]) configs
    rcases List.mem_cons.mp h with rfl | hmem
    · refine (prefix_addAll _ configs).subset ?_
      split
      · assumption
      · exact List.mem_append_right known (List.mem_singleton.mpr rfl)
    · exact ih hmem _

/-- What is not known yet makes the list longer. -/
theorem length_lt_addAll {known configs : List Str} {config : Str} (h : config ∈ configs)
    (hnew : config ∉ known) : known.length < (addAll known configs).length := by
  have hle := (prefix_addAll known configs).length_le
  refine Nat.lt_of_le_of_ne hle fun he => hnew ?_
  have heq := (prefix_addAll known configs).eq_of_length he
  rw [heq]
  exact mem_addAll h known

namespace Invocation

variable {cli : ArgumentParser} {run : Invocation}

theorem reached_stable {k : Nat}
    (hclosed : ∀ config ∈ run.named cli (run.reached cli k), config ∈ run.reached cli k) (m : Nat) :
    run.reached cli (k + m) = run.reached cli k := by
  induction m with
  | zero => rfl
  | succ m ih =>
    show addAll (run.reached cli (k + m)) (run.named cli (run.reached cli (k + m))) = _
    rw [ih]
    exact addAll_eq_self hclosed

theorem reached_mono (k m : Nat) : run.reached cli k <+: run.reached cli (k + m) := by
  induction m with
  | zero => exact List.prefix_rfl
  | succ m ih => exact ih.trans (prefix_addAll _ _)

/-- Every round is part of the last. -/
theorem reached_within {n : Nat}
    (hclosed : ∀ config ∈ run.named cli (run.reached cli n), config ∈ run.reached cli n) (k : Nat) :
    run.reached cli k <+: run.reached cli n := by
  rcases Nat.le_total k n with hle | hle
  · obtain ⟨m, rfl⟩ := Nat.exists_eq_add_of_le hle
    exact reached_mono k m
  · obtain ⟨m, rfl⟩ := Nat.exists_eq_add_of_le hle
    exact ⟨[], by rw [reached_stable hclosed m, List.append_nil]⟩

theorem reached_unique {k n : Nat}
    (hk : ∀ config ∈ run.named cli (run.reached cli k), config ∈ run.reached cli k)
    (hn : ∀ config ∈ run.named cli (run.reached cli n), config ∈ run.reached cli n) :
    run.reached cli k = run.reached cli n :=
  (reached_within hn k).eq_of_length
    (Nat.le_antisymm (reached_within hn k).length_le (reached_within hk n).length_le)

theorem sources_sublist {configs configs' : List Str} (h : configs.Sublist configs') :
    (run.sources cli configs).Sublist (run.sources cli configs') := by
  unfold sources
  cases run.dotRc with
  | none => exact List.Sublist.refl _
  | some _ =>
    exact (h.reverse.map _).append ((List.Sublist.refl _).append (h.map _))

end Invocation

/-! ## The expansion -/

namespace ArgumentParser

variable {cli : ArgumentParser} {dotRc : Str} {flags : Flags} {base : List (List Str)}

/-- The pieces for some configs around those that there are without one. -/
def piecesOf (cli : ArgumentParser) (flags : Flags) (base : List (List Str))
    (configs : List Str) : List (List Str) :=
  configs.reverse.map (fun config => (flags.find? (commonPattern, some config)).getD []) ++
    (base ++ configs.map fun config => (flags.find? (cli.subcommand, some config)).getD [])

/-- The state in which these configs were expanded. -/
structure At (cli : ArgumentParser) (flags : Flags) (base : List (List Str)) (configs : List Str)
    (s : Expanding) : Prop where
  common : s.common = configs
  subcommand : s.subcommand = configs
  pieces : s.pieces = cli.piecesOf flags base configs

/-- The configs that the file has lines for. -/
def configNames (flags : Flags) : List Str := flags.items.filterMap fun e => e.1.2

theorem mem_configNames {subcommand config : Str} {lines : List Str}
    (h : flags.find? (subcommand, some config) = some lines) : config ∈ configNames flags :=
  List.mem_filterMap.mpr ⟨_, Dict.find?_eq_some_iff.mp h, rfl⟩

theorem expandConfig_at {config : Str} {configs : List Str} {s s' : Expanding}
    (hat : cli.At flags base configs s) (h : cli.expandConfig dotRc flags config s = .ok s') :
    cli.At flags base (if config ∈ configs then configs else configs ++ [config]) s' ∧
      (config ∈ configs ∨ config ∈ configNames flags) := by
  obtain ⟨rfl, hsubcommand, hpieces⟩ := hat
  unfold expandConfig at h
  dsimp only at h
  rw [hsubcommand] at h
  by_cases hmem : config ∈ s.common
  · rw [if_pos (Or.inl ⟨hmem, hmem⟩), if_pos hmem, if_pos hmem, if_pos hmem, List.append_nil] at h
    obtain rfl := Except.ok.inj h
    rw [if_pos hmem]
    exact ⟨⟨rfl, rfl, hpieces⟩, Or.inl hmem⟩
  · simp only [if_neg hmem] at h
    split at h
    · next hfound =>
      obtain rfl := Except.ok.inj h
      rw [if_neg hmem]
      refine ⟨⟨rfl, rfl, ?_⟩, Or.inr ?_⟩
      · show _ :: s.pieces ++ [_] = cli.piecesOf flags base (s.common ++ [config])
        unfold piecesOf
        rw [hpieces, List.reverse_append, List.map_append, List.map_append, List.reverse_singleton]
        simp only [piecesOf, List.map_cons, List.map_nil, List.cons_append, List.nil_append,
          List.append_assoc]
      · rcases hfound with ⟨hmem', -⟩ | ⟨-, hfound⟩ | ⟨-, hfound⟩
        · exact absurd hmem' hmem
        · obtain ⟨lines, hlines⟩ := Option.isSome_iff_exists.mp hfound
          exact mem_configNames hlines
        · obtain ⟨lines, hlines⟩ := Option.isSome_iff_exists.mp hfound
          exact mem_configNames hlines
    · cases h

theorem expandConfigs_at {cs configs : List Str} {s s' : Expanding}
    (hat : cli.At flags base configs s) (hnodup : configs.Nodup)
    (hnames : configs ⊆ configNames flags)
    (h : cli.expandConfigs dotRc flags cs s = .ok s') :
    cli.At flags base (addAll configs cs) s' ∧ (addAll configs cs).Nodup ∧
      addAll configs cs ⊆ configNames flags := by
  induction cs generalizing configs s with
  | nil =>
    obtain rfl := Except.ok.inj h
    exact ⟨hat, hnodup, hnames⟩
  | cons config cs ih =>
    unfold expandConfigs at h
    cases hconfig : cli.expandConfig dotRc flags config s with
    | error failure =>
      rw [hconfig] at h
      exact nomatch h
    | ok next =>
      rw [hconfig] at h
      obtain ⟨hnext, hmem⟩ := expandConfig_at hat hconfig
      by_cases hknown : config ∈ configs
      · rw [if_pos hknown] at hnext
        have hih := ih hnext hnodup hnames h
        have haddAll : addAll configs (config :: cs) = addAll configs cs :=
          congrArg (fun known => addAll known cs) (if_pos hknown)
        rwa [haddAll]
      · rw [if_neg hknown] at hnext
        have hih := ih hnext (List.nodup_append.mpr ⟨hnodup, List.nodup_singleton config,
          fun a ha b hb hab => hknown (by rwa [← List.mem_singleton.mp hb, ← hab])⟩)
          (List.append_subset.mpr
            ⟨hnames, List.cons_subset.mpr ⟨hmem.resolve_left hknown, List.nil_subset _⟩⟩) h
        have haddAll : addAll configs (config :: cs) = addAll (configs ++ [config]) cs :=
          congrArg (fun known => addAll known cs) (if_neg hknown)
        rwa [haddAll]

/-! ## Termination -/

variable (cli) in
theorem expandConfigs_ne_exhausted (dotRc : Str) (flags : Flags) (cs : List Str) (s : Expanding) :
    cli.expandConfigs dotRc flags cs s ≠ .error .exhausted := by
  induction cs generalizing s with
  | nil => exact fun h => by cases h
  | cons config cs ih =>
    unfold expandConfigs
    cases hconfig : cli.expandConfig dotRc flags config s with
    | ok next => exact ih next
    | error failure =>
      intro h
      obtain rfl := Except.error.inj h
      unfold expandConfig at hconfig
      dsimp only at hconfig
      split at hconfig
      · cases hconfig
      · cases hconfig

variable (cli) in
theorem parseKnownArgs_ne_exhausted (args : List Str) :
    cli.parseKnownArgs args ≠ .error .exhausted := by
  unfold parseKnownArgs
  split
  · exact fun h => nomatch h
  · split
    · exact fun h => nomatch h
    · split
      · exact fun h => nomatch h
      · exact fun h => nomatch h

variable (cli) in
theorem readFrom_ne_exhausted (dotRc : Str) (lines : List Str) (number : Nat) (flags : Flags) :
    cli.readFrom dotRc number flags lines ≠ .error .exhausted := by
  induction lines generalizing number flags with
  | nil => exact fun h => by cases h
  | cons line lines ih =>
    unfold readFrom
    cases hline : cli.readLine dotRc number line with
    | ok read =>
      cases read with
      | none => exact ih _ _
      | some rcLine => exact ih _ _
    | error failure =>
      intro h
      obtain rfl := Except.error.inj h
      unfold readLine at hline
      dsimp only at hline
      split at hline
      · cases hline
      · split at hline
        · split at hline
          · cases hline
          · cases hline
        · split at hline
          · cases hline
          · cases hline

/-- Every turn of the loop expands a config that the file has lines for and that was not expanded
before. -/
theorem expandLoop_ne_exhausted (dotRc : Str) {fuel : Nat} (cs : List Str) {configs : List Str}
    {s : Expanding} (hat : cli.At flags base configs s) (hnodup : configs.Nodup)
    (hnames : configs ⊆ configNames flags)
    (hfuel : (configNames flags).length < fuel + configs.length) :
    cli.expandLoop dotRc flags fuel cs s ≠ .error .exhausted := by
  induction fuel generalizing cs configs s with
  | zero =>
    have hle := (List.subperm_of_subset hnodup hnames).length_le
    omega
  | succ fuel ih =>
    unfold expandLoop
    split
    · exact fun h => nomatch h
    · next hall =>
      obtain ⟨config, hconfig⟩ := Classical.not_forall.mp hall
      obtain ⟨hmem, hnew⟩ := Classical.not_imp.mp hconfig
      rw [hat.common, hat.subcommand, and_self] at hnew
      have hlt := length_lt_addAll hmem hnew
      cases hexpand : cli.expandConfigs dotRc flags cs s with
      | error failure =>
        have hne := cli.expandConfigs_ne_exhausted dotRc flags cs s
        rwa [hexpand] at hne
      | ok next =>
        obtain ⟨hat', hnodup', hnames'⟩ := expandConfigs_at hat hnodup hnames hexpand
        dsimp only
        cases hknown : cli.parseKnownArgs next.pieces.flatten with
        | error failure =>
          have hne := cli.parseKnownArgs_ne_exhausted next.pieces.flatten
          rw [hknown] at hne
          exact fun h => hne (congrArg Except.error (Except.error.inj h))
        | ok namesp => exact ih _ hat' hnodup' hnames' (by omega)

variable (cli) in
theorem at_start (flags : Flags) (pieces : List (List Str)) :
    cli.At flags pieces [] ⟨pieces, [], []⟩ :=
  ⟨rfl, rfl, (List.append_nil _).symm⟩

variable (cli) in
theorem expandDotRc_ne_exhausted (dotRc : Option (Str × List Str)) (pieces : List (List Str)) :
    cli.expandDotRc dotRc pieces ≠ .error .exhausted := by
  unfold expandDotRc
  cases dotRc with
  | none => exact fun h => nomatch h
  | some file =>
    obtain ⟨dotRc, lines⟩ := file
    dsimp only
    cases hflags : cli.readFlags dotRc lines with
    | error failure =>
      have hne := cli.readFrom_ne_exhausted dotRc lines 1 .empty
      exact fun h => hne (hflags.trans (congrArg Except.error (Except.error.inj h)))
    | ok flags =>
      dsimp only
      cases hknown : cli.parseKnownArgs (cli.addLines flags pieces).flatten with
      | error failure =>
        have hne := cli.parseKnownArgs_ne_exhausted (cli.addLines flags pieces).flatten
        exact fun h => hne (hknown.trans (congrArg Except.error (Except.error.inj h)))
      | ok namesp =>
        have hlen : (configNames flags).length < flags.items.length + 1 + 0 :=
          Nat.lt_succ_of_le (List.length_filterMap_le _ _)
        have hne := expandLoop_ne_exhausted dotRc (firstConfigs namesp)
          (cli.at_start flags (cli.addLines flags pieces)) List.nodup_nil
          (List.nil_subset (configNames flags)) hlen
        dsimp only
        cases hloop : cli.expandLoop dotRc flags (flags.items.length + 1) (firstConfigs namesp)
            ⟨cli.addLines flags pieces, [], []⟩ with
        | error failure =>
          exact fun h => hne (hloop.trans (congrArg Except.error (Except.error.inj h)))
        | ok s => exact fun h => nomatch h

theorem checkFlags_ne_exhausted (args : List Str) :
    cli.checkFlags args ≠ some .exhausted := by
  induction args with
  | nil => exact fun h => nomatch h
  | cons arg args ih =>
    unfold checkFlags
    split
    · dsimp only
      split
      · split
        · exact fun h => nomatch h
        · exact ih
      · exact ih
      · split
        · exact fun h => nomatch h
        · exact ih
      · exact ih
    · exact ih

/-- The expansion ends, whatever the file and the command line are. -/
theorem parseArgs_ne_exhausted (run : Invocation) : cli.parseArgs run ≠ .error .exhausted := by
  unfold parseArgs
  cases hexpand : cli.expandDotRc run.dotRc (cli.commandLine run) with
  | error failure =>
    have hne := cli.expandDotRc_ne_exhausted run.dotRc (cli.commandLine run)
    exact fun h => hne (hexpand.trans (congrArg Except.error (Except.error.inj h)))
  | ok pieces =>
    dsimp only
    cases hcheck : cli.checkFlags (beforeDashDash pieces.flatten) with
    | some failure =>
      intro h
      obtain rfl := Except.error.inj h
      exact checkFlags_ne_exhausted _ hcheck
    | none =>
      dsimp only
      cases hknown : cli.parseKnownArgs (beforeDashDash pieces.flatten) with
      | error failure =>
        have hne := cli.parseKnownArgs_ne_exhausted (beforeDashDash pieces.flatten)
        exact fun h => hne (hknown.trans (congrArg Except.error (Except.error.inj h)))
      | ok namesp =>
        dsimp only
        split
        · exact fun h => nomatch h
        · exact fun h => nomatch h

/-! ## Exactness -/

theorem scan_of_parseKnownArgs {args : List Str} {namesp : Namespace}
    (h : cli.parseKnownArgs args = .ok namesp) : scan cli.parser [] [] args = some namesp := by
  unfold parseKnownArgs at h
  split at h
  · exact nomatch h
  · cases hscan : scan cli.parser [] [] args with
    | none =>
      rw [hscan] at h
      exact nomatch h
    | some namesp' =>
      rw [hscan] at h
      dsimp only at h
      split at h
      · rw [Except.ok.inj h]
      · exact nomatch h

variable {run : Invocation}

/-- What the parser makes of the arguments so far is what it makes of those before a `--`. -/
theorem scan_given {configs : List Str} (htrail : Trailing (run.sources cli configs))
    {namesp : Namespace}
    (h : cli.parseKnownArgs (run.sources cli configs).flatten = .ok namesp) :
    scan cli.parser [] [] (run.given cli configs) = some namesp := by
  unfold Invocation.given
  rw [← htrail.before]
  exact scan_before (scan_of_parseKnownArgs h)

theorem expandLoop_reaches {base : List (List Str)} {n : Nat}
    (hsources : ∀ configs, cli.piecesOf flags base configs = run.sources cli configs)
    (hclosed : ∀ config ∈ run.named cli (run.reached cli n), config ∈ run.reached cli n)
    (htrail : Trailing (run.sources cli (run.reached cli n)))
    {fuel k : Nat} {cs : List Str} {s s' : Expanding}
    (hat : cli.At flags base (run.reached cli k) s) (hnodup : (run.reached cli k).Nodup)
    (hnames : run.reached cli k ⊆ configNames flags)
    (hcs : cs = run.named cli (run.reached cli k))
    (h : cli.expandLoop dotRc flags fuel cs s = .ok s') :
    s'.pieces = run.sources cli (run.reached cli n) := by
  induction fuel generalizing k cs s with
  | zero => exact nomatch h
  | succ fuel ih =>
    unfold expandLoop at h
    split at h
    · next hall =>
      obtain rfl := Except.ok.inj h
      have hk : ∀ config ∈ run.named cli (run.reached cli k), config ∈ run.reached cli k := by
        intro config hconfig
        rw [← hat.common]
        exact (hall config (hcs ▸ hconfig)).1
      rw [hat.pieces, hsources, Invocation.reached_unique hk hclosed]
    · next hall =>
      cases hexpand : cli.expandConfigs dotRc flags cs s with
      | error failure =>
        rw [hexpand] at h
        exact nomatch h
      | ok next =>
        rw [hexpand] at h
        dsimp only at h
        obtain ⟨hat', hnodup', hnames'⟩ := expandConfigs_at hat hnodup hnames hexpand
        have hround : addAll (run.reached cli k) cs = run.reached cli (k + 1) :=
          congrArg (addAll (run.reached cli k)) hcs
        rw [hround] at hat' hnodup' hnames'
        cases hknown : cli.parseKnownArgs next.pieces.flatten with
        | error failure =>
          rw [hknown] at h
          exact nomatch h
        | ok namesp =>
          rw [hknown] at h
          refine ih hat' hnodup' hnames' ?_ h
          rw [hat'.pieces, hsources] at hknown
          have hscan := scan_given (htrail.sublist (Invocation.sources_sublist
            (Invocation.reached_within hclosed (k + 1)).sublist)) hknown
          have hne : run.reached cli (k + 1) ≠ [] := by
            obtain ⟨config, hconfig⟩ := Classical.not_forall.mp hall
            obtain ⟨hmem, -⟩ := Classical.not_imp.mp hconfig
            exact List.ne_nil_of_mem (hround ▸ mem_addAll hmem _)
          unfold Invocation.named
          rw [hscan]
          exact (if_neg hne).symm

theorem piecesOf_eq_sources {lines : List Str} (hrc : run.dotRc = some (dotRc, lines))
    (hflags : cli.readFlags dotRc lines = .ok flags) (configs : List Str) :
    cli.piecesOf flags (cli.addLines flags (cli.commandLine run)) configs =
      run.sources cli configs := by
  have hlines : ∀ key, (flags.find? key).getD [] = argumentsOf (run.rcLines cli) key := by
    intro key
    unfold Invocation.rcLines
    rw [hrc]
    exact readFlags_getD hflags key
  unfold piecesOf addLines Invocation.sources
  rw [hrc]
  simp only [hlines]

/-- Where nothing stands behind a `--`, the pieces are the sources of the configs that are reached. -/
theorem expandDotRc_reaches {configs : List Str} (hreaches : run.Reaches cli configs)
    (htrail : Trailing (run.sources cli configs)) {pieces : List (List Str)}
    (h : cli.expandDotRc run.dotRc (cli.commandLine run) = .ok pieces) :
    pieces = run.sources cli configs := by
  unfold expandDotRc at h
  cases hrc : run.dotRc with
  | none =>
    rw [hrc] at h
    unfold Invocation.sources
    rw [hrc]
    exact (Except.ok.inj h).symm
  | some file =>
    obtain ⟨dotRc, lines⟩ := file
    unfold Invocation.Reaches at hreaches
    rw [hrc] at h hreaches
    dsimp only at h hreaches
    obtain ⟨⟨n, rfl⟩, hclosed⟩ := hreaches
    cases hflags : cli.readFlags dotRc lines with
    | error failure =>
      rw [hflags] at h
      exact nomatch h
    | ok flags =>
      rw [hflags] at h
      dsimp only at h
      have hsources := piecesOf_eq_sources hrc hflags
      have hstart : cli.addLines flags (cli.commandLine run) = run.sources cli [] :=
        (List.append_nil _).symm.trans (hsources [])
      cases hknown : cli.parseKnownArgs (cli.addLines flags (cli.commandLine run)).flatten with
      | error failure =>
        rw [hknown] at h
        exact nomatch h
      | ok namesp =>
        rw [hknown] at h
        dsimp only at h
        cases hloop : cli.expandLoop dotRc flags (flags.items.length + 1) (firstConfigs namesp)
            ⟨cli.addLines flags (cli.commandLine run), [], []⟩ with
        | error failure =>
          rw [hloop] at h
          exact nomatch h
        | ok s =>
          rw [hloop] at h
          obtain rfl := Except.ok.inj h
          rw [hstart] at hknown
          have hscan : scan cli.parser [] [] (run.given cli []) = some namesp :=
            scan_given (htrail.sublist (Invocation.sources_sublist (List.nil_sublist _))) hknown
          have hnamed : firstConfigs namesp = run.named cli [] := by
            unfold Invocation.named
            rw [hscan]
            exact (if_pos rfl).symm
          exact expandLoop_reaches (k := 0) hsources hclosed htrail (cli.at_start flags _)
            List.nodup_nil (List.nil_subset _) hnamed hloop

theorem parsed_of_parseArgs {p : Parsed} (h : cli.parseArgs run = .ok p) :
    cli.expandDotRc run.dotRc (cli.commandLine run) = .ok p.pieces ∧
    p.args = beforeDashDash p.pieces.flatten ∧
    p.argsAfterDashDash = afterDashDash p.pieces.flatten := by
  unfold parseArgs at h
  cases hexpand : cli.expandDotRc run.dotRc (cli.commandLine run) with
  | error failure =>
    rw [hexpand] at h
    exact nomatch h
  | ok pieces =>
    rw [hexpand] at h
    dsimp only at h
    cases hcheck : cli.checkFlags (beforeDashDash pieces.flatten) with
    | some failure =>
      rw [hcheck] at h
      exact nomatch h
    | none =>
      rw [hcheck] at h
      dsimp only at h
      cases hknown : cli.parseKnownArgs (beforeDashDash pieces.flatten) with
      | error failure =>
        rw [hknown] at h
        exact nomatch h
      | ok namesp =>
        rw [hknown] at h
        dsimp only at h
        split at h
        · exact nomatch h
        · obtain rfl := Except.ok.inj h
          exact ⟨rfl, rfl, rfl⟩

theorem exact_iff {p : Parsed} (h : cli.parseArgs run = .ok p) :
    Exact cli run p ↔ NothingBehind cli run := by
  obtain ⟨hexpand, hargs, hafter⟩ := parsed_of_parseArgs h
  constructor
  · rintro ⟨configs, hreaches, hpieces, hgiven, hbehind⟩
    refine ⟨configs, hreaches, (split_flatten_iff _).mp ⟨?_, ?_⟩⟩
    · rw [← hpieces, ← hargs]
      exact hgiven.trans (by rw [Invocation.given, hpieces])
    · rw [← hpieces, ← hafter]
      exact hbehind.trans (by rw [Invocation.behind, hpieces])
  · rintro ⟨configs, hreaches, htrail⟩
    have hpieces := expandDotRc_reaches hreaches htrail hexpand
    obtain ⟨hbefore, hbehind⟩ := (split_flatten_iff _).mpr htrail
    rw [hpieces] at hargs hafter
    exact ⟨configs, hreaches, hpieces, hargs.trans hbefore, hafter.trans hbehind⟩

end ArgumentParser

/-! ## Every command line -/

/-- The expansion ends, and where it does not fail it is exact if and only if the environment and
the file add nothing behind a `--`. -/
theorem rcExpansion (cli : ArgumentParser) (run : Invocation) :
    cli.parseArgs run ≠ .error .exhausted ∧
      ∀ p, cli.parseArgs run = .ok p → (Exact cli run p ↔ NothingBehind cli run) :=
  ⟨ArgumentParser.parseArgs_ne_exhausted run, fun _ => ArgumentParser.exact_iff⟩

/-- The flags that `argparse` makes of arguments with these types. -/
def declared (types : List (Str × ArgumentType)) : List (Str × CommandLine.Arity) :=
  [("-h".toList, .exits), ("--help".toList, .exits)] ++
    (types.filter fun e => dashDash.isPrefixOf e.1).flatMap fun e =>
      if e.2 = .bool then [(e.1, .bare), ("--no-".toList ++ e.1.drop 2, .bare)]
      else [(e.1, .value)]

def generateTypes : List (Str × ArgumentType) :=
  [(configFlag, .other), (defaultConfigFlag, .other), ("--working-directory".toList, .path),
    ("--python".toList, .other), ("--react".toList, .other), ("--react-extensions".toList, .bool),
    ("--web".toList, .other), ("--web-extensions".toList, .bool), ("--mobile".toList, .other),
    ("--nodejs".toList, .other), ("--nodejs-extensions".toList, .bool),
    ("--boilerplate".toList, .other), ("proto_directories".toList, .other)]

/-- The parser of `rbt generate`. -/
def generate : ArgumentParser where
  parser := .group [("-h".toList, .exits), ("--help".toList, .exits),
      ("--version".toList, .exits), ("--state-directory".toList, .value)]
    [("generate".toList, .command (declared generateTypes) false)]
  subcommands := ["generate".toList]
  subcommand := "generate".toList
  argumentTypes := generateTypes
  argByEnvvarName := []
  dotRcFilename := ".rbtrc".toList
  cwd := "/app".toList
  rejects _ := false
  refuses _ := false

/-- What a parse left, read off its result. -/
theorem ok_of_toOption_map {result : Except Failure Parsed} {args behind : List Str}
    (h : result.toOption.map (fun p => (p.args, p.argsAfterDashDash)) = some (args, behind)) :
    ∃ p, result = .ok p ∧ p.args = args ∧ p.argsAfterDashDash = behind := by
  cases result with
  | error failure => exact nomatch h
  | ok p =>
    have hpair := Prod.mk.inj (Option.some.inj h)
    exact ⟨p, rfl, hpair.1, hpair.2⟩

/-- Two configs that name each other, the second with a `--` at its end. -/
def cyclicConfigs : Invocation where
  argv := ["generate".toList, "--config=all".toList, "api".toList]
  environ := []
  dotRc := some ("/app/.rbtrc".toList,
    ["...:all --state-directory=/s".toList, "# Generate everything.".toList,
      "generate:all --config=web --python=out".toList,
      "generate:web --web=out --config=all -- --x".toList])

theorem rcExpansion_cyclicConfigs :
    ∃ p, generate.parseArgs cyclicConfigs = .ok p ∧ p.args = ["--state-directory=/s".toList,
      "generate".toList, "--config=all".toList, "api".toList, "--config=web".toList,
      "--python=out".toList, "--web=out".toList, "--config=all".toList] ∧
      p.argsAfterDashDash = ["--x".toList] ∧ Exact generate cyclicConfigs p := by
  have hrun : (generate.parseArgs cyclicConfigs).toOption.map
      (fun p => (p.args, p.argsAfterDashDash)) =
      some (["--state-directory=/s".toList, "generate".toList, "--config=all".toList,
        "api".toList, "--config=web".toList, "--python=out".toList, "--web=out".toList,
        "--config=all".toList], ["--x".toList]) := by decide +kernel
  obtain ⟨p, h, hargs, hafter⟩ := ok_of_toOption_map hrun
  have hreached : cyclicConfigs.reached generate 2 = ["all".toList, "web".toList] := by
    decide +kernel
  have hnamed : ∀ config ∈ cyclicConfigs.named generate ["all".toList, "web".toList],
      config ∈ ["all".toList, "web".toList] := by decide +kernel
  have htrail : Trailing (cyclicConfigs.sources generate ["all".toList, "web".toList]) := by
    unfold Trailing
    decide +kernel
  exact ⟨p, h, hargs, hafter, ((rcExpansion generate cyclicConfigs).2 p h).mpr
    ⟨_, ⟨⟨2, hreached.symm⟩, hnamed⟩, htrail⟩⟩

/-- A flag in the file, and a `--` on the command line. -/
def flagAndDashDash : Invocation where
  argv := ["generate".toList, "some.py".toList, "--".toList, "--after".toList]
  environ := []
  dotRc := some ("/app/.rbtrc".toList, ["generate --react=web".toList])

theorem rcExpansion_flagAndDashDash :
    ∃ p, generate.parseArgs flagAndDashDash = .ok p ∧
      p.args = ["generate".toList, "some.py".toList] ∧
      p.argsAfterDashDash = ["--after".toList, "--react=web".toList] ∧
      ¬ Exact generate flagAndDashDash p := by
  have hrun : (generate.parseArgs flagAndDashDash).toOption.map
      (fun p => (p.args, p.argsAfterDashDash)) =
      some (["generate".toList, "some.py".toList],
        ["--after".toList, "--react=web".toList]) := by decide +kernel
  obtain ⟨p, h, hargs, hafter⟩ := ok_of_toOption_map hrun
  refine ⟨p, h, hargs, hafter, ?_⟩
  rintro ⟨configs, -, -, hgiven, -⟩
  -- the line of the file is among the sources whatever the configs are
  have hline : ["--react=web".toList] ∈ flagAndDashDash.sources generate configs := by
    have hlines : argumentsOf (flagAndDashDash.rcLines generate) (generate.subcommand, none) =
        ["--react=web".toList] := by decide +kernel
    rw [← hlines]
    exact List.mem_append_right _ (List.mem_append_left _ (List.mem_cons_of_mem _
      (List.mem_append_right _ List.mem_cons_self)))
  have hmem : "--react=web".toList ∈ flagAndDashDash.given generate configs :=
    List.mem_flatten.mpr ⟨_, List.mem_map_of_mem hline, by decide⟩
  rw [← hgiven, hargs] at hmem
  exact absurd hmem (by decide)

end Reboot.Cli
