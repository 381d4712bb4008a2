import Reboot.Lib.Dict
import Reboot.Lib.Text
import Reboot.Lib.Worklist

/-!
# Walking the developer's files

`reboot/dashboard/backend/walk.py`: one depth-first recursion from each entry reads every file that
is reached through imports. A file whose bytes are as a previous walk recorded them is carried
(`unchanged`), any other is parsed, and each possible module path that a parsed file imports is
recorded with the file found there and the digest of its bytes. A second, reverse traversal then
finds the carried files whose record does not stand any more, and these are read again.

Mirroring notes:
- `Disk` is what the walk asks: the candidate at a module path that is a file, and what a file
  holds; `σ` is how the disk stands, which may change between two questions. SHA-256, decoding and
  parsing are parameters (`Python`), and of the syntax only the import statements are kept, in the
  order of `ast.walk`. `pop` is which element `set.pop` takes.
- The text, the syntax and the time of a parsed file, and what the caller's record carries beside
  what `KnownFileProtocol` lists, are not looked at by the walk and left out.
- The recursion has fuel, and so has the `while` of the reverse traversal: `Failure.running`. The
  depth at which the interpreter gives up is not modelled.
- `dependents` and the seeds are built in one loop there, and here one after the other: neither
  looks at the other.
-/

namespace Reboot.Dashboard.Walks

open Reboot.Lib

/-! ## Paths -/

/-- A `pathlib` path, which has neither empty parts nor dots. -/
structure Path where
  absolute : Bool
  parts : List Str
  deriving DecidableEq

def Path.ofStr (s : Str) : Path :=
  ⟨s.head? = some '/', (s.splitOn '/').filter fun part => part ≠ [] ∧ part ≠ ['.']⟩

def Path.str (p : Path) : Str :=
  if p.absolute then '/' :: ['/'].intercalate p.parts
  else if p.parts = [] then ['.'] else ['/'].intercalate p.parts

def Path.parent (p : Path) : Path := { p with parts := p.parts.dropLast }

/-- `p / s`. -/
def Path.div (p : Path) (s : Str) : Path :=
  if (Path.ofStr s).absolute then Path.ofStr s else { p with parts := p.parts ++ (Path.ofStr s).parts }

/-- One part of a path in `os.path.normpath`. -/
def normalize (absolute : Bool) (parts : List Str) (part : Str) : List Str :=
  if part ≠ "..".toList ∨ (absolute = false ∧ parts = []) ∨ parts.getLast? = some "..".toList then
    parts ++ [part]
  else parts.dropLast

def Path.normpath (p : Path) : Path := { p with parts := p.parts.foldl (normalize p.absolute) [] }

/-- `_anchored`. -/
def anchored (path : Path) : Str :=
  if path.normpath.absolute then path.normpath.str else "./".toList ++ path.normpath.str

/-- `os.path.join(base, name)`, for a name without a separator. -/
def joined (base name : Str) : Str :=
  if base = [] ∨ base.getLast? = some '/' then base ++ name else base ++ '/' :: name

/-- The path of a dotted name. -/
def undotted (name : Str) : Str := name.map fun c => if c = '.' then '/' else c

/-! ## Imports -/

/-- `ast.Import` and `ast.ImportFrom`. -/
inductive Import where
  | modules (names : List Str)
  | names (module : Option Str) (level : Nat) (names : List Str)

/-- The possible module path of what stands after `from`; `none` for no module and no dots. -/
def fromBase (directory : Path) : Option Str → Nat → Option Str
  | none, 0 => none
  | some module, 0 => some (undotted module)
  | none, level + 1 => some (anchored (Nat.repeat Path.parent level directory))
  | some module, level + 1 =>
    some (anchored ((module.splitOn '.').foldl Path.div (Nat.repeat Path.parent level directory)))

def possibleModulePaths (directory : Path) : Import → List Str
  | .modules names => names.map undotted
  | .names module level names =>
    match fromBase directory module level with
    | none => []
    | some base => base :: (names.filter (· ≠ ['*'])).map (joined base)

/-- `_extract_possible_module_paths_from_imports`. -/
def extractPossibleModulePaths (imports : List Import) (directory : Path) : List Str :=
  imports.flatMap (possibleModulePaths directory)

/-- The files that `_try_resolve_module_path` looks for, in order. -/
def candidates (modulePath : Str) (roots : List Path) : List Path :=
  if "./".toList <+: modulePath ∨ modulePath.head? = some '/' then
    [(Path.ofStr modulePath).div "__init__.py".toList, Path.ofStr (modulePath ++ ".py".toList)]
  else roots.flatMap fun root =>
    [root.div (modulePath ++ "/__init__.py".toList), root.div (modulePath ++ ".py".toList)]

/-! ## What the walk asks -/

variable {β δ σ : Type} [DecidableEq δ]

structure Python (β δ : Type) where
  sha256 : β → δ
  /-- `tokenize.detect_encoding`, `decode` and `ast.parse` -/
  parse : β → Except Str (List Import)
  pop : List Path → Nat

structure Disk (β σ : Type) where
  /-- `_standardized_path` -/
  standardized : Path → Path
  /-- `_try_resolve_module_path` -/
  tryResolveModulePath : Str → σ → Option Path × σ
  /-- `_read` -/
  read : Path → σ → Except Str β × σ

/-! ## Files -/

structure Dependency (δ : Type) where
  filename : Option Path
  digest : Option δ
  deriving DecidableEq

structure ParsedFile (δ : Type) where
  filename : Path
  digest : δ
  dependencies : Dict Str (Dependency δ)

structure External (δ : Type) where
  filename : Path
  digest : Option δ
  deriving DecidableEq

structure KnownFile (δ : Type) where
  filename : Path
  digest : δ
  dependencies : Dict Str (Dependency δ)
  external : List (External δ)

structure Unparseable (δ : Type) where
  digest : δ
  error : Str

structure Files (δ : Type) where
  known : Dict Path (KnownFile δ)
  parsed : Dict Path (ParsedFile δ)
  unchanged : Dict Path (KnownFile δ)
  unparseable : Dict Path (Unparseable δ)
  unreadable : Dict Path Str
  visiting : Dict Path δ
  resolutions : Dict Str (Option Path)
  dependencies : Dict Str (Dependency δ)

inductive Failure where
  | assertion
  | keyError
  | running
  deriving DecidableEq

namespace Files

def create (known : Dict Path (KnownFile δ)) : Files δ :=
  ⟨.ofItems (known.items.map fun e => (e.2.filename, e.2)), .empty, .empty, .empty, .empty, .empty,
    .empty, .empty⟩

def withParsedFile (files : Files δ) (parsed : ParsedFile δ) : Except Failure (Files δ) :=
  if (files.unchanged.find? parsed.filename).isSome then .error .assertion
  else .ok { files with parsed := files.parsed.set parsed.filename parsed }

def withUnparseableFile (files : Files δ) (filename : Path) (unparseable : Unparseable δ) : Files δ :=
  { files with unparseable := files.unparseable.set filename unparseable }

def withUnreadableFile (files : Files δ) (filename : Path) (error : Str) : Files δ :=
  { files with unreadable := files.unreadable.set filename error }

def withUnchangedKnownFile (files : Files δ) (file : KnownFile δ) : Except Failure (Files δ) :=
  if (files.parsed.find? file.filename).isSome then .error .assertion
  else .ok { files with unchanged := files.unchanged.set file.filename file }

/-- What is found of a file that has been met: its digest. -/
def found (files : Files δ) (filename : Path) : Option δ :=
  match files.parsed.find? filename with
  | some parsed => some parsed.digest
  | none =>
    match files.unchanged.find? filename with
    | some file => some file.digest
    | none => files.visiting.find? filename

/-- The known file, if it has the digest. -/
def carried (files : Files δ) (filename : Path) (digest : δ) : Option (KnownFile δ) :=
  (files.known.find? filename).filter fun known => known.digest = digest

/-- `{module_path: files.dependencies[module_path] for module_path in module_paths}`. -/
def observed (files : Files δ) (modulePaths : List Str) : Except Failure (Dict Str (Dependency δ)) :=
  match modulePaths.mapM fun modulePath => (files.dependencies.find? modulePath).map (modulePath, ·) with
  | none => .error .keyError
  | some items => .ok (.ofItems items)

/-- What `matches` asserts: the carried file has the digest that was recorded of it. -/
def agrees (files : Files δ) (filename : Option Path) (dependency : Dependency δ) : Bool :=
  match filename with
  | none => true
  | some filename =>
    if dependency.filename ≠ some filename then true
    else match files.unchanged.find? filename with
      | none => true
      | some file => some file.digest = dependency.digest

def matches' (files : Files δ) (modulePath : Str) (dependency : Dependency δ) : Except Failure Bool :=
  match files.resolutions.find? modulePath with
  | none => .error .keyError
  | some filename =>
    if files.agrees filename dependency then
      match files.dependencies.find? modulePath with
      | none => .error .keyError
      | some observed => .ok (observed = dependency)
    else .error .assertion

end Files

/-! ## The recursion -/

variable (py : Python β δ) (disk : Disk β σ)

/-- The file at a possible module path, which is looked for once in a walk. -/
def resolve (modulePath : Str) (files : Files δ) (s : σ) : Files δ × σ :=
  match files.resolutions.find? modulePath with
  | some _ => (files, s)
  | none =>
    let (filename, s) := disk.tryResolveModulePath modulePath s
    ({ files with
      resolutions := files.resolutions.set modulePath (filename.map disk.standardized) }, s)

def lookupOrParseModulePath
    (lookup : Path → Files δ → σ → Except Failure (Option δ × Files δ × σ)) (modulePath : Str)
    (files : Files δ) (s : σ) : Except Failure (Files δ × σ) :=
  match files.dependencies.find? modulePath with
  | some _ => .ok (files, s)
  | none =>
    let (files, s) := resolve disk modulePath files s
    match files.resolutions.find? modulePath with
    | none => .error .keyError
    | some none =>
      .ok ({ files with dependencies := files.dependencies.set modulePath ⟨none, none⟩ }, s)
    | some (some filename) =>
      match lookup filename files s with
      | .error failure => .error failure
      | .ok (digest, files, s) =>
        .ok ({ files with
          dependencies := files.dependencies.set modulePath ⟨some filename, digest⟩ }, s)

/-- Each possible module path in order. -/
def followModulePaths (lookup : Path → Files δ → σ → Except Failure (Option δ × Files δ × σ)) :
    List Str → Files δ → σ → Except Failure (Files δ × σ)
  | [], files, s => .ok (files, s)
  | modulePath :: modulePaths, files, s =>
    match lookupOrParseModulePath disk lookup modulePath files s with
    | .error failure => .error failure
    | .ok (files, s) => followModulePaths lookup modulePaths files s

/-- A file that is carried: its imports are followed all the same. -/
def lookupUnchanged (lookup : Path → Files δ → σ → Except Failure (Option δ × Files δ × σ))
    (known : KnownFile δ) (files : Files δ) (s : σ) : Except Failure (Option δ × Files δ × σ) :=
  match files.withUnchangedKnownFile known with
  | .error failure => .error failure
  | .ok files =>
    match followModulePaths disk lookup (known.dependencies.items.map Prod.fst) files s with
    | .error failure => .error failure
    | .ok (files, s) => .ok (some known.digest, files, s)

/-- A file that is parsed, once its imports are followed. -/
def parseFilename (lookup : Path → Files δ → σ → Except Failure (Option δ × Files δ × σ))
    (filename : Path) (digest : δ) (modulePaths : List Str) (files : Files δ) (s : σ) :
    Except Failure (Option δ × Files δ × σ) :=
  match followModulePaths disk lookup modulePaths
      { files with visiting := files.visiting.set filename digest } s with
  | .error failure => .error failure
  | .ok (files, s) =>
    match files.observed modulePaths with
    | .error failure => .error failure
    | .ok dependencies =>
      match files.withParsedFile ⟨filename, digest, dependencies⟩ with
      | .error failure => .error failure
      | .ok files => .ok (some digest, files, s)

def lookupOrParseFilename : Nat → Path → Files δ → σ → Except Failure (Option δ × Files δ × σ)
  | 0, _, _, _ => .error .running
  | fuel + 1, filename, files, s =>
    if filename ≠ disk.standardized filename then .error .assertion
    else match files.found filename with
      | some digest => .ok (some digest, files, s)
      | none =>
        match disk.read filename s with
        | (.error error, s) => .ok (none, files.withUnreadableFile filename error, s)
        | (.ok source, s) =>
          match files.carried filename (py.sha256 source) with
          | some known => lookupUnchanged disk (lookupOrParseFilename fuel) known files s
          | none =>
            match py.parse source with
            | .error error =>
              .ok (some (py.sha256 source),
                files.withUnparseableFile filename ⟨py.sha256 source, error⟩, s)
            | .ok syntaxTree =>
              parseFilename disk (lookupOrParseFilename fuel) filename (py.sha256 source)
                (extractPossibleModulePaths syntaxTree filename.parent) files s

/-! ## The reverse traversal -/

/-- Whether a recorded dependency does not match. -/
def anyMismatch (files : Files δ) : List (Str × Dependency δ) → Except Failure Bool
  | [] => .ok false
  | (modulePath, dependency) :: items =>
    match files.matches' modulePath dependency with
    | .error failure => .error failure
    | .ok true => anyMismatch files items
    | .ok false => .ok true

/-- The digest of an external file, which is read once in a walk. -/
def digestExternal (filename : Path) (digests : Dict Path (Option δ)) (s : σ) :
    Dict Path (Option δ) × σ :=
  match digests.find? filename with
  | some _ => (digests, s)
  | none =>
    let (source, s) := disk.read filename s
    (digests.set filename (source.toOption.map py.sha256), s)

/-- Whether an external file is not as recorded. -/
def anyExternal : List (External δ) → Dict Path (Option δ) → σ →
    Except Failure (Bool × Dict Path (Option δ) × σ)
  | [], digests, s => .ok (false, digests, s)
  | dependency :: dependencies, digests, s =>
    let (digests, s) := digestExternal py disk dependency.filename digests s
    if dependency.digest = none then .error .assertion
    else if digests.find? dependency.filename = some dependency.digest then
      anyExternal dependencies digests s
    else .ok (true, digests, s)

/-- The carried files whose own record does not stand. -/
def seeds (files : Files δ) : List (Path × KnownFile δ) → Dict Path (Option δ) → σ →
    Except Failure (List Path × σ)
  | [], _, s => .ok ([], s)
  | (filename, file) :: items, digests, s =>
    match anyMismatch files file.dependencies.items with
    | .error failure => .error failure
    | .ok true =>
      match seeds files items digests s with
      | .error failure => .error failure
      | .ok (filenames, s) => .ok (filename :: filenames, s)
    | .ok false =>
      match anyExternal py disk file.external digests s with
      | .error failure => .error failure
      | .ok (changed, digests, s) =>
        match seeds files items digests s with
        | .error failure => .error failure
        | .ok (filenames, s) => .ok (if changed then filename :: filenames else filenames, s)

/-- The carried files that recorded a dependency on a file. -/
def dependents (unchanged : Dict Path (KnownFile δ)) (filename : Path) : List Path :=
  (unchanged.items.filter fun e =>
    e.2.dependencies.items.any fun d => d.2.filename = some filename).map Prod.fst

/-! ## The walk -/

/-- What a walk returns. -/
structure Walked (δ : Type) where
  unchanged : Dict Path (KnownFile δ)
  parsed : Dict Path (ParsedFile δ)
  unparseable : Dict Path (Unparseable δ)
  unreadable : Dict Path Str

/-- A carried file that is read and parsed again. -/
def readAgain (files : Files δ) (filename : Path) (file : KnownFile δ) (walked : Walked δ) (s : σ) :
    Except Failure (Walked δ × σ) :=
  match disk.read file.filename s with
  | (.error error, s) => .ok ({ walked with unreadable := walked.unreadable.set filename error }, s)
  | (.ok source, s) =>
    match py.parse source with
    | .error error =>
      .ok ({ walked with
        unparseable := walked.unparseable.set filename ⟨py.sha256 source, error⟩ }, s)
    | .ok _ =>
      match files.observed (file.dependencies.items.map Prod.fst) with
      | .error failure => .error failure
      | .ok dependencies =>
        .ok ({ walked with
          parsed := walked.parsed.set filename ⟨file.filename, py.sha256 source, dependencies⟩ }, s)

def decideUnchanged (files : Files δ) (needsReanalysis : List Path) :
    List (Path × KnownFile δ) → Walked δ → σ → Except Failure (Walked δ × σ)
  | [], walked, s => .ok (walked, s)
  | (filename, file) :: items, walked, s =>
    if filename ∈ needsReanalysis then
      match readAgain py disk files filename file walked s with
      | .error failure => .error failure
      | .ok (walked, s) => decideUnchanged files needsReanalysis items walked s
    else decideUnchanged files needsReanalysis items
      { walked with unchanged := walked.unchanged.set filename file } s

def lookupEntries (fuel : Nat) : List Path → Files δ → σ → Except Failure (Files δ × σ)
  | [], files, s => .ok (files, s)
  | entry :: entries, files, s =>
    match lookupOrParseFilename py disk fuel (disk.standardized entry) files s with
    | .error failure => .error failure
    | .ok (_, files, s) => lookupEntries fuel entries files s

/-- `_walk`. -/
def walk (fuel : Nat) (entries : List Path) (known : Dict Path (KnownFile δ)) (s : σ) :
    Except Failure (Walked δ × σ) :=
  match lookupEntries py disk fuel entries (.create known) s with
  | .error failure => .error failure
  | .ok (files, s) =>
    match seeds py disk files files.unchanged.items .empty s with
    | .error failure => .error failure
    | .ok (filenames, s) =>
      match worklist (dependents files.unchanged) py.pop fuel filenames filenames with
      | none => .error .running
      | some needsReanalysis =>
        decideUnchanged py disk files needsReanalysis files.unchanged.items
          ⟨.empty, files.parsed, files.unparseable, files.unreadable⟩ s

end Reboot.Dashboard.Walks
