import Mathlib.Data.List.Basic
import Reboot.Dashboard.Walk

/-!
# A walk of files that stay as they are

What one walk finds while nothing on the disk changes (`Snapshot`): the recursion ends, it meets
exactly the files that are reached through imports, and what it records of each is what the snapshot
says (`lookupEntries_spec`). A file that is met is in one of four maps by what it holds, and the two
kinds that parse are told apart by whether the known digest is that of the bytes.

The induction is on the fuel. `Inv` is what holds in between, `Kept` that nothing met is lost, and
`Closed` that what a call has finished had its imports followed; the files that are being visited are
the ones above it in the recursion.
-/

namespace Reboot.Lib.Dict

variable {K V : Type} [DecidableEq K]

theorem find?_empty (k : K) : (empty : Dict K V).find? k = none := rfl

theorem find?_set {d : Dict K V} {k k' : K} {v : V} :
    (d.set k v).find? k' = if k' = k then some v else d.find? k' := by
  split
  next h => rw [h, find?_set_self]
  next h => exact find?_set_of_ne d h v

theorem find?_set_isSome {d : Dict K V} {k k' : K} {v : V} :
    ((d.set k v).find? k').isSome ↔ k' = k ∨ (d.find? k').isSome := by
  rw [find?_set]
  split <;> simp [*]

/-- Every entry of a dictionary filled with pairs that name their own value. -/
theorem find?_ofItems_map (f : K → V) (keys : List K) (k : K) :
    (ofItems (keys.map fun k => (k, f k))).find? k = if k ∈ keys then some (f k) else none := by
  have hfold : ∀ (keys : List K) (d : Dict K V),
      ((keys.map fun k => (k, f k)).foldl (fun d e => d.set e.1 e.2) d).find? k =
        if k ∈ keys then some (f k) else d.find? k := by
    intro keys
    induction keys with
    | nil => exact fun d => rfl
    | cons k' keys ih =>
      intro d
      rw [List.map_cons, List.foldl_cons, ih, find?_set]
      by_cases hk : k ∈ keys
      · simp [hk]
      · by_cases hk' : k = k' <;> simp [hk, hk']
  exact hfold keys empty

end Reboot.Lib.Dict

namespace Reboot.Dashboard.Walks

open Reboot.Lib

variable {β δ : Type}

/-! ## What a snapshot says -/

/-- What the disk answers while nothing changes. -/
structure Snapshot (β : Type) where
  standardized : Path → Path
  tryResolveModulePath : Str → Option Path
  read : Path → Except Str β
  idem : ∀ p, standardized (standardized p) = standardized p
  files : List Path
  mem_files : ∀ p source, standardized p = p → read p = .ok source → p ∈ files

namespace Snapshot

def disk (w : Snapshot β) : Disk β Unit where
  standardized := w.standardized
  tryResolveModulePath modulePath _ := (w.tryResolveModulePath modulePath, ())
  read filename _ := (w.read filename, ())

variable (py : Python β δ) (w : Snapshot β)

def resolved (modulePath : Str) : Option Path :=
  (w.tryResolveModulePath modulePath).map w.standardized

def digest (filename : Path) : Option δ := (w.read filename).toOption.map py.sha256

def observed (modulePath : Str) : Dependency δ :=
  ⟨w.resolved modulePath, (w.resolved modulePath).bind (w.digest py)⟩

/-- The possible module paths that a file imports, if it can be read and parsed. -/
def imports (filename : Path) : Option (List Str) :=
  match w.read filename with
  | .error _ => none
  | .ok source =>
    match py.parse source with
    | .error _ => none
    | .ok syntaxTree => some (extractPossibleModulePaths syntaxTree filename.parent)

inductive Reached (entries : List Path) : Path → Prop
  | entry {entry : Path} (h : entry ∈ entries) : Reached entries (w.standardized entry)
  | follow {filename target : Path} {modulePaths : List Str} {modulePath : Str}
    (h : Reached entries filename) (himports : w.imports py filename = some modulePaths)
    (hmem : modulePath ∈ modulePaths) (htarget : w.resolved modulePath = some target) :
    Reached entries target

/-- A record of a file is what the snapshot says of it. -/
def Describes (filename : Path) (digest : δ) (dependencies : Dict Str (Dependency δ)) : Prop :=
  w.digest py filename = some digest ∧ ∃ modulePaths, w.imports py filename = some modulePaths ∧
    ∀ modulePath, dependencies.find? modulePath =
      if modulePath ∈ modulePaths then some (w.observed py modulePath) else none

/-- A known file whose bytes have the recorded digest has recorded what it imports. -/
def Fits (known : Dict Path (KnownFile δ)) : Prop :=
  ∀ filename file, known.find? filename = some file → file.filename = filename ∧
    (w.digest py filename = some file.digest → ∃ modulePaths, w.imports py filename = some modulePaths ∧
      ∀ modulePath, modulePath ∈ file.dependencies.items.map Prod.fst ↔ modulePath ∈ modulePaths)

theorem resolved_standardized {modulePath : Str} {target : Path}
    (h : w.resolved modulePath = some target) : w.standardized target = target := by
  obtain ⟨p, -, rfl⟩ := Option.map_eq_some_iff.mp h
  exact w.idem p

theorem Reached.standardized {entries : List Path} {filename : Path}
    (h : w.Reached py entries filename) : w.standardized filename = filename := by
  cases h with
  | entry _ => exact w.idem _
  | follow _ _ _ htarget => exact w.resolved_standardized htarget

end Snapshot

/-! ## What holds in between -/

namespace Files

variable (files files' : Files δ) (filename : Path)

/-- The file has been read, or could not be. -/
def Met : Prop :=
  (files.parsed.find? filename).isSome ∨ (files.unchanged.find? filename).isSome ∨
    (files.unparseable.find? filename).isSome ∨ (files.unreadable.find? filename).isSome ∨
    (files.visiting.find? filename).isSome

def Done : Prop :=
  (files.parsed.find? filename).isSome ∨ (files.unchanged.find? filename).isSome

/-- A file that may yet be recursed into. -/
def fresh : Bool :=
  (files.visiting.find? filename).isNone && (files.unchanged.find? filename).isNone

/-- Nothing that was met is lost. -/
structure Kept : Prop where
  met : ∀ filename, files.Met filename → files'.Met filename
  fresh : ∀ filename, files'.fresh filename = true → files.fresh filename = true
  parsed : ∀ filename, (files.parsed.find? filename).isSome → (files'.parsed.find? filename).isSome
  resolutions : ∀ modulePath, (files.resolutions.find? modulePath).isSome →
    (files'.resolutions.find? modulePath).isSome
  dependencies : ∀ modulePath, (files.dependencies.find? modulePath).isSome →
    (files'.dependencies.find? modulePath).isSome

theorem Kept.refl : files.Kept files :=
  ⟨fun _ => id, fun _ => id, fun _ => id, fun _ => id, fun _ => id⟩

variable {files files'} in
theorem Kept.trans {files'' : Files δ} (h : files.Kept files') (h' : files'.Kept files'') :
    files.Kept files'' :=
  ⟨fun p hp => h'.met p (h.met p hp), fun p hp => h.fresh p (h'.fresh p hp),
    fun p hp => h'.parsed p (h.parsed p hp), fun mp hmp => h'.resolutions mp (h.resolutions mp hmp),
    fun mp hmp => h'.dependencies mp (h.dependencies mp hmp)⟩

end Files

namespace Snapshot

variable (py : Python β δ) (w : Snapshot β) (entries : List Path) (known : Dict Path (KnownFile δ))

structure Inv (files : Files δ) : Prop where
  carried : files.known = known
  resolutions : ∀ modulePath r, files.resolutions.find? modulePath = some r →
    r = w.resolved modulePath
  dependencies : ∀ modulePath d, files.dependencies.find? modulePath = some d →
    d = w.observed py modulePath ∧
      files.resolutions.find? modulePath = some (w.resolved modulePath)
  parsed : ∀ filename file, files.parsed.find? filename = some file → file.filename = filename ∧
    w.Describes py filename file.digest file.dependencies ∧
    ∀ k, known.find? filename = some k → k.digest ≠ file.digest
  unchanged : ∀ filename file, files.unchanged.find? filename = some file →
    known.find? filename = some file ∧ w.digest py filename = some file.digest
  visiting : ∀ filename d, files.visiting.find? filename = some d →
    w.digest py filename = some d ∧ ∀ k, known.find? filename = some k → k.digest ≠ d
  unparseable : ∀ filename u, files.unparseable.find? filename = some u →
    ∃ source error, w.read filename = .ok source ∧ py.parse source = .error error
  unreadable : ∀ filename e, files.unreadable.find? filename = some e →
    w.read filename = .error e
  reached : ∀ filename, files.Met filename → w.Reached py entries filename

/-- What was finished meanwhile has had its imports followed, what was observed leads to files that
have been met, and what was visited is parsed. -/
structure Closed (files files' : Files δ) : Prop where
  finished : ∀ filename, files'.Done filename → files.Done filename ∨
    ∀ modulePaths, w.imports py filename = some modulePaths → ∀ modulePath ∈ modulePaths,
      (files'.dependencies.find? modulePath).isSome
  observed : ∀ modulePath, (files'.dependencies.find? modulePath).isSome →
    (files.dependencies.find? modulePath).isSome ∨
      ∀ target, w.resolved modulePath = some target → files'.Met target
  visited : ∀ filename, (files'.visiting.find? filename).isSome →
    (files.visiting.find? filename).isSome ∨ (files'.parsed.find? filename).isSome

variable {py w entries known} {files files' files'' : Files δ}

theorem Closed.refl : w.Closed py files files := ⟨fun _ => .inl, fun _ => .inl, fun _ => .inl⟩

theorem Closed.trans (h : w.Closed py files files') (h' : w.Closed py files' files'')
    (hk' : files'.Kept files'') : w.Closed py files files'' := by
  refine ⟨fun p hp => ?_, fun mp hmp => ?_, fun p hp => ?_⟩
  · rcases h'.finished p hp with hp | hp
    · rcases h.finished p hp with hp | hp
      · exact .inl hp
      · exact .inr fun mps hmps mp hmp => hk'.dependencies mp (hp mps hmps mp hmp)
    · exact .inr hp
  · rcases h'.observed mp hmp with hmp | hmp
    · rcases h.observed mp hmp with hmp | hmp
      · exact .inl hmp
      · exact .inr fun p hp => hk'.met p (hmp p hp)
    · exact .inr hmp
  · rcases h'.visited p hp with hp | hp
    · rcases h.visited p hp with hp | hp
      · exact .inl hp
      · exact .inr (hk'.parsed p hp)
    · exact .inr hp

/-- How many files may yet be recursed into. -/
def pending (w : Snapshot β) (files : Files δ) : Nat := (w.files.filter files.fresh).length

theorem pending_le (h : files.Kept files') : w.pending files' ≤ w.pending files :=
  (List.monotone_filter_right w.files h.fresh).length_le

theorem pending_lt {filename : Path} {source : β} (h : files.Kept files')
    (hreach : w.Reached py entries filename) (hread : w.read filename = .ok source) (hfresh : files.fresh filename = true)
    (hstale : files'.fresh filename = false) : w.pending files' < w.pending files := by
  have hfilter : w.files.filter files'.fresh = (w.files.filter files.fresh).filter files'.fresh := by
    rw [List.filter_filter]
    refine List.filter_congr fun p _ => ?_
    cases hp : files'.fresh p with
    | false => rfl
    | true => rw [h.fresh p hp]; rfl
  unfold pending
  rw [hfilter]
  refine List.length_filter_lt_length_iff_exists.mpr ⟨filename, ?_, by simp [hstale]⟩
  exact List.mem_filter.mpr ⟨w.mem_files _ _ hreach.standardized hread, hfresh⟩

/-! ## The recursion -/

/-- What a lookup of files does while fewer than `n` may yet be recursed into. -/
def LookupSpec (py : Python β δ) (w : Snapshot β) (entries : List Path)
    (known : Dict Path (KnownFile δ))
    (lookup : Path → Files δ → Unit → Except Failure (Option δ × Files δ × Unit)) (n : Nat) : Prop :=
  ∀ filename files, w.Inv py entries known files → w.pending files < n →
    w.Reached py entries filename → ∃ files', lookup filename files () =
      .ok (w.digest py filename, files', ()) ∧ w.Inv py entries known files' ∧ files.Kept files' ∧
      w.Closed py files files' ∧ files'.Met filename

section

variable {lookup : Path → Files δ → Unit → Except Failure (Option δ × Files δ × Unit)} {n : Nat}
  {modulePath : Str}

variable (modulePath) in
theorem resolve_spec (hinv : w.Inv py entries known files) : ∃ resolutions,
    resolve w.disk modulePath files () = ({ files with resolutions := resolutions }, ()) ∧
      w.Inv py entries known { files with resolutions := resolutions } ∧
      resolutions.find? modulePath = some (w.resolved modulePath) ∧
      ∀ mp, (files.resolutions.find? mp).isSome → (resolutions.find? mp).isSome := by
  unfold resolve
  cases hr : files.resolutions.find? modulePath with
  | some r =>
    refine ⟨files.resolutions, rfl, hinv, ?_, fun _ => id⟩
    rw [hr, hinv.resolutions _ r hr]
  | none =>
    refine ⟨files.resolutions.set modulePath (w.resolved modulePath), rfl,
      { hinv with resolutions := ?_, dependencies := ?_ }, Dict.find?_set_self _ _ _,
      fun mp hmp => Dict.find?_set_isSome.mpr (.inr hmp)⟩
    · intro mp r hmp
      simp only [Dict.find?_set] at hmp
      split at hmp
      next heq => rw [heq, Option.some.inj hmp]
      next => exact hinv.resolutions mp r hmp
    · intro mp d hmp
      refine ⟨(hinv.dependencies mp d hmp).1, ?_⟩
      simp only [Dict.find?_set]
      split
      next heq => rw [heq]
      next => exact (hinv.dependencies mp d hmp).2

/-- What was found at a possible module path is recorded. -/
theorem observe_spec (hinv : w.Inv py entries known files)
    (hres : files.resolutions.find? modulePath = some (w.resolved modulePath))
    (hmet : ∀ target, w.resolved modulePath = some target → files.Met target) :
    let files' := { files with
      dependencies := files.dependencies.set modulePath (w.observed py modulePath) }
    w.Inv py entries known files' ∧ files.Kept files' ∧ w.Closed py files files' ∧
      (files'.dependencies.find? modulePath).isSome := by
  intro files'
  refine ⟨{ hinv with dependencies := ?_ }, ⟨fun _ => id, fun _ => id, fun _ => id, fun _ => id, ?_⟩,
    ⟨fun _ => .inl, ?_, fun _ => .inl⟩, Dict.find?_set_isSome.mpr (.inl rfl)⟩
  · intro mp d hmp
    simp only [files', Dict.find?_set] at hmp
    split at hmp
    next heq =>
      rw [heq]
      exact ⟨(Option.some.inj hmp).symm, hres⟩
    next => exact hinv.dependencies mp d hmp
  · exact fun mp hmp => Dict.find?_set_isSome.mpr (.inr hmp)
  · intro mp hmp
    rcases Dict.find?_set_isSome.mp hmp with rfl | hmp
    · exact .inr hmet
    · exact .inl hmp

theorem lookupOrParseModulePath_spec (hl : LookupSpec py w entries known lookup n)
    (hinv : w.Inv py entries known files) (hn : w.pending files < n)
    (hreach : ∀ target, w.resolved modulePath = some target → w.Reached py entries target) :
    ∃ files', lookupOrParseModulePath w.disk lookup modulePath files () = .ok (files', ()) ∧
      w.Inv py entries known files' ∧ files.Kept files' ∧ w.Closed py files files' ∧
      (files'.dependencies.find? modulePath).isSome := by
  unfold lookupOrParseModulePath
  cases hd : files.dependencies.find? modulePath with
  | some d =>
    exact ⟨files, rfl, hinv, .refl files, .refl, by rw [hd]; rfl⟩
  | none =>
    obtain ⟨resolutions, h₁, hinv₁, hres₁, hres⟩ := resolve_spec modulePath hinv
    have hkept₁ : files.Kept { files with resolutions := resolutions } :=
      ⟨fun _ => id, fun _ => id, fun _ => id, hres, fun _ => id⟩
    have hclosed₁ : w.Closed py files { files with resolutions := resolutions } :=
      ⟨fun _ => .inl, fun _ => .inl, fun _ => .inl⟩
    simp only [h₁, hres₁]
    cases hr : w.resolved modulePath with
    | none =>
      have hobserved : w.observed py modulePath = ⟨none, none⟩ := by rw [observed, hr]; rfl
      obtain ⟨hinv₂, hkept₂, hclosed₂, hsome⟩ :=
        observe_spec hinv₁ hres₁ fun target htarget => by rw [hr] at htarget; cases htarget
      rw [hobserved] at hinv₂ hkept₂ hclosed₂ hsome
      exact ⟨_, rfl, hinv₂, hkept₁.trans hkept₂, hclosed₁.trans hclosed₂ hkept₂, hsome⟩
    | some target =>
      have hobserved : w.observed py modulePath = ⟨some target, w.digest py target⟩ := by
        rw [observed, hr]; rfl
      obtain ⟨files₂, h₂, hinv₂, hkept₂, hclosed₂, hmet₂⟩ :=
        hl target _ hinv₁ (Nat.lt_of_le_of_lt (pending_le hkept₁) hn) (hreach target hr)
      have hres₂ : files₂.resolutions.find? modulePath = some (w.resolved modulePath) := by
        obtain ⟨r, hr₂⟩ := Option.isSome_iff_exists.mp (hkept₂.resolutions modulePath (by rw [hres₁]; rfl))
        rw [hr₂, hinv₂.resolutions _ r hr₂]
      obtain ⟨hinv₃, hkept₃, hclosed₃, hsome⟩ :=
        observe_spec hinv₂ hres₂ fun p hp => by rw [hr] at hp; cases hp; exact hmet₂
      rw [hobserved] at hinv₃ hkept₃ hclosed₃ hsome
      simp only [h₂]
      exact ⟨_, rfl, hinv₃, (hkept₁.trans hkept₂).trans hkept₃,
        (hclosed₁.trans hclosed₂ hkept₂).trans hclosed₃ hkept₃, hsome⟩

theorem followModulePaths_spec (hl : LookupSpec py w entries known lookup n) (modulePaths : List Str)
    (hinv : w.Inv py entries known files) (hn : w.pending files < n)
    (hreach : ∀ modulePath ∈ modulePaths, ∀ target, w.resolved modulePath = some target →
      w.Reached py entries target) :
    ∃ files', followModulePaths w.disk lookup modulePaths files () = .ok (files', ()) ∧
      w.Inv py entries known files' ∧ files.Kept files' ∧ w.Closed py files files' ∧
      ∀ modulePath ∈ modulePaths, (files'.dependencies.find? modulePath).isSome := by
  induction modulePaths generalizing files with
  | nil => exact ⟨files, rfl, hinv, .refl files, .refl, fun _ h => absurd h List.not_mem_nil⟩
  | cons mp mps ih =>
    obtain ⟨files₁, h₁, hinv₁, hkept₁, hclosed₁, hsome⟩ :=
      lookupOrParseModulePath_spec hl hinv hn (hreach mp List.mem_cons_self)
    obtain ⟨files₂, h₂, hinv₂, hkept₂, hclosed₂, hall⟩ := ih hinv₁
      (Nat.lt_of_le_of_lt (pending_le hkept₁) hn) fun p hp => hreach p (List.mem_cons_of_mem _ hp)
    refine ⟨files₂, ?_, hinv₂, hkept₁.trans hkept₂, hclosed₁.trans hclosed₂ hkept₂, fun p hp => ?_⟩
    · simp only [followModulePaths, h₁, h₂]
    · rcases List.mem_cons.mp hp with rfl | hp
      · exact hkept₂.dependencies p hsome
      · exact hall p hp

/-- Where every possible module path has been followed, the record of what was observed is complete. -/
theorem observed_spec {modulePaths : List Str} (hinv : w.Inv py entries known files)
    (hall : ∀ modulePath ∈ modulePaths, (files.dependencies.find? modulePath).isSome) :
    ∃ dependencies, files.observed modulePaths = .ok dependencies ∧ ∀ modulePath,
      dependencies.find? modulePath =
        if modulePath ∈ modulePaths then some (w.observed py modulePath) else none := by
  have hmap : (modulePaths.mapM fun modulePath =>
      (files.dependencies.find? modulePath).map (modulePath, ·)) =
      some (modulePaths.map fun modulePath => (modulePath, w.observed py modulePath)) := by
    induction modulePaths with
    | nil => rfl
    | cons mp mps ih =>
      obtain ⟨d, hd⟩ := Option.isSome_iff_exists.mp (hall mp List.mem_cons_self)
      rw [List.mapM_cons, ih fun p hp => hall p (List.mem_cons_of_mem _ hp), hd,
        (hinv.dependencies mp d hd).1]
      rfl
  refine ⟨_, by rw [Files.observed, hmap], fun mp => ?_⟩
  rw [Dict.find?_ofItems_map]
  by_cases hmp : mp ∈ modulePaths
  · rw [if_pos hmp, if_pos hmp]
  · rw [if_neg hmp, if_neg hmp]

theorem found_eq_none {filename : Path} (h : files.found filename = none) :
    files.parsed.find? filename = none ∧ files.unchanged.find? filename = none ∧
      files.visiting.find? filename = none := by
  unfold Files.found at h
  split at h
  next => cases h
  next hparsed =>
    split at h
    next => cases h
    next hunchanged => exact ⟨hparsed, hunchanged, h⟩

theorem lookupUnchanged_spec {filename : Path} {file : KnownFile δ} {source : β}
    (hfits : w.Fits py known) (hl : LookupSpec py w entries known lookup n)
    (hinv : w.Inv py entries known files) (hn : w.pending files < n + 1)
    (hreach : w.Reached py entries filename) (hread : w.read filename = .ok source)
    (hfound : files.found filename = none) (hknown : known.find? filename = some file)
    (hdigest : w.digest py filename = some file.digest) :
    ∃ files', lookupUnchanged w.disk lookup file files () =
        .ok (w.digest py filename, files', ()) ∧ w.Inv py entries known files' ∧
      files.Kept files' ∧ w.Closed py files files' ∧ files'.Met filename := by
  obtain ⟨hparsed, hunchanged, hvisiting⟩ := found_eq_none hfound
  obtain ⟨rfl, hdependencies⟩ := hfits filename file hknown
  obtain ⟨modulePaths, himports, hkeys⟩ := hdependencies hdigest
  have hadd : files.withUnchangedKnownFile file =
      .ok { files with unchanged := files.unchanged.set file.filename file } := by
    rw [Files.withUnchangedKnownFile, hparsed]
    rfl
  -- the file is met before its imports are followed
  have hmet : ∀ p, Files.Met { files with unchanged := files.unchanged.set file.filename file } p ↔
      p = file.filename ∨ files.Met p := by
    intro p
    simp only [Files.Met, Dict.find?_set_isSome]
    grind
  have hinv₁ : w.Inv py entries known
      { files with unchanged := files.unchanged.set file.filename file } := by
    refine { hinv with unchanged := fun p k hk => ?_, reached := fun p hp => ?_ }
    · simp only [Dict.find?_set] at hk
      split at hk
      next heq =>
        cases hk
        exact heq ▸ ⟨hknown, hdigest⟩
      next => exact hinv.unchanged p k hk
    · rcases (hmet p).mp hp with rfl | hp
      · exact hreach
      · exact hinv.reached p hp
  have hkept₁ : files.Kept { files with unchanged := files.unchanged.set file.filename file } := by
    refine ⟨fun p hp => (hmet p).mpr (.inr hp), fun p hp => ?_, fun _ => id, fun _ => id,
      fun _ => id⟩
    simp only [Files.fresh, Dict.find?_set, Bool.and_eq_true, Option.isNone_iff_eq_none] at hp ⊢
    refine ⟨hp.1, ?_⟩
    have hnone := hp.2
    split at hnone
    next => cases hnone
    next => exact hnone
  have hpending : w.pending { files with unchanged := files.unchanged.set file.filename file } < n :=
    Nat.lt_of_lt_of_le (pending_lt hkept₁ hreach hread (by simp [Files.fresh, hvisiting, hunchanged])
      (by simp [Files.fresh])) (Nat.le_of_lt_succ hn)
  obtain ⟨files₂, h₂, hinv₂, hkept₂, hclosed₂, hall⟩ := followModulePaths_spec hl
    (file.dependencies.items.map Prod.fst) hinv₁ hpending fun mp hmp target htarget =>
      .follow hreach himports ((hkeys mp).mp hmp) htarget
  refine ⟨files₂, ?_, hinv₂, hkept₁.trans hkept₂, ⟨fun p hp => ?_, hclosed₂.observed,
    hclosed₂.visited⟩, hkept₂.met _ ((hmet _).mpr (.inl rfl))⟩
  · simp only [lookupUnchanged, hadd, h₂, hdigest]
  · rcases hclosed₂.finished p hp with hp | hp
    · simp only [Files.Done, Dict.find?_set_isSome] at hp
      rcases hp with hp | rfl | hp
      · exact .inl (.inl hp)
      · refine .inr fun mps hmps mp hmp => hall mp ((hkeys mp).mpr ?_)
        rw [himports] at hmps
        cases hmps
        exact hmp
      · exact .inl (.inr hp)
    · exact .inr hp

theorem parseFilename_spec {filename : Path} {source : β} {digest : δ} {modulePaths : List Str}
    (hl : LookupSpec py w entries known lookup n)
    (hinv : w.Inv py entries known files) (hn : w.pending files < n + 1)
    (hreach : w.Reached py entries filename) (hread : w.read filename = .ok source)
    (hfound : files.found filename = none) (hdigest : w.digest py filename = some digest)
    (hnew : ∀ k, known.find? filename = some k → k.digest ≠ digest)
    (himports : w.imports py filename = some modulePaths) :
    ∃ files', parseFilename w.disk lookup filename digest modulePaths files () =
        .ok (w.digest py filename, files', ()) ∧ w.Inv py entries known files' ∧
      files.Kept files' ∧ w.Closed py files files' ∧ files'.Met filename := by
  obtain ⟨hparsed, hunchanged, hvisiting⟩ := found_eq_none hfound
  -- the file is being visited while its imports are followed
  have hmet : ∀ p, Files.Met { files with visiting := files.visiting.set filename digest } p ↔
      p = filename ∨ files.Met p := by
    intro p
    simp only [Files.Met, Dict.find?_set_isSome]
    grind
  have hinv₁ : w.Inv py entries known
      { files with visiting := files.visiting.set filename digest } := by
    refine { hinv with visiting := fun p d hd => ?_, reached := fun p hp => ?_ }
    · simp only [Dict.find?_set] at hd
      split at hd
      next heq =>
        cases hd
        exact heq ▸ ⟨hdigest, hnew⟩
      next => exact hinv.visiting p d hd
    · rcases (hmet p).mp hp with rfl | hp
      · exact hreach
      · exact hinv.reached p hp
  have hkept₁ : files.Kept { files with visiting := files.visiting.set filename digest } := by
    refine ⟨fun p hp => (hmet p).mpr (.inr hp), fun p hp => ?_, fun _ => id, fun _ => id,
      fun _ => id⟩
    simp only [Files.fresh, Dict.find?_set, Bool.and_eq_true, Option.isNone_iff_eq_none] at hp ⊢
    refine ⟨?_, hp.2⟩
    have hnone := hp.1
    split at hnone
    next => cases hnone
    next => exact hnone
  have hpending : w.pending { files with visiting := files.visiting.set filename digest } < n :=
    Nat.lt_of_lt_of_le (pending_lt hkept₁ hreach hread (by simp [Files.fresh, hvisiting, hunchanged])
      (by simp [Files.fresh])) (Nat.le_of_lt_succ hn)
  obtain ⟨files₂, h₂, hinv₂, hkept₂, hclosed₂, hall⟩ := followModulePaths_spec hl modulePaths
    hinv₁ hpending fun mp hmp target htarget => .follow hreach himports hmp htarget
  obtain ⟨dependencies, hobserved, hdependencies⟩ := observed_spec hinv₂ hall
  -- it has not been carried meanwhile, since its digest is not the known one
  have hnot : files₂.unchanged.find? filename = none := by
    cases hk : files₂.unchanged.find? filename with
    | none => rfl
    | some k =>
      obtain ⟨hknown, hdigest'⟩ := hinv₂.unchanged _ k hk
      rw [hdigest] at hdigest'
      exact absurd (Option.some.inj hdigest').symm (hnew k hknown)
  have hadd : files₂.withParsedFile ⟨filename, digest, dependencies⟩ = .ok { files₂ with
      parsed := files₂.parsed.set filename ⟨filename, digest, dependencies⟩ } := by
    rw [Files.withParsedFile, hnot]
    rfl
  have hmet₃ : ∀ p, Files.Met { files₂ with
      parsed := files₂.parsed.set filename ⟨filename, digest, dependencies⟩ } p ↔
      p = filename ∨ files₂.Met p := by
    intro p
    simp only [Files.Met, Dict.find?_set_isSome]
    grind
  have hinv₃ : w.Inv py entries known { files₂ with
      parsed := files₂.parsed.set filename ⟨filename, digest, dependencies⟩ } := by
    refine { hinv₂ with parsed := fun p file hfile => ?_, reached := fun p hp => ?_ }
    · simp only [Dict.find?_set] at hfile
      split at hfile
      next heq =>
        subst heq
        cases hfile
        exact ⟨rfl, ⟨hdigest, modulePaths, himports, hdependencies⟩, hnew⟩
      next => exact hinv₂.parsed p file hfile
    · rcases (hmet₃ p).mp hp with rfl | hp
      · exact hreach
      · exact hinv₂.reached p hp
  have hkept₃ : files₂.Kept { files₂ with
      parsed := files₂.parsed.set filename ⟨filename, digest, dependencies⟩ } :=
    ⟨fun p hp => (hmet₃ p).mpr (.inr hp), fun _ => id,
      fun p hp => Dict.find?_set_isSome.mpr (.inr hp), fun _ => id, fun _ => id⟩
  refine ⟨_, ?_, hinv₃, (hkept₁.trans hkept₂).trans hkept₃, ⟨fun p hp => ?_, fun mp hmp => ?_,
    fun p hp => ?_⟩, (hmet₃ _).mpr (.inl rfl)⟩
  · simp only [parseFilename, h₂, hobserved, hadd, hdigest]
  · simp only [Files.Done, Dict.find?_set_isSome] at hp
    rcases hp with (rfl | hp) | hp
    · refine .inr fun mps hmps mp hmp => hall mp ?_
      rw [himports] at hmps
      cases hmps
      exact hmp
    · exact hclosed₂.finished p (.inl hp)
    · exact hclosed₂.finished p (.inr hp)
  · rcases hclosed₂.observed mp hmp with hmp | hmp
    · exact .inl hmp
    · exact .inr fun target htarget => hkept₃.met target (hmp target htarget)
  · rcases hclosed₂.visited p hp with hp | hp
    · rcases Dict.find?_set_isSome.mp hp with rfl | hp
      · exact .inr (Dict.find?_set_isSome.mpr (.inl rfl))
      · exact .inl hp
    · exact .inr (Dict.find?_set_isSome.mpr (.inr hp))

theorem digest_of_found {filename : Path} {digest : δ} (hinv : w.Inv py entries known files)
    (h : files.found filename = some digest) :
    w.digest py filename = some digest ∧ files.Met filename := by
  unfold Files.found at h
  split at h
  next file hfile =>
    cases h
    exact ⟨(hinv.parsed filename file hfile).2.1.1, .inl (by rw [hfile]; rfl)⟩
  next =>
    split at h
    next file hfile =>
      cases h
      exact ⟨(hinv.unchanged filename file hfile).2, .inr (.inl (by rw [hfile]; rfl))⟩
    next =>
      exact ⟨(hinv.visiting filename digest h).1, .inr (.inr (.inr (.inr (by rw [h]; rfl))))⟩

/-- A file that is neither carried nor parsed is met, and nothing else happens. -/
theorem put_spec {filename : Path} (hinv : w.Inv py entries known files)
    (hreach : w.Reached py entries filename)
    (unparseable : Dict Path (Unparseable δ)) (unreadable : Dict Path Str)
    (hunparseable : ∀ p u, unparseable.find? p = some u →
      ∃ source error, w.read p = .ok source ∧ py.parse source = .error error)
    (hunreadable : ∀ p e, unreadable.find? p = some e → w.read p = .error e)
    (hold : ∀ p, (files.unparseable.find? p).isSome ∨ (files.unreadable.find? p).isSome →
      (unparseable.find? p).isSome ∨ (unreadable.find? p).isSome)
    (hnew : ∀ p, (unparseable.find? p).isSome ∨ (unreadable.find? p).isSome → p = filename ∨
      (files.unparseable.find? p).isSome ∨ (files.unreadable.find? p).isSome) :
    let files' := { files with unparseable := unparseable, unreadable := unreadable }
    w.Inv py entries known files' ∧ files.Kept files' ∧ w.Closed py files files' := by
  intro files'
  refine ⟨{ hinv with unparseable := hunparseable, unreadable := hunreadable, reached := ?_ },
    ⟨?_, fun _ => id, fun _ => id, fun _ => id, fun _ => id⟩,
    ⟨fun _ => .inl, fun _ => .inl, fun _ => .inl⟩⟩
  · intro p hp
    by_cases heq : p = filename
    · exact heq ▸ hreach
    · refine hinv.reached p ?_
      have hnew := hnew p
      simp only [files', Files.Met] at hp ⊢
      grind
  · intro p hp
    have hold := hold p
    simp only [files', Files.Met] at hp ⊢
    grind

variable [DecidableEq δ]

theorem lookupOrParseFilename_spec (hfits : w.Fits py known) (fuel : Nat) :
    LookupSpec py w entries known (lookupOrParseFilename py w.disk fuel) fuel := by
  induction fuel with
  | zero => exact fun _ _ _ h => absurd h (Nat.not_lt_zero _)
  | succ fuel ih =>
    intro filename files hinv hn hreach
    have hstandardized : ¬ filename ≠ w.disk.standardized filename :=
      not_not.mpr hreach.standardized.symm
    unfold lookupOrParseFilename
    rw [if_neg hstandardized]
    cases hfound : files.found filename with
    | some digest =>
      obtain ⟨hdigest, hmet⟩ := digest_of_found hinv hfound
      exact ⟨files, by rw [hdigest], hinv, .refl files, .refl, hmet⟩
    | none =>
      cases hread : w.read filename with
      | error error =>
        have hdigest : w.digest py filename = none := by rw [digest, hread]; rfl
        obtain ⟨hinv', hkept, hclosed⟩ := put_spec hinv hreach files.unparseable
          (files.unreadable.set filename error) hinv.unparseable
          (fun p e he => by
            rw [Dict.find?_set] at he
            split at he
            next heq => cases he; exact heq ▸ hread
            next => exact hinv.unreadable p e he)
          (fun p hp => hp.imp_right fun h => Dict.find?_set_isSome.mpr (.inr h))
          (fun p hp => by rw [Dict.find?_set_isSome] at hp; grind)
        refine ⟨files.withUnreadableFile filename error, ?_, hinv', hkept, hclosed,
          .inr (.inr (.inr (.inl (Dict.find?_set_isSome.mpr (.inl rfl)))))⟩
        simp only [disk, hread, hdigest]
      | ok source =>
        have hdigest : w.digest py filename = some (py.sha256 source) := by rw [digest, hread]; rfl
        cases hcarried : files.carried filename (py.sha256 source) with
        | some file =>
          obtain ⟨hknown, hsame⟩ := Option.filter_eq_some_iff.mp hcarried
          rw [hinv.carried] at hknown
          have hsame : file.digest = py.sha256 source := of_decide_eq_true hsame
          obtain ⟨files', h', hspec⟩ := lookupUnchanged_spec hfits ih hinv hn hreach hread hfound
            hknown (by rw [hdigest, hsame])
          refine ⟨files', ?_, hspec⟩
          simp only [disk, hread, hcarried]
          exact h'
        | none =>
          have hnew : ∀ k, known.find? filename = some k → k.digest ≠ py.sha256 source := by
            intro k hk hsame
            rw [Files.carried, hinv.carried, hk] at hcarried
            simp [hsame] at hcarried
          cases hparse : py.parse source with
          | error error =>
            obtain ⟨hinv', hkept, hclosed⟩ := put_spec hinv hreach
              (files.unparseable.set filename ⟨py.sha256 source, error⟩) files.unreadable
              (fun p u hu => by
                rw [Dict.find?_set] at hu
                split at hu
                next heq => exact ⟨source, error, heq ▸ hread, hparse⟩
                next => exact hinv.unparseable p u hu)
              hinv.unreadable
              (fun p hp => hp.imp_left fun h => Dict.find?_set_isSome.mpr (.inr h))
              (fun p hp => by rw [Dict.find?_set_isSome] at hp; grind)
            refine ⟨files.withUnparseableFile filename ⟨py.sha256 source, error⟩, ?_, hinv', hkept,
              hclosed, .inr (.inr (.inl (Dict.find?_set_isSome.mpr (.inl rfl))))⟩
            simp only [disk, hread, hcarried, hparse, hdigest]
          | ok syntaxTree =>
            have himports : w.imports py filename =
                some (extractPossibleModulePaths syntaxTree filename.parent) := by
              rw [imports, hread]
              simp only [hparse]
            obtain ⟨files', h', hspec⟩ := parseFilename_spec ih hinv hn hreach hread hfound hdigest
              hnew himports
            refine ⟨files', ?_, hspec⟩
            simp only [disk, hread, hcarried, hparse]
            exact h'

theorem lookupEntries_spec (hfits : w.Fits py known) {fuel : Nat} (paths : List Path)
    (hpaths : ∀ entry ∈ paths, entry ∈ entries) (hinv : w.Inv py entries known files)
    (hn : w.pending files < fuel) :
    ∃ files', lookupEntries py w.disk fuel paths files () = .ok (files', ()) ∧
      w.Inv py entries known files' ∧ files.Kept files' ∧ w.Closed py files files' ∧
      ∀ entry ∈ paths, files'.Met (w.standardized entry) := by
  induction paths generalizing files with
  | nil => exact ⟨files, rfl, hinv, .refl files, .refl, fun _ h => absurd h List.not_mem_nil⟩
  | cons entry paths ih =>
    obtain ⟨files₁, h₁, hinv₁, hkept₁, hclosed₁, hmet⟩ := lookupOrParseFilename_spec hfits fuel
      (w.standardized entry) files hinv hn (.entry (hpaths entry List.mem_cons_self))
    obtain ⟨files₂, h₂, hinv₂, hkept₂, hclosed₂, hall⟩ :=
      ih (fun p hp => hpaths p (List.mem_cons_of_mem _ hp)) hinv₁
        (Nat.lt_of_le_of_lt (pending_le hkept₁) hn)
    refine ⟨files₂, ?_, hinv₂, hkept₁.trans hkept₂, hclosed₁.trans hclosed₂ hkept₂, fun p hp => ?_⟩
    · have h₁ : lookupOrParseFilename py w.disk fuel (w.disk.standardized entry) files () =
          .ok (w.digest py (w.standardized entry), files₁, ()) := h₁
      simp only [lookupEntries, h₁, h₂]
    · rcases List.mem_cons.mp hp with rfl | hp
      · exact hkept₂.met _ hmet
      · exact hall p hp

end

end Snapshot

end Reboot.Dashboard.Walks
