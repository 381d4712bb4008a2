import Mathlib.Data.Set.Function
import Reboot.Dashboard.WalkAgain

/-!
# Incremental walks

Each iteration of the dashboard's watch walks from what the iteration before recorded
(`known_now = {**unchanged, **analyzed}`, `reboot/dashboard/backend/code_watcher.py`). What is known
after any number of walks describes the last file system that was walked (`Known.fits`), and so the
next walk finds what a walk from nothing would find (`incremental_walks`), however the files changed
in between.

Mirroring notes:
- The file system stands still while it is walked, and the entries and the roots stay the same.
- A known file that the walk does not reach any more is not returned, whatever is recorded of it:
  `_walk` returns "only what they reach".
- What the analysis reads outside every root is any list of files with their digests.
-/

namespace Reboot.Lib.Dict

variable {K V : Type} [DecidableEq K]

/-- `{**d, **e}`. -/
def update (d e : Dict K V) : Dict K V := e.items.foldl (fun d x => d.set x.1 x.2) d

theorem find?_update {d e : Dict K V} {k : K} :
    (d.update e).find? k = (e.find? k).or (d.find? k) := by
  have hfold : ∀ (items : List (K × V)) (d : Dict K V), (items.map Prod.fst).Nodup →
      (items.foldl (fun d x => d.set x.1 x.2) d).find? k = (items.lookup k).or (d.find? k) := by
    intro items
    induction items with
    | nil => exact fun d _ => rfl
    | cons x items ih =>
      intro d hnodup
      obtain ⟨hfresh, hnodup⟩ := List.nodup_cons.mp hnodup
      rw [List.foldl_cons, ih _ hnodup, find?_set]
      by_cases hk : k = x.1
      · have hnone : items.lookup k = none := by
          rw [List.lookup_eq_none_iff]
          intro y hy
          rw [bne_iff_ne]
          rintro rfl
          exact hfresh (hk ▸ List.mem_map_of_mem hy)
        rw [hnone, if_pos hk, lookup_cons_eq hk]
        rfl
      · rw [if_neg hk, lookup_cons_ne hk]
  exact hfold e.items d e.nodup

end Reboot.Lib.Dict

namespace Reboot.Dashboard.Walks

open Reboot.Lib

variable {β δ : Type}

/-! ## File systems -/

/-- Files by their standard spelling, each with its bytes or the error that reading it raises. -/
structure FileSystem (β : Type) where
  standardized : Path → Path
  idem : ∀ p, standardized (standardized p) = standardized p
  files : Dict Path (Except Str β)

namespace FileSystem

def isfile (disk : FileSystem β) (p : Path) : Bool := (disk.files.find? (disk.standardized p)).isSome

def read (disk : FileSystem β) (p : Path) : Except Str β :=
  (disk.files.find? (disk.standardized p)).getD (.error "No such file or directory".toList)

/-- What a walk with these roots is answered. -/
def snapshot (disk : FileSystem β) (roots : List Path) : Snapshot β where
  standardized := disk.standardized
  tryResolveModulePath modulePath := (candidates modulePath roots).find? disk.isfile
  read := disk.read
  idem := disk.idem
  files := disk.files.items.map Prod.fst
  mem_files p source hp h := by
    unfold read at h
    rw [hp] at h
    cases hfind : disk.files.find? p with
    | none =>
      rw [hfind] at h
      cases h
    | some r => exact List.mem_map_of_mem (f := Prod.fst) (Dict.find?_eq_some_iff.mp hfind)

end FileSystem

/-! ## What is known -/

/-- What the analysis makes of a parsed file, with the digests of the files outside every root that it
read. -/
def analyzed (external : Path → List (Path × δ)) (walked : Walked δ) : Dict Path (KnownFile δ) :=
  walked.parsed.comprehend fun filename file => some ⟨file.filename, file.digest, file.dependencies,
    (external filename).map fun e => ⟨e.1, some e.2⟩⟩

/-- `known_now`. -/
def knownNow (external : Path → List (Path × δ)) (walked : Walked δ) : Dict Path (KnownFile δ) :=
  walked.unchanged.update (analyzed external walked)

variable (py : Python β δ)

/-- No two byte strings on these disks have one digest. -/
def NoCollision (disks : List (FileSystem β)) : Prop :=
  Set.InjOn py.sha256 {source | ∃ disk ∈ disks, ∃ p, disk.read p = .ok source}

/-- Every record is what the snapshot says of the file. -/
def KnownOf (w : Snapshot β) (known : Dict Path (KnownFile δ)) : Prop :=
  ∀ filename file, known.find? filename = some file → file.filename = filename ∧
    w.Describes py filename file.digest file.dependencies ∧ ∀ e ∈ file.external, e.digest ≠ none

variable {py} {entries : List Path}

theorem KnownOf.consistent {w : Snapshot β} {known : Dict Path (KnownFile δ)} (h : KnownOf py w known) :
    Snapshot.Consistent known := by
  refine ⟨fun p file hfile mp d hd target k htarget hk => ?_, fun p file hfile => (h p file hfile).2.2⟩
  obtain ⟨-, ⟨-, mps, -, hdependencies⟩, -⟩ := h p file hfile
  obtain ⟨-, ⟨hdigest, -⟩, -⟩ := h target k hk
  rw [hdependencies] at hd
  split at hd
  next =>
    cases hd
    have hresolved : w.resolved mp = some target := htarget
    simp only [Snapshot.observed, hresolved, Option.bind_some, hdigest]
  next => cases hd

theorem KnownOf.fits {w w' : Snapshot β} {known : Dict Path (KnownFile δ)} (h : KnownOf py w known)
    (hsame : ∀ p source source', w.read p = .ok source → w'.read p = .ok source' →
      py.sha256 source = py.sha256 source' → source = source') :
    w'.Fits py known := by
  intro p file hfile
  obtain ⟨hname, ⟨hdigest, mps, himports, hdependencies⟩, -⟩ := h p file hfile
  refine ⟨hname, fun hdigest' => ⟨mps, ?_, fun mp => ?_⟩⟩
  · -- the bytes are the same, and so are the imports
    cases hread : w.read p with
    | error e =>
      rw [Snapshot.digest, hread] at hdigest
      cases hdigest
    | ok source =>
      cases hread' : w'.read p with
      | error e =>
        rw [Snapshot.digest, hread'] at hdigest'
        cases hdigest'
      | ok source' =>
        rw [Snapshot.digest, hread] at hdigest
        rw [Snapshot.digest, hread'] at hdigest'
        have hsource := hsame p source source' hread hread'
          ((Option.some.inj hdigest).trans (Option.some.inj hdigest').symm)
        rw [Snapshot.imports, hread', ← hsource, ← himports, Snapshot.imports, hread]
  · have hfind := hdependencies mp
    constructor
    · intro hmem
      obtain ⟨d, hd, rfl⟩ := List.mem_map.mp hmem
      rw [Dict.find?_eq_some_iff.mpr hd] at hfind
      split at hfind
      next hmp => exact hmp
      next => cases hfind
    · intro hmp
      rw [if_pos hmp] at hfind
      exact List.mem_map_of_mem (f := Prod.fst) (Dict.find?_eq_some_iff.mp hfind)

variable (py) in
theorem fits_empty (w : Snapshot β) : w.Fits py (.empty : Dict Path (KnownFile δ)) :=
  fun _ _ h => by cases h

theorem consistent_empty : Snapshot.Consistent (.empty : Dict Path (KnownFile δ)) :=
  ⟨fun _ _ h => (by cases h), fun _ _ h => (by cases h)⟩

theorem find?_knownNow {external : Path → List (Path × δ)} {walked : Walked δ} {filename : Path}
    {file : KnownFile δ} (h : (knownNow external walked).find? filename = some file) :
    (∃ p, walked.parsed.find? filename = some p ∧ file = ⟨p.filename, p.digest, p.dependencies,
      (external filename).map fun e => ⟨e.1, some e.2⟩⟩) ∨
      walked.unchanged.find? filename = some file := by
  rw [knownNow, Dict.find?_update, Option.or_eq_some_iff] at h
  rcases h with h | ⟨-, h⟩
  · obtain ⟨p, hp, hfile⟩ := Dict.mem_comprehend.mp (Dict.find?_eq_some_iff.mp h)
    exact .inl ⟨p, Dict.find?_eq_some_iff.mpr hp, (Option.some.inj hfile).symm⟩
  · exact .inr h

/-- A record that is carried describes the file. -/
theorem Snapshot.Returns.describes {w : Snapshot β} {known : Dict Path (KnownFile δ)}
    {walked : Walked δ} (h : w.Returns py entries known walked) (hfits : w.Fits py known)
    (hcons : Snapshot.Consistent known) {p : Path} {file : KnownFile δ}
    (hfile : walked.unchanged.find? p = some file) : file.filename = p ∧
      w.Describes py p file.digest file.dependencies ∧ ∀ e ∈ file.external, e.digest ≠ none := by
  obtain ⟨-, hk, hdigest, hstands⟩ := (h.unchanged p file).mp hfile
  obtain ⟨hname, hkeys⟩ := hfits p file hk
  obtain ⟨mps, himports, hkeys⟩ := hkeys hdigest
  refine ⟨hname, ⟨hdigest, mps, himports, fun mp => ?_⟩, hcons.external p file hk⟩
  by_cases hmp : mp ∈ mps
  · rw [if_pos hmp]
    obtain ⟨d, hd, rfl⟩ := List.mem_map.mp ((hkeys mp).mpr hmp)
    -- its record stands
    have hsame : w.observed py d.1 = d.2 :=
      not_not.mp fun hne => hstands p file .refl hk (.inl ⟨d, hd, hne⟩)
    rw [hsame]
    exact Dict.find?_eq_some_iff.mpr hd
  · rw [if_neg hmp]
    cases hfind : file.dependencies.find? mp with
    | none => rfl
    | some d =>
      exact absurd ((hkeys mp).mp (List.mem_map_of_mem (f := Prod.fst)
        (Dict.find?_eq_some_iff.mp hfind))) hmp

/-- What is known after a walk describes the snapshot that was walked. -/
theorem Snapshot.Returns.knownOf {w : Snapshot β} {known : Dict Path (KnownFile δ)}
    {walked : Walked δ} (h : w.Returns py entries known walked) (hfits : w.Fits py known)
    (hcons : Snapshot.Consistent known) (external : Path → List (Path × δ)) :
    KnownOf py w (knownNow external walked) := by
  intro p file hfile
  rcases find?_knownNow hfile with ⟨q, hq, rfl⟩ | hfile
  · obtain ⟨hname, hdescribes⟩ := h.parsed p q hq
    refine ⟨hname, hdescribes, fun e he => ?_⟩
    obtain ⟨x, -, rfl⟩ := List.mem_map.mp he
    exact Option.some_ne_none x.2
  · exact h.describes hfits hcons hfile

/-! ## The sequence -/

variable [DecidableEq δ]

variable (py) (entries) (roots : List Path) in
/-- What is known after walks of these file systems, the last one first, each with enough fuel. -/
inductive Known : List (FileSystem β) → Dict Path (KnownFile δ) → Prop
  | start : Known [] .empty
  | walk {disks : List (FileSystem β)} {disk : FileSystem β} {known : Dict Path (KnownFile δ)}
    {fuel : Nat} {walked : Walked δ} (external : Path → List (Path × δ)) (h : Known disks known)
    (hn : disk.files.items.length + 2 * known.items.length < fuel)
    (hwalk : walk py (disk.snapshot roots).disk fuel entries known () = .ok (walked, ())) :
    Known (disk :: disks) (knownNow external walked)

omit [DecidableEq δ] in
theorem length_snapshot (disk : FileSystem β) (roots : List Path) :
    (disk.snapshot roots).files.length = disk.files.items.length := List.length_map _

/-- What is known before a walk fits its file system, and is consistent. -/
theorem Known.fits {roots : List Path} {disks : List (FileSystem β)}
    {known : Dict Path (KnownFile δ)} (h : Known py entries roots disks known) {disk : FileSystem β}
    (hcollision : NoCollision py (disk :: disks)) :
    (disk.snapshot roots).Fits py known ∧ Snapshot.Consistent known := by
  induction h generalizing disk with
  | start => exact ⟨fits_empty _ _, consistent_empty⟩
  | @walk disks last known fuel walked external h hn hwalk ih =>
    obtain ⟨hfits, hcons⟩ := ih (hcollision.mono fun source ⟨d, hd, hp⟩ =>
      ⟨d, List.mem_cons_of_mem _ hd, hp⟩)
    have hreturns : (last.snapshot roots).Returns py entries known walked := by
      rw [← length_snapshot last roots] at hn
      obtain ⟨walked', hwalk', hreturns⟩ := Snapshot.walk_spec entries hfits hcons hn
      rw [hwalk] at hwalk'
      cases hwalk'
      exact hreturns
    have hknown := hreturns.knownOf hfits hcons external
    refine ⟨hknown.fits fun p source source' hread hread' => ?_, hknown.consistent⟩
    exact fun hsame => hcollision ⟨last, List.mem_cons_of_mem _ List.mem_cons_self, p, hread⟩
      ⟨disk, List.mem_cons_self, p, hread'⟩ hsame

/-! ## The same as a walk from nothing -/

/-- What a walk says of a file that it parsed or carried: the digest and the dependencies. -/
def Walked.record? (walked : Walked δ) (filename : Path) : Option (δ × Dict Str (Dependency δ)) :=
  match walked.parsed.find? filename with
  | some file => some (file.digest, file.dependencies)
  | none => (walked.unchanged.find? filename).map fun file => (file.digest, file.dependencies)

/-- The digests are the same, and so is what is found at each possible module path. -/
def SameRecord : Option (δ × Dict Str (Dependency δ)) → Option (δ × Dict Str (Dependency δ)) → Prop
  | some (digest, dependencies), some (digest', dependencies') =>
    digest = digest' ∧ ∀ modulePath, dependencies.find? modulePath = dependencies'.find? modulePath
  | none, none => True
  | _, _ => False

/-- The same files with the same records, none of them carried in the second. -/
structure Agrees (walked full : Walked δ) : Prop where
  carriesNone : full.unchanged.items = []
  parsedOnce : ∀ filename, (walked.parsed.find? filename).isSome →
    walked.unchanged.find? filename = none
  record : ∀ filename, SameRecord (walked.record? filename) (full.record? filename)
  unparseable : ∀ filename, (walked.unparseable.find? filename).isSome ↔
    (full.unparseable.find? filename).isSome
  unreadable : ∀ filename, (walked.unreadable.find? filename).isSome ↔
    (full.unreadable.find? filename).isSome

omit [DecidableEq δ] in
/-- Two records of one file of a snapshot say the same. -/
theorem Snapshot.Describes.same {w : Snapshot β} {filename : Path} {digest digest' : δ}
    {dependencies dependencies' : Dict Str (Dependency δ)}
    (h : w.Describes py filename digest dependencies)
    (h' : w.Describes py filename digest' dependencies') :
    digest = digest' ∧ ∀ modulePath, dependencies.find? modulePath = dependencies'.find? modulePath := by
  obtain ⟨hdigest, mps, himports, hfind⟩ := h
  obtain ⟨hdigest', mps', himports', hfind'⟩ := h'
  rw [himports] at himports'
  cases himports'
  exact ⟨Option.some.inj (hdigest.symm.trans hdigest'), fun mp => (hfind mp).trans (hfind' mp).symm⟩

omit [DecidableEq δ] in
/-- The record of a file is what the snapshot says, and there is one for every file reached that parses. -/
theorem Snapshot.Returns.record {w : Snapshot β} {known : Dict Path (KnownFile δ)}
    {walked : Walked δ} (h : w.Returns py entries known walked) (hfits : w.Fits py known)
    (hcons : Snapshot.Consistent known) (filename : Path) :
    match walked.record? filename with
    | some (digest, dependencies) => w.Reached py entries filename ∧
        (w.imports py filename).isSome ∧ w.Describes py filename digest dependencies
    | none => ¬ (w.Reached py entries filename ∧ (w.imports py filename).isSome) := by
  unfold Walked.record?
  cases hparsed : walked.parsed.find? filename with
  | some file =>
    obtain ⟨hreach, himports, -⟩ := (h.parses filename).mp (by rw [hparsed]; rfl)
    exact ⟨hreach, himports, (h.parsed filename file hparsed).2⟩
  | none =>
    cases hunchanged : walked.unchanged.find? filename with
    | some file =>
      have hdescribes := (h.describes hfits hcons hunchanged).2.1
      obtain ⟨-, mps, himports, -⟩ := id hdescribes
      exact ⟨((h.unchanged filename file).mp hunchanged).1, by rw [himports]; rfl, hdescribes⟩
    | none =>
      rintro ⟨hreach, himports⟩
      have hsome := (h.parses filename).mpr ⟨hreach, himports, hunchanged⟩
      rw [hparsed] at hsome
      cases hsome

theorem Known.agrees {roots : List Path} {disks : List (FileSystem β)}
    {known : Dict Path (KnownFile δ)} (h : Known py entries roots disks known) {disk : FileSystem β}
    (hcollision : NoCollision py (disk :: disks)) {walked full : Walked δ}
    (hwalked : (disk.snapshot roots).Returns py entries known walked)
    (hfull : (disk.snapshot roots).Returns py entries .empty full) : Agrees walked full := by
  obtain ⟨hfits, hcons⟩ := h.fits hcollision
  have hnone : ∀ p, full.unchanged.find? p = none := fun p => by
    rw [Option.eq_none_iff_forall_ne_some]
    intro k hk
    cases ((hfull.unchanged p k).mp hk).2.1
  refine ⟨List.eq_nil_iff_forall_not_mem.mpr fun e he => ?_, fun p hp => ?_, fun p => ?_, fun p => ?_,
    fun p => ?_⟩
  · have hsome := Dict.find?_eq_some_iff.mpr he
    rw [hnone] at hsome
    cases hsome
  · exact ((hwalked.parses p).mp hp).2.2
  · have hrecord := hwalked.record hfits hcons p
    have hrecord' := hfull.record (fits_empty _ _) consistent_empty p
    cases h₁ : walked.record? p with
    | some r =>
      simp only [h₁] at hrecord
      cases h₂ : full.record? p with
      | some r' =>
        simp only [h₂] at hrecord'
        exact hrecord.2.2.same hrecord'.2.2
      | none =>
        simp only [h₂] at hrecord'
        exact absurd ⟨hrecord.1, hrecord.2.1⟩ hrecord'
    | none =>
      simp only [h₁] at hrecord
      cases h₂ : full.record? p with
      | some r' =>
        simp only [h₂] at hrecord'
        exact absurd ⟨hrecord'.1, hrecord'.2.1⟩ hrecord
      | none => trivial
  · rw [hwalked.unparseable, hfull.unparseable]
  · rw [hwalked.unreadable, hfull.unreadable]

/-- After any number of walks, each of a file system that may have changed since the one before, the next
walk returns with no assertion failed. It finds the files and the records that a walk from nothing
finds, and it carries a known file that it reaches where the bytes and the record of every file
reached through the recorded dependencies still stand. -/
theorem incremental_walks {roots : List Path} {disks : List (FileSystem β)}
    {known : Dict Path (KnownFile δ)} (h : Known py entries roots disks known) {disk : FileSystem β}
    (hcollision : NoCollision py (disk :: disks)) {fuel : Nat}
    (hn : disk.files.items.length + 2 * known.items.length < fuel) :
    ∃ walked full, walk py (disk.snapshot roots).disk fuel entries known () = .ok (walked, ()) ∧
      walk py (disk.snapshot roots).disk fuel entries .empty () = .ok (full, ()) ∧
      Agrees walked full ∧
      ∀ filename file, walked.unchanged.find? filename = some file ↔
        (full.record? filename).isSome ∧ known.find? filename = some file ∧
          (disk.snapshot roots).digest py filename = some file.digest ∧
          ∀ target k, Relation.ReflTransGen (Snapshot.Records known) filename target →
            known.find? target = some k → ¬ (disk.snapshot roots).Stale py k := by
  obtain ⟨hfits, hcons⟩ := h.fits hcollision
  rw [← length_snapshot disk roots] at hn
  obtain ⟨walked, hwalk, hreturns⟩ := Snapshot.walk_spec entries hfits hcons hn
  obtain ⟨full, hfull, hreturns'⟩ := Snapshot.walk_spec entries
    (fits_empty py (disk.snapshot roots)) consistent_empty
    (Nat.lt_of_le_of_lt (Nat.le_add_right _ _) hn)
  refine ⟨walked, full, hwalk, hfull, h.agrees hcollision hreturns hreturns', fun p file => ?_⟩
  rw [hreturns.unchanged]
  have hrecord := hreturns'.record (fits_empty _ _) consistent_empty p
  constructor
  · rintro ⟨hreach, hk, hdigest, hstands⟩
    refine ⟨?_, hk, hdigest, hstands⟩
    obtain ⟨mps, himports, -⟩ := (hfits p file hk).2 hdigest
    split at hrecord
    next heq => rw [heq]; rfl
    next => exact absurd ⟨hreach, by rw [himports]; rfl⟩ hrecord
  · rintro ⟨hsome, hk, hdigest, hstands⟩
    refine ⟨?_, hk, hdigest, hstands⟩
    split at hrecord
    next => exact hrecord.1
    next heq => rw [heq] at hsome; cases hsome

/-- `a.py` imports `b`, and `b.py` holds `b`. -/
def importer (b : Nat) : FileSystem Nat where
  standardized := id
  idem := fun _ => rfl
  files := .ofItems [(⟨false, ["a.py".toList]⟩, .ok 0), (⟨false, ["b.py".toList]⟩, .ok b)]

def importsOfZero : Python Nat Nat where
  sha256 := id
  parse := fun source => .ok (if source = 0 then [.modules ["b".toList]] else [])
  pop := fun _ => 0

/-- `b.py` is edited between two walks. -/
theorem edited_walk : ∃ known, Known importsOfZero [⟨false, ["a.py".toList]⟩] [⟨false, []⟩]
      [importer 1] known ∧
    ∃ walked full,
      walk importsOfZero ((importer 2).snapshot [⟨false, []⟩]).disk (3 + 2 * known.items.length)
        [⟨false, ["a.py".toList]⟩] known () = .ok (walked, ()) ∧
      walk importsOfZero ((importer 2).snapshot [⟨false, []⟩]).disk (3 + 2 * known.items.length)
        [⟨false, ["a.py".toList]⟩] .empty () = .ok (full, ()) ∧
      Agrees walked full ∧
      ∀ filename file, walked.unchanged.find? filename = some file ↔
        (full.record? filename).isSome ∧ known.find? filename = some file ∧
          ((importer 2).snapshot [⟨false, []⟩]).digest importsOfZero filename = some file.digest ∧
          ∀ target k, Relation.ReflTransGen (Snapshot.Records known) filename target →
            known.find? target = some k →
              ¬ ((importer 2).snapshot [⟨false, []⟩]).Stale importsOfZero k := by
  have hcollision : ∀ disks, NoCollision importsOfZero disks := fun _ _ _ _ _ h => h
  have hstart : Known importsOfZero [⟨false, ["a.py".toList]⟩] [⟨false, []⟩] [] .empty := .start
  have hfuel : (importer 1).files.items.length +
      2 * (Dict.empty : Dict Path (KnownFile Nat)).items.length < 3 := by decide
  obtain ⟨walked, _, hwalk, _⟩ := incremental_walks hstart (hcollision [importer 1]) hfuel
  have hknown := Known.walk (fun _ => []) .start (by decide) hwalk
  refine ⟨_, hknown, incremental_walks hknown (hcollision _) ?_⟩
  exact Nat.add_lt_add_right (by decide) _

end Reboot.Dashboard.Walks
