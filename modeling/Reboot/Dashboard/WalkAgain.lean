import Reboot.Dashboard.WalkOnce

/-!
# Which carried records stand

The reverse traversal at the end of a walk, while nothing on the disk changes. A carried record is
given up where a file that it reaches through recorded dependencies has a record that is `Stale`
(`mem_needsReanalysis_iff`), and `walk_spec` says what a walk returns in terms of the snapshot and of
what was known, with nothing of the recursion left in it.

The assertion of `matches` holds because of how known files are recorded: a dependency on a known file
has that file's digest (`Consistent`).
-/

namespace Reboot.Dashboard.Walks

open Reboot.Lib

variable {β δ : Type}

namespace Snapshot

/-- What is recorded of a known file agrees with what is known of the files it depends on. -/
structure Consistent (known : Dict Path (KnownFile δ)) : Prop where
  dependencies : ∀ filename file, known.find? filename = some file →
    ∀ modulePath d, file.dependencies.find? modulePath = some d →
    ∀ target k, d.filename = some target → known.find? target = some k → d.digest = some k.digest
  external : ∀ filename file, known.find? filename = some file → ∀ e ∈ file.external, e.digest ≠ none

/-- A possible module path or an external file differs from what is recorded, in its file or in the bytes. -/
def Stale (py : Python β δ) (w : Snapshot β) (file : KnownFile δ) : Prop :=
  (∃ d ∈ file.dependencies.items, w.observed py d.1 ≠ d.2) ∨
    ∃ e ∈ file.external, w.digest py e.filename ≠ e.digest

/-- A known file has recorded a dependency on the other. -/
def Records (known : Dict Path (KnownFile δ)) (filename target : Path) : Prop :=
  ∃ file, known.find? filename = some file ∧
    ∃ d ∈ file.dependencies.items, d.2.filename = some target

/-- The files after the recursion. -/
structure Complete (py : Python β δ) (w : Snapshot β) (entries : List Path)
    (known : Dict Path (KnownFile δ)) (files : Files δ) : Prop where
  inv : w.Inv py entries known files
  met : ∀ filename, files.Met filename ↔ w.Reached py entries filename
  done : ∀ filename, files.Done filename ↔
    w.Reached py entries filename ∧ (w.imports py filename).isSome
  followed : ∀ filename modulePaths, files.Done filename →
    w.imports py filename = some modulePaths → ∀ modulePath ∈ modulePaths,
    (files.dependencies.find? modulePath).isSome
  visited : ∀ filename, (files.visiting.find? filename).isSome →
    (files.parsed.find? filename).isSome

variable {py : Python β δ} {w : Snapshot β} {entries : List Path}
  {known : Dict Path (KnownFile δ)} {files : Files δ}

theorem imports_of_read_error {filename : Path} {error : Str} (h : w.read filename = .error error) :
    w.imports py filename = none := by
  rw [imports, h]

theorem imports_of_parse_error {filename : Path} {source : β} {error : Str}
    (h : w.read filename = .ok source) (hparse : py.parse source = .error error) :
    w.imports py filename = none := by
  rw [imports, h]
  simp only [hparse]

/-- The maps of a new walk are empty, and known files are filed under their own names. -/
theorem create_eq (hfits : w.Fits py known) :
    Files.create known = ⟨known, .empty, .empty, .empty, .empty, .empty, .empty, .empty⟩ := by
  have hitems : known.items.map (fun e => (e.2.filename, e.2)) = known.items := by
    refine (List.map_congr_left fun e he => ?_).trans (List.map_id _)
    rw [(hfits e.1 e.2 (Dict.find?_eq_some_iff.mpr he)).1]
    rfl
  rw [Files.create, hitems, Dict.ofItems_items]

/-- A new walk starts within the invariant. -/
theorem inv_create (hfits : w.Fits py known) : w.Inv py entries known (.create known) := by
  rw [create_eq hfits]
  refine ⟨rfl, ?_, ?_, ?_, ?_, ?_, ?_, ?_, ?_⟩
  all_goals try (intro _ _ h; cases h)
  intro _ h
  simp [Files.Met, Dict.find?_empty] at h

variable [DecidableEq δ]

variable (entries) in
/-- With enough fuel the recursion meets exactly the reached files, and finishes those that parse.
-/
theorem lookupEntries_complete (hfits : w.Fits py known) {fuel : Nat} (hn : w.files.length < fuel) :
    ∃ files, lookupEntries py w.disk fuel entries (.create known) () = .ok (files, ()) ∧
      w.Complete py entries known files := by
  have hpending : w.pending (.create known) < fuel :=
    Nat.lt_of_le_of_lt (List.length_filter_le _ _) hn
  obtain ⟨files, h, hinv, -, hclosed, hall⟩ := lookupEntries_spec hfits entries (fun _ => id)
    (inv_create hfits) hpending
  rw [create_eq hfits] at hclosed
  have hvisited : ∀ p, (files.visiting.find? p).isSome → (files.parsed.find? p).isSome :=
    fun p hp => (hclosed.visited p hp).resolve_left (by simp [Dict.find?_empty])
  have hfollowed : ∀ p mps, files.Done p → w.imports py p = some mps → ∀ mp ∈ mps,
      (files.dependencies.find? mp).isSome := fun p mps hp =>
    ((hclosed.finished p hp).resolve_left (by simp [Files.Done, Dict.find?_empty])) mps
  -- a file that has been met and parses is in one of two maps
  have hdone : ∀ p, files.Met p → (w.imports py p).isSome → files.Done p := by
    rintro p (hp | hp | hp | hp | hp) himports
    · exact .inl hp
    · exact .inr hp
    · obtain ⟨u, hu⟩ := Option.isSome_iff_exists.mp hp
      obtain ⟨source, error, hread, hparse⟩ := hinv.unparseable p u hu
      rw [imports_of_parse_error hread hparse] at himports
      cases himports
    · obtain ⟨e, he⟩ := Option.isSome_iff_exists.mp hp
      rw [imports_of_read_error (hinv.unreadable p e he)] at himports
      cases himports
    · exact .inl (hvisited p hp)
  have hmet : ∀ p, files.Met p ↔ w.Reached py entries p := by
    refine fun p => ⟨hinv.reached p, fun hp => ?_⟩
    induction hp with
    | entry hentry => exact hall _ hentry
    | @follow p target mps mp _ himports hmp htarget ih =>
      have hsome := hfollowed p mps (hdone p ih (by rw [himports]; rfl)) himports mp hmp
      exact (hclosed.observed mp hsome).resolve_left (by simp [Dict.find?_empty]) target htarget
  refine ⟨files, h, hinv, hmet, fun p => ⟨fun hp => ?_, fun hp => ?_⟩, hfollowed, hvisited⟩
  · refine ⟨(hmet p).mp (hp.imp_right .inl), ?_⟩
    rcases hp with hp | hp
    · obtain ⟨file, hfile⟩ := Option.isSome_iff_exists.mp hp
      obtain ⟨mps, himports, -⟩ := (hinv.parsed p file hfile).2.1.2
      rw [himports]
      rfl
    · obtain ⟨k, hk⟩ := Option.isSome_iff_exists.mp hp
      obtain ⟨hknown, hdigest⟩ := hinv.unchanged p k hk
      obtain ⟨mps, himports, -⟩ := (hfits p k hknown).2 hdigest
      rw [himports]
      rfl
  · exact hdone p ((hmet p).mpr hp.1) hp.2

omit [DecidableEq δ] in
/-- A file is carried over if it is reached and has the known digest. -/
theorem Complete.unchanged_iff (hc : w.Complete py entries known files) (hfits : w.Fits py known)
    {filename : Path} {file : KnownFile δ} :
    files.unchanged.find? filename = some file ↔ w.Reached py entries filename ∧
      known.find? filename = some file ∧ w.digest py filename = some file.digest := by
  constructor
  · intro h
    refine ⟨(hc.met filename).mp (.inr (.inl (by rw [h]; rfl))), hc.inv.unchanged filename file h⟩
  · rintro ⟨hreach, hknown, hdigest⟩
    obtain ⟨mps, himports, -⟩ := (hfits filename file hknown).2 hdigest
    rcases (hc.done filename).mpr ⟨hreach, by rw [himports]; rfl⟩ with hp | hp
    · -- parsed files do not have the known digest
      obtain ⟨p, hp⟩ := Option.isSome_iff_exists.mp hp
      obtain ⟨-, ⟨hdigest', -⟩, hnew⟩ := hc.inv.parsed filename p hp
      rw [hdigest] at hdigest'
      exact absurd (Option.some.inj hdigest') (hnew file hknown)
    · obtain ⟨k, hk⟩ := Option.isSome_iff_exists.mp hp
      rw [(hc.inv.unchanged filename k hk).1] at hknown
      rw [hk, hknown]

omit [DecidableEq δ] in
theorem Complete.met_of_not_done (hc : w.Complete py entries known files) {filename : Path}
    (h : w.Reached py entries filename) (hnot : ¬ files.Done filename) :
    (files.unparseable.find? filename).isSome ∨ (files.unreadable.find? filename).isSome := by
  rcases (hc.met filename).mpr h with hp | hp | hp | hp | hp
  · exact absurd (.inl hp) hnot
  · exact absurd (.inr hp) hnot
  · exact .inl hp
  · exact .inr hp
  · exact absurd (.inl (hc.visited filename hp)) hnot

omit [DecidableEq δ] in
/-- What a carried file has recorded a dependency at has been followed. -/
theorem Complete.dependency (hc : w.Complete py entries known files) (hfits : w.Fits py known)
    {filename : Path} {file : KnownFile δ} (h : files.unchanged.find? filename = some file)
    {modulePath : Str} (hmem : modulePath ∈ file.dependencies.items.map Prod.fst) :
    (∃ modulePaths, w.imports py filename = some modulePaths ∧ modulePath ∈ modulePaths) ∧
      files.dependencies.find? modulePath = some (w.observed py modulePath) ∧
      files.resolutions.find? modulePath = some (w.resolved modulePath) := by
  obtain ⟨-, hknown, hdigest⟩ := (hc.unchanged_iff hfits).mp h
  obtain ⟨mps, himports, hkeys⟩ := (hfits filename file hknown).2 hdigest
  have hmp := (hkeys modulePath).mp hmem
  obtain ⟨d, hd⟩ := Option.isSome_iff_exists.mp
    (hc.followed filename mps (.inr (by rw [h]; rfl)) himports modulePath hmp)
  obtain ⟨heq, hres⟩ := hc.inv.dependencies modulePath d hd
  exact ⟨⟨mps, himports, hmp⟩, heq ▸ hd, hres⟩

/-! ## The seeds -/

/-- `matches` does not assert, and compares the file and the bytes with what is recorded. -/
theorem matches_spec (hc : w.Complete py entries known files) (hfits : w.Fits py known)
    (hcons : Consistent known) {filename : Path} {file : KnownFile δ}
    (h : files.unchanged.find? filename = some file) {d : Str × Dependency δ}
    (hd : d ∈ file.dependencies.items) :
    files.matches' d.1 d.2 = .ok (decide (w.observed py d.1 = d.2)) := by
  obtain ⟨-, hdependency, hres⟩ := hc.dependency hfits h (List.mem_map_of_mem (f := Prod.fst) hd)
  have hagrees : files.agrees (w.resolved d.1) d.2 = true := by
    unfold Files.agrees
    split
    next => rfl
    next target _ =>
      split
      next => rfl
      next htarget =>
        split
        next => rfl
        next k hk =>
          have hknown := (hc.unchanged_iff hfits).mp h
          have hk := (hc.unchanged_iff hfits).mp hk
          have hdigest := hcons.dependencies filename file hknown.2.1 d.1 d.2
            (Dict.find?_eq_some_iff.mpr hd) target k (not_not.mp htarget) hk.2.1
          rw [hdigest]
          exact decide_eq_true rfl
  simp only [Files.matches', hres, hagrees, if_true, hdependency]

theorem anyMismatch_spec (hc : w.Complete py entries known files) (hfits : w.Fits py known)
    (hcons : Consistent known) {filename : Path} {file : KnownFile δ}
    (h : files.unchanged.find? filename = some file) (items : List (Str × Dependency δ))
    (hitems : ∀ d ∈ items, d ∈ file.dependencies.items) : ∃ b, anyMismatch files items = .ok b ∧
      (b = true ↔ ∃ d ∈ items, w.observed py d.1 ≠ d.2) := by
  induction items with
  | nil => exact ⟨false, rfl, by simp⟩
  | cons d items ih =>
    obtain ⟨b, hb, hiff⟩ := ih fun d' hd' => hitems d' (List.mem_cons_of_mem _ hd')
    have hmatches := matches_spec hc hfits hcons h (hitems d List.mem_cons_self)
    obtain ⟨mp, dependency⟩ := d
    simp only [anyMismatch, hmatches]
    by_cases hd : w.observed py mp = dependency
    · refine ⟨b, by rw [decide_eq_true hd]; exact hb, ?_⟩
      rw [hiff]
      simp [hd]
    · exact ⟨true, by rw [decide_eq_false hd], by simp [hd]⟩

/-- The digests read of external files are those of the snapshot. -/
def Read (py : Python β δ) (w : Snapshot β) (digests : Dict Path (Option δ)) : Prop :=
  ∀ filename d, digests.find? filename = some d → d = w.digest py filename

omit [DecidableEq δ] in
/-- After the file has been looked up or read, its digest is there. -/
theorem digestExternal_spec (filename : Path) {digests : Dict Path (Option δ)}
    (hread : w.Read py digests) : ∃ digests',
    digestExternal py w.disk filename digests () = (digests', ()) ∧ w.Read py digests' ∧
      digests'.find? filename = some (w.digest py filename) := by
  unfold digestExternal
  cases hfind : digests.find? filename with
  | some d => exact ⟨digests, rfl, hread, by rw [hfind, hread _ d hfind]⟩
  | none =>
    refine ⟨digests.set filename (w.digest py filename), rfl, fun p d hd => ?_,
      Dict.find?_set_self _ _ _⟩
    rw [Dict.find?_set] at hd
    split at hd
    next heq => rw [heq, ← Option.some.inj hd]
    next => exact hread p d hd

/-- `anyExternal` finds a recorded external file whose bytes differ. -/
theorem anyExternal_spec (external : List (External δ)) (hexternal : ∀ e ∈ external, e.digest ≠ none)
    {digests : Dict Path (Option δ)} (hread : w.Read py digests) : ∃ b digests',
    anyExternal py w.disk external digests () = .ok (b, digests', ()) ∧ w.Read py digests' ∧
      (b = true ↔ ∃ e ∈ external, w.digest py e.filename ≠ e.digest) := by
  induction external generalizing digests with
  | nil => exact ⟨false, digests, rfl, hread, by simp⟩
  | cons e external ih =>
    obtain ⟨digests₁, h₁, hread₁, hfound⟩ := digestExternal_spec e.filename hread
    obtain ⟨b, digests₂, h₂, hread₂, hiff⟩ :=
      ih (fun e' he' => hexternal e' (List.mem_cons_of_mem _ he')) hread₁
    have hsome := hexternal e List.mem_cons_self
    simp only [anyExternal, h₁, if_neg hsome, hfound]
    by_cases heq : w.digest py e.filename = e.digest
    · refine ⟨b, digests₂, by rw [if_pos (congrArg some heq)]; exact h₂, hread₂, ?_⟩
      rw [hiff]
      simp [heq]
    · refine ⟨true, digests₁, ?_, hread₁, by simp [heq]⟩
      rw [if_neg fun h => heq (Option.some.inj h)]

/-- The seeds of the traversal are the carried files whose records are `Stale`. -/
theorem seeds_spec (hc : w.Complete py entries known files) (hfits : w.Fits py known)
    (hcons : Consistent known) (items : List (Path × KnownFile δ))
    (hitems : ∀ e ∈ items, files.unchanged.find? e.1 = some e.2) {digests : Dict Path (Option δ)}
    (hread : w.Read py digests) : ∃ filenames,
    seeds py w.disk files items digests () = .ok (filenames, ()) ∧
      filenames.length ≤ items.length ∧ ∀ filename, filename ∈ filenames ↔ ∃ file, (filename, file) ∈ items ∧ w.Stale py file := by
  induction items generalizing digests with
  | nil => exact ⟨[], rfl, Nat.le_refl _, by simp⟩
  | cons e items ih =>
    obtain ⟨filename, file⟩ := e
    have hfile := hitems _ List.mem_cons_self
    have hknown := ((hc.unchanged_iff hfits).mp hfile).2.1
    have hrest := fun e he => hitems e (List.mem_cons_of_mem _ he)
    obtain ⟨b, hb, hmismatch⟩ := anyMismatch_spec hc hfits hcons hfile file.dependencies.items
      fun _ => id
    simp only [seeds, hb]
    cases b with
    | true =>
      obtain ⟨filenames, h, hle, hiff⟩ := ih hrest hread
      refine ⟨filename :: filenames, by simp only [h], Nat.succ_le_succ hle, fun p => ?_⟩
      have hstale : w.Stale py file := .inl (hmismatch.mp rfl)
      rw [List.mem_cons, hiff]
      constructor
      · rintro (rfl | ⟨k, hk, hs⟩)
        · exact ⟨file, List.mem_cons_self, hstale⟩
        · exact ⟨k, List.mem_cons_of_mem _ hk, hs⟩
      · rintro ⟨k, hk, hs⟩
        rcases List.mem_cons.mp hk with heq | hk
        · exact .inl (congrArg Prod.fst heq)
        · exact .inr ⟨k, hk, hs⟩
    | false =>
      obtain ⟨changed, digests₁, h₁, hread₁, hexternal⟩ :=
        anyExternal_spec file.external (hcons.external filename file hknown) hread
      obtain ⟨filenames, h, hle, hiff⟩ := ih hrest hread₁
      have hstale : w.Stale py file ↔ changed = true :=
        ⟨fun hs => hexternal.mpr (hs.resolve_left fun hm => Bool.false_ne_true (hmismatch.mpr hm)),
          fun hs => .inr (hexternal.mp hs)⟩
      refine ⟨if changed then filename :: filenames else filenames, by simp only [h₁, h], ?_,
        fun p => ?_⟩
      · split <;> simp only [List.length_cons] <;> omega
      have hsplit : p ∈ (if changed then filename :: filenames else filenames) ↔
          (p = filename ∧ changed = true) ∨ p ∈ filenames := by
        cases changed <;> simp
      rw [hsplit, hiff, ← hstale]
      constructor
      · rintro (⟨rfl, hs⟩ | ⟨k, hk, hs⟩)
        · exact ⟨file, List.mem_cons_self, hs⟩
        · exact ⟨k, List.mem_cons_of_mem _ hk, hs⟩
      · rintro ⟨k, hk, hs⟩
        rcases List.mem_cons.mp hk with heq | hk
        · cases heq
          exact .inl ⟨rfl, hs⟩
        · exact .inr ⟨k, hk, hs⟩

/-! ## The traversal -/

omit [DecidableEq δ] in
/-- The dependents of a file are those that recorded it. -/
theorem mem_dependents {unchanged : Dict Path (KnownFile δ)} {filename target : Path} :
    filename ∈ dependents unchanged target ↔ Records unchanged filename target := by
  unfold dependents Records
  simp only [List.mem_map, List.mem_filter, List.any_eq_true, decide_eq_true_iff]
  constructor
  · rintro ⟨e, ⟨he, hd⟩, rfl⟩
    exact ⟨e.2, Dict.find?_eq_some_iff.mpr he, hd⟩
  · rintro ⟨file, hfile, hd⟩
    exact ⟨(filename, file), ⟨Dict.find?_eq_some_iff.mp hfile, hd⟩, rfl⟩

omit [DecidableEq δ] in
/-- A carried file is read again if and only if it reaches a stale record. -/
theorem mem_needsReanalysis_iff (hc : w.Complete py entries known files) (hfits : w.Fits py known)
    (hcons : Consistent known) {fuel : Nat} {filenames needs : List Path}
    (hseeds : ∀ filename, filename ∈ filenames ↔
      ∃ file, (filename, file) ∈ files.unchanged.items ∧ w.Stale py file)
    (hneeds : worklist (dependents files.unchanged) py.pop fuel filenames filenames = some needs)
    {filename : Path} {file : KnownFile δ} (h : files.unchanged.find? filename = some file) :
    filename ∈ needs ↔ ∃ target k, Relation.ReflTransGen (Records known) filename target ∧
      known.find? target = some k ∧ w.Stale py k := by
  have hknown : ∀ p q, Records files.unchanged p q → Records known p q :=
    fun p q ⟨k, hk, hd⟩ => ⟨k, ((hc.unchanged_iff hfits).mp hk).2.1, hd⟩
  have hseed : ∀ {p k}, files.unchanged.find? p = some k → w.Stale py k → p ∈ needs :=
    fun hk hs => (mem_worklist_iff hneeds).mpr
      ⟨_, (hseeds _).mpr ⟨_, Dict.find?_eq_some_iff.mp hk, hs⟩, .refl⟩
  constructor
  · intro hmem
    obtain ⟨target, htarget, hpath⟩ := (mem_worklist_iff hneeds).mp hmem
    obtain ⟨k, hk, hs⟩ := (hseeds target).mp htarget
    refine ⟨target, k, ?_, ((hc.unchanged_iff hfits).mp (Dict.find?_eq_some_iff.mpr hk)).2.1, hs⟩
    exact Relation.reflTransGen_swap.mp (Relation.ReflTransGen.mono
      (fun p q hq => hknown q p (mem_dependents.mp hq)) _ _ hpath)
  · rintro ⟨target, k, hpath, hk, hs⟩
    induction hpath using Relation.ReflTransGen.head_induction_on generalizing file with
    | refl =>
      rw [((hc.unchanged_iff hfits).mp h).2.1] at hk
      cases hk
      exact hseed h hs
    | @head p q hpq hqt ih =>
      obtain ⟨hreach, hp, hdigest⟩ := (hc.unchanged_iff hfits).mp h
      by_cases hstale : w.Stale py file
      · exact hseed h hstale
      · -- its own record stands, so what it recorded is still found, and is carried as well
        obtain ⟨file', hfile', d, hd, hdq⟩ := hpq
        rw [hp] at hfile'
        cases hfile'
        obtain ⟨kq, hkq⟩ : ∃ kq, known.find? q = some kq := by
          rcases Relation.ReflTransGen.cases_head hqt with rfl | ⟨r, ⟨kq, hkq, -⟩, -⟩
          · exact ⟨k, hk⟩
          · exact ⟨kq, hkq⟩
        have hsame : w.observed py d.1 = d.2 := not_not.mp fun hne => hstale (.inl ⟨d, hd, hne⟩)
        have hresolved : w.resolved d.1 = some q := by rw [← hdq, ← hsame]; rfl
        obtain ⟨⟨mps, himports, hmp⟩, -, -⟩ :=
          hc.dependency hfits h (List.mem_map_of_mem (f := Prod.fst) hd)
        have hdigest' : w.digest py q = some kq.digest := by
          rw [← hcons.dependencies p file hp d.1 d.2 (Dict.find?_eq_some_iff.mpr hd) q kq hdq hkq,
            ← hsame]
          simp only [observed, hresolved, Option.bind_some]
        have hq : files.unchanged.find? q = some kq :=
          (hc.unchanged_iff hfits).mpr ⟨.follow hreach himports hmp hresolved, hkq, hdigest'⟩
        exact (mem_worklist_iff hneeds).mpr (by
          obtain ⟨y, hy, hyq⟩ := (mem_worklist_iff hneeds).mp (ih hq)
          exact ⟨y, hy, hyq.tail (mem_dependents.mpr ⟨file, h, d, hd, hdq⟩)⟩)

/-! ## What a walk returns -/

omit [DecidableEq δ] in
/-- A carried file that is read again has its old digest, and the dependencies of this walk. -/
theorem readAgain_spec (hc : w.Complete py entries known files) (hfits : w.Fits py known)
    {filename : Path} {file : KnownFile δ} (h : files.unchanged.find? filename = some file)
    (walked : Walked δ) : ∃ dependencies,
    readAgain py w.disk files filename file walked () = .ok ({ walked with
      parsed := walked.parsed.set filename ⟨filename, file.digest, dependencies⟩ }, ()) ∧
      w.Describes py filename file.digest dependencies := by
  obtain ⟨-, hknown, hdigest⟩ := (hc.unchanged_iff hfits).mp h
  obtain ⟨rfl, hkeys⟩ := hfits filename file hknown
  obtain ⟨mps, himports, hkeys⟩ := hkeys hdigest
  have hobservable : ∀ mp ∈ file.dependencies.items.map Prod.fst,
      (files.dependencies.find? mp).isSome := by
    intro mp hmp
    rw [(hc.dependency hfits h hmp).2.1]
    rfl
  obtain ⟨dependencies, hobserved, hfind⟩ := observed_spec hc.inv hobservable
  refine ⟨dependencies, ?_, hdigest, mps, himports, fun mp => ?_⟩
  · unfold readAgain
    cases hread : w.read file.filename with
    | error e =>
      rw [imports_of_read_error hread] at himports
      cases himports
    | ok source =>
      have hsame : py.sha256 source = file.digest := by
        rw [digest, hread] at hdigest
        exact Option.some.inj hdigest
      cases hparse : py.parse source with
      | error e =>
        rw [imports_of_parse_error hread hparse] at himports
        cases himports
      | ok syntaxTree => simp only [disk, hread, hparse, hobserved, hsame]
  · rw [hfind]
    by_cases hmp : mp ∈ file.dependencies.items.map Prod.fst
    · rw [if_pos hmp, if_pos ((hkeys mp).mp hmp)]
    · rw [if_neg hmp, if_neg fun h => hmp ((hkeys mp).mpr h)]

/-- Each carried file stays or is parsed again. -/
structure Decided (py : Python β δ) (w : Snapshot β) (needs : List Path)
    (items : List (Path × KnownFile δ)) (walked walked' : Walked δ) : Prop where
  unchanged : ∀ filename file, walked'.unchanged.find? filename = some file ↔
    walked.unchanged.find? filename = some file ∨ ((filename, file) ∈ items ∧ filename ∉ needs)
  parsed : ∀ filename file, walked'.parsed.find? filename = some file →
    walked.parsed.find? filename = some file ∨ (file.filename = filename ∧
      (∃ k, (filename, k) ∈ items) ∧ filename ∈ needs ∧
      w.Describes py filename file.digest file.dependencies)
  kept : ∀ filename, (walked.parsed.find? filename).isSome ∨
    ((∃ k, (filename, k) ∈ items) ∧ filename ∈ needs) → (walked'.parsed.find? filename).isSome
  unparseable : walked'.unparseable = walked.unparseable
  unreadable : walked'.unreadable = walked.unreadable

omit [DecidableEq δ] in
/-- Carried files that need no reanalysis stay, and the others are filed as parsed. -/
theorem decideUnchanged_spec (hc : w.Complete py entries known files) (hfits : w.Fits py known)
    (needs : List Path) (items : List (Path × KnownFile δ))
    (hitems : ∀ e ∈ items, files.unchanged.find? e.1 = some e.2) (walked : Walked δ)
    (hwalked : ∀ filename file, walked.unchanged.find? filename = some file →
      files.unchanged.find? filename = some file) : ∃ walked',
    decideUnchanged py w.disk files needs items walked () = .ok (walked', ()) ∧
      w.Decided py needs items walked walked' := by
  induction items generalizing walked with
  | nil =>
    exact ⟨walked, rfl, by simp, fun _ _ => .inl, by simp, rfl, rfl⟩
  | cons e items ih =>
    obtain ⟨filename, file⟩ := e
    have hfile := hitems _ List.mem_cons_self
    have hrest := fun e he => hitems e (List.mem_cons_of_mem _ he)
    by_cases hneeds : filename ∈ needs
    · obtain ⟨dependencies, hread, hdescribes⟩ := readAgain_spec hc hfits hfile walked
      obtain ⟨walked', h, hd⟩ := ih hrest { walked with
        parsed := walked.parsed.set filename ⟨filename, file.digest, dependencies⟩ } hwalked
      refine ⟨walked', by simp only [decideUnchanged, if_pos hneeds, hread, h], fun p k => ?_,
        fun p k hk => ?_, fun p hp => hd.kept p ?_, hd.unparseable, hd.unreadable⟩
      · rw [hd.unchanged]
        refine or_congr_right ⟨fun hp => ⟨List.mem_cons_of_mem _ hp.1, hp.2⟩, fun hp => ⟨?_, hp.2⟩⟩
        refine (List.mem_cons.mp hp.1).resolve_left fun heq => hp.2 ?_
        cases heq
        exact hneeds
      · rcases hd.parsed p k hk with hk | ⟨hname, ⟨kp, hkp⟩, hp⟩
        · rw [Dict.find?_set] at hk
          split at hk
          next heq =>
            subst heq
            cases hk
            exact .inr ⟨rfl, ⟨file, List.mem_cons_self⟩, hneeds, hdescribes⟩
          next => exact .inl hk
        · exact .inr ⟨hname, ⟨kp, List.mem_cons_of_mem _ hkp⟩, hp⟩
      · rw [Dict.find?_set_isSome]
        rcases hp with hp | ⟨⟨kp, hkp⟩, hp⟩
        · exact .inl (.inr hp)
        · rcases List.mem_cons.mp hkp with heq | hkp
          · exact .inl (.inl (congrArg Prod.fst heq))
          · exact .inr ⟨⟨kp, hkp⟩, hp⟩
    · obtain ⟨walked', h, hd⟩ := ih hrest { walked with
        unchanged := walked.unchanged.set filename file } fun p k hk => by
          rw [Dict.find?_set] at hk
          split at hk
          next heq => cases hk; exact heq ▸ hfile
          next => exact hwalked p k hk
      refine ⟨walked', by simp only [decideUnchanged, if_neg hneeds, h], fun p k => ?_,
        fun p k hk => ?_, fun p hp => hd.kept p ?_, hd.unparseable, hd.unreadable⟩
      · rw [hd.unchanged, Dict.find?_set]
        by_cases heq : p = filename
        · subst heq
          rw [if_pos rfl]
          constructor
          · rintro (hk | ⟨hk, hp⟩)
            · cases hk
              exact .inr ⟨List.mem_cons_self, hneeds⟩
            · exact .inr ⟨List.mem_cons_of_mem _ hk, hp⟩
          · rintro (hk | ⟨hk, hp⟩)
            · rw [hwalked p k hk] at hfile
              exact .inl hfile.symm
            · rw [hitems (p, k) hk] at hfile
              exact .inl hfile.symm
        · rw [if_neg heq]
          refine or_congr_right ⟨fun hp => ⟨List.mem_cons_of_mem _ hp.1, hp.2⟩,
            fun hp => ⟨(List.mem_cons.mp hp.1).resolve_left fun h => heq (congrArg Prod.fst h), hp.2⟩⟩
      · rcases hd.parsed p k hk with hk | ⟨hname, ⟨kp, hkp⟩, hp⟩
        · exact .inl hk
        · exact .inr ⟨hname, ⟨kp, List.mem_cons_of_mem _ hkp⟩, hp⟩
      · rcases hp with hp | ⟨⟨kp, hkp⟩, hp⟩
        · exact .inl hp
        · rcases List.mem_cons.mp hkp with heq | hkp
          · cases heq
            exact absurd hp hneeds
          · exact .inr ⟨⟨kp, hkp⟩, hp⟩

/-- What a walk returns, by what the files are and what was known. -/
structure Returns (py : Python β δ) (w : Snapshot β) (entries : List Path)
    (known : Dict Path (KnownFile δ)) (walked : Walked δ) : Prop where
  unchanged : ∀ filename file, walked.unchanged.find? filename = some file ↔
    w.Reached py entries filename ∧ known.find? filename = some file ∧
      w.digest py filename = some file.digest ∧
      ∀ target k, Relation.ReflTransGen (Records known) filename target →
        known.find? target = some k → ¬ w.Stale py k
  parsed : ∀ filename file, walked.parsed.find? filename = some file →
    file.filename = filename ∧ w.Describes py filename file.digest file.dependencies
  parses : ∀ filename, (walked.parsed.find? filename).isSome ↔ w.Reached py entries filename ∧
    (w.imports py filename).isSome ∧ walked.unchanged.find? filename = none
  unparseable : ∀ filename, (walked.unparseable.find? filename).isSome ↔
    w.Reached py entries filename ∧
      ∃ source error, w.read filename = .ok source ∧ py.parse source = .error error
  unreadable : ∀ filename, (walked.unreadable.find? filename).isSome ↔
    w.Reached py entries filename ∧ ∃ error, w.read filename = .error error

variable (entries) in
/-- What a walk returns, with enough fuel. -/
theorem walk_spec (hfits : w.Fits py known) (hcons : Consistent known) {fuel : Nat}
    (hn : w.files.length + 2 * known.items.length < fuel) : ∃ walked,
    walk py w.disk fuel entries known () = .ok (walked, ()) ∧ w.Returns py entries known walked := by
  have hfiles : w.files.length < fuel := by omega
  obtain ⟨files, hlookup, hc⟩ := lookupEntries_complete entries hfits hfiles
  have hread : w.Read py (.empty : Dict Path (Option δ)) := fun p d hd => by cases hd
  obtain ⟨filenames, hseeds, hle, hmem⟩ := seeds_spec hc hfits hcons files.unchanged.items
    (fun e he => Dict.find?_eq_some_iff.mpr he) hread
  obtain ⟨needs, hneeds⟩ : ∃ needs,
      worklist (dependents files.unchanged) py.pop fuel filenames filenames = some needs := by
    refine worklist_isSome (files.unchanged.items.map Prod.fst) (fun p q hq => ?_) ?_
    · obtain ⟨k, hk, -⟩ := mem_dependents.mp hq
      exact List.mem_map_of_mem (f := Prod.fst) (Dict.find?_eq_some_iff.mp hk)
    · have hfilter := List.length_filter_le (· ∉ filenames) (files.unchanged.items.map Prod.fst)
      have hsub : files.unchanged.items.map Prod.fst ⊆ known.items.map Prod.fst := by
        intro p hp
        obtain ⟨e, he, rfl⟩ := List.mem_map.mp hp
        have hk := ((hc.unchanged_iff hfits).mp (Dict.find?_eq_some_iff.mpr he)).2.1
        exact List.mem_map_of_mem (f := Prod.fst) (Dict.find?_eq_some_iff.mp hk)
      have hlength := files.unchanged.nodup.length_le_of_subset hsub
      simp only [List.length_map] at hfilter hlength
      omega
  obtain ⟨walked, hdecide, hd⟩ := decideUnchanged_spec hc hfits needs files.unchanged.items
    (fun e he => Dict.find?_eq_some_iff.mpr he)
    ⟨.empty, files.parsed, files.unparseable, files.unreadable⟩ (fun p k hk => by cases hk)
  have hitem : ∀ {p}, (∃ k, (p, k) ∈ files.unchanged.items) ↔ (files.unchanged.find? p).isSome := by
    intro p
    rw [Option.isSome_iff_exists]
    exact exists_congr fun k => Dict.find?_eq_some_iff.symm
  have hneed : ∀ {p k}, files.unchanged.find? p = some k → (p ∈ needs ↔ ∃ target kt,
      Relation.ReflTransGen (Records known) p target ∧ known.find? target = some kt ∧
        w.Stale py kt) := mem_needsReanalysis_iff hc hfits hcons hmem hneeds
  have hunchanged : ∀ p k, walked.unchanged.find? p = some k ↔
      files.unchanged.find? p = some k ∧ p ∉ needs := by
    intro p k
    rw [hd.unchanged, ← Dict.find?_eq_some_iff]
    exact or_iff_right fun h => by cases h
  refine ⟨walked, by simp only [walk, hlookup, hseeds, hneeds, hdecide], fun p k => ?_,
    fun p file hfile => ?_, fun p => ?_, fun p => ?_, fun p => ?_⟩
  · rw [hunchanged]
    constructor
    · rintro ⟨hp, hneeds⟩
      obtain ⟨hreach, hk, hdigest⟩ := (hc.unchanged_iff hfits).mp hp
      exact ⟨hreach, hk, hdigest, fun target kt hpath hkt hs =>
        hneeds ((hneed hp).mpr ⟨target, kt, hpath, hkt, hs⟩)⟩
    · rintro ⟨hreach, hk, hdigest, hstands⟩
      have hp := (hc.unchanged_iff hfits).mpr ⟨hreach, hk, hdigest⟩
      refine ⟨hp, fun hneeds => ?_⟩
      obtain ⟨target, kt, hpath, hkt, hs⟩ := (hneed hp).mp hneeds
      exact hstands target kt hpath hkt hs
  · rcases hd.parsed p file hfile with hfile | ⟨hname, -, -, hdescribes⟩
    · exact ⟨(hc.inv.parsed p file hfile).1, (hc.inv.parsed p file hfile).2.1⟩
    · exact ⟨hname, hdescribes⟩
  · have hnone : walked.unchanged.find? p = none ↔ ¬ ((files.unchanged.find? p).isSome ∧ p ∉ needs) := by
      rw [Option.eq_none_iff_forall_ne_some, Option.isSome_iff_exists]
      simp only [ne_eq, hunchanged]
      grind
    rw [← and_assoc, ← hc.done, hnone]
    constructor
    · intro hp
      obtain ⟨file, hfile⟩ := Option.isSome_iff_exists.mp hp
      rcases hd.parsed p file hfile with hparsed | ⟨-, hk, hneeds, -⟩
      · refine ⟨.inl (by rw [hparsed]; rfl), fun h => ?_⟩
        -- a parsed file does not have the known digest
        obtain ⟨k, hk⟩ := Option.isSome_iff_exists.mp h.1
        obtain ⟨hknown', hdigest⟩ := hc.inv.unchanged p k hk
        obtain ⟨-, ⟨hdigest', -⟩, hnew⟩ := hc.inv.parsed p file hparsed
        rw [hdigest] at hdigest'
        exact hnew k hknown' (Option.some.inj hdigest')
      · exact ⟨.inr (hitem.mp hk), fun h => h.2 hneeds⟩
    · rintro ⟨hp | hp, hnot⟩
      · exact hd.kept p (.inl hp)
      · exact hd.kept p (.inr ⟨hitem.mpr hp, not_not.mp fun h => hnot ⟨hp, h⟩⟩)
  · rw [hd.unparseable]
    constructor
    · intro hp
      obtain ⟨u, hu⟩ := Option.isSome_iff_exists.mp hp
      exact ⟨(hc.met p).mp (.inr (.inr (.inl hp))), hc.inv.unparseable p u hu⟩
    · rintro ⟨hreach, source, error, hread, hparse⟩
      have hnot : ¬ files.Done p := fun h => by
        have himports := ((hc.done p).mp h).2
        rw [imports_of_parse_error hread hparse] at himports
        cases himports
      rcases hc.met_of_not_done hreach hnot with hp | hp
      · exact hp
      · obtain ⟨e, he⟩ := Option.isSome_iff_exists.mp hp
        have hread' := hc.inv.unreadable p e he
        rw [hread] at hread'
        cases hread'
  · rw [hd.unreadable]
    constructor
    · intro hp
      obtain ⟨e, he⟩ := Option.isSome_iff_exists.mp hp
      exact ⟨(hc.met p).mp (.inr (.inr (.inr (.inl hp)))), e, hc.inv.unreadable p e he⟩
    · rintro ⟨hreach, error, hread⟩
      have hnot : ¬ files.Done p := fun h => by
        have himports := ((hc.done p).mp h).2
        rw [imports_of_read_error hread] at himports
        cases himports
      rcases hc.met_of_not_done hreach hnot with hp | hp
      · obtain ⟨u, hu⟩ := Option.isSome_iff_exists.mp hp
        obtain ⟨source, e, hread', -⟩ := hc.inv.unparseable p u hu
        rw [hread] at hread'
        cases hread'
      · exact hp

end Snapshot

end Reboot.Dashboard.Walks
