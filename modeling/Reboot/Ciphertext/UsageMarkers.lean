import Mathlib.Data.List.Nodup
import Reboot.Ciphertext.KeyRotation

/-!
# The usage markers of root keys

A root key version may be dropped from the configuration once no consumer has a usage marker
for it on the `Application`. So a marker must not lag behind the keys: whenever a wrapping key
that is not revoked has material, the version it is wrapped under has to be among the
`consuming_versions` of its manager, and marked. `Covered` says so.

Keys change their version in three places. `Wrap` puts a new key on the active version and
registers it, `Rotate` moves a key to the version that `BeginRotation` pinned, and `Wrap`
moves a key it finds on another version to the active one. The first two take care of the
markers. The third does not: nothing says that the active version is consumed. And a rotation
releases the versions it found stale without looking again, so a key that is put on one of
them behind the sweep, after a restart back to an older version, loses its marker.

`markers_cover`: as long as no `Wrap` does one of these two things (`WrapOk`), the markers
cover the keys in every state of every run. The invariant is `Site.Inv`; what it says about a
rotation is that the keys the sweep has passed are on none of the versions that the rotation
is going to release.
-/

namespace Reboot.Ciphertext

open Reboot.Lib

/-- The versions the rotation that is under way releases at its end. -/
def Watch.staleVersions {σ : Type} : Watch σ → List Nat
  | .sweeping stale _ _ => stale
  | .swept stale => stale
  | .releasing stale => stale
  | _ => []

namespace Site

variable {σ : Type} [DecidableEq σ]

/-- Each usable key is on a version that is consumed and marked. -/
def Covered (s : Site σ) : Prop :=
  ∀ scope, (s.keys scope).Usable →
    (s.keys scope).rootKeyVersion ∈ s.manager.consumingVersions ∧
      (s.keys scope).rootKeyVersion ∈ s.usages

/-- The rotation that is under way will not come to the key of the scope any more. -/
def passed (s : Site σ) (scope : σ) : Bool :=
  match s.watch with
  | .sweeping _ page done =>
    decide (page = some []) || decide (scope ∈ done) ||
      s.registry.any fun e =>
        decide (e.2 = scope) && s.manager.rotationCursor.any fun c => decide (e.1 ≤ c)
  | .swept _ => true
  | .releasing _ => true
  | _ => false

/-- A `Wrap` that changes the version of the key does not put it on a version that is not
consumed, nor, behind the sweep, on one that will be released. -/
def WrapOk (config : List Nat) (s : Site σ) (scope : σ) : Prop :=
  ∀ active ∈ activeVersion config,
    ¬ ((s.keys scope).hasMaterial = true ∧ (s.keys scope).rootKeyVersion = active) →
    (s.passed scope = true → active ∉ s.watch.staleVersions) ∧
      ((s.keys scope).hasMaterial = true → active ∈ s.manager.consumingVersions)

instance (config : List Nat) (s : Site σ) (scope : σ) : Decidable (s.WrapOk config scope) :=
  inferInstanceAs (Decidable (∀ active ∈ activeVersion config, _))

/-- What the position of the workflows says. -/
def Watching (s : Site σ) : Prop :=
  match s.watch with
  | .sweeping stale page _ =>
    (∃ target, s.manager.rotationTargetVersion = some target ∧
      target ∈ s.manager.consumingVersions ∧ target ∉ stale) ∧
    ∀ l, page = some l →
      l <+: s.registry.filter fun e => decide (∀ c ∈ s.manager.rotationCursor, c < e.1)
  | .releasing stale =>
    s.manager.rotationCursor = none ∧ ∀ v ∈ stale, v ∉ s.manager.consumingVersions
  | _ => s.manager.rotationCursor = none

/-- The invariant of a manager, its keys, its registry and its markers. -/
structure Inv (s : Site σ) : Prop where
  nodup : s.manager.consumingVersions.Nodup
  marked : ∀ v ∈ s.manager.consumingVersions, v ∈ s.usages
  consumed : ∀ scope, (s.keys scope).Usable →
    (s.keys scope).rootKeyVersion ∈ s.manager.consumingVersions
  registered : ∀ scope, (s.keys scope).Usable → ∃ e ∈ s.registry, e.2 = scope
  sorted : s.registry.Pairwise fun a b => a.1 < b.1
  cursor : ∀ c, s.manager.rotationCursor = some c → ∃ e ∈ s.registry, e.1 = c
  started : s.manager.watchStarted = false → s.watch = .notStarted
  behind : ∀ scope, (s.keys scope).Usable → s.passed scope = true →
    (s.keys scope).rootKeyVersion ∉ s.watch.staleVersions
  watching : s.Watching

theorem Inv.covered {s : Site σ} (h : s.Inv) : s.Covered :=
  fun scope hk => ⟨h.consumed scope hk, h.marked _ (h.consumed scope hk)⟩

theorem fresh_inv : (fresh : Site σ).Inv := by
  have hno : ∀ scope, ¬ ((fresh : Site σ).keys scope).Usable := by
    intro scope hk
    exact Bool.noConfusion hk.2
  exact
    { nodup := List.nodup_nil
      marked := fun v hv => absurd hv (List.not_mem_nil)
      consumed := fun scope hk => absurd hk (hno scope)
      registered := fun scope hk => absurd hk (hno scope)
      sorted := List.Pairwise.nil
      cursor := nofun
      started := fun _ => rfl
      behind := fun scope hk => absurd hk (hno scope)
      watching := rfl }

/-- When a sweep has passed a key: it found nothing more to come, it has re-wrapped the key in
this iteration, or its cursor is at or after the key's entry. -/
theorem passed_sweeping_iff {s : Site σ} {stale : List Nat} {page : Option (List (Nat × σ))}
    {done : List σ} (hw : s.watch = .sweeping stale page done) {scope : σ} :
    s.passed scope = true ↔ page = some [] ∨ scope ∈ done ∨
      ∃ e ∈ s.registry, e.2 = scope ∧ ∃ c, s.manager.rotationCursor = some c ∧ e.1 ≤ c := by
  simp only [passed, hw, Bool.or_eq_true, decide_eq_true_eq, List.any_eq_true, Bool.and_eq_true,
    Option.any_eq_true, or_assoc]

/-! ## Changing a key, and consuming a version -/

/-- A key may be changed to one that is covered and, if the sweep has passed it, not on a
version that will be released. -/
theorem Inv.setKey {s : Site σ} (h : s.Inv) {scope : σ} {k : WrappingKey}
    (hk : k.Usable → k.rootKeyVersion ∈ s.manager.consumingVersions ∧
      (∃ e ∈ s.registry, e.2 = scope) ∧
      (s.passed scope = true → k.rootKeyVersion ∉ s.watch.staleVersions)) :
    (s.setKey scope k).Inv := by
  have hcase : ∀ scope', ((s.setKey scope k).keys scope').Usable →
      (scope' = scope ∧ (s.setKey scope k).keys scope' = k ∧ k.Usable) ∨
        ((s.setKey scope k).keys scope' = s.keys scope' ∧ (s.keys scope').Usable) := by
    intro scope' hu
    by_cases heq : scope' = scope
    · subst heq
      have hself : (s.setKey scope' k).keys scope' = k := Function.update_self ..
      exact Or.inl ⟨rfl, hself, hself ▸ hu⟩
    · have hother : (s.setKey scope k).keys scope' = s.keys scope' := Function.update_of_ne heq ..
      exact Or.inr ⟨hother, hother ▸ hu⟩
  refine { h with consumed := ?_, registered := ?_, behind := ?_ }
  · intro scope' hu
    rcases hcase scope' hu with ⟨rfl, heq, hku⟩ | ⟨heq, hsu⟩
    · rw [heq]
      exact (hk hku).1
    · rw [heq]
      exact h.consumed scope' hsu
  · intro scope' hu
    rcases hcase scope' hu with ⟨rfl, -, hku⟩ | ⟨-, hsu⟩
    · exact (hk hku).2.1
    · exact h.registered scope' hsu
  · intro scope' hu hp
    rcases hcase scope' hu with ⟨rfl, heq, hku⟩ | ⟨heq, hsu⟩
    · rw [heq]
      exact (hk hku).2.2 hp
    · rw [heq]
      exact h.behind scope' hsu hp

theorem mem_useRootKeyVersion {usages : List Nat} {version v : Nat} :
    v ∈ useRootKeyVersion usages version ↔ v ∈ usages ∨ v = version := by
  unfold useRootKeyVersion
  split
  next h => exact ⟨Or.inl, fun hv => hv.elim id fun e => e ▸ h⟩
  next => simp

omit [DecidableEq σ] in
theorem mem_consume (s : Site σ) (version : Nat) :
    version ∈ (s.consume version).manager.consumingVersions := by
  unfold consume
  split
  next h => exact h
  next => simp

/-- A version may be consumed unless it is being released. -/
theorem Inv.consume {s : Site σ} (h : s.Inv) {version : Nat}
    (hrel : ∀ stale, s.watch = .releasing stale → version ∉ stale) : (s.consume version).Inv := by
  unfold Site.consume
  split
  next => exact h
  next hnew =>
    have hmono : ∀ {v}, v ∈ s.manager.consumingVersions →
        v ∈ s.manager.consumingVersions ++ [version] := fun hv => List.mem_append_left _ hv
    refine { h with nodup := ?_, marked := ?_, consumed := ?_, watching := ?_ }
    · exact List.Nodup.append h.nodup (List.nodup_singleton _)
        fun v hv hv' => hnew (List.mem_singleton.mp hv' ▸ hv)
    · intro v hv
      rw [mem_useRootKeyVersion]
      rcases List.mem_append.mp hv with hv | hv
      · exact Or.inl (h.marked v hv)
      · exact Or.inr (List.mem_singleton.mp hv)
    · intro scope hu
      exact hmono (h.consumed scope hu)
    · have hw := h.watching
      unfold Watching at hw ⊢
      dsimp only
      split
      next stale page done heq =>
        rw [heq] at hw
        obtain ⟨⟨target, ht, hc, hs⟩, hpage⟩ := hw
        exact ⟨⟨target, ht, hmono hc, hs⟩, hpage⟩
      next stale heq =>
        rw [heq] at hw
        refine ⟨hw.1, fun v hv hmem => ?_⟩
        rcases List.mem_append.mp hmem with hm | hm
        · exact hw.2 v hv hm
        · exact hrel stale heq (List.mem_singleton.mp hm ▸ hv)
      next hs hr =>
        split at hw
        next stale page done heq => exact absurd heq (hs stale page done)
        next stale heq => exact absurd heq (hr stale)
        next => exact hw

/-! ## The page of an iteration -/

omit [DecidableEq σ] in
/-- A page is the beginning of what comes after the cursor, and is only empty if that is. -/
theorem pageAfter_spec {registry : List (Nat × σ)} (hs : registry.Pairwise fun a b => a.1 < b.1)
    (cursor : Option Nat) :
    pageAfter registry cursor <+: (registry.filter fun e => decide (∀ c ∈ cursor, c < e.1)) ∧
      (pageAfter registry cursor = [] →
        (registry.filter fun e => decide (∀ c ∈ cursor, c < e.1)) = []) := by
  cases cursor with
  | none =>
    have hall : ∀ p : Nat → Nat → Prop, ∀ [DecidableRel p],
        (registry.filter fun e => decide (∀ c ∈ (none : Option Nat), p c e.1)) = registry := by
      intro p _
      exact List.filter_eq_self.mpr fun e _ => by simp
    have hpage : pageAfter registry none = registry.take rotatePageSize := by
      simp only [pageAfter, hall (· ≤ ·)]
    rw [hpage, hall (· < ·)]
    exact ⟨List.take_prefix _ _, fun h => (List.take_eq_nil_iff.mp h).resolve_left (by decide)⟩
  | some c =>
    have hge : (registry.filter fun e => decide (∀ c' ∈ some c, c' ≤ e.1)) =
        registry.filter fun e => decide (c ≤ e.1) := by simp
    have hgt : (registry.filter fun e => decide (∀ c' ∈ some c, c' < e.1)) =
        (registry.filter fun e => decide (c ≤ e.1)).filter fun e => decide (c < e.1) := by
      rw [List.filter_filter]
      refine List.filter_congr fun e _ => ?_
      by_cases hlt : c < e.1
      · simp [hlt, Nat.le_of_lt hlt]
      · simp [hlt]
    have hsub : (registry.filter fun e => decide (c ≤ e.1)).Pairwise fun a b => a.1 < b.1 :=
      List.Pairwise.filter _ hs
    have hfrom : ∀ e ∈ registry.filter (fun e => decide (c ≤ e.1)), c ≤ e.1 := by
      intro e he
      exact of_decide_eq_true (List.mem_filter.mp he).2
    simp only [pageAfter, hge, hgt]
    generalize registry.filter (fun e => decide (c ≤ e.1)) = l at hsub hfrom
    cases l with
    | nil => exact ⟨List.prefix_rfl, fun _ => rfl⟩
    | cons e l =>
      obtain ⟨hhd, -⟩ := List.pairwise_cons.mp hsub
      have hrest : l.filter (fun e => decide (c < e.1)) = l := by
        refine List.filter_eq_self.mpr fun e' he' => decide_eq_true ?_
        exact Nat.lt_of_le_of_lt (hfrom e (List.mem_cons_self ..)) (hhd e' he')
      have htake : (e :: l).take rotatePageSize = e :: l.take (rotatePageSize - 1) := rfl
      rw [htake]
      dsimp only
      by_cases heq : e.1 = c
      · -- the entry at the cursor is dropped
        have hno : decide (c < e.1) = false := decide_eq_false (by omega)
        rw [if_pos heq, List.filter_cons, hno, hrest]
        exact ⟨List.take_prefix _ _, fun h => (List.take_eq_nil_iff.mp h).resolve_left (by decide)⟩
      · have hlt : c < e.1 :=
          Nat.lt_of_le_of_ne (hfrom e (List.mem_cons_self ..)) fun h => heq h.symm
        rw [if_neg heq, List.filter_cons, decide_eq_true hlt, hrest]
        exact ⟨List.cons_prefix_cons.mpr ⟨rfl, List.take_prefix _ _⟩, fun h => nomatch h⟩

omit [DecidableEq σ] in
/-- What is not after the last entry of a page is in the page. -/
theorem mem_page_of_le {l L : List (Nat × σ)} (hL : L.Pairwise fun a b => a.1 < b.1)
    (hp : l <+: L) {last e : Nat × σ} (hlast : last ∈ l) (he : e ∈ L) (hle : e.1 ≤ last.1) :
    e ∈ l := by
  obtain ⟨r, rfl⟩ := hp
  rcases List.mem_append.mp he with h | h
  · exact h
  · have hlt := (List.pairwise_append.mp hL).2.2 last hlast e h
    omega

/-! ## Registering and wrapping -/

/-- An entry that is added to the registry is after the cursor. -/
theorem passed_append {s : Site σ} (h : s.Inv) (scope : σ) {uuid : Nat} {scope' : σ}
    (huuid : ∀ e ∈ s.registry, e.1 < uuid)
    (hp : ({ s with registry := s.registry ++ [(uuid, scope)] } : Site σ).passed scope' = true) :
    s.passed scope' = true := by
  cases hw : s.watch with
  | sweeping stale page done =>
    have hw' : ({ s with registry := s.registry ++ [(uuid, scope)] } : Site σ).watch =
        .sweeping stale page done := hw
    rw [passed_sweeping_iff hw]
    rcases (passed_sweeping_iff hw').mp hp with hp | hp | ⟨e, he, hes, c, hc, hle⟩
    · exact Or.inl hp
    · exact Or.inr (Or.inl hp)
    · rcases List.mem_append.mp he with he | he
      · exact Or.inr (Or.inr ⟨e, he, hes, c, hc, hle⟩)
      · -- the cursor is at an older entry
        obtain ⟨e', he', hec⟩ := h.cursor c hc
        have hlt := huuid e' he'
        rw [List.mem_singleton.mp he] at hle
        have hle' : uuid ≤ c := hle
        omega
  | swept stale => simp [passed, hw]
  | releasing stale => simp [passed, hw]
  | notStarted => simp [passed, hw] at hp
  | waiting => simp [passed, hw] at hp
  | newer => simp [passed, hw] at hp

/-- A new entry at the end of the registry. -/
theorem Inv.appendRegistry {s : Site σ} (h : s.Inv) (scope : σ) {uuid : Nat}
    (huuid : ∀ e ∈ s.registry, e.1 < uuid) :
    ({ s with registry := s.registry ++ [(uuid, scope)] } : Site σ).Inv where
  nodup := h.nodup
  marked := h.marked
  consumed := h.consumed
  registered scope' hu := by
    obtain ⟨e, he, hes⟩ := h.registered scope' hu
    exact ⟨e, List.mem_append_left _ he, hes⟩
  sorted := by
    refine List.pairwise_append.mpr ⟨h.sorted, List.pairwise_singleton _ _, fun e he e' he' => ?_⟩
    rw [List.mem_singleton.mp he']
    exact huuid e he
  cursor c hc := by
    obtain ⟨e, he, hec⟩ := h.cursor c hc
    exact ⟨e, List.mem_append_left _ he, hec⟩
  started := h.started
  behind scope' hu hp := h.behind scope' hu (passed_append h scope huuid hp)
  watching := by
    have hw := h.watching
    cases hwatch : s.watch with
    | sweeping stale page done =>
      simp only [Watching, hwatch] at hw ⊢
      refine ⟨hw.1, fun l hl => ?_⟩
      rw [List.filter_append]
      exact (hw.2 l hl).trans (List.prefix_append _ _)
    | swept stale => simpa only [Watching, hwatch] using hw
    | releasing stale => simpa only [Watching, hwatch] using hw
    | notStarted => simpa only [Watching, hwatch] using hw
    | waiting => simpa only [Watching, hwatch] using hw
    | newer => simpa only [Watching, hwatch] using hw

/-- What registering does not change, and what it does. -/
theorem register_spec {s : Site σ} (h : s.Inv) (scope : σ) {uuid version : Nat}
    (huuid : ∀ e ∈ s.registry, e.1 < uuid)
    (hrel : ∀ stale, s.watch = .releasing stale → version ∉ stale) :
    (s.register scope version uuid).Inv ∧
      version ∈ (s.register scope version uuid).manager.consumingVersions ∧
      (∃ e ∈ (s.register scope version uuid).registry, e.2 = scope) ∧
      ((s.register scope version uuid).passed scope = true →
        s.passed scope = true ∧
          (s.register scope version uuid).watch.staleVersions = s.watch.staleVersions) := by
  have happ := h.appendRegistry scope huuid
  have hcon := happ.consume hrel
  have hmem := mem_consume ({ s with registry := s.registry ++ [(uuid, scope)] } : Site σ) version
  have hreg : (({ s with registry := s.registry ++ [(uuid, scope)] } : Site σ).consume
      version).registry = s.registry ++ [(uuid, scope)] := by
    unfold Site.consume
    split <;> rfl
  have hwatch : (({ s with registry := s.registry ++ [(uuid, scope)] } : Site σ).consume
      version).watch = s.watch := by
    unfold Site.consume
    split <;> rfl
  have hcur : (({ s with registry := s.registry ++ [(uuid, scope)] } : Site σ).consume
      version).manager.rotationCursor = s.manager.rotationCursor := by
    unfold Site.consume
    split <;> rfl
  unfold register
  dsimp only
  generalize ({ s with registry := s.registry ++ [(uuid, scope)] } : Site σ).consume version = s'
    at hcon hmem hreg hwatch hcur
  have hentry : ∃ e ∈ s'.registry, e.2 = scope := ⟨(uuid, scope), by simp [hreg], rfl⟩
  split
  next hstarted =>
    refine ⟨hcon, hmem, hentry, fun hp => ⟨?_, by rw [hwatch]⟩⟩
    refine passed_append h scope huuid ?_
    unfold passed at hp ⊢
    rw [hwatch, hreg, hcur] at hp
    exact hp
  next hstarted =>
    have hnot := hcon.started (Bool.eq_false_iff.mpr hstarted)
    have hcursor : s'.manager.rotationCursor = none := by
      have hw := hcon.watching
      simpa only [Watching, hnot] using hw
    refine ⟨?_, hmem, hentry, fun hp => nomatch hp⟩
    exact
      { hcon with
        started := fun hf => nomatch hf
        behind := fun _ _ hp => nomatch hp
        watching := hcursor }

/-- A `Wrap` that meets `WrapOk` keeps the invariant. -/
theorem Inv.wrap {s s' : Site σ} (h : s.Inv) {config : List Nat} {scope : σ} {uuid : Nat}
    (hok : s.WrapOk config scope) (hs : s.wrap config scope uuid = some s') : s'.Inv := by
  unfold Site.wrap at hs
  split at hs
  next => cases hs
  next =>
    split at hs
    next => cases hs
    next active hactive =>
      split at hs
      next hmat =>
        -- first use
        split at hs
        next huuid =>
          cases hs
          obtain ⟨hpass, -⟩ := hok active hactive fun hc => by
            rw [hmat] at hc
            exact nomatch hc.1
          have hrel : ∀ stale, s.watch = .releasing stale → active ∉ stale := by
            intro stale hw
            have hstale := hpass (by simp [passed, hw])
            rwa [hw] at hstale
          obtain ⟨hinv, hmem, hentry, hp⟩ := register_spec h scope huuid hrel
          have hcomm : (s.setKey scope ⟨false, true, active⟩).register scope active uuid =
              (s.register scope active uuid).setKey scope ⟨false, true, active⟩ := by
            unfold register Site.setKey Site.consume
            dsimp only
            split <;> split <;> rfl
          rw [hcomm]
          refine hinv.setKey fun _ => ⟨hmem, hentry, fun hpassed => ?_⟩
          obtain ⟨hpassed', heq⟩ := hp hpassed
          rw [heq]
          exact hpass hpassed'
        next => cases hs
      next hmat =>
        have hmat' : (s.keys scope).hasMaterial = true := by simpa using hmat
        split at hs
        next => cases hs
        next =>
          split at hs
          next hne =>
            -- the key is moved to the active version
            cases hs
            obtain ⟨hpass, hcon⟩ := hok active hactive fun hc => hne hc.2
            refine h.setKey fun hu => ⟨hcon hmat', ?_, hpass⟩
            exact h.registered scope ⟨hu.1, hu.2⟩
          next =>
            cases hs
            exact h

/-! ## Shredding -/

theorem Inv.revoke {s : Site σ} (h : s.Inv) (scope : σ) : (s.revoke scope).Inv :=
  h.setKey fun hu => nomatch hu.1

/-! ## The workflows -/

/-- The workflow is somewhere, so it was started. -/
theorem Inv.watchStarted {s : Site σ} (h : s.Inv) (hw : s.watch ≠ .notStarted) :
    s.manager.watchStarted ≠ false :=
  fun hf => hw (h.started hf)

/-- Before a rotation there is no cursor, and nothing will be released. -/
theorem Inv.toNewer {s : Site σ} (h : s.Inv) (hw : s.watch = .waiting) :
    ({ s with watch := .newer } : Site σ).Inv := by
  have hcursor : s.manager.rotationCursor = none := by
    have hwatching := h.watching
    simpa only [Watching, hw] using hwatching
  have hstarted := h.watchStarted (by rw [hw]; nofun)
  exact
    { h with
      started := fun hf => absurd hf hstarted
      behind := fun _ _ hp => nomatch hp
      watching := hcursor }

theorem Inv.beginRotation {s s' : Site σ} (h : s.Inv) {config : List Nat}
    (hs : s.beginRotation config = some s') : s'.Inv := by
  unfold Site.beginRotation at hs
  split at hs
  next active hw hactive =>
    cases hs
    have hrel : ∀ stale, s.watch = .releasing stale → active ∉ stale := by
      intro stale hw'
      rw [hw] at hw'
      exact nomatch hw'
    have hcon := h.consume hrel
    have hmem := mem_consume s active
    have hwatch : (s.consume active).watch = .newer := by
      unfold Site.consume
      split <;> exact hw
    have hcursor : (s.consume active).manager.rotationCursor = none := by
      have hwatching := hcon.watching
      simpa only [Watching, hwatch] using hwatching
    have hstarted := hcon.watchStarted (by rw [hwatch]; nofun)
    have hstale : active ∉ s.manager.consumingVersions.filter fun v => decide (v < active) := by
      intro hm
      exact absurd (of_decide_eq_true (List.mem_filter.mp hm).2) (Nat.lt_irrefl _)
    generalize s.consume active = t at hcon hmem hwatch hcursor hstarted
    refine
      { hcon with
        started := fun hf => absurd hf hstarted
        behind := fun scope hu hp => ?_
        watching := ⟨⟨active, rfl, hmem, hstale⟩, fun l hl => nomatch hl⟩ }
    -- the sweep is at its beginning
    rcases (passed_sweeping_iff rfl).mp hp with hp | hp | ⟨e, -, -, c, hc, -⟩
    · exact nomatch hp
    · exact absurd hp (List.not_mem_nil)
    · have hc' : t.manager.rotationCursor = some c := hc
      rw [hcursor] at hc'
      exact nomatch hc'
  next => cases hs

theorem Inv.readPage {s s' : Site σ} (h : s.Inv) (hs : s.readPage = some s') : s'.Inv := by
  unfold Site.readPage at hs
  split at hs
  next stale done hw =>
    cases hs
    obtain ⟨hpre, hempty⟩ := pageAfter_spec h.sorted s.manager.rotationCursor
    have hwatching := h.watching
    simp only [Watching, hw] at hwatching
    have hstarted := h.watchStarted (by rw [hw]; nofun)
    refine
      { h with
        started := fun hf => absurd hf hstarted
        behind := fun scope hu hp => ?_
        watching := ⟨hwatching.1, fun l hl => Option.some.inj hl ▸ hpre⟩ }
    have hbefore : s.passed scope = true := by
      rw [passed_sweeping_iff hw]
      rcases (passed_sweeping_iff rfl).mp hp with hp | hp | hp
      · -- nothing is after the cursor, so the entry of the key is not
        have hnil := hempty (Option.some.inj hp)
        obtain ⟨e, he, hes⟩ := h.registered scope hu
        have hno := List.filter_eq_nil_iff.mp hnil e he
        simp only [decide_eq_true_eq, Option.mem_def, not_forall, Nat.not_lt] at hno
        obtain ⟨c, hc, hle⟩ := hno
        exact Or.inr (Or.inr ⟨e, he, hes, c, hc, hle⟩)
      · exact Or.inr (Or.inl hp)
      · exact Or.inr (Or.inr hp)
    have hbehind := h.behind scope hu hbefore
    rwa [hw] at hbehind
  next => cases hs

theorem Inv.rewrap {s s' : Site σ} (h : s.Inv) {config : List Nat} {scope : σ}
    (hs : s.rewrap config scope = some s') : s'.Inv := by
  unfold Site.rewrap at hs
  split at hs
  next stale page done hw =>
    split at hs
    next hscope =>
      obtain ⟨t, ht, rfl⟩ := Option.map_eq_some_iff.mp hs
      have hwatching := h.watching
      simp only [Watching, hw] at hwatching
      obtain ⟨⟨target, htarget, hcons, hstale⟩, hpage⟩ := hwatching
      -- the key is on the target now, unless it is not usable
      have hkey : ∃ k, t = s.setKey scope k ∧
          (k.Usable → (s.keys scope).Usable ∧ k.rootKeyVersion = target) := by
        unfold rewrapUnderRootKey at ht
        rw [htarget] at ht
        split at ht
        next hu =>
          dsimp only [Option.or] at ht
          split at ht
          next heq =>
            cases ht
            exact ⟨s.keys scope, by simp [Site.setKey], fun hk => ⟨hk, heq⟩⟩
          next =>
            split at ht
            next => cases ht
            next =>
              cases ht
              exact ⟨_, rfl, fun _ => ⟨hu, rfl⟩⟩
        next hu =>
          cases ht
          exact ⟨s.keys scope, by simp [Site.setKey], fun hk => absurd hk hu⟩
      obtain ⟨k, rfl, hk⟩ := hkey
      have hset : (s.setKey scope k).Inv := by
        refine h.setKey fun hu => ?_
        obtain ⟨hold, hv⟩ := hk hu
        rw [hv, hw]
        exact ⟨hcons, h.registered scope hold, fun _ => hstale⟩
      have hstarted := h.watchStarted (by rw [hw]; nofun)
      refine
        { hset with
          started := fun hf => absurd hf hstarted
          behind := fun scope' hu hp => ?_
          watching := ⟨⟨target, htarget, hcons, hstale⟩, hpage⟩ }
      by_cases heq : scope' = scope
      · subst heq
        have hself : (s.setKey scope' k).keys scope' = k := Function.update_self ..
        have hu' : k.Usable := hself ▸ hu
        show ((s.setKey scope' k).keys scope').rootKeyVersion ∉ stale
        rw [hself, (hk hu').2]
        exact hstale
      · have hbefore : (s.setKey scope k).passed scope' = true := by
          rw [passed_sweeping_iff (s := s.setKey scope k) hw]
          rcases (passed_sweeping_iff rfl).mp hp with hp | hp | hp
          · exact Or.inl hp
          · exact Or.inr (Or.inl ((List.mem_cons.mp hp).resolve_left heq))
          · exact Or.inr (Or.inr hp)
        have hbehind := hset.behind scope' hu hbefore
        have hwatch : (s.setKey scope k).watch = .sweeping stale (some page) done := hw
        rwa [hwatch] at hbehind
    next => cases hs
  next => cases hs

theorem Inv.advance {s s' : Site σ} (h : s.Inv) (hs : s.advance = some s') : s'.Inv := by
  unfold Site.advance at hs
  split at hs
  next stale page done hw =>
    split at hs
    next => cases hs
    next last hlast =>
      split at hs
      next hdone =>
        cases hs
        have hwatching := h.watching
        simp only [Watching, hw] at hwatching
        obtain ⟨htarget, hpage⟩ := hwatching
        have hpre := hpage page rfl
        have hmem : last ∈ page := List.mem_of_getLast? hlast
        have hlastReg : last ∈ s.registry :=
          (List.mem_filter.mp (hpre.subset hmem)).1
        have hstarted := h.watchStarted (by rw [hw]; nofun)
        refine
          { h with
            cursor := fun c hc => ⟨last, hlastReg, Option.some.inj hc⟩
            started := fun hf => absurd hf hstarted
            behind := fun scope hu hp => ?_
            watching := ⟨htarget, fun l hl => nomatch hl⟩ }
        have hbefore : s.passed scope = true := by
          rw [passed_sweeping_iff hw]
          rcases (passed_sweeping_iff rfl).mp hp with hp | hp | ⟨e, he, hes, c, hc, hle⟩
          · exact nomatch hp
          · exact absurd hp (List.not_mem_nil)
          · have hc' : last.1 = c := Option.some.inj hc
            by_cases hafter : ∀ c' ∈ s.manager.rotationCursor, c' < e.1
            · -- between the two cursors: in the page, and all of that is done
              have hin : e ∈ page := by
                refine mem_page_of_le (List.Pairwise.filter _ h.sorted) hpre hmem ?_ (hc' ▸ hle)
                exact List.mem_filter.mpr ⟨he, decide_eq_true hafter⟩
              exact Or.inr (Or.inl (hdone scope (List.mem_map.mpr ⟨e, hin, hes⟩)))
            · simp only [Option.mem_def, not_forall, Nat.not_lt] at hafter
              obtain ⟨c', hc', hle'⟩ := hafter
              exact Or.inr (Or.inr ⟨e, he, hes, c', hc', hle'⟩)
        have hbehind := h.behind scope hu hbefore
        rwa [hw] at hbehind
      next => cases hs
  next => cases hs

theorem Inv.finish {s s' : Site σ} (h : s.Inv) (hs : s.finish = some s') : s'.Inv := by
  unfold Site.finish at hs
  split at hs
  next stale done hw =>
    cases hs
    have hstarted := h.watchStarted (by rw [hw]; nofun)
    refine
      { h with
        cursor := fun c hc => nomatch hc
        started := fun hf => absurd hf hstarted
        behind := fun scope hu _ => ?_
        watching := rfl }
    have hbehind := h.behind scope hu ((passed_sweeping_iff hw).mpr (Or.inl rfl))
    rwa [hw] at hbehind
  next => cases hs

theorem Inv.stopConsuming {s s' : Site σ} (h : s.Inv) (hs : s.stopConsuming = some s') :
    s'.Inv := by
  unfold Site.stopConsuming at hs
  split at hs
  next stale hw =>
    cases hs
    have hstarted := h.watchStarted (by rw [hw]; nofun)
    have hcursor : s.manager.rotationCursor = none := by
      have hwatching := h.watching
      simpa only [Watching, hw] using hwatching
    have hdiff : stale.foldl List.erase s.manager.consumingVersions =
        s.manager.consumingVersions.diff stale := (List.diff_eq_foldl ..).symm
    have hbehind : ∀ scope, (s.keys scope).Usable → (s.keys scope).rootKeyVersion ∉ stale := by
      intro scope hu
      have hb := h.behind scope hu (by simp [passed, hw])
      rwa [hw] at hb
    have hmem : ∀ v, v ∈ stale.foldl List.erase s.manager.consumingVersions ↔
        v ∈ s.manager.consumingVersions ∧ v ∉ stale := by
      intro v
      rw [hdiff]
      exact List.Nodup.mem_sdiff_iff h.nodup
    exact
      { h with
        nodup := by
          show (stale.foldl List.erase s.manager.consumingVersions).Nodup
          rw [hdiff]
          exact List.Nodup.diff h.nodup
        marked := fun v hv => h.marked v ((hmem v).mp hv).1
        consumed := fun scope hu => (hmem _).mpr ⟨h.consumed scope hu, hbehind scope hu⟩
        started := fun hf => absurd hf hstarted
        behind := fun scope hu _ => hbehind scope hu
        watching := ⟨hcursor, fun v hv hm => ((hmem v).mp hm).2 hv⟩ }
  next => cases hs

theorem Inv.disuse {s s' : Site σ} (h : s.Inv) (hs : s.disuse = some s') : s'.Inv := by
  have hwatching := h.watching
  unfold Site.disuse at hs
  split at hs
  next hw =>
    cases hs
    simp only [Watching, hw] at hwatching
    have hstarted := h.watchStarted (by rw [hw]; nofun)
    exact
      { h with
        started := fun hf => absurd hf hstarted
        behind := fun _ _ hp => nomatch hp
        watching := hwatching.1 }
  next version rest hw =>
    cases hs
    simp only [Watching, hw] at hwatching
    have hstarted := h.watchStarted (by rw [hw]; nofun)
    refine
      { h with
        marked := fun v hv => ?_
        started := fun hf => absurd hf hstarted
        behind := fun scope hu _ hm => ?_
        watching := ⟨hwatching.1, fun v hv => hwatching.2 v (List.mem_cons_of_mem _ hv)⟩ }
    · -- a version that is consumed is not being released
      have hne : v ≠ version := fun heq => hwatching.2 version (List.mem_cons_self ..) (heq ▸ hv)
      exact List.mem_filter.mpr ⟨h.marked v hv, decide_eq_true hne⟩
    · have hb := h.behind scope hu (by simp [passed, hw])
      rw [hw] at hb
      exact hb (List.mem_cons_of_mem _ hm)
  next => cases hs

end Site

/-! ## Runs -/

section

variable {γ μ σ : Type} [DecidableEq γ] [DecidableEq μ] [DecidableEq σ]

/-- Each wrapping key that is not revoked and has material is on a version that its manager
consumes and that is marked in use by the manager. -/
def System.Covered (s : System γ μ σ) : Prop := ∀ m, (s.sites m).Covered

/-- The condition on a step: a `Wrap` meets `WrapOk`. -/
def StepOk (s : System γ μ σ) : Action γ μ σ → Prop
  | .encrypt _ m scope _ => (s.sites m).WrapOk s.config scope
  | .rescope c scope _ => ∀ p ∈ s.ciphertexts c, (s.sites p.1).WrapOk s.config scope
  | _ => True

instance (s : System γ μ σ) : ∀ a, Decidable (StepOk s a)
  | .encrypt _ m scope _ => inferInstanceAs (Decidable ((s.sites m).WrapOk s.config scope))
  | .rescope c scope _ =>
    inferInstanceAs (Decidable (∀ p ∈ s.ciphertexts c, (s.sites p.1).WrapOk s.config scope))
  | .shred .. | .restart .. | .newerVersion .. | .beginRotation .. | .readPage .. | .rewrap ..
  | .advance .. | .finish .. | .stopConsuming .. | .disuse .. => isTrue trivial

omit [DecidableEq γ] in
/-- The other managers are not affected. -/
theorem onSite_inv {s s' : System γ μ σ} {m : μ} {f : Site σ → Option (Site σ)}
    (hs : s.onSite m f = some s') (h : ∀ m', (s.sites m').Inv)
    (hf : ∀ t, f (s.sites m) = some t → t.Inv) : ∀ m', (s'.sites m').Inv := by
  obtain ⟨t, ht, rfl⟩ := Option.map_eq_some_iff.mp hs
  intro m'
  by_cases heq : m' = m
  · subst heq
    show (Function.update s.sites m' t m').Inv
    rw [Function.update_self]
    exact hf t ht
  · show (Function.update s.sites m t m').Inv
    rw [Function.update_of_ne heq]
    exact h m'

/-- The step lemma. -/
theorem step_inv {s s' : System γ μ σ} {a : Action γ μ σ} (h : ∀ m, (s.sites m).Inv)
    (hok : StepOk s a) (hs : step s a = some s') : ∀ m, (s'.sites m).Inv := by
  cases a with
  | encrypt c m scope uuid =>
    simp only [step, Option.map_eq_some_iff] at hs
    obtain ⟨t, ht, rfl⟩ := hs
    have hi : ∀ m', (t.sites m').Inv :=
      onSite_inv ht h fun site hsite => (h m).wrap hok hsite
    exact hi
  | rescope c scope uuid =>
    unfold step at hs
    dsimp only at hs
    split at hs
    next => cases hs
    next m old hc =>
      split at hs
      next =>
        rw [Option.map_eq_some_iff] at hs
        obtain ⟨t, ht, rfl⟩ := hs
        have hi : ∀ m', (t.sites m').Inv :=
          onSite_inv ht h fun site hsite => (h m).wrap (hok (m, old) hc) hsite
        exact hi
      next => cases hs
  | shred m scope =>
    unfold step at hs
    dsimp only at hs
    refine onSite_inv hs h fun site hsite => ?_
    cases hsite
    exact (h m).revoke scope
  | restart config =>
    unfold step at hs
    dsimp only at hs
    cases hs
    exact h
  | newerVersion m =>
    unfold step at hs
    dsimp only at hs
    refine onSite_inv hs h fun site hsite => ?_
    split at hsite
    next hw =>
      cases hsite
      exact (h m).toNewer hw.1
    next => cases hsite
  | beginRotation m =>
    unfold step at hs
    dsimp only at hs
    exact onSite_inv hs h fun site hsite => (h m).beginRotation hsite
  | readPage m =>
    unfold step at hs
    dsimp only at hs
    exact onSite_inv hs h fun site hsite => (h m).readPage hsite
  | rewrap m scope =>
    unfold step at hs
    dsimp only at hs
    exact onSite_inv hs h fun site hsite => (h m).rewrap hsite
  | advance m =>
    unfold step at hs
    dsimp only at hs
    exact onSite_inv hs h fun site hsite => (h m).advance hsite
  | finish m =>
    unfold step at hs
    dsimp only at hs
    exact onSite_inv hs h fun site hsite => (h m).finish hsite
  | stopConsuming m =>
    unfold step at hs
    dsimp only at hs
    exact onSite_inv hs h fun site hsite => (h m).stopConsuming hsite
  | disuse m =>
    unfold step at hs
    dsimp only at hs
    exact onSite_inv hs h fun site hsite => (h m).disuse hsite

/-- In every state of every run whose `Wrap`s meet `WrapOk`, the markers cover the keys. -/
theorem markers_cover {config : List Nat} {s : System γ μ σ}
    (h : Reach step StepOk (System.init config) s) : s.Covered := by
  have hinv : ∀ m, (s.sites m).Inv := by
    refine Reach.invariant (fun s => ∀ m, (s.sites m).Inv) (fun _ => Site.fresh_inv) ?_ h
    intro s a s' hi hok hs
    exact step_inv hi hok hs
  exact fun m => (hinv m).covered

end

/-- A rotation to a newer version, with a key that is registered during the sweep. -/
def rotated : List (Action Nat Nat Nat) :=
  [.encrypt 0 0 0 1, .restart [1, 2], .newerVersion 0, .beginRotation 0, .readPage 0,
    .encrypt 1 0 1 2, .rewrap 0 0, .advance 0, .encrypt 2 0 0 3, .readPage 0, .rewrap 0 1,
    .advance 0, .readPage 0, .finish 0, .stopConsuming 0, .disuse 0, .disuse 0, .rescope 0 1 4]

theorem rotated_covered :
    (last step (System.init [1]) rotated).Covered ∧
      ((last step (System.init [1]) rotated).sites 0).manager.consumingVersions = [2] :=
  ⟨markers_cover (reach_last rotated .init (by decide +kernel)), by decide +kernel⟩

/-- The active version becomes 2, and a key that is used again is moved to it before the
manager has begun a rotation. -/
def movedAhead : List (Action Nat Nat Nat) :=
  [.encrypt 0 0 0 1, .restart [1, 2], .encrypt 1 0 0 2]

/-- A rotation to 2 has swept the keys when a restart takes the active version back to 1. A
new key is registered under 1, which the rotation then releases. -/
def movedBehind : List (Action Nat Nat Nat) :=
  [.encrypt 0 0 0 1, .restart [1, 2], .newerVersion 0, .beginRotation 0, .readPage 0, .rewrap 0 0,
    .advance 0, .readPage 0, .finish 0, .restart [1], .encrypt 1 0 1 2, .stopConsuming 0,
    .disuse 0]

/-- Both runs end in a state in which a key's version is neither consumed nor marked. -/
theorem moved_not_covered :
    ((exec step (System.init [1]) movedAhead).isSome = true ∧
      ¬ (last step (System.init [1]) movedAhead).Covered) ∧
    ((exec step (System.init [1]) movedBehind).isSome = true ∧
      ¬ (last step (System.init [1]) movedBehind).Covered) := by
  refine ⟨⟨by decide +kernel, fun h => ?_⟩, ⟨by decide +kernel, fun h => ?_⟩⟩
  · exact absurd (h 0 0 (by decide +kernel)).1 (by decide +kernel)
  · exact absurd (h 0 1 (by decide +kernel)).1 (by decide +kernel)

end Reboot.Ciphertext
