import Mathlib.Data.List.Basic
import Mathlib.Logic.Function.Basic
import Reboot.Lib.Run

/-!
# Wrapping keys and their rotation

The ciphertext library (`reboot/std/ciphertext/v1/ciphertext.py`): a `WrappingKey` per scope,
its material wrapped under a version of the root key, and a `KeyManager` that registers the
wrapping keys of its scopes and rotates them onto the active version when that becomes newer.

`Wrap` and `Register` run in one transaction, and so does `BeginRotation` with the mark it
makes on the `Application`; each is one action here. `Watch` and `Rotate` are workflows. Their
calls are memoized per iteration, so each of them takes effect once, in order, with anything
else in between, restarts included: `Watch` is where the two workflows of a manager are.

Mirroring notes:
- Keys, nonces and ciphertexts themselves are left out. Whether material can be opened depends
  only on whether the version it is wrapped under is configured.
- The id of a wrapping key is a digest of its manager and its scope. Digests do not collide
  here: a wrapping key *is* its manager and its scope.
- The usages on the `Application` are kept per consumer, that is, per manager; both methods
  only look at the usages of the consumer they are called with.
- A registry is an `OrderedMap` by UUIDv7. A later registration has a larger key, so it goes
  to the end; `uuid` is the key it gets.
- A failed call leaves everything as it was; the action is then not enabled.
- The index of a wrapping key's ciphertexts is left out: only `Ciphertexts` reads it.
-/

namespace Reboot.Ciphertext

open Reboot.Lib

/-- The state of a `WrappingKey`. -/
structure WrappingKey where
  /-- `status == REVOKED` -/
  revoked : Bool
  /-- `HasField("wrapped_key_material")` -/
  hasMaterial : Bool
  rootKeyVersion : Nat
  deriving DecidableEq

/-- A key that was never used. -/
def WrappingKey.fresh : WrappingKey := ⟨false, false, 0⟩

/-- Not revoked, with material. -/
def WrappingKey.Usable (k : WrappingKey) : Prop := k.revoked = false ∧ k.hasMaterial = true

instance (k : WrappingKey) : Decidable k.Usable := inferInstanceAs (Decidable (_ ∧ _))

/-- The state of a `KeyManager`. -/
structure KeyManager where
  consumingVersions : List Nat
  rotationCursor : Option Nat
  watchStarted : Bool
  rotationTargetVersion : Option Nat
  deriving DecidableEq

/-- Where the workflows of a manager are. -/
inductive Watch (σ : Type)
  | notStarted
  /-- in `until("Newer root key version")` -/
  | waiting
  /-- about to call `begin_rotation` -/
  | newer
  /-- in `rotate`: what `begin_rotation` returned, the page of this iteration once it is
  read, and the scopes of the page whose key has been re-wrapped -/
  | sweeping (staleVersions : List Nat) (page : Option (List (Nat × σ))) (done : List σ)
  /-- `rotate` returned -/
  | swept (staleVersions : List Nat)
  /-- it stopped consuming the stale versions, of which these are still marked -/
  | releasing (staleVersions : List Nat)
  deriving DecidableEq

/-- A manager with its wrapping keys, its registry, and its usages on the `Application`. -/
structure Site (σ : Type) where
  keys : σ → WrappingKey
  manager : KeyManager
  registry : List (Nat × σ)
  usages : List Nat
  watch : Watch σ

/-- A manager that was never used. -/
def Site.fresh {σ : Type} : Site σ := ⟨fun _ => .fresh, ⟨[], none, false, none⟩, [], [], .notStarted⟩

/-- `_ROTATE_PAGE_SIZE`. -/
def rotatePageSize : Nat := 256

/-- `root_keys.active_version`: the highest version that is configured. -/
def activeVersion (config : List Nat) : Option Nat := config.max?

/-- `use_root_key_version`. -/
def useRootKeyVersion (usages : List Nat) (version : Nat) : List Nat :=
  if version ∈ usages then usages else usages ++ [version]

/-- `disuse_root_key_version`. -/
def disuseRootKeyVersion (usages : List Nat) (version : Nat) : List Nat :=
  usages.filter fun v => decide (v ≠ version)

namespace Site

variable {σ : Type} [DecidableEq σ]

/-- Set the state of a wrapping key. -/
def setKey (s : Site σ) (scope : σ) (k : WrappingKey) : Site σ :=
  { s with keys := Function.update s.keys scope k }

/-- The version is consumed, and marked on the `Application` if it was not consumed. -/
def consume (s : Site σ) (version : Nat) : Site σ :=
  if version ∈ s.manager.consumingVersions then s
  else
    { s with
      manager := { s.manager with
        consumingVersions := s.manager.consumingVersions ++ [version] }
      usages := useRootKeyVersion s.usages version }

/-- `KeyManagerServicer.register`. -/
def register (s : Site σ) (scope : σ) (rootKeyVersion uuid : Nat) : Site σ :=
  let s' := { s with registry := s.registry ++ [(uuid, scope)] }.consume rootKeyVersion
  if s'.manager.watchStarted then s'
  else { s' with manager := { s'.manager with watchStarted := true }, watch := .waiting }

/-- `WrappingKeyServicer.wrap`. -/
def wrap (config : List Nat) (s : Site σ) (scope : σ) (uuid : Nat) : Option (Site σ) :=
  if (s.keys scope).revoked then none
  else
    match activeVersion config with
    | none => none
    | some active =>
      if (s.keys scope).hasMaterial = false then
        if ∀ e ∈ s.registry, e.1 < uuid then
          some ((s.setKey scope ⟨false, true, active⟩).register scope active uuid)
        else none
      else if (s.keys scope).rootKeyVersion ∉ config then none
      else if (s.keys scope).rootKeyVersion ≠ active then
        some (s.setKey scope { s.keys scope with rootKeyVersion := active })
      else some s

/-- Whether `WrappingKeyServicer.unwrap` returns. -/
def unwraps (config : List Nat) (s : Site σ) (scope : σ) : Bool :=
  decide ((s.keys scope).Usable ∧ (s.keys scope).rootKeyVersion ∈ config)

/-- `WrappingKeyServicer.revoke`, which `shred` calls. -/
def revoke (s : Site σ) (scope : σ) : Site σ :=
  s.setKey scope { s.keys scope with revoked := true, hasMaterial := false }

/-- `WrappingKeyServicer.rewrap_under_root_key`. -/
def rewrapUnderRootKey (config : List Nat) (s : Site σ) (scope : σ) (rootKeyVersion : Option Nat) :
    Option (Site σ) :=
  if (s.keys scope).Usable then
    match rootKeyVersion.or (activeVersion config) with
    | none => none
    | some target =>
      if (s.keys scope).rootKeyVersion = target then some s
      else if (s.keys scope).rootKeyVersion ∉ config ∨ target ∉ config then none
      else some (s.setKey scope { s.keys scope with rootKeyVersion := target })
  else some s

/-! ## The workflows -/

/-- `newer_version`. -/
def newerVersion (config : List Nat) (s : Site σ) : Bool :=
  match activeVersion config with
  | none => false
  | some active => s.manager.consumingVersions.any fun version => decide (version < active)

/-- `KeyManagerServicer.begin_rotation`, called by `watch`. -/
def beginRotation (config : List Nat) (s : Site σ) : Option (Site σ) :=
  match s.watch, activeVersion config with
  | .newer, some active =>
    let staleVersions := s.manager.consumingVersions.filter fun version => decide (version < active)
    let s' := s.consume active
    some { s' with
      manager := { s'.manager with rotationTargetVersion := some active }
      watch := .sweeping staleVersions none [] }
  | _, _ => none

/-- The page of an iteration of `rotate`: a range from the cursor, inclusive, without the
entry at the cursor. -/
def pageAfter (registry : List (Nat × σ)) (cursor : Option Nat) : List (Nat × σ) :=
  let entries := (registry.filter fun e => decide (∀ c ∈ cursor, c ≤ e.1)).take rotatePageSize
  match cursor, entries with
  | some c, e :: rest => if e.1 = c then rest else entries
  | _, _ => entries

/-- `rotate` reads the cursor and the page of this iteration. -/
def readPage (s : Site σ) : Option (Site σ) :=
  match s.watch with
  | .sweeping stale none done =>
    some { s with watch := .sweeping stale (some (pageAfter s.registry s.manager.rotationCursor)) done }
  | _ => none

/-- `rotate` re-wraps a key of the page. -/
def rewrap (config : List Nat) (s : Site σ) (scope : σ) : Option (Site σ) :=
  match s.watch with
  | .sweeping stale (some page) done =>
    if scope ∈ page.map Prod.snd ∧ scope ∉ done then
      (s.rewrapUnderRootKey config scope s.manager.rotationTargetVersion).map fun s' =>
        { s' with watch := .sweeping stale (some page) (scope :: done) }
    else none
  | _ => none

/-- `rotate` moves the cursor to the end of the page, once all of it is re-wrapped. -/
def advance (s : Site σ) : Option (Site σ) :=
  match s.watch with
  | .sweeping stale (some page) done =>
    match page.getLast? with
    | none => none
    | some e =>
      if ∀ scope ∈ page.map Prod.snd, scope ∈ done then
        some { s with
          manager := { s.manager with rotationCursor := some e.1 }
          watch := .sweeping stale none [] }
      else none
  | _ => none

/-- `rotate` found nothing after the cursor. -/
def finish (s : Site σ) : Option (Site σ) :=
  match s.watch with
  | .sweeping stale (some []) _ =>
    some { s with
      manager := { s.manager with rotationCursor := none, rotationTargetVersion := none }
      watch := .swept stale }
  | _ => none

/-- `stop_consuming`. -/
def stopConsuming (s : Site σ) : Option (Site σ) :=
  match s.watch with
  | .swept stale =>
    some { s with
      manager := { s.manager with
        consumingVersions := stale.foldl List.erase s.manager.consumingVersions }
      watch := .releasing stale }
  | _ => none

/-- `watch` releases the next stale version, or is done with them. -/
def disuse (s : Site σ) : Option (Site σ) :=
  match s.watch with
  | .releasing [] => some { s with watch := .waiting }
  | .releasing (version :: rest) =>
    some { s with usages := disuseRootKeyVersion s.usages version, watch := .releasing rest }
  | _ => none

end Site

/-! ## The application -/

/-- An application: the configured root keys, its managers, and the manager and the scope of
each of its ciphertexts. -/
structure System (γ μ σ : Type) where
  config : List Nat
  sites : μ → Site σ
  ciphertexts : γ → Option (μ × σ)

/-- An application with the given root keys, before its first call. -/
def System.init {γ μ σ : Type} (config : List Nat) : System γ μ σ :=
  ⟨config, fun _ => .fresh, fun _ => none⟩

/-- What can happen. -/
inductive Action (γ μ σ : Type)
  /-- `Ciphertext.Encrypt`; a wrapping key that is registered gets `uuid` -/
  | encrypt (ciphertext : γ) (keyManager : μ) (scope : σ) (uuid : Nat)
  /-- `Ciphertext.Rescope` -/
  | rescope (ciphertext : γ) (scope : σ) (uuid : Nat)
  /-- `KeyManager.Shred` -/
  | shred (keyManager : μ) (scope : σ)
  /-- a restart with these root keys -/
  | restart (config : List Nat)
  /-- the steps of `watch` and `rotate` -/
  | newerVersion (keyManager : μ)
  | beginRotation (keyManager : μ)
  | readPage (keyManager : μ)
  | rewrap (keyManager : μ) (scope : σ)
  | advance (keyManager : μ)
  | finish (keyManager : μ)
  | stopConsuming (keyManager : μ)
  | disuse (keyManager : μ)
  deriving DecidableEq

section

variable {γ μ σ : Type} [DecidableEq γ] [DecidableEq μ] [DecidableEq σ]

/-- Change the site of a manager. -/
def System.onSite (s : System γ μ σ) (m : μ) (f : Site σ → Option (Site σ)) :
    Option (System γ μ σ) :=
  (f (s.sites m)).map fun site => { s with sites := Function.update s.sites m site }

/-- The ciphertext is now protected by the scope of the manager. -/
def System.setCiphertext (s : System γ μ σ) (c : γ) (m : μ) (scope : σ) : System γ μ σ :=
  { s with ciphertexts := Function.update s.ciphertexts c (some (m, scope)) }

/-- One step; `none` if the action is not enabled. -/
def step (s : System γ μ σ) : Action γ μ σ → Option (System γ μ σ)
  | .encrypt c m scope uuid =>
    (s.onSite m fun site => site.wrap s.config scope uuid).map fun s' => s'.setCiphertext c m scope
  | .rescope c scope uuid =>
    match s.ciphertexts c with
    | none => none
    | some (m, old) =>
      if (s.sites m).unwraps s.config old then
        (s.onSite m fun site => site.wrap s.config scope uuid).map fun s' =>
          s'.setCiphertext c m scope
      else none
  | .shred m scope => s.onSite m fun site => some (site.revoke scope)
  | .restart config => some { s with config := config }
  | .newerVersion m =>
    s.onSite m fun site =>
      if site.watch = .waiting ∧ site.newerVersion s.config = true then
        some { site with watch := .newer }
      else none
  | .beginRotation m => s.onSite m (·.beginRotation s.config)
  | .readPage m => s.onSite m (·.readPage)
  | .rewrap m scope => s.onSite m (·.rewrap s.config scope)
  | .advance m => s.onSite m (·.advance)
  | .finish m => s.onSite m (·.finish)
  | .stopConsuming m => s.onSite m (·.stopConsuming)
  | .disuse m => s.onSite m (·.disuse)

end

end Reboot.Ciphertext
