import Reboot.Lib.Text

/-!
# Idempotency keys of a context

`aio/idempotency.py`: an `IdempotencyManager` gives each mutation of a context its idempotency
key, from what the caller said (`Idempotency`), and refuses a mutation that might be made a
second time without anybody being able to tell.

Mirroring notes:

* Two things come from outside: `uuid5`, and the fresh key that `make_expiring_idempotency_key`
  would return, which each call is handed (`expiring`).
* A request is compared as it is serialized, so equality of requests stands for equality of
  their bytes.
* `_uncertain_mutation` and the four fields that say which mutation it was are one `Option`.
-/

namespace Reboot.Client

open Reboot.Lib

abbrev Uuid := Nat

/-! ## What the caller says -/

inductive How where
  | always
  | perWorkflow
  | perIteration
deriving DecidableEq

/-- `make_idempotency_alias` -/
def makeIdempotencyAlias (base : Option Str) (iteration : Option Nat) : Option Str :=
  match base, iteration with
  | none, none => none
  | some base, none => some base
  | base, some iteration =>
    some (base.getD ['-'] ++ " (iteration #".toList ++ Nat.toDigits 10 iteration ++ [')'])

structure Idempotency where
  aliasBase : Option Str
  key : Option Uuid
  how : Option How
  iteration : Option Nat
  /-- at most one of the two is specified -/
  one : aliasBase = none ∨ key = none
deriving DecidableEq

namespace Idempotency

theorem one_none : (none : Option Str) = none ∨ (none : Option Uuid) = none := .inl rfl

def aliasName (i : Idempotency) : Option Str := makeIdempotencyAlias i.aliasBase i.iteration

def always (i : Idempotency) : Bool := i.how = some .always

def perIteration (i : Idempotency) : Bool := i.how = some .perIteration

/-- Whether a key is to be generated. -/
def generate (i : Idempotency) : Bool := i.key.isNone && i.aliasBase.isNone

end Idempotency

/-! ## The manager -/

/-- An RPC being performed; `service_name` and `method` are none for an inline writer. -/
structure Rpc (R : Type) where
  stateTypeName : Str
  stateRef : Str
  serviceName : Option Str
  method : Option Str
  mutation : Bool
  request : Option R
  metadata : List (Str × Str)
deriving DecidableEq

structure Manager (R : Type) where
  seed : Option Uuid
  required : Bool
  requiredReason : Option Str
  aliases : List ((Str × Str × Option Uuid) × Uuid)
  rpcs : List (Uuid × Rpc R)
  mutationsWithoutIdempotency : Bool
  uncertainMutation : Option (Rpc R)

inductive IdempotencyError (R : Type) where
  | required (reason : Option Str)
  /-- the mutation that is uncertain, and the one that is refused -/
  | uncertain (first second : Rpc R)
  | moreThanOnce (rpc : Rpc R)
  | reusedUnsafely (rpc : Rpc R)
deriving DecidableEq

variable {R : Type}

/-- `_rpc_name` -/
def Rpc.name (rpc : Rpc R) : Str :=
  match rpc.method with
  | none =>
    "inline ".toList ++ (if rpc.mutation then "writer" else "reader").toList ++ " of '".toList ++
      rpc.stateTypeName ++ ['\'']
  | some method => ['\''] ++ rpc.serviceName.getD [] ++ ['.'] ++ method ++ ['\'']

/-- The alias under which a key is kept: `'{name}'@{state_ref.id}: {alias}`. -/
def fullAlias (stateId : Str → Str) (rpc : Rpc R) (i : Idempotency) : Str :=
  let base := rpc.name ++ ['@'] ++ stateId rpc.stateRef
  match i.aliasName with
  | none => base
  | some name => base ++ [':', ' '] ++ name

/-- `make_derived_idempotency_key` -/
def makeDerivedIdempotencyKey (uuid5 : Uuid → Str → Uuid) (seeds : Option Uuid) (seed : Uuid)
    (name : Str) : Uuid :=
  match seeds with
  | none => uuid5 seed name
  | some seeds => uuid5 (uuid5 seed (Nat.toDigits 10 seeds)) name

/-- What a call is handed besides its own arguments: the hash, the id in a state ref, the
active seeds and a fresh expiring key. -/
structure Env where
  uuid5 : Uuid → Str → Uuid
  stateId : Str → Str
  seeds : Option Uuid
  expiring : Uuid

namespace Manager

/-- `__init__`; idempotency is required exactly if there is a reason -/
def fresh (R : Type) (seed : Option Uuid) (requiredReason : Option Str) : Manager R :=
  { seed, required := requiredReason.isSome, requiredReason, aliases := [], rpcs := []
    mutationsWithoutIdempotency := false, uncertainMutation := none }

/-- `_get_or_create_idempotency_key` -/
def getOrCreateIdempotencyKey (m : Manager R) (env : Env) (rpc : Rpc R) (i : Idempotency) :
    Manager R × Uuid :=
  match i.key with
  | some key => (m, key)
  | none =>
    let name := fullAlias env.stateId rpc i
    match m.aliases.lookup (rpc.stateRef, name, env.seeds) with
    | some key => (m, key)
    | none =>
      let key :=
        match m.seed with
        -- a key that is only used as long as this code runs
        | none => env.expiring
        | some seed => makeDerivedIdempotencyKey env.uuid5 env.seeds seed name
      ({ m with aliases := ((rpc.stateRef, name, env.seeds), key) :: m.aliases }, key)

variable [DecidableEq R]

/-- `_idempotency_key_from` -/
def idempotencyKeyFrom (m : Manager R) (env : Env) (rpc : Rpc R) (i : Idempotency) :
    Manager R × Except (IdempotencyError R) Uuid :=
  let (m, key) := m.getOrCreateIdempotencyKey env rpc i
  match m.rpcs.lookup key with
  | none => ({ m with rpcs := (key, rpc) :: m.rpcs }, .ok key)
  | some first =>
    if i.generate then (m, .error (.moreThanOnce rpc))
    else if first.stateTypeName ≠ rpc.stateTypeName ∨ first.stateRef ≠ rpc.stateRef ∨
        first.method ≠ rpc.method ∨ first.request ≠ rpc.request ∨
        first.metadata ≠ rpc.metadata then
      (m, .error (.reusedUnsafely first))
    else (m, .ok key)

/-- The `except` of `idempotently`: a mutation failed, and not because the backend said so. -/
def failed (m : Manager R) (rpc : Rpc R) (fromBackend : Bool) : Manager R :=
  if rpc.mutation && !fromBackend && m.mutationsWithoutIdempotency &&
      m.uncertainMutation.isNone then
    { m with uncertainMutation := some rpc }
  else m

/-- `idempotently`, up to its `yield`: the key for the RPC, if it is to have one. -/
def idempotently (m : Manager R) (env : Env) (rpc : Rpc R) (idempotency : Option Idempotency) :
    Manager R × Except (IdempotencyError R) (Option Uuid) :=
  match idempotency with
  | none =>
    if m.required then (m, .error (.required m.requiredReason))
    else
      let m := if rpc.mutation then { m with mutationsWithoutIdempotency := true } else m
      match m.uncertainMutation with
      | some first => if rpc.mutation then (m, .error (.uncertain first rpc)) else (m, .ok none)
      | none => (m, .ok none)
  | some i =>
    -- `.always()` opts out of everything that follows
    if i.always then (m, .ok none)
    else
      match m.uncertainMutation, rpc.mutation with
      | some first, true => (m, .error (.uncertain first rpc))
      | _, _ =>
        match m.idempotencyKeyFrom env rpc i with
        | (m, .ok key) => (m, .ok (some key))
        | (m, .error e) => (m.failed rpc false, .error e)

/-- When a mutation that `idempotently` lets through gets no key. -/
def Unkeyed (m : Manager R) (idempotency : Option Idempotency) : Prop :=
  match idempotency with
  | none => m.required = false ∧ m.uncertainMutation = none
  | some i => i.always = true

instance (m : Manager R) (idempotency : Option Idempotency) :
    Decidable (m.Unkeyed idempotency) :=
  match idempotency with
  | none => decidable_of_iff (m.required = false ∧ m.uncertainMutation.isNone)
      (and_congr_right fun _ => Option.isNone_iff_eq_none)
  | some i => inferInstanceAs (Decidable (i.always = true))

/-! ## Which key a mutation gets -/

variable {m : Manager R} {env : Env} {rpc : Rpc R}

/-- `idempotently` lets a mutation through without a key exactly if it is `Unkeyed`. -/
theorem idempotently_none_iff (hmut : rpc.mutation = true) {idempotency : Option Idempotency} :
    (m.idempotently env rpc idempotency).2 = .ok none ↔ m.Unkeyed idempotency := by
  unfold idempotently Unkeyed
  cases idempotency with
  | none =>
    cases hr : m.required with
    | true => simp
    | false =>
      cases hu : m.uncertainMutation with
      | none => simp [hmut]
      | some first => simp [hmut]
  | some i =>
    show (if i.always = true then _ else _ : Manager R × _).2 = _ ↔ i.always = true
    by_cases ha : i.always = true
    · simp [ha]
    · rw [if_neg ha]
      refine iff_of_false ?_ ha
      split
      next => simp
      next =>
        split
        next => simp
        next => simp

end Manager

end Reboot.Client
