import Mathlib.Logic.Function.Basic
import Reboot.Lib.Run
import Reboot.Lib.Text

/-!
# Calls on one state and the authorizer

A call enters through the generated `_{Method}` or `_schedule_{Method}`, whose first act for
everything that mutates is `check_for_idempotent_mutation`: a response stored under the call's
idempotency key is returned at once. Otherwise the call goes through `_load`, which asks the
authorizer about a *copy* of the state, and starts its method on what `_load` gives back.

Mirroring notes:

* `State` is one state of one server: the cached value, the `load` event, the transactions by
  root id, the stored idempotent mutations and the calls in progress, each in a `Phase`. Two
  things are remembered besides: what the authorizer has allowed and what was returned.
* Which call is resumed, what the database answers, what the authorizer decides and what a
  method responds and stores are all in the action. The two-phase commit, the locks and the
  database are not modelled here: `commit`, `abort` and `restart` may come at any time.
* `transaction.state` is handed out by reference: between the authorizer's answer and the copy
  that a method starts on, a call holds `live`, what that object contains, and `copyFrom`
  changes it for everyone who holds the object.
* A call with the internal magic token has no authorizer (`_maybe_authorize` returns `None`).
-/

namespace Reboot.Auth.Calls

open Reboot.Lib

/-! ## Calls -/

/-- The entry points: `_{Method}` by the kind of its method, and `_schedule_{Method}`. -/
inductive Kind where
  | reader
  | streamingReader
  | writer
  | transaction
  | schedule
deriving DecidableEq

/-- Kinds that store, and that ask for an idempotent mutation first. -/
def Kind.mutates : Kind → Bool
  | .reader | .streamingReader => false
  | .writer | .transaction | .schedule => true

structure Call (A R : Type) where
  kind : Kind
  auth : A
  /-- `headers.bearer_token == __internal_magic_token__` -/
  internal : Bool
  method : Str
  request : R
  idempotencyKey : Option Nat
  transactionRootId : Option Nat
  fromConstructor : Bool
  requiresConstructor : Bool
deriving DecidableEq

/-- `from_constructor`, which only `writer()` and `transaction()` pass on. -/
def Call.constructs {A R : Type} (c : Call A R) : Bool := c.kind.mutates && c.fromConstructor

/-- A stored response, with the call that produced it and the state that call started from. -/
structure IdempotentMutation (A R P S : Type) where
  key : Nat
  response : P
  call : Call A R
  basis : Option S
deriving DecidableEq

/-- Where `_load` has the state from: an object of its own (a cached value is replaced, never
changed), `transaction.state` itself, or an answer of the database. -/
inductive Source where
  | own
  | shared
  | database
deriving DecidableEq

inductive Phase (P S : Type) where
  /-- the token is verified, `check_for_idempotent_mutation` is next -/
  | entered
  | checked
  /-- waits for another call's `load` event -/
  | waiting
  | loading
  /-- awaits the authorizer, which was asked about a copy -/
  | authorizing (source : Source) (asked live : Option S)
  /-- a streaming reader that has not taken its first state yet -/
  | opened (source : Source) (live : Option S)
  /-- the method runs; `none` is a state under construction -/
  | executing (basis : Option S)
  | completed (response : P) (basis : Option S)
  | ended
deriving DecidableEq

structure Transaction (A R P S : Type) where
  state : Option S
  idempotentMutations : List (IdempotentMutation A R P S)

structure Returned (A R P S : Type) where
  call : Call A R
  response : P
  basis : Option S
deriving DecidableEq

structure State (A R P S : Type) where
  cached : Option S
  load : Option Nat
  transactions : Nat → Option (Transaction A R P S)
  idempotentMutations : List (IdempotentMutation A R P S)
  calls : List (Call A R × Phase P S)
  /-- the questions the authorizer has answered with `Ok` -/
  allowed : List (A × Str × R × Option S)
  returned : List (Returned A R P S)

variable {A R P S : Type}

def State.init : State A R P S :=
  { cached := none, load := none, transactions := fun _ => none, idempotentMutations := [],
    calls := [], allowed := [], returned := [] }

/-! ## What changes in a state -/

namespace State

def setPhase (s : State A R P S) (i : Nat) (c : Call A R) (phase : Phase P S) : State A R P S :=
  { s with calls := s.calls.set i (c, phase) }

def setTransaction (s : State A R P S) (root : Nat) (t : Transaction A R P S) : State A R P S :=
  { s with transactions := Function.update s.transactions root (some t) }

def dropTransaction (s : State A R P S) (root : Nat) : State A R P S :=
  { s with transactions := Function.update s.transactions root none }

/-- `del self._loads[..]; load.set()` -/
def endLoad (s : State A R P S) : State A R P S := { s with load := none }

def respond (s : State A R P S) (c : Call A R) (response : P) (basis : Option S) :
    State A R P S :=
  { s with returned := ⟨c, response, basis⟩ :: s.returned }

end State

/-- What a holder of `transaction.state` sees once `v` is copied into that object. -/
def Phase.copyFrom (v : S) : Phase P S → Phase P S
  | .authorizing .shared asked _ => .authorizing .shared asked (some v)
  | .opened .shared _ => .opened .shared (some v)
  | phase => phase

/-- The transaction gets another object: who holds the old one keeps it for itself. -/
def Phase.detach : Phase P S → Phase P S
  | .authorizing .shared asked live => .authorizing .own asked live
  | .opened .shared live => .opened .own live
  | phase => phase

def onTransaction (root : Nat) (f : Phase P S → Phase P S) (x : Call A R × Phase P S) :
    Call A R × Phase P S :=
  if x.1.transactionRootId = some root then (x.1, f x.2) else x

namespace State

/-- `transaction.state.CopyFrom(v)` -/
def copyFrom (s : State A R P S) (root : Nat) (t : Transaction A R P S) (v : S) : State A R P S :=
  { s.setTransaction root { t with state := some v } with
    calls := s.calls.map (onTransaction root (Phase.copyFrom v)) }

/-- `transaction.state = v` -/
def assign (s : State A R P S) (root : Nat) (t : Transaction A R P S) (v : Option S) :
    State A R P S :=
  { s.setTransaction root { t with state := v } with
    calls := s.calls.map (onTransaction root Phase.detach) }

end State

/-! ## `check_for_idempotent_mutation` -/

/-- The mutation stored under the call's key: a committed one, or else one of the transaction
that the call runs in. -/
def checkForIdempotentMutation (s : State A R P S) (c : Call A R) :
    Option (IdempotentMutation A R P S) :=
  match c.idempotencyKey with
  | none => none
  | some key =>
    match s.idempotentMutations.find? (fun m => m.key = key) with
    | some m => some m
    | none =>
      (c.transactionRootId.bind s.transactions).bind fun t =>
        t.idempotentMutations.find? (fun m => m.key = key)

/-- Only methods that mutate make the check at all. -/
def replayed (s : State A R P S) (c : Call A R) : Option (IdempotentMutation A R P S) :=
  if c.kind.mutates then checkForIdempotentMutation s c else none

/-! ## `_load` -/

/-- `_load` returns: a streaming reader has its iterator, everybody else copies the state. -/
def loaded (s : State A R P S) (i : Nat) (c : Call A R) (source : Source) (live : Option S) :
    State A R P S :=
  s.setPhase i c (if c.kind = .streamingReader then .opened source live else .executing live)

/-- After the authorizer, with a state that was cached or the transaction's. -/
def finishCached (s : State A R P S) (i : Nat) (c : Call A R) (source : Source)
    (live : Option S) : State A R P S :=
  -- `StateAlreadyConstructed`
  if c.constructs then s.setPhase i c .ended else loaded s i c source live

/-- The transaction of a call, with its state set to what was loaded. -/
def assignLoaded (s : State A R P S) (c : Call A R) (v : S) : Option (State A R P S × Source) :=
  match c.transactionRootId with
  | none => some (s, .own)
  | some root => (s.transactions root).map fun t => (s.assign root t (some v), .shared)

/-- After the authorizer, with what the database had; `default` is `state_type()`. -/
def finishLoaded (default : S) (s : State A R P S) (i : Nat) (c : Call A R) (data : Option S) :
    Option (State A R P S) :=
  match data with
  | some v =>
    if c.constructs then some (s.endLoad.setPhase i c .ended)
    else
      (assignLoaded { s with cached := some v } c v).map fun (s', source) =>
        loaded s'.endLoad i c source (some v)
  | none =>
    -- `StateNotConstructed`
    if c.requiresConstructor && !c.constructs || !c.kind.mutates then
      some (s.endLoad.setPhase i c .ended)
    else
      (assignLoaded s c default).map fun (s', _) => s'.endLoad.setPhase i c (.executing none)

/-- With a state at hand: ask the authorizer, unless the call is internal. -/
def authorizeCached (s : State A R P S) (i : Nat) (c : Call A R) (source : Source) (v : S) :
    State A R P S :=
  if c.internal then finishCached s i c source (some v)
  else s.setPhase i c (.authorizing source (some v) (some v))

/-- No state at hand: load it, or wait for who does. -/
def awaitLoad (s : State A R P S) (i : Nat) (c : Call A R) : State A R P S :=
  match s.load with
  | none => { s with load := some i }.setPhase i c .loading
  | some _ => s.setPhase i c .waiting

def loadState (s : State A R P S) (i : Nat) (c : Call A R) : Option (State A R P S) :=
  match c.transactionRootId with
  | none =>
    match s.cached with
    | some v => some (authorizeCached s i c .own v)
    | none => some (awaitLoad s i c)
  | some root =>
    match s.transactions root with
    -- `assert transaction is not None`
    | none => none
    | some t =>
      match t.state, s.cached with
      | some v, _ => some (authorizeCached s i c .shared v)
      | none, some v => some (authorizeCached (s.assign root t (some v)) i c .shared v)
      | none, none => some (awaitLoad s i c)

/-! ## `_store` -/

/-- The record of a mutation, if the call has a key. -/
def record (c : Call A R) (response : P) (basis : Option S) :
    List (IdempotentMutation A R P S) :=
  match c.idempotencyKey with
  | none => []
  | some key => [⟨key, response, c, basis⟩]

def store (s : State A R P S) (c : Call A R) (response : P) (basis : Option S) (v : S) :
    Option (State A R P S) :=
  match c.transactionRootId with
  | none =>
    some { s with
      cached := some v
      idempotentMutations := record c response basis ++ s.idempotentMutations }
  | some root =>
    match s.transactions root with
    | none => none
    | some t =>
      -- `assert transaction.state is not None`
      if t.state.isSome then
        some (s.copyFrom root
          { t with idempotentMutations := record c response basis ++ t.idempotentMutations } v)
      else none

/-! ## The step function -/

inductive Action (A R P S : Type) where
  | call (c : Call A R)
  /-- another call of a transaction makes this state a participant -/
  | join (root : Nat)
  | check (i : Nat)
  | load (i : Nat)
  | answered (i : Nat) (data : Option S)
  | allow (i : Nat)
  | deny (i : Nat)
  /-- a streaming reader takes the state it was opened with -/
  | start (i : Nat)
  /-- a streaming reader takes a state from its queue -/
  | item (i : Nat) (v : S)
  /-- a streaming reader responds and goes on -/
  | emit (i : Nat) (response : P)
  /-- a method responds; one that mutates stores `v` -/
  | complete (i : Nat) (response : P) (v : S)
  | deliver (i : Nat)
  | fail (i : Nat)
  | commit (root : Nat)
  | abort (root : Nat)
  /-- `_rollback` to a snapshot: its state and the keys it knew -/
  | rollback (root : Nat) (snapshot : Option S) (keys : List Nat)
  /-- the server restarts and recovers the transactions that had prepared -/
  | restart (prepared : List Nat)

/-- A call that holds the `load` event and ends sets it. -/
def failCall (s : State A R P S) (i : Nat) (c : Call A R) : State A R P S :=
  if s.load = some i then s.endLoad.setPhase i c .ended else s.setPhase i c .ended

def allowCall (default : S) (s : State A R P S) (i : Nat) (c : Call A R) (source : Source)
    (asked live : Option S) : Option (State A R P S) :=
  let s' := { s with allowed := (c.auth, c.method, c.request, asked) :: s.allowed }
  match source with
  | .database => finishLoaded default s' i c asked
  -- what is used is `live`: the authorizer was asked about a copy
  | source => some (finishCached s' i c source live)

def completeCall (s : State A R P S) (i : Nat) (c : Call A R) (basis : Option S) (response : P)
    (v : S) : Option (State A R P S) :=
  if c.kind.mutates then
    (store s c response basis v).map fun s' => s'.setPhase i c (.completed response basis)
  else some (s.setPhase i c (.completed response basis))

def rollback (s : State A R P S) (root : Nat) (snapshot : Option S) (keys : List Nat) :
    Option (State A R P S) :=
  (s.transactions root).map fun t =>
    let t' : Transaction A R P S :=
      { t with idempotentMutations := t.idempotentMutations.filter fun m => m.key ∈ keys }
    match snapshot with
    | none => s.assign root t' none
    | some v => s.copyFrom root t' v

def step (default : S) (s : State A R P S) : Action A R P S → Option (State A R P S)
  | .call c => some { s with calls := s.calls ++ [(c, .entered)] }
  | .join root =>
    match s.transactions root with
    | none => some (s.setTransaction root ⟨none, []⟩)
    | some _ => none
  | .check i =>
    match s.calls[i]? with
    | some (c, .entered) =>
      match replayed s c with
      | none => some (s.setPhase i c .checked)
      | some m => some ((s.setPhase i c .ended).respond c m.response m.basis)
    | _ => none
  | .load i =>
    match s.calls[i]? with
    | some (c, .checked) => loadState s i c
    | some (c, .waiting) => loadState s i c
    | _ => none
  | .answered i data =>
    match s.calls[i]? with
    | some (c, .loading) =>
      if c.internal then finishLoaded default s i c data
      else some (s.setPhase i c (.authorizing .database data data))
    | _ => none
  | .allow i =>
    match s.calls[i]? with
    | some (c, .authorizing source asked live) => allowCall default s i c source asked live
    | _ => none
  | .deny i =>
    match s.calls[i]? with
    | some (c, .authorizing ..) => some (failCall s i c)
    | _ => none
  | .start i =>
    match s.calls[i]? with
    | some (c, .opened _ live) => some (s.setPhase i c (.executing live))
    | _ => none
  | .item i v =>
    match s.calls[i]? with
    | some (c, .opened ..) => some (authorizeCached s i c .own v)
    | some (c, .executing _) =>
      if c.kind = .streamingReader then some (authorizeCached s i c .own v) else none
    | _ => none
  | .emit i response =>
    match s.calls[i]? with
    | some (c, .executing basis) =>
      if c.kind = .streamingReader then some (s.respond c response basis) else none
    | _ => none
  | .complete i response v =>
    match s.calls[i]? with
    | some (c, .executing basis) => completeCall s i c basis response v
    | _ => none
  | .deliver i =>
    match s.calls[i]? with
    | some (c, .completed response basis) =>
      some ((s.setPhase i c .ended).respond c response basis)
    | _ => none
  | .fail i =>
    match s.calls[i]? with
    | some (c, _) => some (failCall s i c)
    | _ => none
  | .commit root =>
    (s.transactions root).map fun t =>
      { s.dropTransaction root with
        cached := t.state.or s.cached
        idempotentMutations := t.idempotentMutations ++ s.idempotentMutations }
  | .abort root => (s.transactions root).map fun _ => s.dropTransaction root
  | .rollback root snapshot keys => rollback s root snapshot keys
  | .restart prepared =>
    some { s with
      cached := none
      load := none
      transactions := fun root =>
        if root ∈ prepared then (s.transactions root).map fun t => { t with state := none }
        else none
      calls := [] }

end Reboot.Auth.Calls
