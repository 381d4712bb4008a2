import Mathlib.Algebra.Group.Nat.Defs
import Mathlib.Data.List.Basic
import Reboot.Lib.Run
import Reboot.Lib.Text

/-!
# Presence of a subscriber

`SubscriberServicer` of `reboot/std/presence/v1/presence.py`. A `Connect` never returns; a `Toggle`
counts a connection that it finds, and schedules a workflow, `WaitForDisconnect`, that waits until the
connection is gone and counts it off again. What they share is a dictionary of `Event`s in the memory
of the process, under keys that are made of the state's id and the nonce of the request.

> `State.Exact`: what is stored is the number of the `Toggle`s that committed less that of those that
> were counted off; nothing raises; no event is deleted by a waiter of an earlier `Connect`; and where
> every workflow is blocked or done, a subscriber is present if and only if a connection is open that
> it has toggled.

`Event` counts those that have begun to wait and tells each of them to delete the key. With two
waiters the second one finds nothing to delete; and a waiter that comes to look for its key when the
next `Connect` has taken it waits for that one. `StepOk` leaves out both, and then `presence_exact`
holds in every run.

Mirroring notes:
- An `Event` belongs to one `Connect`, so the number of the `Connect` stands for both.
- A writer has its state for itself from its check to its commit; it may fail in between.
- A `Task` keeps what is stored of its workflow: the result of `until`, that of the idempotent write,
  and whether it has returned. `retry` is an attempt that ends for whatever reason; its waiting is not
  counted down. `restart` is the end of the process.
- `connection` of a `Task` is the one whose event was under the key when its `Toggle` looked.
-/

namespace Reboot.Presence

open Reboot.Lib

/-! ## Model -/

structure Event where
  waiters : Nat
  isSet : Bool
  deriving DecidableEq

/-- A `Connect` that has put its event into the dictionary. -/
structure Connection where
  key : Str
  event : Event
  isOpen : Bool
  deriving DecidableEq

/-- The event is set, and the call is over. -/
def Connection.close (connection : Connection) : Connection :=
  { connection with event := ⟨connection.event.waiters, true⟩, isOpen := false }

/-- One more waits. -/
def Connection.addWaiter (connection : Connection) : Connection :=
  { connection with event := ⟨connection.event.waiters + 1, connection.event.isSet⟩ }

/-- Where an attempt of a `WaitForDisconnect` stands. -/
inductive Phase
  | idle
  /-- In `Event.wait`, to be told to delete the key. -/
  | waiting (event : Nat)
  /-- `not_present` has returned. -/
  | returned
  /-- `until` has returned. -/
  | passed
  | wrote
  deriving DecidableEq

structure Task where
  stateId : Str
  nonce : Str
  connection : Nat
  notPresent : Bool
  untoggled : Bool
  done : Bool
  phase : Phase
  deriving DecidableEq

inductive Failure
  | keyError
  | assertion
  deriving DecidableEq

/-- A `Toggle` that has found its key. -/
structure Toggling where
  stateId : Str
  nonce : Str
  connection : Nat
  deriving DecidableEq

structure State where
  connections : List Connection
  disconnectEvents : Str → Option Nat
  toggling : List Toggling
  toggles : Str → Nat
  tasks : List Task
  failures : List Failure
  /-- The connection of each waiter that deleted a key, and the one whose event it deleted. -/
  removals : List (Nat × Nat)

def State.init : State := ⟨[], fun _ => none, [], fun _ => 0, [], [], []⟩

/-- `f"{context.state_id}/{request.nonce}"` -/
def key (stateId nonce : Str) : Str := stateId ++ '/' :: nonce

def Task.key (t : Task) : Str := Presence.key t.stateId t.nonce

def Toggling.key (t : Toggling) : Str := Presence.key t.stateId t.nonce

inductive Action
  | connect (stateId nonce : Str)
  | disconnect (c : Nat)
  | toggle (stateId nonce : Str)
  | commitToggle (i : Nat)
  | abortToggle (i : Nat)
  | start (i : Nat)
  | resume (i : Nat)
  | memoize (i : Nat)
  | untoggle (i : Nat)
  | finish (i : Nat)
  | retry (i : Nat)
  | restart
  deriving DecidableEq

/-- An attempt goes on to a phase. -/
def State.setPhase (s : State) (i : Nat) (t : Task) (phase : Phase) : State :=
  { s with tasks := s.tasks.set i { t with phase := phase } }

/-- An attempt ends with an exception. -/
def State.raise (s : State) (i : Nat) (t : Task) (failure : Failure) : State :=
  { s.setPhase i t .idle with failures := failure :: s.failures }

/-- The `finally` of `Connect`. -/
def State.disconnect (s : State) (c : Nat) (connection : Connection) : State :=
  let closed := { s with connections := s.connections.set c connection.close }
  if connection.event.waiters = 0 then
    match s.disconnectEvents connection.key with
    | some _ => { closed with
        disconnectEvents := Function.update s.disconnectEvents connection.key none }
    | none => { closed with failures := .keyError :: s.failures }
  else closed

/-- `not_present`, as far as it goes at once. -/
def State.notPresent (s : State) (i : Nat) (t : Task) : State :=
  match s.disconnectEvents t.key with
  | none => s.setPhase i t .returned
  | some c =>
    match s.connections[c]? with
    | none => s.setPhase i t .returned
    | some connection =>
      if connection.event.isSet then s.setPhase i t .returned
      else State.setPhase { s with connections := s.connections.set c connection.addWaiter } i t
        (.waiting c)

/-- What follows `wait` in `not_present`. -/
def State.deleteKey (s : State) (i : Nat) (t : Task) : State :=
  match s.disconnectEvents t.key with
  | some d => State.setPhase { s with
      disconnectEvents := Function.update s.disconnectEvents t.key none
      removals := (t.connection, d) :: s.removals } i t .returned
  | none => s.raise i t .keyError

/-- The write of `untoggle`. -/
def State.untoggle (s : State) (i : Nat) (t : Task) : State :=
  if t.untoggled then s.setPhase i t .wrote
  else if s.toggles t.stateId = 0 then s.raise i t .assertion
  else { s with
    toggles := Function.update s.toggles t.stateId (s.toggles t.stateId - 1)
    tasks := s.tasks.set i { t with untoggled := true, phase := .wrote } }

/-- The event is set. -/
def State.isSet (s : State) (c : Nat) : Bool := s.connections[c]?.any (·.event.isSet)

/-- The connection is open. -/
def State.isOpen (s : State) (c : Nat) : Bool := s.connections[c]?.any (·.isOpen)

/-- `toggles` is a `uint32`. -/
def maxToggles : Nat := 2 ^ 32 - 1

/-- One action. -/
def step (s : State) : Action → Option State
  | .connect stateId nonce =>
    match s.disconnectEvents (key stateId nonce) with
    | some _ => some s
    | none => some { s with
        connections := s.connections ++ [⟨key stateId nonce, ⟨0, false⟩, true⟩]
        disconnectEvents :=
          Function.update s.disconnectEvents (key stateId nonce) (some s.connections.length) }
  | .disconnect c =>
    match s.connections[c]? with
    | some connection => if connection.isOpen then some (s.disconnect c connection) else none
    | none => none
  | .toggle stateId nonce =>
    match s.disconnectEvents (key stateId nonce) with
    | none => some s
    | some c => some { s with toggling := s.toggling ++ [⟨stateId, nonce, c⟩] }
  | .commitToggle i =>
    match s.toggling[i]? with
    | none => none
    | some t =>
      let rest := { s with toggling := s.toggling.eraseIdx i }
      if s.toggles t.stateId = maxToggles then some rest
      else some { rest with
        toggles := Function.update s.toggles t.stateId (s.toggles t.stateId + 1)
        tasks := s.tasks ++ [⟨t.stateId, t.nonce, t.connection, false, false, false, .idle⟩] }
  | .abortToggle i =>
    if i < s.toggling.length then some { s with toggling := s.toggling.eraseIdx i } else none
  | .start i =>
    match s.tasks[i]? with
    | some t =>
      if t.done = false ∧ t.phase = .idle then
        if t.notPresent then some (s.setPhase i t .passed) else some (s.notPresent i t)
      else none
    | none => none
  | .resume i =>
    match s.tasks[i]? with
    | some t =>
      match t.phase with
      | .waiting c => if s.isSet c then some (s.deleteKey i t) else none
      | _ => none
    | none => none
  | .memoize i =>
    match s.tasks[i]? with
    | some t =>
      if t.phase = .returned then
        some { s with tasks := s.tasks.set i { t with notPresent := true, phase := .passed } }
      else none
    | none => none
  | .untoggle i =>
    match s.tasks[i]? with
    | some t => if t.phase = .passed then some (s.untoggle i t) else none
    | none => none
  | .finish i =>
    match s.tasks[i]? with
    | some t =>
      if t.phase = .wrote then
        some { s with tasks := s.tasks.set i { t with done := true, phase := .idle } }
      else none
    | none => none
  | .retry i =>
    match s.tasks[i]? with
    | some t => some (s.setPhase i t .idle)
    | none => none
  | .restart => some { s with
      connections := s.connections.map Connection.close
      disconnectEvents := fun _ => none
      toggling := []
      tasks := s.tasks.map fun t => { t with phase := .idle } }

/-! ## Exact counts -/

/-- The number of the `Toggle`s of a state that committed. -/
def State.committed (s : State) (stateId : Str) : Nat := s.tasks.countP (·.stateId = stateId)

/-- The number of those that were counted off. -/
def State.countedOff (s : State) (stateId : Str) : Nat :=
  s.tasks.countP fun t => t.stateId = stateId && t.untoggled

/-- Every workflow is done, or blocked in `wait`. -/
def State.Settled (s : State) : Prop :=
  ∀ t ∈ s.tasks, t.done = true ∨ ∃ c, t.phase = .waiting c ∧ s.isSet c = false

/-- `Status` -/
def State.present (s : State) (stateId : Str) : Bool := 0 < s.toggles stateId

structure State.Exact (s : State) : Prop where
  count : ∀ stateId, s.toggles stateId + s.countedOff stateId = s.committed stateId
  raisesNothing : s.failures = []
  ownEvent : ∀ p ∈ s.removals, ¬ p.1 < p.2
  status : s.Settled → ∀ stateId, s.present stateId = true ↔
    ∃ t ∈ s.tasks, t.stateId = stateId ∧ s.isOpen t.connection = true

/-- How many are in `wait` on an event. -/
def State.waitingOn (s : State) (c : Nat) : Nat := s.tasks.countP (·.phase = .waiting c)

/-- The event under the key of a task is set, or that of its own connection. -/
def State.ownOrSet (s : State) (t : Task) : Bool :=
  (s.disconnectEvents t.key).all fun c => s.isSet c || c = t.connection

/-- What `StepOk` asks of one action. -/
def stepOk (s : State) : Action → Bool
  -- one workflow is in `wait` on the event, or none
  | .disconnect c => s.waitingOn c ≤ 1
  -- the workflow comes to wait for no other connection
  | .start i => s.tasks[i]?.all fun t => t.notPresent || s.ownOrSet t
  | _ => true

/-- No connection ends on which two workflows wait, and no workflow comes to look for its key while it
is that of a later connection which is open. -/
def StepOk (s : State) (a : Action) : Prop := stepOk s a = true

instance (s : State) (a : Action) : Decidable (StepOk s a) := inferInstanceAs (Decidable (_ = _))

end Reboot.Presence
