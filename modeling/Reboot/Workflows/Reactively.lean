import Mathlib.Logic.Function.Basic
import Reboot.Lib.Run

/-!
# Waiting in a workflow

The `until` calls of one workflow: `WorkflowContext.retry_reactively_until` and `React`
(`reboot/aio/contexts.py`), `reactively` with its `watch_state` task
(`reboot/aio/state_managers.py`), and what `_call` of a stub (`reboot/aio/stubs.py`) makes of a
reader that is called in a condition. All `until` calls share `context.react`, here `current`.

> `Workflow.MissesNothing`: no `until` fails on that machinery, no condition is given an older
> response than one the workflow has received, and when everything is delivered, what a waiting
> `until` has read in its last evaluation is what there is.

Mirroring notes:

* What a coroutine does between two awaits is one action, except that stopping `watch_state` and
  cancelling the queries of a `React` are one action each.
* A response is the version of what it was computed from. A `Reader` is a method of a state with a
  request; the one querier of a method of a state and its queries by request are not told apart.
* A query receives the responses of its stream in order, the next one only after its last one was
  used (`_used_response`). An error that is retryable makes it call again (`reconnect`); readers
  that fail are left out, but a condition may raise.
* The condition calls readers one after another, and may read the workflow's own state, mutate
  other states, and call `until`. Without `_within_until` a call is memoized.
* `_within_until` is a context variable: every asyncio task has its own value.
* `self.wait` is for calls through Node.js; otherwise it only awaits.
-/

namespace Reboot.Workflows

open Reboot.Lib

abbrev Reader := Nat
abbrev AsyncTask := Nat

/-- A task of a `Querier`, with its stream. -/
structure Query where
  /-- what was sent and is not received -/
  pipe : List Nat
  /-- `_responses` -/
  response : Option Nat
  /-- `_used_response` -/
  used : Bool
  invalidated : Bool
deriving DecidableEq

/-- Whether the query awaits the next response of its stream. -/
def Query.receives (q : Query) : Bool := q.response.isNone || q.used

structure React where
  /-- `_event` -/
  event : Bool
  iteration : Nat
  cancelled : Bool
  queries : Reader → Option Query

def React.fresh : React := ⟨false, 0, false, fun _ => none⟩

inductive Watcher where
  | created
  /-- with the number of states in its queue -/
  | watching (pending : Nat)
  /-- `assert context.react is not None` has failed -/
  | failed
  | stopped
deriving DecidableEq

inductive Outcome where
  | returned
  /-- the condition raised -/
  | raised
  /-- `context.react` is `None` -/
  | attributeError
  /-- `assert task in self._calls` -/
  | assertionError
  /-- `Cancelled`, from a `React` that is cancelled -/
  | systemAborted
deriving DecidableEq

inductive Phase where
  | evaluating
  /-- in the condition, awaits the first response of this reader in this `React` -/
  | calling (reader : Reader) (react : Nat)
  /-- awaits the lock of this `React` -/
  | locking (react : Nat)
  /-- has the lock of this `React` and awaits its event -/
  | parked (react : Nat)
  /-- leaves the context manager -/
  | leaving (outcome : Outcome)
  /-- cancels a `React` -/
  | closing (outcome : Outcome)
  | done (outcome : Outcome)
deriving DecidableEq

def Phase.outcome? : Phase → Option Outcome
  | .leaving o | .closing o | .done o => some o
  | .evaluating | .calling _ _ | .locking _ | .parked _ => none

def Phase.isDone : Phase → Bool
  | .done _ => true
  | .evaluating | .calling _ _ | .locking _ | .parked _ | .leaving _ | .closing _ => false

structure Until where
  asyncTask : AsyncTask
  iteration : Nat
  watcher : Watcher
  phase : Phase
  /-- what the last evaluation of the condition has read, latest first -/
  reads : List (Reader × Nat)
  readOwn : Option Nat
deriving DecidableEq

structure Workflow where
  /-- the version of the workflow's own state -/
  own : Nat
  /-- the version of what each reader returns -/
  server : Reader → Nat
  reacts : List React
  /-- `context.react` -/
  current : Option Nat
  untils : List Until
  /-- `_within_until` -/
  within : AsyncTask → Bool
  memo : Reader → Option Nat
  memoOwn : Option Nat
  /-- the newest version of each reader that the workflow has received -/
  delivered : Reader → Nat
  /-- who was given an older version than that -/
  stale : List Nat

inductive Action where
  | enter (asyncTask : AsyncTask)
  | call (i : Nat) (reader : Reader)
  /-- the first response is there -/
  | called (i : Nat)
  | readOwn (i : Nat)
  | mutate (i : Nat) (reader : Reader)
  /-- the condition returns `False` -/
  | unsatisfied (i : Nat)
  /-- the condition returns something else, or raises -/
  | finish (i : Nat) (raises : Bool)
  | lock (i : Nat)
  | wake (i : Nat)
  | cancelReact (i : Nat)
  | close (i : Nat)
  | watchStart (i : Nat)
  | watch (i : Nat)
  | change (reader : Reader)
  | changeOwn
  | receive (react : Nat) (reader : Reader)
  | reconnect (react : Nat) (reader : Reader)
deriving DecidableEq

def Workflow.init : Workflow :=
  { own := 0, server := fun _ => 0, reacts := [], current := none, untils := []
    within := fun _ => false, memo := fun _ => none, memoOwn := none
    delivered := fun _ => 0, stale := [] }

def React.setQuery (R : React) (a : Reader) (q : Query) : React :=
  { R with queries := Function.update R.queries a (some q) }

/-- A new response is sent on the stream of a query. -/
def React.push (R : React) (a : Reader) (v : Nat) : React :=
  match R.queries a with
  | none => R
  | some q => R.setQuery a { q with pipe := q.pipe ++ [v] }

/-- `React.cancel` -/
def React.cancel (R : React) : React := { R with cancelled := true, queries := fun _ => none }

/-- A new state in the queue of `watch_state`. -/
def Watcher.push : Watcher → Watcher
  | .watching pending => .watching (pending + 1)
  | w => w

namespace Workflow

def setUntil (s : Workflow) (i : Nat) (u : Until) : Workflow :=
  { s with untils := s.untils.set i u }

def setReact (s : Workflow) (r : Nat) (R : React) : Workflow :=
  { s with reacts := s.reacts.set r R }

def lockFree (s : Workflow) (r : Nat) : Prop := ∀ u ∈ s.untils, u.phase ≠ .parked r

instance (s : Workflow) (r : Nat) : Decidable (s.lockFree r) :=
  inferInstanceAs (Decidable (∀ u ∈ s.untils, u.phase ≠ .parked r))

/-- The condition is called. -/
def evaluate (s : Workflow) (i : Nat) (u : Until) (iteration : Nat) : Workflow :=
  { s with within := Function.update s.within u.asyncTask true }.setUntil i
    { u with iteration := iteration, phase := .evaluating, reads := [], readOwn := none }

/-- The `finally` of `reactively`, until `watch_state` is stopped. -/
def leave (s : Workflow) (i : Nat) (u : Until) (o : Outcome) : Workflow :=
  { s with within := Function.update s.within u.asyncTask false }.setUntil i
    { u with phase := .leaving o, watcher := .stopped }

/-- `retry_reactively_until`: `reactively` is entered and the condition is called. -/
def enter (s : Workflow) (asyncTask : AsyncTask) : Workflow :=
  { s with
    reacts := s.reacts ++ [.fresh]
    current := some s.reacts.length
    within := Function.update s.within asyncTask true
    untils := s.untils ++ [⟨asyncTask, 0, .created, .evaluating, [], none⟩] }

/-- A reader returns to the condition. -/
def record (s : Workflow) (i : Nat) (u : Until) (a : Reader) (v : Nat) : Workflow :=
  { s with
    memo := if s.within u.asyncTask then s.memo else Function.update s.memo a (some v)
    delivered := Function.update s.delivered a (max (s.delivered a) v)
    stale := if v < s.delivered a then s.stale ++ [i] else s.stale }.setUntil i
    { u with phase := .evaluating, reads := (a, v) :: u.reads }

/-- `Querier.call` of a request that has no task: the stream starts with what there is. -/
def startQuery (s : Workflow) (i : Nat) (u : Until) (r : Nat) (R : React) (a : Reader) :
    Workflow :=
  (s.setReact r (R.setQuery a ⟨[s.server a], none, false, false⟩)).setUntil i
    { u with phase := .calling a r }

/-- `React.call` -/
def callReact (s : Workflow) (i : Nat) (u : Until) (r : Nat) (R : React) (a : Reader) :
    Workflow :=
  if R.cancelled then s.leave i u .systemAborted
  else
    match R.queries a with
    | none => s.startQuery i u r R a
    | some q =>
      if q.invalidated then s.startQuery i u r R a
      else
        match q.response with
        | none => s.leave i u .assertionError
        | some v => (s.setReact r (R.setQuery a { q with used := true })).record i u a v

/-- A reader is called in the condition. -/
def call (s : Workflow) (i : Nat) (u : Until) (a : Reader) : Option Workflow :=
  match if s.within u.asyncTask then none else s.memo a with
  | some v => some (s.record i u a v)
  | none =>
    match s.current with
    | none => some (s.record i u a (s.server a))
    | some r => do return s.callReact i u r (← s.reacts[r]?) a

/-- The own state is read in the condition. -/
def readOwn (s : Workflow) (i : Nat) (u : Until) : Workflow :=
  let v := if s.within u.asyncTask then s.own else s.memoOwn.getD s.own
  { s with
    memoOwn := if s.within u.asyncTask then s.memoOwn else some v
    stale := if v < s.own then s.stale ++ [i] else s.stale }.setUntil i
    { u with readOwn := some v }

/-- `React.iterate` up to its first await, after an evaluation. -/
def iterate (s : Workflow) (i : Nat) (u : Until) (r : Nat) (R : React) : Workflow :=
  if R.iteration = u.iteration then
    if s.lockFree r then s.setUntil i { u with phase := .parked r }
    else s.setUntil i { u with phase := .locking r }
  else s.evaluate i u R.iteration

def unsatisfied (s : Workflow) (i : Nat) (u : Until) : Option Workflow :=
  let s := { s with within := Function.update s.within u.asyncTask false }
  match s.current with
  | none => some (s.leave i u .attributeError)
  | some r => do return s.iterate i u r (← s.reacts[r]?)

/-- `React.iterate` after the lock is acquired. -/
def lock (s : Workflow) (i : Nat) (u : Until) (r : Nat) (R : React) : Workflow :=
  if R.iteration = u.iteration then s.setUntil i { u with phase := .parked r }
  else s.evaluate i u R.iteration

/-- `React.iterate` after the event is set. -/
def wake (s : Workflow) (i : Nat) (u : Until) (r : Nat) (R : React) : Workflow :=
  (s.setReact r { R with event := false, iteration := R.iteration + 1 }).evaluate i u
    (R.iteration + 1)

/-- The `finally` of `reactively`, after `watch_state` is stopped. -/
def cancelReact (s : Workflow) (i : Nat) (u : Until) (o : Outcome) : Option Workflow :=
  match s.current with
  | none => some (s.setUntil i { u with phase := .done .attributeError })
  | some r => do
    let R ← s.reacts[r]?
    return (s.setReact r R.cancel).setUntil i { u with phase := .closing o }

/-- `watch_state` has the next state. -/
def watch (s : Workflow) (i : Nat) (u : Until) (pending : Nat) : Option Workflow :=
  match s.current with
  | none => some (s.setUntil i { u with watcher := .failed })
  | some r => do
    let R ← s.reacts[r]?
    return (s.setReact r { R with event := true }).setUntil i
      { u with watcher := .watching pending }

/-- A query receives a response: the first one for its caller, and every other one is an event. -/
def receive (s : Workflow) (r : Nat) (R : React) (a : Reader) (q : Query) : Option Workflow :=
  match q.pipe with
  | [] => none
  | v :: rest =>
    if q.receives then
      some ({ s with
          delivered := Function.update s.delivered a (max (s.delivered a) v) }.setReact r
        { R.setQuery a { q with pipe := rest, response := some v, used := false } with
          event := R.event || q.response.isSome })
    else none

def onUntil (s : Workflow) (i : Nat) (u : Until) : Action → Option Workflow
  | .call _ a => if u.phase = .evaluating then s.call i u a else none
  | .called _ =>
    match u.phase with
    | .calling a r => do
      let R ← s.reacts[r]?
      let q ← R.queries a
      let v ← q.response
      return (s.setReact r (R.setQuery a { q with used := true })).record i u a v
    | _ => none
  | .readOwn _ => if u.phase = .evaluating then some (s.readOwn i u) else none
  | .mutate _ a =>
    if u.phase = .evaluating then
      match s.current with
      | none => some s
      | some r => do
        let R ← s.reacts[r]?
        match R.queries a with
        | none => some s
        | some q => some (s.setReact r (R.setQuery a { q with invalidated := true }))
    else none
  | .unsatisfied _ => if u.phase = .evaluating then s.unsatisfied i u else none
  | .finish _ raises =>
    if u.phase = .evaluating then
      some (s.leave i u (if raises then .raised else .returned))
    else none
  | .lock _ =>
    match u.phase with
    | .locking r => do
      let R ← s.reacts[r]?
      if s.lockFree r then some (s.lock i u r R) else none
    | _ => none
  | .wake _ =>
    match u.phase with
    | .parked r => do
      let R ← s.reacts[r]?
      if R.event then some (s.wake i u r R) else none
    | _ => none
  | .cancelReact _ =>
    match u.phase with
    | .leaving o => s.cancelReact i u o
    | _ => none
  | .close _ =>
    match u.phase with
    | .closing o => some ({ s with current := none }.setUntil i { u with phase := .done o })
    | _ => none
  | .watchStart _ =>
    match u.watcher with
    | .created => some (s.setUntil i { u with watcher := .watching 1 })
    | _ => none
  | .watch _ =>
    match u.watcher with
    | .watching (pending + 1) => s.watch i u pending
    | _ => none
  | _ => none

def step (s : Workflow) : Action → Option Workflow
  | .enter asyncTask => some (s.enter asyncTask)
  | .call i a => do s.onUntil i (← s.untils[i]?) (.call i a)
  | .called i => do s.onUntil i (← s.untils[i]?) (.called i)
  | .readOwn i => do s.onUntil i (← s.untils[i]?) (.readOwn i)
  | .mutate i a => do s.onUntil i (← s.untils[i]?) (.mutate i a)
  | .unsatisfied i => do s.onUntil i (← s.untils[i]?) (.unsatisfied i)
  | .finish i raises => do s.onUntil i (← s.untils[i]?) (.finish i raises)
  | .lock i => do s.onUntil i (← s.untils[i]?) (.lock i)
  | .wake i => do s.onUntil i (← s.untils[i]?) (.wake i)
  | .cancelReact i => do s.onUntil i (← s.untils[i]?) (.cancelReact i)
  | .close i => do s.onUntil i (← s.untils[i]?) (.close i)
  | .watchStart i => do s.onUntil i (← s.untils[i]?) (.watchStart i)
  | .watch i => do s.onUntil i (← s.untils[i]?) (.watch i)
  | .change a =>
    some { s with
      server := Function.update s.server a (s.server a + 1)
      reacts := s.reacts.map fun R => R.push a (s.server a + 1) }
  | .changeOwn =>
    some { s with
      own := s.own + 1
      untils := s.untils.map fun u => { u with watcher := u.watcher.push } }
  | .receive r a => do
    let R ← s.reacts[r]?
    s.receive r R a (← R.queries a)
  | .reconnect r a => do
    let R ← s.reacts[r]?
    let q ← R.queries a
    if q.receives then some (s.setReact r (R.setQuery a { q with pipe := [s.server a] })) else none

/-- Nothing is left that a query or `watch_state` could receive. -/
def Quiet (s : Workflow) : Prop :=
  (∀ R ∈ s.reacts, ∀ a q, R.queries a = some q → q.receives = true → q.pipe = []) ∧
    ∀ u ∈ s.untils, u.watcher ≠ .created ∧ ∀ pending, u.watcher ≠ .watching (pending + 1)

/-- Whether an `until` awaits a change that is not signalled. -/
def Waits (s : Workflow) (u : Until) : Prop :=
  match u.phase with
  | .locking r | .parked r => ∀ R, s.reacts[r]? = some R → R.event = false
  | .evaluating | .calling _ _ | .leaving _ | .closing _ | .done _ => False

structure MissesNothing (s : Workflow) : Prop where
  succeeds : ∀ u ∈ s.untils, ∀ o, u.phase.outcome? = some o → o = .returned ∨ o = .raised
  newest : s.stale = []
  evaluated : s.Quiet → ∀ u ∈ s.untils, s.Waits u →
    (∀ a v, u.reads.lookup a = some v → v = s.server a) ∧ ∀ v, u.readOwn = some v → v = s.own

/-- No `until` is called while another one of the workflow is open. -/
def StepOk (s : Workflow) : Action → Prop
  | .enter _ => ∀ u ∈ s.untils, u.phase.isDone = true
  | _ => True

instance (s : Workflow) (a : Action) : Decidable (StepOk s a) :=
  match a with
  | .enter _ => inferInstanceAs (Decidable (∀ u ∈ s.untils, u.phase.isDone = true))
  | .call _ _ | .called _ | .readOwn _ | .mutate _ _ | .unsatisfied _ | .finish _ _ | .lock _
  | .wake _ | .cancelReact _ | .close _ | .watchStart _ | .watch _ | .change _ | .changeOwn
  | .receive _ _ | .reconnect _ _ => .isTrue trivial

end Workflow

end Reboot.Workflows
