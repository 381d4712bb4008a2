import Mathlib.Data.List.Basic
import Reboot.Lib.Run

/-!
# The life of a dispatched task

One task, from when it is dispatched to when its last caller has waited for it:
`TasksDispatcher` (`reboot/aio/internals/tasks_dispatcher.py`) with its retry loop, its
cancellation flag and its done-callbacks, the `dispatch` of the middleware
(`reboot/templates/reboot.py.j2`) that runs the method and completes the task,
`complete_task` of the state manager, the `TasksCache`, and `Tasks.Wait`.

Everything a coroutine does between two awaits is one action, so the order of the actions is
the order in which the event loop resumes the coroutines. A call of the database is sent, has
its effect (*lands*), and is answered; when its caller is cancelled in between, it can still
land.

Mirroring notes:
- The outcome is a response, a declared error or `Cancelled`. The two texts with which the
  code reports a cancellation are one outcome.
- `waiting` stands for the three places of the retry loop outside of the dispatched method:
  until the server is ready, until the task's schedule, and the backoff.
- `sent` and `orphans` are where the completions of this process are: the outcome last sent to
  the database, and those whose caller is gone and that have not landed. They end with the
  process. `landed` and `answers` are the history: what was stored, and what `Wait` returned.
- A method may fail, also after its completion was sent (the call fails although it has
  landed, or a callable registered on the context raises). It may also catch its cancellation
  and go on, although it must not.
- Effect validation, which runs a workflow twice, is off.
- The task is known to the cache when it is waited for: the wait for a prepared transaction is
  left out.
-/

namespace Reboot.Tasks

open Reboot.Lib

/-- How a task can end. -/
inductive Outcome (ρ : Type)
  | response (r : ρ)
  | declaredError (e : ρ)
  | cancelled
  deriving DecidableEq

/-- Where the coroutine of a task is. -/
inductive Phase (ρ : Type)
  /-- created and not yet resumed -/
  | notStarted
  /-- in the retry loop -/
  | waiting
  /-- in the method -/
  | running
  /-- about to store this outcome: in `complete_task`, before the call -/
  | completing (o : Outcome ρ)
  /-- in the call of the database -/
  | storing (o : Outcome ρ) (landed : Bool)
  /-- the outcome is stored, and the dispatched method is about to return it -/
  | completed (o : Outcome ρ)
  /-- done, having put this into the future, or by raising `CancelledError` -/
  | finished (o : Option (Outcome ρ))
  deriving DecidableEq

/-- Where the done-callbacks of a task are. -/
inductive Cleanup
  | notYet
  /-- `cleanup_async` is created -/
  | scheduled
  /-- `cleanup_async` stores `Cancelled` -/
  | storing (landed : Bool)
  /-- `cleanup_async` is done, and `cleanup_done` is next -/
  | checked
  deriving DecidableEq

/-- An entry of `_dispatched_tasks`. -/
structure Dispatched (ρ : Type) where
  phase : Phase ρ
  /-- `cancel()` was called, and `CancelledError` is not yet raised -/
  mustCancel : Bool
  isCancelled : Bool
  cleanup : Cleanup
  deriving DecidableEq

/-- A task that was just dispatched. -/
def Dispatched.fresh {ρ : Type} : Dispatched ρ := ⟨.notStarted, false, false, .notYet⟩

/-- A task, its entries on the server, and its record in the database. -/
structure Task (ρ : Type) where
  /-- the outcome in the database; `none` while the task is pending there -/
  stored : Option (Outcome ρ)
  dispatched : Option (Dispatched ρ)
  /-- the entry of the cache, with the result of its future -/
  cache : Option (Option (Outcome ρ))
  sent : Option (Outcome ρ)
  orphans : List (Outcome ρ)
  landed : List (Outcome ρ)
  answers : List (Outcome ρ)
  deriving DecidableEq

/-- A pending task, dispatched. -/
def Task.init {ρ : Type} : Task ρ := ⟨none, some .fresh, some none, none, [], [], []⟩

/-- What can happen. -/
inductive Action (ρ : Type)
  | start
  /-- the dispatched method is called -/
  | begin
  /-- the method returns a response or raises a declared error -/
  | returns (o : Outcome ρ)
  /-- the completion is sent to the database, lands, and is answered -/
  | send
  | land
  | answered
  /-- the dispatched method returns to the retry loop -/
  | resolve
  /-- the attempt fails and will be retried -/
  | fail
  /-- a completion lands whose caller is gone -/
  | landOrphan (i : Nat)
  /-- `CancelTask` -/
  | cancelTask
  /-- `stop()` -/
  | stop
  /-- `CancelledError` is raised in the coroutine -/
  | deliver
  /-- the method catches it and goes on -/
  | swallow
  /-- the done-callbacks -/
  | cleanup
  | cleanupCheck
  | cleanupLand
  | cleanupAnswered
  | cleanupFail
  | cleanupDone
  /-- `_trim_cache` removes the entry -/
  | evict
  /-- `Tasks.Wait` returns -/
  | wait
  /-- the server restarts and recovers its tasks -/
  | restart
  deriving DecidableEq

namespace Task

variable {ρ : Type}

/-- Change the entry of the dispatcher. -/
def setDispatched (s : Task ρ) (d : Dispatched ρ) : Task ρ := { s with dispatched := some d }

/-- The database stores an outcome. -/
def store (s : Task ρ) (o : Outcome ρ) : Task ρ :=
  { s with stored := some o, landed := s.landed ++ [o] }

/-- The caller of a completion is gone before it has landed. -/
def orphan (s : Task ρ) (o : Outcome ρ) (landed : Bool) : Task ρ :=
  if landed then s else { s with orphans := o :: s.orphans }

/-- Resolve the future of the cache entry, unless it is resolved. -/
def resolveFuture (s : Task ρ) (o : Outcome ρ) : Task ρ :=
  match s.cache with
  | some none => { s with cache := some (some o) }
  | _ => s

/-- `CancelledError` is raised in the coroutine. Inside the dispatched method it is turned into
the outcome `Cancelled` if the task was cancelled by `CancelTask`; in the handlers that
complete the task with that outcome or with a declared error, and outside of the method, it is
propagated. -/
def deliver (s : Task ρ) (d : Dispatched ρ) : Option (Task ρ) :=
  let ended := { d with phase := .finished none, mustCancel := false }
  let handled := { d with phase := .completing .cancelled, mustCancel := false }
  match d.phase with
  | .notStarted => some (s.setDispatched ended)
  | .waiting => some (s.setDispatched ended)
  | .running => some (s.setDispatched (if d.isCancelled then handled else ended))
  | .completing (.response _) =>
    some (s.setDispatched (if d.isCancelled then handled else ended))
  | .completing _ => some (s.setDispatched ended)
  | .storing (.response r) landed =>
    some ((s.orphan (.response r) landed).setDispatched (if d.isCancelled then handled else ended))
  | .storing o landed => some ((s.orphan o landed).setDispatched ended)
  | .completed _ => some (s.setDispatched ended)
  | .finished _ => none

/-- An attempt fails: the retry loop backs off. -/
def fail (s : Task ρ) (d : Dispatched ρ) : Option (Task ρ) :=
  let backedOff := { d with phase := .waiting }
  match d.phase with
  | .running => some (s.setDispatched backedOff)
  | .completing _ => some (s.setDispatched backedOff)
  | .storing o landed => some ((s.orphan o landed).setDispatched backedOff)
  | .completed _ => some (s.setDispatched backedOff)
  | _ => none

/-- The steps of the coroutine, which are taken while it is not being cancelled. -/
def progress (s : Task ρ) (d : Dispatched ρ) (a : Action ρ) : Option (Task ρ) :=
  match a, d.phase with
  | .start, .notStarted => some (s.setDispatched { d with phase := .waiting })
  | .begin, .waiting => some (s.setDispatched { d with phase := .running })
  | .returns .cancelled, .running => none
  | .returns o, .running => some (s.setDispatched { d with phase := .completing o })
  | .send, .completing o =>
    some ({ s with sent := some o }.setDispatched { d with phase := .storing o false })
  | .answered, .storing o true => some (s.setDispatched { d with phase := .completed o })
  | .resolve, .completed o =>
    some ((s.resolveFuture o).setDispatched { d with phase := .finished (some o) })
  | .fail, _ => s.fail d
  | _, _ => none

/-- Whether the coroutine is done. -/
def isFinished (d : Dispatched ρ) : Bool :=
  match d.phase with
  | .finished _ => true
  | _ => false

/-- `cleanup_async` looks at the flag. -/
def cleanupCheck (s : Task ρ) (d : Dispatched ρ) : Task ρ :=
  if d.isCancelled then
    { s with sent := some .cancelled }.setDispatched { d with cleanup := .storing false }
  else s.setDispatched { d with cleanup := .checked }

/-- `cleanup_done`. -/
def cleanupDone (s : Task ρ) (d : Dispatched ρ) : Task ρ :=
  let s' := if d.isCancelled then s.resolveFuture .cancelled else s
  { s' with dispatched := none }

/-- The actions on a task that is in `_dispatched_tasks`. -/
def onDispatched (s : Task ρ) (d : Dispatched ρ) : Action ρ → Option (Task ρ)
  | .land =>
    match d.phase with
    | .storing o false => some ((s.store o).setDispatched { d with phase := .storing o true })
    | _ => none
  | .cancelTask =>
    if d.isCancelled then some s
    else some (s.setDispatched { d with isCancelled := true, mustCancel := !isFinished d })
  | .stop => some (s.setDispatched { d with mustCancel := !isFinished d })
  | .deliver => if d.mustCancel then s.deliver d else none
  | .swallow =>
    match d.mustCancel, d.phase with
    | true, .running => some (s.setDispatched { d with mustCancel := false })
    | _, _ => none
  | .cleanup =>
    if isFinished d ∧ d.cleanup = .notYet then
      some (s.setDispatched { d with cleanup := .scheduled })
    else none
  | .cleanupCheck => if d.cleanup = .scheduled then some (s.cleanupCheck d) else none
  | .cleanupLand =>
    if d.cleanup = .storing false then
      some ((s.store .cancelled).setDispatched { d with cleanup := .storing true })
    else none
  | .cleanupAnswered =>
    if d.cleanup = .storing true then some (s.setDispatched { d with cleanup := .checked }) else none
  | .cleanupFail =>
    match d.cleanup with
    | .storing landed =>
      some ((s.orphan .cancelled landed).setDispatched { d with cleanup := .checked })
    | _ => none
  | .cleanupDone => if d.cleanup = .checked then some (s.cleanupDone d) else none
  | a => if d.mustCancel then none else s.progress d a

/-- `Tasks.Wait`: from the cache, or else from the database, which is then cached. -/
def wait (s : Task ρ) : Option (Task ρ) :=
  match s.cache with
  | some (some o) => some { s with answers := s.answers ++ [o] }
  | some none => none
  | none =>
    match s.stored with
    | some o => some { s with answers := s.answers ++ [o], cache := some (some o) }
    | none => none

/-- A new process, which dispatches the task if it is pending in the database. -/
def restart (s : Task ρ) : Task ρ :=
  match s.stored with
  | some _ => { s with dispatched := none, cache := none, sent := none, orphans := [] }
  | none => { s with dispatched := some .fresh, cache := some none, sent := none, orphans := [] }

/-- One step; `none` if the action is not enabled. -/
def step (s : Task ρ) : Action ρ → Option (Task ρ)
  | .landOrphan i =>
    match s.orphans[i]? with
    | some o => some { s.store o with orphans := s.orphans.eraseIdx i }
    | none => none
  | .evict =>
    match s.cache with
    | some (some _) => some { s with cache := none }
    | _ => none
  | .wait => s.wait
  | .restart => some s.restart
  | .cancelTask =>
    match s.dispatched with
    -- `NOT_FOUND`
    | none => some s
    | some d => s.onDispatched d .cancelTask
  | a =>
    match s.dispatched with
    | none => none
    | some d => s.onDispatched d a

end Task

end Reboot.Tasks
