import Reboot.Lib.Run

/-!
# The control loop of a workflow

`context.loop` of a workflow: `loop` in `task_workflow` (`reboot/aio/state_managers.py`), under
`dispatch_retry_loop` (`reboot/aio/internals/tasks_dispatcher.py`), which runs the method again with
the same `TaskEffect` until it completes, and under `dispatch` of the generated servicer, which runs
it once more to validate its effects. The iteration is a field of that `TaskEffect`; the database
has it in the record of the task, from which a `TaskEffect` is made when the process starts again.

> `State.Durable`: an iteration is yielded to the body only when the database has recorded that the
> workflow reached it, and a loop that is entered begins at the last recorded iteration.

The iteration is advanced in the `TaskEffect` before it is stored, and stays advanced when the store
fails: a method that is run again in that process then begins at an iteration nobody recorded
(`State.durableIterations_lostThenRetry`). As long as no loop is entered after such a store, the promise holds
(`State.durableIterations`).

Mirroring notes:
- One workflow; workflows share nothing that this code reads. It is taken from its record in the
  database, which for a new task was written before its first dispatch.
- The method is what the developer wrote: it may enter the loop or not, leave it anywhere, catch what
  the loop raises, raise, or return. Waiting to be ready, for the schedule and for the backoff are
  one phase, as are the interval and the restored checkpoint.
- A store is recorded, or it is lost, or it is recorded and the reply is lost. A method that is
  cancelled and a process that dies take the outstanding store with them or not.
- The record of a completed task has no iteration, and nothing is resumed from it.
- `on_loop_iteration` and the cleanup of the completed iteration do not touch the iteration.
-/

namespace Reboot.Workflows.ControlLoop

open Reboot.Lib

/-! ## Model -/

/-- Where the task of the workflow stands. -/
inductive Phase
  /-- `dispatch_retry_loop` waits -/
  | pending
  /-- the method runs, outside the loop -/
  | method
  /-- the body of the loop runs -/
  | body
  /-- waits for the lock of the state -/
  | locking
  /-- awaits `_store` of the next iteration -/
  | storing
  /-- the store returned; the interval passes -/
  | stored
  /-- awaits `complete_task` -/
  | completing
  | done
  deriving DecidableEq

def Phase.inLoop : Phase → Bool
  | body | locking | storing | stored => true
  | _ => false

/-- The `TaskEffect` in the process, and the run of the method. -/
structure Process where
  phase : Phase
  /-- `task_effect.iteration` -/
  iteration : Nat
  validating : Bool
  /-- `loop_alias is not None` -/
  looped : Bool
  /-- a store of the iteration was lost; not part of the code -/
  lost : Bool
  deriving DecidableEq

/-- What the body was given, and what was recorded then. -/
structure Yield where
  iteration : Nat
  recorded : Nat
  /-- the first of this run of the loop -/
  entered : Bool
  deriving DecidableEq

structure State where
  /-- the iteration in the database -/
  recorded : Nat
  /-- the database has the task as completed -/
  completed : Bool
  process : Option Process
  /-- everything that was yielded -/
  yields : List Yield
  deriving DecidableEq

inductive Stored
  | recorded
  | lost
  /-- recorded, but the call fails -/
  | unacknowledged
  deriving DecidableEq

inductive Action
  /-- the dispatch loop runs the method -/
  | dispatch
  /-- the method begins to iterate -/
  | enterLoop
  /-- the body breaks, returns or raises -/
  | leaveLoop
  /-- the body is through; a callable for completed iterations may raise -/
  | next (raises : Bool)
  | lock
  | store (outcome : Stored)
  /-- the interval is over, or waiting for it raises -/
  | resume (raises : Bool)
  /-- the method returns a response -/
  | returns
  /-- the method raises an error that it declares -/
  | aborts
  /-- the method raises anything else -/
  | raises
  | complete (outcome : Stored)
  /-- the task is cancelled -/
  | cancel (recorded : Bool)
  | crash (recorded : Bool)
  | recover
  deriving DecidableEq

namespace State

/-- The task as the database has it, and no process. -/
def init (recorded : Nat) : State := ⟨recorded, false, none, []⟩

/-- `from_sidecar_task`. -/
def fresh (recorded : Nat) : Process := ⟨.pending, recorded, false, false, false⟩

def setProcess (s : State) (p : Process) : State := { s with process := some p }

/-- `yield task_effect.iteration`. -/
def yieldTo (s : State) (p : Process) (entered : Bool) : State :=
  { s with
    process := some { p with phase := .body, looped := true }
    yields := s.yields ++ [⟨p.iteration, s.recorded, entered⟩] }

/-- The store of the iteration ended, and `phase` is next. -/
def storeEnds (s : State) (p : Process) (recorded : Bool) (phase : Phase) : State :=
  if recorded then
    { s with
      recorded := p.iteration
      -- the record that is written is that of a pending task
      completed := false
      process := some { p with phase := phase } }
  else s.setProcess { p with phase := phase, lost := true }

/-- What happens to an outstanding store when its caller goes away. -/
def interrupted (s : State) (p : Process) (recorded : Bool) : State :=
  if p.phase = .storing then s.storeEnds p recorded .done
  else s.setProcess { p with phase := .done }

/-- One step; `validates` is whether effect validation is enabled. -/
def step (validates : Bool) (s : State) (a : Action) : Option State :=
  match s.process with
  | none => if a = .recover ∧ s.completed = false then some (s.setProcess (fresh s.recorded)) else none
  | some p =>
    match a, p.phase with
    | .dispatch, .pending =>
      some (s.setProcess { p with phase := .method, validating := false, looped := false })
    -- a second loop raises
    | .enterLoop, .method => if p.looped then some s else some (s.yieldTo p true)
    | .leaveLoop, .body => some (s.setProcess { p with phase := .method })
    | .next raises, .body =>
      -- a validating run must leave the loop here
      if p.validating || raises then some (s.setProcess { p with phase := .method })
      else some (s.setProcess { p with phase := .locking })
    | .lock, .locking =>
      some (s.setProcess { p with phase := .storing, iteration := p.iteration + 1 })
    | .store .recorded, .storing => some (s.storeEnds p true .stored)
    | .store .lost, .storing => some (s.storeEnds p false .method)
    | .store .unacknowledged, .storing => some (s.storeEnds p true .method)
    | .resume raises, .stored =>
      if raises then some (s.setProcess { p with phase := .method }) else some (s.yieldTo p false)
    | .returns, .method =>
      -- `EffectValidationRetry`: the method runs again
      if validates && !p.validating then
        some (s.setProcess { p with validating := true, looped := false })
      else some (s.setProcess { p with phase := .completing })
    | .aborts, .method => some (s.setProcess { p with phase := .completing })
    | .raises, .method => some (s.setProcess { p with phase := .pending })
    | .complete .recorded, .completing =>
      some { s with completed := true, process := some { p with phase := .done } }
    | .complete .lost, .completing => some (s.setProcess { p with phase := .pending })
    | .complete .unacknowledged, .completing =>
      some { s with completed := true, process := some { p with phase := .pending } }
    | .cancel recorded, phase => if phase = .done then none else some (s.interrupted p recorded)
    | .crash recorded, _ => some { s.interrupted p recorded with process := none }
    | _, _ => none

/-! ## The promise -/

structure Durable (s : State) : Prop where
  reached : ∀ y ∈ s.yields, y.iteration ≤ y.recorded
  resumed : ∀ y ∈ s.yields, y.entered = true → y.iteration = y.recorded

/-- No loop is entered in a process that lost a store of the iteration. -/
def StepOk (s : State) (a : Action) : Prop :=
  a = .enterLoop → ∀ p ∈ s.process, p.lost = true → p.looped = true

instance (s : State) (a : Action) : Decidable (s.StepOk a) :=
  inferInstanceAs (Decidable (_ → _))

/-! ## Invariant -/

/-- How far the iteration in memory is ahead of the database. -/
def ahead (p : Process) : Nat := if p.lost = true ∨ p.phase = .storing then 1 else 0

structure Inv (s : State) : Prop where
  durable : s.Durable
  memory : ∀ p, s.process = some p → p.iteration = s.recorded + ahead p
  /-- no loop runs on an iteration that was lost -/
  lost : ∀ p, s.process = some p → p.lost = true → p.phase.inLoop = false

theorem inv_init (recorded : Nat) : (init recorded).Inv where
  durable := ⟨fun _ hy => absurd hy List.not_mem_nil, fun _ hy => absurd hy List.not_mem_nil⟩
  memory _ hp := nomatch hp
  lost _ hp := nomatch hp

variable {s s' : State} {p : Process}

theorem Durable.of_yields (h : s.Durable) (hyields : s'.yields = s.yields) : s'.Durable :=
  ⟨fun y hy => h.reached y (hyields ▸ hy), fun y hy => h.resumed y (hyields ▸ hy)⟩

theorem ahead_eq_zero (hlost : p.lost = false) (hphase : p.phase ≠ .storing) : ahead p = 0 :=
  if_neg fun h => h.elim (fun h => Bool.false_ne_true (hlost.symm.trans h)) hphase

/-- In the loop nothing was lost. -/
theorem Inv.notLost (h : s.Inv) (hp : s.process = some p) (hloop : p.phase.inLoop = true) :
    p.lost = false := by
  cases hlost : p.lost with
  | false => rfl
  | true => exact absurd (h.lost p hp hlost) (by rw [hloop]; exact Bool.noConfusion)

/-- A process whose iteration is where it was, outside of a store. -/
theorem Inv.setProcess {p' : Process} (h : s.Inv) (hp : s.process = some p)
    (hphase : p.phase ≠ .storing) (hphase' : p'.phase ≠ .storing)
    (hiter : p'.iteration = p.iteration) (hlost : p'.lost = p.lost)
    (hloop : p'.phase.inLoop = true → p.phase.inLoop = true) : (s.setProcess p').Inv where
  durable := h.durable.of_yields rfl
  memory := by
    rintro _ ⟨⟩
    have hsame : ahead p' = ahead p := by
      unfold ahead
      rw [hlost]
      simp only [hphase, hphase', or_false]
    show p'.iteration = s.recorded + ahead p'
    rw [hiter, hsame, h.memory p hp]
  lost := by
    rintro _ ⟨⟩ htrue
    have hout := h.lost p hp (hlost ▸ htrue)
    cases hin : p'.phase.inLoop with
    | false => rfl
    | true => exact absurd (hloop hin) (by rw [hout]; exact Bool.noConfusion)

/-- What is yielded is what is recorded. -/
theorem Inv.yieldTo (h : s.Inv) (hp : s.process = some p) (hlost : p.lost = false)
    (hphase : p.phase ≠ .storing) (entered : Bool) : (s.yieldTo p entered).Inv := by
  have hiter : p.iteration = s.recorded := by
    rw [h.memory p hp, ahead_eq_zero hlost hphase, Nat.add_zero]
  refine ⟨⟨?_, ?_⟩, ?_, ?_⟩
  · intro y hy
    rcases List.mem_append.mp hy with hy | hy
    · exact h.durable.reached y hy
    · rw [List.mem_singleton.mp hy]
      exact Nat.le_of_eq hiter
  · intro y hy hentered
    rcases List.mem_append.mp hy with hy | hy
    · exact h.durable.resumed y hy hentered
    · rw [List.mem_singleton.mp hy]
      exact hiter
  · rintro _ ⟨⟩
    have hzero : ahead { p with phase := .body, looped := true } = 0 :=
      ahead_eq_zero hlost fun h => Phase.noConfusion h
    show p.iteration = s.recorded + _
    rw [hzero, hiter, Nat.add_zero]
  · rintro _ ⟨⟩ htrue
    exact absurd (hlost.symm.trans htrue) Bool.false_ne_true

/-- However a store ends, the iteration in memory is recorded or known to be lost. -/
theorem Inv.storeEnds (h : s.Inv) (hp : s.process = some p) (hphase : p.phase = .storing)
    {phase : Phase} (hnext : phase ≠ .storing) (recorded : Bool)
    (hloop : recorded = false → phase.inLoop = false) : (s.storeEnds p recorded phase).Inv := by
  have hlost : p.lost = false := h.notLost hp (by rw [hphase]; rfl)
  unfold State.storeEnds
  split
  next =>
    refine ⟨h.durable.of_yields rfl, ?_, ?_⟩
    · rintro _ ⟨⟩
      have hzero : ahead { p with phase := phase } = 0 := ahead_eq_zero hlost hnext
      show p.iteration = p.iteration + _
      rw [hzero, Nat.add_zero]
    · rintro _ ⟨⟩ htrue
      exact absurd (hlost.symm.trans htrue) Bool.false_ne_true
  next hrec =>
    refine ⟨h.durable.of_yields rfl, ?_, ?_⟩
    · rintro _ ⟨⟩
      have hone : ahead p = 1 := if_pos (.inr hphase)
      show p.iteration = s.recorded + 1
      rw [h.memory p hp, hone]
    · rintro _ ⟨⟩ -
      exact hloop (Bool.eq_false_iff.mpr hrec)

theorem Inv.interrupted (h : s.Inv) (hp : s.process = some p) (recorded : Bool) :
    (s.interrupted p recorded).Inv := by
  unfold State.interrupted
  split
  next hphase => exact h.storeEnds hp hphase (fun h => Phase.noConfusion h) recorded fun _ => rfl
  next hphase => 
    exact h.setProcess hp hphase (fun h => Phase.noConfusion h) rfl rfl fun h => Bool.noConfusion h

/-- Without its process a workflow is only what the database has. -/
theorem Inv.stop (h : s.Inv) : Inv { s with process := none } :=
  ⟨h.durable.of_yields rfl, fun _ hp => (nomatch hp), fun _ hp => (nomatch hp)⟩

theorem Inv.setCompleted {q : Process} (h : (s.setProcess q).Inv) (completed : Bool) :
    Inv { s with completed := completed, process := some q } :=
  ⟨h.durable.of_yields rfl, h.memory, h.lost⟩

theorem Inv.recover (h : s.Inv) : (s.setProcess (fresh s.recorded)).Inv where
  durable := h.durable.of_yields rfl
  memory := by
    rintro _ ⟨⟩
    rfl
  lost := by
    rintro _ ⟨⟩ -
    rfl

variable {validates : Bool} {a : Action}

/-- The method goes on, outside of a store and not into the loop. -/
theorem Inv.goOn (h : s.Inv) (hp : s.process = some p) {phase : Phase} (hphase : p.phase = phase)
    (phase' : Phase) (hnext : phase ≠ .storing ∧ phase' ≠ .storing ∧
      (phase'.inLoop = true → phase.inLoop = true)) (validating looped : Bool) :
    (s.setProcess { p with
      phase := phase', validating := validating, looped := looped }).Inv := by
  subst hphase
  exact h.setProcess hp hnext.1 hnext.2.1 rfl rfl hnext.2.2

/-- The iteration is advanced when its store begins. -/
theorem Inv.lock (h : s.Inv) (hp : s.process = some p) (hphase : p.phase = .locking) :
    (s.setProcess { p with phase := .storing, iteration := p.iteration + 1 }).Inv := by
  have hlost : p.lost = false := h.notLost hp (by rw [hphase]; rfl)
  refine ⟨h.durable.of_yields rfl, ?_, ?_⟩
  · rintro _ ⟨⟩
    have hone : ahead { p with phase := .storing, iteration := p.iteration + 1 } = 1 :=
      if_pos (.inr rfl)
    have hzero : ahead p = 0 := ahead_eq_zero hlost (by rw [hphase]; decide)
    show p.iteration + 1 = s.recorded + _
    rw [hone, h.memory p hp, hzero, Nat.add_zero]
  · rintro _ ⟨⟩ htrue
    exact absurd (hlost.symm.trans htrue) Bool.false_ne_true

theorem step_inv (h : s.Inv) (hok : s.StepOk a) (hstep : s.step validates a = some s') :
    s'.Inv := by
  unfold step at hstep
  cases hp : s.process with
  | none =>
    rw [hp] at hstep
    dsimp only at hstep
    split at hstep
    next =>
      cases hstep
      exact h.recover
    next => exact nomatch hstep
  | some p =>
    rw [hp] at hstep
    dsimp only at hstep
    split at hstep
    next hphase =>
      cases hstep
      exact h.goOn hp hphase .method (by decide) false false
    next hphase =>
      split at hstep
      next =>
        cases hstep
        exact h
      next hlooped =>
        cases hstep
        refine h.yieldTo hp ?_ (by rw [hphase]; decide) true
        cases hlost : p.lost with
        | false => rfl
        | true => exact absurd (hok rfl p hp hlost) hlooped
    next hphase =>
      cases hstep
      exact h.goOn hp hphase .method (by decide) p.validating p.looped
    next raises hphase =>
      split at hstep
      next =>
        cases hstep
        exact h.goOn hp hphase .method (by decide) p.validating p.looped
      next =>
        cases hstep
        exact h.goOn hp hphase .locking (by decide) p.validating p.looped
    next hphase =>
      cases hstep
      exact h.lock hp hphase
    next hphase =>
      cases hstep
      exact h.storeEnds hp hphase (by decide) true (by decide)
    next hphase =>
      cases hstep
      exact h.storeEnds hp hphase (by decide) false (by decide)
    next hphase =>
      cases hstep
      exact h.storeEnds hp hphase (by decide) true (by decide)
    next raises hphase =>
      split at hstep
      next =>
        cases hstep
        exact h.goOn hp hphase .method (by decide) p.validating p.looped
      next =>
        cases hstep
        exact h.yieldTo hp (h.notLost hp (by rw [hphase]; rfl)) (by rw [hphase]; decide) false
    next hphase =>
      split at hstep
      next =>
        cases hstep
        exact hphase ▸ h.goOn hp hphase .method (by decide) true false
      next =>
        cases hstep
        exact h.goOn hp hphase .completing (by decide) p.validating p.looped
    next hphase =>
      cases hstep
      exact h.goOn hp hphase .completing (by decide) p.validating p.looped
    next hphase =>
      cases hstep
      exact h.goOn hp hphase .pending (by decide) p.validating p.looped
    next hphase =>
      cases hstep
      exact (h.goOn hp hphase .done (by decide) p.validating p.looped).setCompleted true
    next hphase =>
      cases hstep
      exact h.goOn hp hphase .pending (by decide) p.validating p.looped
    next hphase =>
      cases hstep
      exact (h.goOn hp hphase .pending (by decide) p.validating p.looped).setCompleted true
    next =>
      split at hstep
      next => exact nomatch hstep
      next =>
        cases hstep
        exact h.interrupted hp _
    next =>
      cases hstep
      exact (h.interrupted hp _).stop
    next => exact nomatch hstep

/-- A loop that is entered on a lost iteration yields what is not recorded. -/
theorem not_durable_of_lost (h : s.Inv) (hok : ¬ s.StepOk a)
    (hstep : s.step validates a = some s') : ¬ s'.Durable := by
  obtain ⟨rfl, hall⟩ := Classical.not_imp.mp hok
  obtain ⟨p, hp⟩ := Classical.not_forall.mp hall
  obtain ⟨hp, hlooped⟩ := Classical.not_imp.mp hp
  obtain ⟨hlost, hlooped⟩ := Classical.not_imp.mp hlooped
  rw [Option.mem_def] at hp
  cases hphase : p.phase with
  | method =>
    have hyield : s' = s.yieldTo p true := by
      simp only [step, hp, hphase, if_neg hlooped, Option.some.injEq] at hstep
      exact hstep.symm
    intro hdurable
    have hone : ahead p = 1 := if_pos (.inl hlost)
    have hiter := h.memory p hp
    have hreached : p.iteration ≤ s.recorded :=
      (hyield ▸ hdurable).reached ⟨p.iteration, s.recorded, true⟩
        (List.mem_append_right _ List.mem_cons_self)
    omega
  | _ => simp [step, hp, hphase] at hstep

/-! ## Runs -/

theorem inv_of_reach {recorded : Nat} (hr : Reach (step validates) StepOk (init recorded) s) :
    s.Inv :=
  Reach.invariant Inv (inv_init recorded) (fun _ _ _ h hok hstep => step_inv h hok hstep) hr

/-- Iterations are recorded before they run, as long as no loop is entered in a process that lost
the store of an iteration; and the first loop that is, breaks the promise. -/
theorem durableIterations (validates : Bool) (recorded : Nat) {s : State}
    (hr : Reach (step validates) StepOk (init recorded) s) :
    s.Durable ∧ ∀ a s', step validates s a = some s' → (s'.Durable ↔ s.StepOk a) := by
  have hinv := inv_of_reach hr
  refine ⟨hinv.durable, fun a s' hstep => ⟨fun hdurable => ?_, fun hok => ?_⟩⟩
  · exact Classical.byContradiction fun hok => not_durable_of_lost hinv hok hstep hdurable
  · exact (step_inv hinv hok hstep).durable

/-- Two iterations, with a store that is lost and a crash in the second. -/
def lostThenCrash : List Action :=
  [.recover, .dispatch, .enterLoop, .next false, .lock, .store .recorded, .resume false,
    .next false, .lock, .store .lost, .raises, .crash false, .recover, .dispatch, .enterLoop]

theorem durableIterations_lostThenCrash :
    RunOk (step true) StepOk (init 0) lostThenCrash ∧
      (last (step true) (init 0) lostThenCrash).yields =
        [⟨0, 0, true⟩, ⟨1, 1, false⟩, ⟨1, 1, true⟩] ∧
      (last (step true) (init 0) lostThenCrash).Durable := by
  have hok : RunOk (step true) StepOk (init 0) lostThenCrash := by decide +kernel
  have hr := reach_last lostThenCrash .init hok
  exact ⟨hok, by decide +kernel, (durableIterations true 0 hr).1⟩

/-- The store of iteration 1 is lost, and the method is run again in the same process. -/
def lostThenRetry : List Action :=
  [.recover, .dispatch, .enterLoop, .next false, .lock, .store .lost, .raises, .dispatch,
    .enterLoop]

theorem durableIterations_lostThenRetry :
    ∃ s, exec (step true) (init 0) lostThenRetry = some s ∧
      s.yields = [⟨0, 0, true⟩, ⟨1, 0, true⟩] ∧ ¬ s.Durable := by
  have hyields : (last (step true) (init 0) lostThenRetry).yields =
      [⟨0, 0, true⟩, ⟨1, 0, true⟩] := by decide +kernel
  refine ⟨_, exec_eq_last (by decide +kernel), hyields, fun hdurable => ?_⟩
  have hle := hdurable.reached ⟨1, 0, true⟩ (by rw [hyields]; decide)
  exact absurd hle (by decide)

end State

end Reboot.Workflows.ControlLoop
