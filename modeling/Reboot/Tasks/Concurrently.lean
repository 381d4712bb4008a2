import Mathlib.Algebra.Order.Field.Rat
import Mathlib.Data.List.Nodup
import Reboot.Lib.Run

/-!
# `concurrently()`

The generator `_concurrently` (`reboot/aio/concurrently.py`) with its
`AdaptiveConcurrencyLimiter`: `fill` pulls awaitables from the source and makes a task of each as
long as the limit allows, the loop waits until some are done, yields what they gave one after
another, and fills up between the yields; `finally` cancels what is left and waits for it.

> `Lossless`: every source element gives one item, paired with its own result or exception; no more
> tasks are unfinished than the limit allows; no task is unfinished once the generator has ended;
> and with `return_exceptions` the generator does not raise on its own.

The last does not hold (`losesNothing_cancelled`): `task.exception()` raises for a task that ended
cancelled, which `asyncio.gather`, whose behaviour the code means to match, gives as a value.
`exception or task.result()` raises an exception that is false, and the limiter divides by a round
trip time of zero. `losesNothing` has it that these three are all, and that a run ends.

Mirroring notes:
- A task is known by its place in the order of creation, which is that of the source. The
  dictionaries from tasks to elements and to start times are fields of the tasks: each task is
  taken once. Sets are lists without duplicates, and the choice from `done` is in the action.
- A task may finish at any time, with any outcome; a cancelled one need not end cancelled. The
  clock is read where the code reads it, and does not run backwards; it is an integer number of
  units. The limiter computes in rational numbers, and its limit is clamped whatever they are.
- `interrupt` is what comes from outside: `aclose`, an exception thrown in, or a cancellation of
  the consumer, at a yield or where the generator awaits something. A `KeyboardInterrupt` or
  `SystemExit` in a task ends the event loop, and is such an interruption for the generator. One
  while `finally` waits does not keep `gather` from waiting.
- The log is left out. So is a source that never ends.
-/

namespace Reboot.Tasks.Concurrent

open Reboot.Lib

/-! ## The limiter -/

def defaultMinWindowSamples : Nat := 5

def defaultInitialLimit : Nat := defaultMinWindowSamples

def defaultMaxLimit : Nat := 1000

def minLimit : Nat := 1

def rttTolerance : ℚ := 3 / 2

def smoothing : ℚ := 1 / 2

def growthFactor : ℚ := 1 / 2

def longWindow : ℚ := 100

def decay : ℚ := 2 / (longWindow + 1)

/-- `round`, with halves to the even side. -/
def roundHalfEven (q : ℚ) : Int :=
  let whole := q.floor
  let part := q - whole
  if part < 1 / 2 then whole
  else if 1 / 2 < part then whole + 1
  else if whole % 2 = 0 then whole
  else whole + 1

structure Limiter where
  limit : ℚ
  longRtt : Option ℚ
  windowSamples : List Nat
  deriving DecidableEq

namespace Limiter

def init (maxLimit : Nat) : Limiter :=
  ⟨(max (min defaultInitialLimit maxLimit) minLimit : Nat), none, []⟩

/-- The property `limit`. -/
def effective (maxLimit : Nat) (l : Limiter) : Nat :=
  (max (minLimit : Int) (min (maxLimit : Int) (roundHalfEven l.limit))).toNat

def shortRtt (samples : List Nat) : ℚ := (samples.sum : ℚ) / samples.length

/-- `_update_limit`; `none` if it divides by zero. -/
def update (maxLimit : Nat) (l : Limiter) : Option Limiter :=
  let short := shortRtt l.windowSamples
  match l.longRtt with
  | none => some { l with longRtt := some short }
  | some long =>
    if short = 0 then none
    else
      let gradient := max (1 / 2) (min 1 (rttTolerance * long / short))
      let newLimit := gradient * l.limit * (1 + growthFactor)
      let limit := (1 - smoothing) * l.limit + smoothing * newLimit
      some { l with
        longRtt := some (long + (short - long) * decay)
        limit := max minLimit (min maxLimit limit) }

/-- `on_sample` -/
def onSample (maxLimit : Nat) (l : Limiter) (rtt : Nat) : Option Limiter :=
  let l := { l with windowSamples := l.windowSamples ++ [rtt] }
  if defaultMinWindowSamples ≤ l.windowSamples.length then
    (l.update maxLimit).map fun l => { l with windowSamples := [] }
  else some l

/-- A window closes that is not the first, and all of its samples are zero. -/
def Degenerate (l : Limiter) (rtt : Nat) : Prop :=
  defaultMinWindowSamples ≤ (l.windowSamples ++ [rtt]).length ∧ l.longRtt ≠ none ∧
    ∀ sample ∈ l.windowSamples ++ [rtt], sample = 0

instance (l : Limiter) (rtt : Nat) : Decidable (l.Degenerate rtt) := by
  unfold Degenerate
  infer_instance

theorem effective_le {maxLimit : Nat} (h : minLimit ≤ maxLimit) (l : Limiter) :
    l.effective maxLimit ≤ maxLimit := by
  unfold effective minLimit at *
  omega

theorem one_le_effective (maxLimit : Nat) (l : Limiter) : 1 ≤ l.effective maxLimit := by
  unfold effective minLimit
  omega

theorem sum_eq_zero_iff {samples : List Nat} : samples.sum = 0 ↔ ∀ sample ∈ samples, sample = 0 := by
  induction samples with
  | nil => exact ⟨fun _ _ h => absurd h List.not_mem_nil, fun _ => rfl⟩
  | cons sample samples ih => rw [List.sum_cons, Nat.add_eq_zero_iff, ih, List.forall_mem_cons]

theorem shortRtt_eq_zero_iff {samples : List Nat} (h : samples ≠ []) :
    shortRtt samples = 0 ↔ ∀ sample ∈ samples, sample = 0 := by
  rw [← sum_eq_zero_iff]
  unfold shortRtt
  constructor
  · intro hzero
    rcases div_eq_zero_iff.mp hzero with hsum | hlength
    · exact Nat.cast_eq_zero.mp hsum
    · exact absurd (List.eq_nil_of_length_eq_zero (Nat.cast_eq_zero.mp hlength)) h
  · intro hsum
    rw [hsum, Nat.cast_zero, zero_div]

theorem onSample_eq_none_iff (maxLimit : Nat) (l : Limiter) (rtt : Nat) :
    l.onSample maxLimit rtt = none ↔ l.Degenerate rtt := by
  have hne : l.windowSamples ++ [rtt] ≠ [] := List.append_ne_nil_of_right_ne_nil _ (List.cons_ne_nil _ _)
  unfold onSample Degenerate update
  dsimp only
  split
  · next hfull =>
    rw [Option.map_eq_none_iff]
    cases hlong : l.longRtt with
    | none => exact ⟨fun h => (nomatch h), fun h => absurd rfl h.2.1⟩
    | some long =>
      dsimp only
      split
      · next hzero =>
        exact ⟨fun _ => ⟨hfull, (fun he => nomatch he), (shortRtt_eq_zero_iff hne).mp hzero⟩,
          fun _ => rfl⟩
      · next hzero =>
        exact ⟨fun h => (nomatch h), fun h => absurd ((shortRtt_eq_zero_iff hne).mpr h.2.2) hzero⟩
  · next hfull => exact ⟨fun h => (nomatch h), fun h => absurd h.1 hfull⟩

end Limiter

/-! ## Model -/

/-- How a task ends. -/
inductive Outcome (ε β : Type)
  | result (value : β)
  | exception (e : ε)
  | cancelled
  deriving DecidableEq

/-- What the generator raises on its own. -/
inductive Raised (ε : Type)
  | exception (e : ε)
  | cancelledError
  | zeroDivisionError
  deriving DecidableEq

/-- Why the generator is over. -/
inductive Ending (ε : Type)
  | exhausted
  | interrupted
  | sourceRaised
  | raised (error : Raised ε)
  deriving DecidableEq

structure Task (α ε β : Type) where
  element : Option α
  startTime : Nat
  outcome : Option (Outcome ε β)
  deriving DecidableEq

inductive Phase (ε : Type)
  /-- in `fill`, with what is left of `done` -/
  | filling (rest : List Nat)
  /-- in the loop over `done`; in `asyncio.wait` if nothing is left -/
  | looping (rest : List Nat)
  | yielding (rest : List Nat)
  /-- in `finally` -/
  | closing (how : Ending ε)
  | ended (how : Ending ε)
  deriving DecidableEq

namespace Phase

/-- What is left of `done`. -/
def rest {ε : Type} : Phase ε → List Nat
  | filling rest | looping rest | yielding rest => rest
  | _ => []

/-- How the generator ends or has ended. -/
def how {ε : Type} : Phase ε → Option (Ending ε)
  | closing how | ended how => some how
  | _ => none

/-- How far the generator is from where it has to wait for a task, or from its end. -/
def weight {ε : Type} : Phase ε → Nat
  | yielding _ => 5
  | filling _ => 4
  | looping [] => 3
  | looping (_ :: _) => 2
  | closing _ => 1
  | ended _ => 0

theorem weight_looping {ε : Type} {rest : List Nat} (h : rest ≠ []) :
    (looping rest : Phase ε).weight = 2 := by
  cases rest with
  | nil => exact absurd rfl h
  | cons i rest => rfl

theorem weight_of_running {ε : Type} {p : Phase ε} (h : p.how = none) : 1 < p.weight := by
  cases p with
  | yielding rest => exact (by decide : 1 < 5)
  | filling rest => exact (by decide : 1 < 4)
  | looping rest => cases rest <;> exact by simp [weight]
  | closing how => exact nomatch h
  | ended how => exact nomatch h

end Phase

/-- Whether `exception or task.result()` gives something. -/
def Outcome.returnable {ε β : Type} (truthy : ε → Bool) : Outcome ε β → Bool
  | result _ => true
  | exception e => truthy e
  | cancelled => false

/-- What `concurrently` is called with. -/
structure Config (α ε : Type) where
  source : List α
  /-- whether there is a `for_each`; the items are pairs then -/
  forEach : Bool
  returnExceptions : Bool
  limit : Option Nat
  adaptive : Bool
  /-- whether an exception is true as a condition -/
  truthy : ε → Bool
  positive : ∀ n ∈ limit, 0 < n
  required : adaptive = false → limit ≠ none

namespace Config

variable {α ε β : Type} (cfg : Config α ε)

def maxLimit : Nat := cfg.limit.getD defaultMaxLimit

def effectiveLimit (limiter : Limiter) : Nat :=
  if cfg.adaptive then limiter.effective cfg.maxLimit else cfg.maxLimit

/-- The element in the items of a task. -/
def elementOf (i : Nat) : Option α := if cfg.forEach then cfg.source[i]? else none

/-- What is yielded for a task that is done, or raised. -/
def item : Outcome ε β → Except (Raised ε) (Except ε β)
  | .result value => .ok (.ok value)
  | .exception e =>
    -- `exception or task.result()`
    if cfg.returnExceptions ∧ cfg.truthy e then .ok (.error e) else .error (.exception e)
  -- raised by `task.exception()`
  | .cancelled => .error .cancelledError

def sample (limiter : Limiter) (rtt : Nat) : Option Limiter :=
  if cfg.adaptive then limiter.onSample cfg.maxLimit rtt else some limiter

end Config

structure State (α ε β : Type) where
  tasks : List (Task α ε β)
  pending : List Nat
  exhausted : Bool
  limiter : Limiter
  clock : Nat
  phase : Phase ε
  /-- what was yielded, with the task; not part of the code -/
  yielded : List (Nat × Option α × Except ε β)
  deriving DecidableEq

inductive Action (ε β : Type)
  /-- the source gives an element or is exhausted -/
  | pull (now : Nat)
  | sourceRaises
  /-- `fill` is done -/
  | filled
  /-- `asyncio.wait` returns -/
  | wakes
  /-- a task of `done` is looked at -/
  | take (i now : Nat)
  /-- the consumer asks for the next item -/
  | resume
  | interrupt
  | finish (i : Nat) (outcome : Outcome ε β)
  /-- nothing is pending -/
  | leave
  /-- everything that was cancelled has finished -/
  | gathered
  deriving DecidableEq

namespace State

variable {α ε β : Type} (cfg : Config α ε)

def init : State α ε β :=
  ⟨[], [], false, .init cfg.maxLimit, 0, .filling [], []⟩

variable (s : State α ε β)

def finished (i : Nat) : Bool := (s.tasks[i]?.bind Task.outcome).isSome

def unfinished : List Nat := (List.range s.tasks.length).filter fun i => !s.finished i

/-- The condition of the loop in `fill`. -/
def Fills : Prop := s.pending.length < cfg.effectiveLimit s.limiter ∧ s.exhausted = false

instance : Decidable (s.Fills cfg) := by
  unfold Fills
  infer_instance

/-- `pending.discard(task)`, the sample of the limiter, and what the task gave. -/
def taken (rest : List Nat) (i now : Nat) (task : Task α ε β) (outcome : Outcome ε β) :
    State α ε β :=
  let s := { s with pending := s.pending.erase i, clock := now }
  match cfg.sample s.limiter (now - task.startTime) with
  | none => { s with phase := .closing (.raised .zeroDivisionError) }
  | some limiter =>
    match cfg.item outcome with
    | .error error => { s with limiter := limiter, phase := .closing (.raised error) }
    | .ok item =>
      { s with
        limiter := limiter
        yielded := s.yielded ++ [(i, task.element, item)]
        phase := .yielding (rest.erase i) }

def step : Action ε β → Option (State α ε β)
  | .pull now =>
    match s.phase with
    | .filling _ =>
      if s.Fills cfg ∧ s.clock ≤ now then
        if s.tasks.length < cfg.source.length then
          some { s with
            tasks := s.tasks ++ [⟨cfg.elementOf s.tasks.length, now, none⟩]
            pending := s.tasks.length :: s.pending
            clock := now }
        else some { s with exhausted := true, clock := now }
      else none
    | _ => none
  | .sourceRaises =>
    match s.phase with
    | .filling _ =>
      if s.Fills cfg then some { s with phase := .closing .sourceRaised } else none
    | _ => none
  | .filled =>
    match s.phase with
    | .filling rest => if s.Fills cfg then none else some { s with phase := .looping rest }
    | _ => none
  | .wakes =>
    match s.phase with
    | .looping [] =>
      if s.pending.filter s.finished = [] then none
      else some { s with phase := .looping (s.pending.filter s.finished) }
    | _ => none
  | .take i now =>
    match s.phase, s.tasks[i]? with
    | .looping rest, some task =>
      match task.outcome with
      | some outcome =>
        if i ∈ rest ∧ s.clock ≤ now then some (s.taken cfg rest i now task outcome) else none
      | none => none
    | _, _ => none
  | .resume =>
    match s.phase with
    | .yielding rest => some { s with phase := .filling rest }
    | _ => none
  | .interrupt =>
    match s.phase with
    | .yielding _ => some { s with phase := .closing .interrupted }
    | .filling _ => if s.Fills cfg then some { s with phase := .closing .interrupted } else none
    | .looping [] =>
      if s.pending = [] then none else some { s with phase := .closing .interrupted }
    | _ => none
  | .finish i outcome =>
    match s.tasks[i]? with
    | some task =>
      if task.outcome.isSome then none
      else some { s with tasks := s.tasks.set i { task with outcome := some outcome } }
    | none => none
  | .leave =>
    match s.phase with
    | .looping [] => if s.pending = [] then some { s with phase := .closing .exhausted } else none
    | _ => none
  | .gathered =>
    match s.phase with
    | .closing how =>
      if s.pending.all s.finished then some { s with phase := .ended how } else none
    | _ => none

/-! ## The promise -/

structure Lossless : Prop where
  /-- no task gives two items -/
  once : (s.yielded.map Prod.fst).Nodup
  /-- an item is the result or the exception of its own task, with its own element -/
  own : ∀ y ∈ s.yielded, ∃ (task : Task α ε β) (outcome : Outcome ε β),
    s.tasks[y.1]? = some task ∧ task.outcome = some outcome ∧ y.2.1 = cfg.elementOf y.1 ∧
    cfg.item outcome = .ok y.2.2
  bounded : s.unfinished.length ≤ max 1 cfg.maxLimit
  /-- when the generator has ended all tasks have finished -/
  settled : ∀ how, s.phase = .ended how → s.unfinished = []
  /-- and there is an item for each element, if nothing was raised or came from outside -/
  complete : s.phase = .ended .exhausted →
    ∀ i < cfg.source.length, i ∈ s.yielded.map Prod.fst
  quiet : cfg.returnExceptions = true → ∀ error, s.phase.how ≠ some (.raised error)

/-- With `return_exceptions`, the task that is looked at did not end cancelled nor raise an exception
that is false, and its round trip time does not close a window of zeros. -/
def StepOk : Action ε β → Prop
  | .take i now => cfg.returnExceptions = true → ∀ task ∈ s.tasks[i]?,
      ∀ outcome ∈ task.outcome, outcome.returnable cfg.truthy = true ∧
        (cfg.adaptive = true → ¬ s.limiter.Degenerate (now - task.startTime))
  | _ => True

instance (a : Action ε β) : Decidable (s.StepOk cfg a) := by
  cases a <;> unfold StepOk <;> infer_instance

/-! ## What a step can do -/

inductive Steps : Action ε β → State α ε β → Prop
  | pull {rest : List Nat} {now : Nat} (hphase : s.phase = .filling rest) (hfills : s.Fills cfg)
      (hlt : s.tasks.length < cfg.source.length) :
      Steps (.pull now) { s with
        tasks := s.tasks ++ [⟨cfg.elementOf s.tasks.length, now, none⟩]
        pending := s.tasks.length :: s.pending
        clock := now }
  | exhaust {rest : List Nat} {now : Nat} (hphase : s.phase = .filling rest) (hfills : s.Fills cfg)
      (hend : ¬ s.tasks.length < cfg.source.length) :
      Steps (.pull now) { s with exhausted := true, clock := now }
  | filled {rest : List Nat} (hphase : s.phase = .filling rest) (hfull : ¬ s.Fills cfg) :
      Steps .filled { s with phase := .looping rest }
  | wakes (hphase : s.phase = .looping []) (hdone : s.pending.filter s.finished ≠ []) :
      Steps .wakes { s with phase := .looping (s.pending.filter s.finished) }
  | take {rest : List Nat} {i now : Nat} {task : Task α ε β} {outcome : Outcome ε β}
      (hphase : s.phase = .looping rest) (htask : s.tasks[i]? = some task)
      (houtcome : task.outcome = some outcome) (hi : i ∈ rest) :
      Steps (.take i now) (s.taken cfg rest i now task outcome)
  | resume {rest : List Nat} (hphase : s.phase = .yielding rest) :
      Steps .resume { s with phase := .filling rest }
  /-- the source raises, something comes from outside, or nothing is left -/
  | close {a : Action ε β} {how : Ending ε} (hother : ∀ i now, a ≠ .take i now)
      (hrunning : s.phase.how = none)
      (hquiet : ∀ error, how ≠ .raised error)
      (hleft : how = .exhausted → s.phase = .looping [] ∧ s.pending = []) :
      Steps a { s with phase := .closing how }
  | finish {i : Nat} {task : Task α ε β} {outcome : Outcome ε β} (htask : s.tasks[i]? = some task)
      (hnot : ¬ task.outcome.isSome = true) :
      Steps (.finish i outcome) { s with
        tasks := s.tasks.set i { task with outcome := some outcome } }
  | gathered {how : Ending ε} (hphase : s.phase = .closing how)
      (hall : ∀ i ∈ s.pending, s.finished i = true) :
      Steps .gathered { s with phase := .ended how }

variable {cfg} {s} in
theorem steps_of_step {a : Action ε β} {s' : State α ε β} (hstep : s.step cfg a = some s') :
    Steps cfg s a s' := by
  cases a with
  | pull now =>
    unfold step at hstep
    dsimp only at hstep
    split at hstep
    · next hphase =>
      split at hstep
      · next hfills =>
        split at hstep
        · next hlt =>
          obtain rfl := Option.some.inj hstep
          exact .pull hphase hfills.1 hlt
        · next hlt =>
          obtain rfl := Option.some.inj hstep
          exact .exhaust hphase hfills.1 hlt
      · exact nomatch hstep
    · exact nomatch hstep
  | sourceRaises =>
    unfold step at hstep
    dsimp only at hstep
    split at hstep
    · next hphase =>
      split at hstep
      · obtain rfl := Option.some.inj hstep
        exact .close (fun _ _ he => nomatch he) (by rw [hphase]; rfl) (fun _ he => nomatch he)
          fun he => nomatch he
      · exact nomatch hstep
    · exact nomatch hstep
  | filled =>
    unfold step at hstep
    dsimp only at hstep
    split at hstep
    · next hphase =>
      split at hstep
      · exact nomatch hstep
      · next hfull =>
        obtain rfl := Option.some.inj hstep
        exact .filled hphase hfull
    · exact nomatch hstep
  | wakes =>
    unfold step at hstep
    dsimp only at hstep
    split at hstep
    · next hphase =>
      split at hstep
      · exact nomatch hstep
      · next hdone =>
        obtain rfl := Option.some.inj hstep
        exact .wakes hphase hdone
    · exact nomatch hstep
  | take i now =>
    unfold step at hstep
    dsimp only at hstep
    split at hstep
    · next hphase htask =>
      split at hstep
      · next houtcome =>
        split at hstep
        · next hi =>
          obtain rfl := Option.some.inj hstep
          exact .take hphase htask houtcome hi.1
        · exact nomatch hstep
      · exact nomatch hstep
    · exact nomatch hstep
  | resume =>
    unfold step at hstep
    dsimp only at hstep
    split at hstep
    · next hphase =>
      obtain rfl := Option.some.inj hstep
      exact .resume hphase
    · exact nomatch hstep
  | interrupt =>
    unfold step at hstep
    dsimp only at hstep
    split at hstep
    · next hphase =>
      obtain rfl := Option.some.inj hstep
      exact .close (fun _ _ he => nomatch he) (by rw [hphase]; rfl) (fun _ he => nomatch he)
        fun he => nomatch he
    · next hphase =>
      split at hstep
      · obtain rfl := Option.some.inj hstep
        exact .close (fun _ _ he => nomatch he) (by rw [hphase]; rfl) (fun _ he => nomatch he)
          fun he => nomatch he
      · exact nomatch hstep
    · next hphase =>
      split at hstep
      · exact nomatch hstep
      · obtain rfl := Option.some.inj hstep
        exact .close (fun _ _ he => nomatch he) (by rw [hphase]; rfl) (fun _ he => nomatch he)
          fun he => nomatch he
    · exact nomatch hstep
  | finish i outcome =>
    unfold step at hstep
    dsimp only at hstep
    split at hstep
    · next htask =>
      split at hstep
      · exact nomatch hstep
      · next hnot =>
        obtain rfl := Option.some.inj hstep
        exact .finish htask hnot
    · exact nomatch hstep
  | leave =>
    unfold step at hstep
    dsimp only at hstep
    split at hstep
    · next hphase =>
      split at hstep
      · next hempty =>
        obtain rfl := Option.some.inj hstep
        exact .close (fun _ _ he => nomatch he) (by rw [hphase]; rfl) (fun _ he => nomatch he)
          fun _ => ⟨hphase, hempty⟩
      · exact nomatch hstep
    · exact nomatch hstep
  | gathered =>
    unfold step at hstep
    dsimp only at hstep
    split at hstep
    · next hphase =>
      split at hstep
      · next hall =>
        obtain rfl := Option.some.inj hstep
        exact .gathered hphase (List.all_eq_true.mp hall)
      · exact nomatch hstep
    · exact nomatch hstep

/-! ## Invariant -/

/-- What holds in every state, whether the steps meet the condition or not. -/
structure Inv (s : State α ε β) : Prop where
  tasks_le : s.tasks.length ≤ cfg.source.length
  element : ∀ (i : Nat) (task : Task α ε β), s.tasks[i]? = some task →
    task.element = cfg.elementOf i
  exhausted : s.exhausted = true → s.tasks.length = cfg.source.length
  nodup : s.pending.Nodup
  pending_lt : ∀ i ∈ s.pending, i < s.tasks.length
  bounded : s.pending.length ≤ cfg.maxLimit
  /-- a task that is not pending was done -/
  done : ∀ i < s.tasks.length, i ∉ s.pending → s.finished i = true
  once : (s.yielded.map Prod.fst).Nodup
  own : ∀ y ∈ s.yielded, ∃ (task : Task α ε β) (outcome : Outcome ε β),
    s.tasks[y.1]? = some task ∧ task.outcome = some outcome ∧ y.2.1 = cfg.elementOf y.1 ∧
    cfg.item outcome = .ok y.2.2
  apart : ∀ y ∈ s.yielded, y.1 ∉ s.pending
  accounted : (∀ error, s.phase.how ≠ some (.raised error)) →
    ∀ i < s.tasks.length, i ∈ s.pending ∨ i ∈ s.yielded.map Prod.fst
  rest : s.phase.rest.Nodup ∧ ∀ i ∈ s.phase.rest, i ∈ s.pending ∧ s.finished i = true
  drained : s.phase = .looping [] → s.pending = [] → s.exhausted = true
  left : s.phase.how = some .exhausted → s.pending = [] ∧ s.exhausted = true
  settled : ∀ how, s.phase = .ended how → ∀ i ∈ s.pending, s.finished i = true

variable {cfg} {s}

theorem maxLimit_pos (cfg : Config α ε) : 1 ≤ cfg.maxLimit := by
  unfold Config.maxLimit
  cases hlimit : cfg.limit with
  | none => decide
  | some n => exact cfg.positive n hlimit

theorem effectiveLimit_le (cfg : Config α ε) (limiter : Limiter) :
    1 ≤ cfg.effectiveLimit limiter ∧ cfg.effectiveLimit limiter ≤ cfg.maxLimit := by
  have hpos := maxLimit_pos cfg
  unfold Config.effectiveLimit
  split
  · exact ⟨Limiter.one_le_effective _ _, Limiter.effective_le hpos _⟩
  · exact ⟨hpos, Nat.le_refl _⟩

theorem finished_iff {i : Nat} : s.finished i = true ↔
    ∃ (task : Task α ε β) (outcome : Outcome ε β),
      s.tasks[i]? = some task ∧ task.outcome = some outcome := by
  unfold finished
  rw [Option.isSome_iff_exists]
  constructor
  · rintro ⟨outcome, houtcome⟩
    obtain ⟨task, htask, houtcome⟩ := Option.bind_eq_some_iff.mp houtcome
    exact ⟨task, outcome, htask, houtcome⟩
  · rintro ⟨task, outcome, htask, houtcome⟩
    exact ⟨outcome, Option.bind_eq_some_iff.mpr ⟨task, htask, houtcome⟩⟩

theorem mem_unfinished {i : Nat} :
    i ∈ s.unfinished ↔ i < s.tasks.length ∧ s.finished i = false := by
  unfold unfinished
  rw [List.mem_filter, List.mem_range, Bool.not_eq_true']

theorem Inv.unfinished_le (h : s.Inv cfg) : s.unfinished.length ≤ s.pending.length := by
  refine List.Nodup.length_le_of_subset (List.nodup_range.filter _) fun i hi => ?_
  obtain ⟨hlt, hnot⟩ := mem_unfinished.mp hi
  by_cases hmem : i ∈ s.pending
  · exact hmem
  · exact absurd (h.done i hlt hmem) (by rw [hnot]; decide)

theorem Inv.unfinished_nil (h : s.Inv cfg) (hall : ∀ i ∈ s.pending, s.finished i = true) :
    s.unfinished = [] := by
  refine List.eq_nil_iff_forall_not_mem.mpr fun i hi => ?_
  obtain ⟨hlt, hnot⟩ := mem_unfinished.mp hi
  by_cases hmem : i ∈ s.pending
  · exact absurd (hall i hmem) (by rw [hnot]; decide)
  · exact absurd (h.done i hlt hmem) (by rw [hnot]; decide)

theorem inv_init (cfg : Config α ε) : (init cfg : State α ε β).Inv cfg where
  tasks_le := Nat.zero_le _
  element _ _ h := nomatch h
  exhausted h := nomatch h
  nodup := List.nodup_nil
  pending_lt _ h := absurd h List.not_mem_nil
  bounded := Nat.zero_le _
  done _ h := absurd h (Nat.not_lt_zero _)
  once := List.nodup_nil
  own _ h := absurd h List.not_mem_nil
  apart _ h := absurd h List.not_mem_nil
  accounted _ _ h := absurd h (Nat.not_lt_zero _)
  rest := ⟨List.nodup_nil, fun _ h => absurd h List.not_mem_nil⟩
  drained h := nomatch h
  left h := nomatch h
  settled _ h := nomatch h

/-- The generator goes on elsewhere. -/
theorem Inv.goTo (h : s.Inv cfg) (p : Phase ε)
    (hrest : p.rest.Nodup ∧ ∀ i ∈ p.rest, i ∈ s.pending ∧ s.finished i = true)
    (hraised : (∀ error, p.how ≠ some (.raised error)) → ∀ error, s.phase.how ≠ some (.raised error))
    (hdrained : p = .looping [] → s.pending = [] → s.exhausted = true)
    (hleft : p.how = some .exhausted → s.pending = [] ∧ s.exhausted = true)
    (hsettled : ∀ how, p = .ended how → ∀ i ∈ s.pending, s.finished i = true) :
    Inv cfg { s with phase := p } :=
  ⟨h.tasks_le, h.element, h.exhausted, h.nodup, h.pending_lt, h.bounded, h.done, h.once, h.own,
    h.apart, fun hnot => h.accounted (hraised hnot), hrest, hdrained, hleft, hsettled⟩

/-- The generator begins to end where it was in the loop. -/
theorem Inv.close (h : s.Inv cfg) (hrunning : s.phase.how = none) (how : Ending ε)
    (hleft : how = .exhausted → s.pending = [] ∧ s.exhausted = true) :
    Inv cfg { s with phase := .closing how } := by
  refine h.goTo _ ⟨List.nodup_nil, fun _ hi => absurd hi List.not_mem_nil⟩ ?_ (fun he => nomatch he)
    (fun he => hleft (Option.some.inj he)) fun _ he => nomatch he
  intro _ error
  rw [hrunning]
  exact fun he => nomatch he

/-- `fill` makes a task of an awaitable. -/
theorem Inv.pull (h : s.Inv cfg) {rest : List Nat} (hphase : s.phase = .filling rest)
    (hfills : s.Fills cfg) (hlt : s.tasks.length < cfg.source.length) (now : Nat) :
    Inv cfg { s with
      tasks := s.tasks ++ [⟨cfg.elementOf s.tasks.length, now, none⟩]
      pending := s.tasks.length :: s.pending
      clock := now } := by
  have hold : ∀ {i : Nat}, i < s.tasks.length →
      (s.tasks ++ [⟨cfg.elementOf s.tasks.length, now, none⟩])[i]? = s.tasks[i]? :=
    fun hi => List.getElem?_append_left hi
  have hnew : s.tasks.length ∉ s.pending := fun hmem => Nat.lt_irrefl _ (h.pending_lt _ hmem)
  have hfinished : ∀ {i : Nat}, i < s.tasks.length → finished { s with
      tasks := s.tasks ++ [⟨cfg.elementOf s.tasks.length, now, none⟩]
      pending := s.tasks.length :: s.pending
      clock := now } i = s.finished i := by
    intro i hi
    unfold finished
    rw [hold hi]
  have hlength : ∀ task : Task α ε β, (s.tasks ++ [task]).length = s.tasks.length + 1 :=
    fun _ => List.length_append
  refine ⟨?_, ?_, ?_, List.nodup_cons.mpr ⟨hnew, h.nodup⟩, ?_, ?_, ?_, h.once, ?_, ?_, ?_,
    ⟨h.rest.1, ?_⟩, ?_, ?_, ?_⟩
  · show (s.tasks ++ [_]).length ≤ _
    rw [hlength]
    exact hlt
  · intro i task htask
    by_cases hi : i < s.tasks.length
    · exact h.element i task ((hold hi).symm.trans htask)
    · have hilt := (List.getElem?_eq_some_iff.mp htask).1
      have hieq : i = s.tasks.length := by
        rw [hlength] at hilt
        omega
      subst hieq
      obtain rfl := Option.some.inj (List.getElem?_concat_length.symm.trans htask)
      rfl
  · intro hexhausted
    exact nomatch hfills.2.symm.trans hexhausted
  · intro i hi
    show i < (s.tasks ++ [_]).length
    rw [hlength]
    rcases List.mem_cons.mp hi with rfl | hi
    · omega
    · have := h.pending_lt i hi
      omega
  · have hle := (effectiveLimit_le cfg s.limiter).2
    have hlt := hfills.1
    show s.pending.length + 1 ≤ cfg.maxLimit
    omega
  · intro i hi hnot
    have hi : i < s.tasks.length + 1 := hlength _ ▸ hi
    have hne : i ≠ s.tasks.length := fun he => hnot (he ▸ List.mem_cons_self)
    have hilt : i < s.tasks.length := by omega
    rw [hfinished hilt]
    exact h.done i hilt fun hmem => hnot (List.mem_cons_of_mem _ hmem)
  · intro y hy
    obtain ⟨task, outcome, htask, hrest⟩ := h.own y hy
    exact ⟨task, outcome, (hold (List.getElem?_eq_some_iff.mp htask).1).trans htask, hrest⟩
  · intro y hy hmem
    rcases List.mem_cons.mp hmem with he | hmem
    · obtain ⟨task, -, htask, -⟩ := h.own y hy
      have := (List.getElem?_eq_some_iff.mp htask).1
      omega
    · exact h.apart y hy hmem
  · intro hnot i hi
    have hi : i < s.tasks.length + 1 := hlength _ ▸ hi
    by_cases hilt : i < s.tasks.length
    · exact (h.accounted hnot i hilt).imp_left (List.mem_cons_of_mem _)
    · have hieq : i = s.tasks.length := by omega
      exact Or.inl (hieq ▸ List.mem_cons_self)
  · intro i hi
    obtain ⟨hmem, hdone⟩ := h.rest.2 i hi
    exact ⟨List.mem_cons_of_mem _ hmem, (hfinished (h.pending_lt i hmem)).trans hdone⟩
  · exact fun he => nomatch hphase.symm.trans he
  · intro he
    have he : s.phase.how = some .exhausted := he
    rw [hphase] at he
    exact nomatch he
  · exact fun how he => nomatch hphase.symm.trans he

/-- The source is at its end. -/
theorem Inv.exhaust (h : s.Inv cfg) {rest : List Nat} (hphase : s.phase = .filling rest)
    (hend : ¬ s.tasks.length < cfg.source.length) (now : Nat) :
    Inv cfg { s with exhausted := true, clock := now } := by
  have hle := h.tasks_le
  refine ⟨h.tasks_le, h.element, fun _ => Nat.le_antisymm hle (Nat.le_of_not_lt hend), h.nodup,
    h.pending_lt, h.bounded, h.done, h.once, h.own, h.apart, h.accounted, h.rest, fun _ _ => rfl,
    ?_, h.settled⟩
  intro he
  have he : s.phase.how = some .exhausted := he
  rw [hphase] at he
  exact nomatch he

/-- A task finishes. -/
theorem Inv.finish (h : s.Inv cfg) {i : Nat} {task : Task α ε β} (htask : s.tasks[i]? = some task)
    (hnot : ¬ task.outcome.isSome = true) (outcome : Outcome ε β) :
    Inv cfg { s with tasks := s.tasks.set i { task with outcome := some outcome } } := by
  have hilt := (List.getElem?_eq_some_iff.mp htask).1
  have hself : (s.tasks.set i { task with outcome := some outcome })[i]? =
      some { task with outcome := some outcome } := List.getElem?_set_self hilt
  have hother : ∀ {j : Nat}, j ≠ i →
      (s.tasks.set i { task with outcome := some outcome })[j]? = s.tasks[j]? :=
    fun hj => List.getElem?_set_ne (Ne.symm hj)
  have hlength : (s.tasks.set i { task with outcome := some outcome }).length = s.tasks.length :=
    List.length_set
  -- what was finished stays as it is
  have hmono : ∀ {j : Nat}, s.finished j = true → finished { s with
      tasks := s.tasks.set i { task with outcome := some outcome } } j = true := by
    intro j hj
    obtain ⟨other, outcome', hother', houtcome'⟩ := finished_iff.mp hj
    by_cases hji : j = i
    · subst hji
      exact finished_iff.mpr ⟨_, outcome, hself, rfl⟩
    · exact finished_iff.mpr ⟨other, outcome', (hother hji).trans hother', houtcome'⟩
  refine ⟨?_, ?_, ?_, h.nodup, ?_, h.bounded, ?_, h.once, ?_, h.apart, ?_,
    ⟨h.rest.1, fun j hj => ⟨(h.rest.2 j hj).1, hmono (h.rest.2 j hj).2⟩⟩, h.drained, h.left,
    fun how he j hj => hmono (h.settled how he j hj)⟩
  · show (s.tasks.set i _).length ≤ _
    rw [hlength]
    exact h.tasks_le
  · intro j other hj
    by_cases hji : j = i
    · subst hji
      obtain rfl := Option.some.inj (hself.symm.trans hj)
      exact h.element j task htask
    · exact h.element j other ((hother hji).symm.trans hj)
  · intro hexhausted
    show (s.tasks.set i _).length = _
    rw [hlength]
    exact h.exhausted hexhausted
  · intro j hj
    show j < (s.tasks.set i _).length
    rw [hlength]
    exact h.pending_lt j hj
  · intro j hj hmem
    have hj : j < s.tasks.length := hlength ▸ hj
    exact hmono (h.done j hj hmem)
  · intro y hy
    obtain ⟨other, outcome', hy', houtcome', hrest⟩ := h.own y hy
    have hne : y.1 ≠ i := by
      intro he
      rw [he] at hy'
      obtain rfl := Option.some.inj (htask.symm.trans hy')
      exact hnot (Option.isSome_iff_exists.mpr ⟨outcome', houtcome'⟩)
    exact ⟨other, outcome', (hother hne).trans hy', houtcome', hrest⟩
  · intro hquiet j hj
    have hj : j < s.tasks.length := hlength ▸ hj
    exact h.accounted hquiet j hj

/-- A task of `done` is looked at: the generator yields what it gave, or raises. -/
theorem Inv.take (h : s.Inv cfg) {rest : List Nat} (hphase : s.phase = .looping rest) {i : Nat}
    {task : Task α ε β} (htask : s.tasks[i]? = some task) {outcome : Outcome ε β}
    (houtcome : task.outcome = some outcome) (hi : i ∈ rest) (now : Nat) :
    (s.taken cfg rest i now task outcome).Inv cfg := by
  have hrest := h.rest
  rw [hphase] at hrest
  obtain ⟨hnodup, hdone⟩ : rest.Nodup ∧ ∀ j ∈ rest, j ∈ s.pending ∧ s.finished j = true := hrest
  have hpending : ∀ {j : Nat}, j ∈ s.pending.erase i ↔ j ≠ i ∧ j ∈ s.pending :=
    h.nodup.mem_erase_iff
  have hfinished : ∀ j < s.tasks.length, j ∉ s.pending.erase i → s.finished j = true := by
    intro j hj hnot
    by_cases hji : j = i
    · exact hji ▸ (hdone i hi).2
    · exact h.done j hj fun hmem => hnot (hpending.mpr ⟨hji, hmem⟩)
  have hlength : (s.pending.erase i).length ≤ cfg.maxLimit :=
    Nat.le_trans List.length_erase_le h.bounded
  have hapart : ∀ y ∈ s.yielded, y.1 ∉ s.pending.erase i :=
    fun y hy hmem => h.apart y hy (hpending.mp hmem).2
  have hraise : ∀ (limiter : Limiter) (error : Raised ε), Inv cfg { s with
      pending := s.pending.erase i, clock := now, limiter := limiter,
      phase := .closing (.raised error) } := fun limiter error =>
    ⟨h.tasks_le, h.element, h.exhausted, h.nodup.erase i,
      fun j hj => h.pending_lt j (hpending.mp hj).2, hlength, hfinished, h.once, h.own, hapart,
      fun hnot => absurd rfl (hnot error),
      ⟨List.nodup_nil, fun _ hj => absurd hj List.not_mem_nil⟩, (fun he => nomatch he),
      (fun he => nomatch he), fun _ he => nomatch he⟩
  unfold taken
  dsimp only
  cases cfg.sample s.limiter (now - task.startTime) with
  | none => exact hraise s.limiter .zeroDivisionError
  | some limiter =>
    cases hitem : cfg.item outcome with
    | error error => exact hraise limiter error
    | ok item =>
      have hrunning : ∀ error, s.phase.how ≠ some (.raised error) := by
        intro error
        rw [hphase]
        exact fun he => nomatch he
      refine ⟨h.tasks_le, h.element, h.exhausted, h.nodup.erase i,
        fun j hj => h.pending_lt j (hpending.mp hj).2, hlength, hfinished, ?_, ?_, ?_, ?_,
        ⟨hnodup.erase i, ?_⟩, (fun he => nomatch he), (fun he => nomatch he), fun _ he => nomatch he⟩
      · show ((s.yielded ++ [(i, task.element, item)]).map Prod.fst).Nodup
        rw [List.map_append]
        refine List.nodup_append.mpr ⟨h.once, List.nodup_singleton _, ?_⟩
        rintro a ha b hb rfl
        obtain ⟨y, hy, rfl⟩ := List.mem_map.mp ha
        exact h.apart y hy (List.mem_singleton.mp hb ▸ (hdone i hi).1)
      · intro y hy
        rcases List.mem_append.mp hy with hy | hy
        · exact h.own y hy
        · obtain rfl := List.mem_singleton.mp hy
          exact ⟨task, outcome, htask, houtcome, h.element i task htask, hitem⟩
      · intro y hy hmem
        rcases List.mem_append.mp hy with hy | hy
        · exact hapart y hy hmem
        · obtain rfl := List.mem_singleton.mp hy
          exact (hpending.mp hmem).1 rfl
      · intro _ j hj
        show j ∈ s.pending.erase i ∨ j ∈ (s.yielded ++ [(i, task.element, item)]).map Prod.fst
        rw [List.map_append, List.mem_append]
        by_cases hji : j = i
        · exact Or.inr (Or.inr (List.mem_singleton.mpr hji))
        · rcases h.accounted hrunning j hj with hmem | hmem
          · exact Or.inl (hpending.mpr ⟨hji, hmem⟩)
          · exact Or.inr (Or.inl hmem)
      · intro j hj
        obtain ⟨hji, hmem⟩ := hnodup.mem_erase_iff.mp hj
        exact ⟨hpending.mpr ⟨hji, (hdone j hmem).1⟩, (hdone j hmem).2⟩

/-! ## Steps and runs -/

theorem step_inv (h : s.Inv cfg) (a : Action ε β) {s' : State α ε β}
    (hstep : s.step cfg a = some s') : s'.Inv cfg := by
  cases steps_of_step hstep with
  | pull hphase hfills hlt => exact h.pull hphase hfills hlt _
  | exhaust hphase _ hend => exact h.exhaust hphase hend _
  | filled hphase hfull =>
    have hrest := h.rest
    rw [hphase] at hrest
    refine h.goTo _ hrest ?_ ?_ (fun he => nomatch he) fun _ he => nomatch he
    · intro _ error
      rw [hphase]
      exact fun he => nomatch he
    · -- with nothing pending, only the end of the source keeps `fill` from going on
      intro _ hempty
      by_cases hexhausted : s.exhausted = true
      · exact hexhausted
      · refine absurd ⟨?_, Bool.eq_false_of_not_eq_true hexhausted⟩ hfull
        rw [hempty]
        exact (effectiveLimit_le cfg s.limiter).1
  | wakes hphase hdone =>
    refine h.goTo _ ⟨h.nodup.filter _, fun i hi => List.mem_filter.mp hi⟩ ?_ ?_
      (fun he => nomatch he) fun _ he => nomatch he
    · intro _ error
      rw [hphase]
      exact fun he => nomatch he
    · exact fun he => absurd (Phase.looping.inj he) hdone
  | take hphase htask houtcome hi => exact h.take hphase htask houtcome hi _
  | resume hphase =>
    have hrest := h.rest
    rw [hphase] at hrest
    refine h.goTo _ hrest ?_ (fun he => nomatch he) (fun he => nomatch he) fun _ he => nomatch he
    intro _ error
    rw [hphase]
    exact fun he => nomatch he
  | close _ hrunning _ hleft =>
    refine h.close hrunning _ fun he => ?_
    obtain ⟨hphase, hempty⟩ := hleft he
    exact ⟨hempty, h.drained hphase hempty⟩
  | finish htask hnot => exact h.finish htask hnot _
  | gathered hphase hall =>
    have hhow := congrArg Phase.how hphase
    refine h.goTo _ ⟨List.nodup_nil, fun _ hi => absurd hi List.not_mem_nil⟩ ?_
      (fun he => nomatch he) (fun he => h.left (hhow.trans he)) fun _ _ => hall
    intro hnot error he
    exact hnot error (hhow.symm.trans he)

theorem sample_eq_none_iff (cfg : Config α ε) (limiter : Limiter) (rtt : Nat) :
    cfg.sample limiter rtt = none ↔ cfg.adaptive = true ∧ limiter.Degenerate rtt := by
  unfold Config.sample
  split
  · next hadaptive =>
    rw [Limiter.onSample_eq_none_iff]
    exact ⟨fun h => ⟨hadaptive, h⟩, And.right⟩
  · next hfixed => exact ⟨fun h => (nomatch h), fun h => absurd h.1 hfixed⟩

theorem item_of_returnable (hreturn : cfg.returnExceptions = true) {outcome : Outcome ε β}
    (h : outcome.returnable cfg.truthy = true) : ∃ item, cfg.item outcome = .ok item := by
  cases outcome with
  | result value => exact ⟨_, rfl⟩
  | exception e => exact ⟨_, if_pos ⟨hreturn, h⟩⟩
  | cancelled => exact nomatch h

theorem item_of_not_returnable {outcome : Outcome ε β}
    (h : ¬ outcome.returnable cfg.truthy = true) : ∃ error, cfg.item outcome = .error error := by
  cases outcome with
  | result value => exact absurd rfl h
  | exception e => exact ⟨_, if_neg fun hand => h hand.2⟩
  | cancelled => exact ⟨_, rfl⟩

/-- With `return_exceptions` the generator raises for a task exactly in these three cases. -/
theorem taken_quiet_iff (hreturn : cfg.returnExceptions = true) (rest : List Nat) (i now : Nat)
    (task : Task α ε β) (outcome : Outcome ε β) :
    (∀ error, (s.taken cfg rest i now task outcome).phase.how ≠ some (.raised error)) ↔
      outcome.returnable cfg.truthy = true ∧
        (cfg.adaptive = true → ¬ s.limiter.Degenerate (now - task.startTime)) := by
  unfold taken
  dsimp only
  cases hsample : cfg.sample s.limiter (now - task.startTime) with
  | none =>
    obtain ⟨hadaptive, hdegenerate⟩ := (sample_eq_none_iff cfg _ _).mp hsample
    exact ⟨fun h => absurd rfl (h .zeroDivisionError), fun h => absurd hdegenerate (h.2 hadaptive)⟩
  | some limiter =>
    have hsampled : cfg.adaptive = true → ¬ s.limiter.Degenerate (now - task.startTime) := by
      intro hadaptive hdegenerate
      exact nomatch hsample.symm.trans ((sample_eq_none_iff cfg _ _).mpr ⟨hadaptive, hdegenerate⟩)
    by_cases hplain : outcome.returnable cfg.truthy = true
    · obtain ⟨item, hitem⟩ := item_of_returnable hreturn hplain
      rw [hitem]
      exact ⟨fun _ => ⟨hplain, hsampled⟩, fun _ _ he => nomatch he⟩
    · obtain ⟨error, herror⟩ := item_of_not_returnable hplain
      rw [herror]
      exact ⟨fun h => absurd rfl (h error), fun h => absurd h.1 hplain⟩

/-- The generator does not raise on its own if it did not and the step meets the condition, and only
then. -/
theorem quiet_step_iff (hreturn : cfg.returnExceptions = true)
    (hquiet : ∀ error, s.phase.how ≠ some (.raised error)) {a : Action ε β} {s' : State α ε β}
    (hstep : s.step cfg a = some s') :
    (∀ error, s'.phase.how ≠ some (.raised error)) ↔ s.StepOk cfg a := by
  have hok : (∀ i now, a ≠ .take i now) → s.StepOk cfg a := by
    intro hnot
    cases a with
    | take i now => exact absurd rfl (hnot i now)
    | _ => trivial
  cases steps_of_step hstep with
  | @take rest i now task outcome hphase htask houtcome hi =>
    rw [taken_quiet_iff hreturn]
    constructor
    · intro hfine _ task' htask' outcome' houtcome'
      obtain rfl := Option.some.inj (htask.symm.trans htask')
      obtain rfl := Option.some.inj (houtcome.symm.trans houtcome')
      exact hfine
    · exact fun hok => hok hreturn task htask outcome houtcome
  | pull => exact ⟨fun _ => trivial, fun _ => hquiet⟩
  | exhaust => exact ⟨fun _ => trivial, fun _ => hquiet⟩
  | finish => exact ⟨fun _ => trivial, fun _ => hquiet⟩
  | filled => exact ⟨fun _ => trivial, fun _ _ he => nomatch he⟩
  | wakes => exact ⟨fun _ => trivial, fun _ _ he => nomatch he⟩
  | resume => exact ⟨fun _ => trivial, fun _ _ he => nomatch he⟩
  | close hother _ hraised _ =>
    exact ⟨fun _ => hok hother, fun _ error he => hraised error (Option.some.inj he)⟩
  | gathered hphase _ =>
    have hhow := congrArg Phase.how hphase
    exact ⟨fun _ => trivial, fun _ error he => hquiet error (hhow.trans he)⟩

theorem lossless_of_inv (h : s.Inv cfg)
    (hquiet : cfg.returnExceptions = true → ∀ error, s.phase.how ≠ some (.raised error)) :
    s.Lossless cfg where
  once := h.once
  own := h.own
  bounded := Nat.le_trans h.unfinished_le (Nat.le_trans h.bounded (Nat.le_max_right _ _))
  settled how hended := h.unfinished_nil (h.settled how hended)
  complete hended i hi := by
    have hhow : s.phase.how = some .exhausted := by
      rw [hended]
      rfl
    obtain ⟨hpending, hexhausted⟩ := h.left hhow
    have hmem := h.accounted (fun error he => nomatch hhow.symm.trans he) i
      (by rw [h.exhausted hexhausted]; exact hi)
    rw [hpending] at hmem
    exact hmem.resolve_left List.not_mem_nil
  quiet := hquiet

theorem inv_of_reach {ok : State α ε β → Action ε β → Prop}
    (hr : Reach (step cfg) ok (init cfg) s) : s.Inv cfg :=
  hr.invariant (Inv cfg) (inv_init cfg) fun _ a _ h _ hstep => step_inv h a hstep

theorem quiet_of_reach (hr : Reach (step cfg) (StepOk cfg) (init cfg) s) :
    cfg.returnExceptions = true → ∀ error, s.phase.how ≠ some (.raised error) := by
  intro hreturn
  refine hr.invariant (fun s => ∀ error, s.phase.how ≠ some (.raised error)) ?_ ?_
  · exact fun _ he => nomatch he
  · intro s a s' hquiet hok hstep
    exact (quiet_step_iff hreturn hquiet hstep).mpr hok

/-! ## The end of a run -/

/-- A task that has not finished. -/
def running (task : Task α ε β) : Bool := task.outcome.isNone

variable (cfg) (s) in
/-- What is left to do. -/
def toDo : Nat :=
  6 * (cfg.source.length - s.tasks.length) + 4 * s.pending.length + s.tasks.countP running +
    (if s.exhausted then 0 else 1) + s.phase.weight

theorem countP_finish {i : Nat} {task : Task α ε β} (htask : s.tasks[i]? = some task)
    (hnot : ¬ task.outcome.isSome = true) (outcome : Outcome ε β) :
    (s.tasks.set i { task with outcome := some outcome }).countP running <
      s.tasks.countP running := by
  obtain ⟨hlt, hget⟩ := List.getElem?_eq_some_iff.mp htask
  have hrunning : running task = true := by
    unfold running
    rwa [Option.isNone_iff_eq_none, ← Option.not_isSome_iff_eq_none]
  have hpos : 0 < s.tasks.countP running :=
    List.countP_pos_iff.mpr ⟨task, List.mem_of_getElem? htask, hrunning⟩
  have hset : running { task with outcome := some outcome } = false := rfl
  rw [List.countP_set hlt, hget, hrunning, hset]
  simp only [if_true, Bool.false_eq_true, if_false]
  omega

variable (cfg) in
theorem taken_rest (rest : List Nat) (i now : Nat) (task : Task α ε β) (outcome : Outcome ε β) :
    (s.taken cfg rest i now task outcome).tasks = s.tasks ∧
      (s.taken cfg rest i now task outcome).pending = s.pending.erase i ∧
      (s.taken cfg rest i now task outcome).exhausted = s.exhausted ∧
      (s.taken cfg rest i now task outcome).phase.weight ≤ 5 := by
  unfold taken
  dsimp only
  cases cfg.sample s.limiter (now - task.startTime) with
  | none => exact ⟨rfl, rfl, rfl, (by decide : 1 ≤ 5)⟩
  | some limiter =>
    cases cfg.item outcome with
    | error error => exact ⟨rfl, rfl, rfl, (by decide : 1 ≤ 5)⟩
    | ok item => exact ⟨rfl, rfl, rfl, Nat.le_refl _⟩

/-- Every step leaves less to do. -/
theorem toDo_lt (h : s.Inv cfg) {a : Action ε β} {s' : State α ε β}
    (hstep : s.step cfg a = some s') : s'.toDo cfg < s.toDo cfg := by
  unfold toDo
  cases steps_of_step hstep with
  | pull hphase hfills hlt =>
    simp only [List.length_append, List.length_cons, List.length_nil, List.countP_append,
      List.countP_singleton, running, Option.isNone_none, if_true]
    omega
  | exhaust hphase hfills hend =>
    dsimp only
    rw [hfills.2]
    simp only [if_true, Bool.false_eq_true, if_false]
    omega
  | @filled rest hphase hfull =>
    dsimp only
    rw [hphase]
    have hweight : (Phase.looping rest : Phase ε).weight ≤ 3 := by
      cases rest <;> simp [Phase.weight]
    simp only [Phase.weight] at hweight ⊢
    omega
  | wakes hphase hdone =>
    dsimp only
    rw [hphase, Phase.weight_looping hdone]
    exact Nat.lt_succ_self _
  | @take rest i now task outcome hphase htask houtcome hi =>
    obtain ⟨htasks, hpending, hexhausted, hweight⟩ :=
      taken_rest (s := s) cfg rest i now task outcome
    have hmem : i ∈ s.pending := by
      have hrest := h.rest.2
      rw [hphase] at hrest
      exact (hrest i hi).1
    have hpos := List.length_pos_of_mem hmem
    rw [htasks, hpending, hexhausted, List.length_erase_of_mem hmem, hphase,
      Phase.weight_looping (List.ne_nil_of_mem hi)]
    omega
  | resume hphase =>
    dsimp only
    rw [hphase]
    exact Nat.lt_succ_self _
  | @close a how _ hrunning _ hleft =>
    have hweight := Phase.weight_of_running hrunning
    have hclosing : (Phase.closing how).weight = 1 := rfl
    dsimp only
    rw [hclosing]
    omega
  | finish htask hnot =>
    have hcount := countP_finish htask hnot
    dsimp only
    rw [List.length_set]
    have := hcount ‹_›
    omega
  | gathered hphase hall =>
    dsimp only
    rw [hphase]
    exact Nat.lt_succ_self _

/-- A run is not longer than what there was to do. -/
theorem length_le_toDo {as : List (Action ε β)} {s' : State α ε β} (h : s.Inv cfg)
    (hrun : exec (step cfg) s as = some s') : as.length ≤ s.toDo cfg := by
  induction as generalizing s with
  | nil => exact Nat.zero_le _
  | cons a as ih =>
    dsimp only [exec] at hrun
    cases hstep : s.step cfg a with
    | none =>
      rw [hstep] at hrun
      exact nomatch hrun
    | some next =>
      rw [hstep] at hrun
      have hle := ih (step_inv h a hstep) hrun
      have hlt := toDo_lt h hstep
      rw [List.length_cons]
      omega

/-- Nothing can happen any more only where the generator has ended. -/
theorem ended_of_stuck (h : s.Inv cfg) (hstuck : ∀ a : Action ε β, s.step cfg a = none) :
    ∃ how, s.phase = .ended how := by
  have hall : ∀ i ∈ s.pending, s.finished i = true := by
    intro i hi
    have htask := List.getElem?_eq_getElem (h.pending_lt i hi)
    have hfinish := hstuck (.finish i .cancelled)
    simp only [step, htask] at hfinish
    split at hfinish
    · next hsome =>
      obtain ⟨outcome, houtcome⟩ := Option.isSome_iff_exists.mp hsome
      exact finished_iff.mpr ⟨_, outcome, htask, houtcome⟩
    · exact nomatch hfinish
  cases hphase : s.phase with
  | ended how => exact ⟨how, rfl⟩
  | closing how =>
    have hgathered := hstuck .gathered
    simp only [step, hphase, if_pos (List.all_eq_true.mpr hall)] at hgathered
    exact nomatch hgathered
  | yielding rest =>
    have hresume := hstuck .resume
    simp only [step, hphase] at hresume
    exact nomatch hresume
  | filling rest =>
    by_cases hfills : s.Fills cfg
    · have hpull := hstuck (.pull s.clock)
      simp only [step, hphase, if_pos (And.intro hfills (Nat.le_refl s.clock))] at hpull
      split at hpull
      · exact nomatch hpull
      · exact nomatch hpull
    · have hfilled := hstuck .filled
      simp only [step, hphase, if_neg hfills] at hfilled
      exact nomatch hfilled
  | looping rest =>
    cases rest with
    | nil =>
      by_cases hempty : s.pending = []
      · have hleave := hstuck .leave
        simp only [step, hphase, if_pos hempty] at hleave
        exact nomatch hleave
      · have hwakes := hstuck .wakes
        have hfilter : ¬ s.pending.filter s.finished = [] := by
          rwa [List.filter_eq_self.mpr hall]
        simp only [step, hphase, if_neg hfilter] at hwakes
        exact nomatch hwakes
    | cons i rest =>
      have hdone := h.rest.2
      rw [hphase] at hdone
      obtain ⟨task, outcome, htask, houtcome⟩ :=
        finished_iff.mp (hdone i List.mem_cons_self).2
      have htake := hstuck (.take i s.clock)
      simp only [step, hphase, htask, houtcome, List.mem_cons_self, Nat.le_refl, and_self,
        if_true] at htake
      exact nomatch htake

/-- As long as no task that is looked at ended cancelled or raised an exception that is false, and
no window of round trips of length zero closes, `concurrently` loses nothing; and it does raise at
the first step where one of these is not so. A run ends, and with it the generator. -/
theorem losesNothing (cfg : Config α ε) {s : State α ε β}
    (hr : Reach (step cfg) (StepOk cfg) (init cfg) s) :
    s.Lossless cfg ∧
      (∀ a s', s.step cfg a = some s' → (s'.Lossless cfg ↔ s.StepOk cfg a)) ∧
      (∀ as s', exec (step cfg) s as = some s' → as.length ≤ s.toDo cfg) ∧
      ((∀ a, s.step cfg a = none) → ∃ how, s.phase = .ended how) := by
  have hinv := inv_of_reach hr
  have hquiet := quiet_of_reach hr
  refine ⟨lossless_of_inv hinv hquiet, fun a s' hstep => ⟨fun hlossless => ?_, fun hok => ?_⟩,
    fun as s' => length_le_toDo hinv, ended_of_stuck hinv⟩
  · by_cases hreturn : cfg.returnExceptions = true
    · exact (quiet_step_iff hreturn (hquiet hreturn) hstep).mp (hlossless.quiet hreturn)
    · cases a with
      | take i now => exact fun he => absurd he hreturn
      | _ => trivial
  · refine lossless_of_inv (step_inv hinv a hstep) fun hreturn => ?_
    exact (quiet_step_iff hreturn (hquiet hreturn) hstep).mpr hok

/-- Three elements, two at a time. -/
def threeByTwo : Config Nat Nat where
  source := [10, 20, 30]
  forEach := true
  returnExceptions := true
  limit := some 2
  adaptive := true
  truthy _ := true
  positive := by decide
  required h := nomatch h

/-- The second raises 7, and is done first. -/
def secondRaises : List (Action Nat Nat) :=
  [.pull 0, .pull 1, .filled, .finish 1 (.exception 7), .wakes, .take 1 4, .resume, .pull 5,
    .filled, .finish 0 (.result 100), .finish 2 (.result 300), .wakes, .take 2 8, .resume,
    .pull 9, .filled, .take 0 9, .resume, .filled, .leave, .gathered]

theorem losesNothing_secondRaises :
    RunOk (step threeByTwo) (StepOk threeByTwo) (init threeByTwo) secondRaises ∧
      (last (step threeByTwo) (init threeByTwo) secondRaises).phase = .ended .exhausted ∧
      (last (step threeByTwo) (init threeByTwo) secondRaises).yielded =
        [(1, some 20, .error 7), (2, some 30, .ok 300), (0, some 10, .ok 100)] ∧
      (last (step threeByTwo) (init threeByTwo) secondRaises).Lossless threeByTwo := by
  have hok : RunOk (step threeByTwo) (StepOk threeByTwo) (init threeByTwo) secondRaises := by
    decide +kernel
  have hr := reach_last secondRaises .init hok
  exact ⟨hok, by decide +kernel, by decide +kernel, (losesNothing threeByTwo hr).1⟩

/-- The first ends cancelled. -/
def firstCancelled : List (Action Nat Nat) :=
  [.pull 0, .pull 1, .filled, .finish 0 .cancelled, .wakes, .take 0 2, .finish 1 (.result 200),
    .gathered]

theorem losesNothing_cancelled :
    ∃ s, exec (step threeByTwo) (init threeByTwo) firstCancelled = some s ∧
      s.phase = .ended (.raised .cancelledError) ∧ s.yielded = [] ∧ ¬ s.Lossless threeByTwo := by
  have hphase : (last (step threeByTwo) (init threeByTwo) firstCancelled).phase =
      .ended (.raised .cancelledError) := by decide +kernel
  refine ⟨_, exec_eq_last (by decide +kernel), hphase, by decide +kernel, fun hlossless => ?_⟩
  refine hlossless.quiet rfl .cancelledError ?_
  rw [hphase]
  rfl

end State

end Reboot.Tasks.Concurrent
