import Mathlib.Logic.Function.Basic
import Reboot.Lib.Run

/-!
# Waiting for changes

`until_changes` of `reboot/aio/workflows.py` and `untilChanges` of `reboot/nodejs/index.ts`, called
once in each iteration of a control loop. An iteration looks up the memoized result of the one before,
and waits in an `until` of its own, by `retry_reactively_until`, until the callable yields something
else, which is memoized in its turn.

> `State.Reports`: iteration 0 returns the first value that is read, and every later one the first that
> differs from what the iteration before has returned; an iteration that is run again returns what it
> has returned; and nothing raises.

What goes through `until` is read as a signal: `False` is "not yet", and in TypeScript `true` is
"done", without a value. And what was returned before is compared with `None` or `null`, which a value
may be. As long as the values that are to be returned are not of these, and a stored value comes back
as it was, the promise holds, in both languages (`untilChanges_reports`).

Mirroring notes:
- A `Host` is what the two languages differ in: what `until` makes of the result of its condition, and
  what the caller gets of a result that was stored.
- The block of each iteration has an alias of its own, and what was stored stays (`Tasks.Memoize`).
- `change` is whatever the callable reads. It is evaluated again when that has changed, or without
  need.
- `retry` is an attempt that ends anywhere, also after `until_changes` has returned. The next one may
  begin in an earlier iteration (`ControlLoop.lean`).
- `reads` and `fresh` are kept to say which values were read; the code has no such thing.
-/

namespace Reboot.Workflows.UntilChanges

open Reboot.Lib

/-! ## The two hosts -/

/-- What `until` makes of a result of its condition. -/
inductive Settled (V : Type)
  | notYet
  | returns (v : V)
  | throws
  deriving DecidableEq

structure Host (V : Type) where
  /-- `None`, `null` -/
  null : V
  /-- `False`, `false` -/
  notYet : V
  settle : V → Settled V
  /-- What a stored result comes back as; `none` is an error about its type. -/
  deliver : V → Option V
  settle_notYet : settle notYet = .notYet

namespace Python

inductive Value (T : Type)
  | none
  | bool (b : Bool)
  | other (t : T)
  deriving DecidableEq

variable {T : Type} (isInstance : Value T → Bool)

/-- `retry_reactively_until`, and the check of the type before the result is stored. -/
def settle : Value T → Settled (Value T)
  | .bool false => .notYet
  | v => if isInstance v then .returns v else .throws

/-- `isInstance` is the check against `type_t`; `pickle` gives back what it was given. -/
def host : Host (Value T) where
  null := .none
  notYet := .bool false
  settle := settle isInstance
  deliver v := if isInstance v then some v else Option.none
  settle_notYet := rfl

end Python

namespace TypeScript

inductive Value (T : Type)
  | undefined
  | null
  | bool (b : Bool)
  | other (t : T)
  deriving DecidableEq

variable {T : Type} (validate : Value T → Option (Value T)) (roundTrip : Value T → Value T)

/-- `retryReactivelyUntil`, whose result is `undefined` after `true`, and the validation of the result in
`memoize`, which refuses an `undefined` where there is a schema. -/
def settle : Value T → Settled (Value T)
  | .bool false => .notYet
  | .bool true | .undefined => .throws
  | v => if (validate v).isSome then .returns v else .throws

/-- `validate` is the schema's; `roundTrip` is `parse` of `stringify`. -/
def host : Host (Value T) where
  null := .null
  notYet := .bool false
  settle := settle validate
  deliver v := validate (roundTrip v)
  settle_notYet := rfl

end TypeScript

/-! ## Model -/

section Model

variable {V : Type}

inductive Failure
  /-- `assert previous is not None` -/
  | assertion
  /-- Missing memoized value -/
  | missing
  /-- A value is not of its type. -/
  | refused
  deriving DecidableEq

/-- Where an attempt of the workflow stands. -/
inductive Phase (V : Type)
  | idle
  /-- The previous result was looked up. -/
  | called (previous : V)
  /-- In `retry_reactively_until`. -/
  | waiting (previous : V)
  /-- `until` has a result that is not stored. -/
  | holding (v : V)
  | returned
  deriving DecidableEq

structure State (V : Type) where
  /-- What the callable yields. -/
  value : V
  iteration : Nat
  phase : Phase V
  /-- What is stored for each iteration. -/
  memos : Nat → Option V
  /-- What `until_changes` has returned, with the iterations. -/
  returns : List (Nat × V)
  failures : List Failure
  /-- The values read since the attempt began to wait. -/
  reads : List V
  /-- For each iteration, the values read by the attempt that stored its result. -/
  fresh : Nat → List V

def State.init (value : V) : State V where
  value := value
  iteration := 0
  phase := .idle
  memos := fun _ => none
  returns := []
  failures := []
  reads := []
  fresh := fun _ => []

inductive Action (V : Type)
  | change (value : V)
  | call
  | lookup
  | evaluate
  | store
  | next
  | retry (iteration : Nat)
  deriving DecidableEq

/-- An attempt ends with an exception. -/
def State.fail (s : State V) (failure : Failure) : State V :=
  { s with phase := .idle, failures := failure :: s.failures }

variable (host : Host V) (equals : V → V → Bool)

/-- The caller gets what is stored for the iteration. -/
def State.deliver (s : State V) (stored : V) : State V :=
  match host.deliver stored with
  | none => s.fail .refused
  | some v => { s with phase := .returned, returns := s.returns ++ [(s.iteration, v)] }

/-- `previous_not_equals_current`; `none` is its assertion. -/
def previousNotEqualsCurrent [DecidableEq V] (iteration : Nat) (previous current : V) : Option V :=
  if iteration = 0 then some current
  else if previous = host.null then none
  else if equals previous current then some host.notYet
  else some current

/-- One action. -/
def step [DecidableEq V] (s : State V) : Action V → Option (State V)
  | .change value => some { s with value := value }
  | .call =>
    if s.phase = .idle then
      match s.iteration with
      | 0 => some { s with phase := .called host.null }
      | n + 1 =>
        match s.memos n with
        | none => some (s.fail .missing)
        | some stored =>
          match host.deliver stored with
          | none => some (s.fail .refused)
          | some previous => some { s with phase := .called previous }
    else none
  | .lookup =>
    match s.phase with
    | .called previous =>
      match s.memos s.iteration with
      | some stored => some (s.deliver host stored)
      | none => some { s with phase := .waiting previous, reads := [] }
    | _ => none
  | .evaluate =>
    match s.phase with
    | .waiting previous =>
      let s := { s with reads := s.reads ++ [s.value] }
      match previousNotEqualsCurrent host equals s.iteration previous s.value with
      | none => some (s.fail .assertion)
      | some result =>
        match host.settle result with
        | .notYet => some s
        | .returns v => some { s with phase := .holding v }
        | .throws => some (s.fail .refused)
    | _ => none
  | .store =>
    match s.phase with
    | .holding v =>
      some (State.deliver host { s with
        memos := Function.update s.memos s.iteration (some v)
        fresh := Function.update s.fresh s.iteration s.reads } v)
    | _ => none
  | .next =>
    if s.phase = .returned then some { s with iteration := s.iteration + 1, phase := .idle } else none
  | .retry iteration =>
    if iteration ≤ s.iteration then some { s with iteration := iteration, phase := .idle } else none

/-! ## Every change is reported -/

/-- The values that an iteration read until it had its result. -/
def ReadsOk (equals : V → V → Bool) (returns : List (Nat × V)) : Nat → List V → V → Prop
  | 0, reads, v => reads = [v]
  | n + 1, reads, v => ∃ previous skipped, (n, previous) ∈ returns ∧ reads = skipped ++ [v] ∧
      equals previous v = false ∧ ∀ u ∈ skipped, equals previous u = true

/-- The values that an iteration has read and still waits. -/
def SkipsOk (equals : V → V → Bool) (returns : List (Nat × V)) : Nat → List V → Prop
  | 0, reads => reads = []
  | n + 1, reads => ∃ previous, (n, previous) ∈ returns ∧ ∀ u ∈ reads, equals previous u = true

structure State.Reports (equals : V → V → Bool) (s : State V) : Prop where
  first : ∀ n v, (n, v) ∈ s.returns → ReadsOk equals s.returns n (s.fresh n) v
  waits : ∀ previous, s.phase = .waiting previous → SkipsOk equals s.returns s.iteration s.reads
  again : ∀ n v v', (n, v) ∈ s.returns → (n, v') ∈ s.returns → v = v'
  raisesNothing : s.failures = []

/-- `until` returns the value, and it comes back as it was. -/
def Host.Plain (v : V) : Prop := host.settle v = .returns v ∧ host.deliver v = some v

instance [DecidableEq V] (v : V) : Decidable (host.Plain v) := inferInstanceAs (Decidable (_ ∧ _))

/-- What `StepOk` asks of a value that is read. -/
def readOk [DecidableEq V] (s : State V) : Bool :=
  match s.phase with
  | .waiting previous =>
    if s.iteration = 0 then decide (host.Plain s.value)
    else previous ≠ host.null && (equals previous s.value || decide (host.Plain s.value))
  | _ => true

/-- A value that is read is the one that was returned before, or it is plain; and what was returned
before is not `None`. -/
def StepOk [DecidableEq V] (s : State V) (a : Action V) : Prop := a = .evaluate → readOk host equals s = true

instance [DecidableEq V] (s : State V) (a : Action V) : Decidable (StepOk host equals s a) :=
  inferInstanceAs (Decidable (_ → _))

/-! ## Invariant -/

/-- The result of the iteration before. -/
def PreviousOk (s : State V) (previous : V) : Prop :=
  match s.iteration with
  | 0 => True
  | n + 1 => s.memos n = some previous

def PhaseInv (s : State V) : Prop :=
  match s.phase with
  | .idle => True
  | .called previous => PreviousOk s previous
  | .waiting previous => PreviousOk s previous ∧ s.memos s.iteration = none ∧
      SkipsOk equals s.returns s.iteration s.reads
  | .holding v => host.Plain v ∧ s.memos s.iteration = none ∧
      ReadsOk equals s.returns s.iteration s.reads v
  | .returned => ∃ v, s.memos s.iteration = some v ∧ (s.iteration, v) ∈ s.returns

structure Inv (s : State V) : Prop where
  plain : ∀ n v, s.memos n = some v → host.Plain v
  first : ∀ n v, s.memos n = some v → ReadsOk equals s.returns n (s.fresh n) v
  before : ∀ n, n < s.iteration → ∃ v, s.memos n = some v ∧ (n, v) ∈ s.returns
  stored : ∀ n v, (n, v) ∈ s.returns → s.memos n = some v
  phase : PhaseInv host equals s
  failures : s.failures = []

theorem ReadsOk.mono {equals : V → V → Bool} {returns returns' : List (Nat × V)} {n : Nat}
    {reads : List V} {v : V} (h : ReadsOk equals returns n reads v)
    (hsub : ∀ p ∈ returns, p ∈ returns') : ReadsOk equals returns' n reads v := by
  cases n with
  | zero => exact h
  | succ n =>
    obtain ⟨previous, skipped, hprevious, hreads⟩ := h
    exact ⟨previous, skipped, hsub _ hprevious, hreads⟩

theorem SkipsOk.nil {equals : V → V → Bool} {returns : List (Nat × V)} {n : Nat}
    (h : ∀ m, m < n → ∃ v, (m, v) ∈ returns) : SkipsOk equals returns n [] := by
  cases n with
  | zero => rfl
  | succ n =>
    obtain ⟨previous, hprevious⟩ := h n (Nat.lt_succ_self n)
    exact ⟨previous, hprevious, nofun⟩

variable {host equals} {s s' : State V}

/-- A result that comes back as it was is delivered. -/
theorem deliver_eq {v : V} (h : host.Plain v) : s.deliver host v =
    { s with phase := .returned, returns := s.returns ++ [(s.iteration, v)] } := by
  unfold State.deliver
  rw [h.2]

/-- What is stored for the iteration is returned. -/
theorem Inv.deliver (h : Inv host equals s) {v : V} (hv : s.memos s.iteration = some v) :
    Inv host equals (s.deliver host v) := by
  rw [deliver_eq (h.plain _ v hv)]
  have hsub : ∀ p ∈ s.returns, p ∈ s.returns ++ [(s.iteration, v)] :=
    fun p hp => List.mem_append_left _ hp
  refine
    { plain := h.plain, first := fun n u hu => (h.first n u hu).mono hsub, before := ?_, stored := ?_,
      phase := ⟨v, hv, List.mem_append_right _ (List.mem_singleton.mpr rfl)⟩, failures := h.failures }
  · intro n hn
    obtain ⟨u, hu, hmem⟩ := h.before n hn
    exact ⟨u, hu, hsub _ hmem⟩
  · intro n u hu
    rcases List.mem_append.mp hu with hold | hnew
    · exact h.stored n u hold
    · cases List.mem_singleton.mp hnew
      exact hv

/-- The result that an iteration waited for is stored and returned. -/
theorem Inv.store (h : Inv host equals s) {v : V} (hphase : s.phase = .holding v) :
    Inv host equals (State.deliver host { s with
      memos := Function.update s.memos s.iteration (some v)
      fresh := Function.update s.fresh s.iteration s.reads } v) := by
  have hinv := h.phase
  unfold PhaseInv at hinv
  rw [hphase] at hinv
  obtain ⟨hplain, hnone, hreads⟩ := hinv
  have hother : ∀ {n : Nat} {u : V}, s.memos n = some u → n ≠ s.iteration := fun hu heq => by
    rw [heq, hnone] at hu
    cases hu
  have hkeep : ∀ {n : Nat} {u : V}, s.memos n = some u →
      Function.update s.memos s.iteration (some v) n = some u := fun hu =>
    (Function.update_of_ne (hother hu) ..).trans hu
  have hsub : ∀ p ∈ s.returns, p ∈ s.returns ++ [(s.iteration, v)] :=
    fun p hp => List.mem_append_left _ hp
  have hcases : ∀ {n : Nat} {u : V}, Function.update s.memos s.iteration (some v) n = some u →
      (n = s.iteration ∧ u = v) ∨ (n ≠ s.iteration ∧ s.memos n = some u) := fun {n u} hu => by
    by_cases hn : n = s.iteration
    · rw [hn, Function.update_self] at hu
      exact .inl ⟨hn, (Option.some.inj hu).symm⟩
    · rw [Function.update_of_ne hn] at hu
      exact .inr ⟨hn, hu⟩
  rw [deliver_eq hplain]
  refine
    { plain := ?_, first := ?_, before := ?_, stored := ?_,
      phase := ⟨v, Function.update_self .., List.mem_append_right _ (List.mem_singleton.mpr rfl)⟩,
      failures := h.failures }
  · intro n u hu
    rcases hcases hu with ⟨-, rfl⟩ | ⟨-, hu⟩
    · exact hplain
    · exact h.plain n u hu
  · intro n u hu
    show ReadsOk equals _ n (Function.update s.fresh s.iteration s.reads n) u
    rcases hcases hu with ⟨rfl, rfl⟩ | ⟨hn, hu⟩
    · rw [Function.update_self]
      exact hreads.mono hsub
    · rw [Function.update_of_ne hn]
      exact (h.first n u hu).mono hsub
  · intro n hn
    obtain ⟨u, hu, hmem⟩ := h.before n hn
    exact ⟨u, hkeep hu, hsub _ hmem⟩
  · intro n u hu
    rcases List.mem_append.mp hu with hold | hnew
    · exact hkeep (h.stored n u hold)
    · cases List.mem_singleton.mp hnew
      exact Function.update_self ..

/-- An attempt is in another phase. -/
theorem Inv.setPhase (h : Inv host equals s) {phase : Phase V}
    (hphase : PhaseInv host equals { s with phase := phase }) :
    Inv host equals { s with phase := phase } where
  plain := h.plain
  first := h.first
  before := h.before
  stored := h.stored
  phase := hphase
  failures := h.failures

theorem Inv.call [DecidableEq V] (h : Inv host equals s) (hs : step host equals s .call = some s') :
    Inv host equals s' := by
  simp only [step] at hs
  split at hs
  · split at hs
    · next hzero =>
      cases hs
      refine h.setPhase ?_
      show PreviousOk _ _
      unfold PreviousOk
      rw [hzero]
      trivial
    · next n hn =>
      obtain ⟨v, hv, -⟩ := h.before n (by omega)
      rw [hv] at hs
      have hdeliver := (h.plain n v hv).2
      simp only [hdeliver] at hs
      cases hs
      refine h.setPhase ?_
      show PreviousOk _ _
      unfold PreviousOk
      rw [hn]
      exact hv
  · cases hs

theorem Inv.lookup [DecidableEq V] (h : Inv host equals s) (hs : step host equals s .lookup = some s') :
    Inv host equals s' := by
  simp only [step] at hs
  split at hs
  · next previous hphase =>
    split at hs
    · next v hv =>
      cases hs
      exact h.deliver hv
    · next hnone =>
      cases hs
      have hprevious := h.phase
      unfold PhaseInv at hprevious
      rw [hphase] at hprevious
      refine
        { plain := h.plain, first := h.first, before := h.before, stored := h.stored,
          phase := ⟨hprevious, hnone, SkipsOk.nil fun m hm => ?_⟩, failures := h.failures }
      obtain ⟨v, -, hmem⟩ := h.before m hm
      exact ⟨v, hmem⟩
  · cases hs

/-- What the condition returns of a value that is the previous one, or plain. -/
theorem evaluate_cases [DecidableEq V] (h : Inv host equals s) {previous : V} (hphase : s.phase = .waiting previous)
    (hok : readOk host equals s = true) :
    (previousNotEqualsCurrent host equals s.iteration previous s.value = some host.notYet ∧
      SkipsOk equals s.returns s.iteration (s.reads ++ [s.value])) ∨
    (previousNotEqualsCurrent host equals s.iteration previous s.value = some s.value ∧
      host.Plain s.value ∧ ReadsOk equals s.returns s.iteration (s.reads ++ [s.value]) s.value) := by
  have hinv := h.phase
  unfold PhaseInv at hinv
  rw [hphase] at hinv
  obtain ⟨hprevious, -, hskips⟩ := hinv
  unfold readOk at hok
  simp only [hphase] at hok
  unfold PreviousOk at hprevious
  unfold previousNotEqualsCurrent
  cases hn : s.iteration with
  | zero =>
    rw [hn, if_pos rfl] at hok
    rw [hn] at hskips
    have hreads : s.reads = [] := hskips
    refine .inr ⟨if_pos rfl, of_decide_eq_true hok, ?_⟩
    rw [hreads]
    rfl
  | succ n =>
    rw [hn] at hskips hprevious
    rw [hn, if_neg (Nat.succ_ne_zero n), Bool.and_eq_true, decide_eq_true_eq] at hok
    obtain ⟨p, hp, hskipped⟩ := hskips
    -- the iteration before has returned what was looked up
    obtain rfl : p = previous := Option.some.inj ((h.stored n p hp).symm.trans hprevious)
    rw [if_neg (Nat.succ_ne_zero n), if_neg hok.1]
    by_cases hequals : equals p s.value = true
    · rw [if_pos hequals]
      refine .inl ⟨rfl, p, hp, fun u hu => ?_⟩
      rcases List.mem_append.mp hu with hu | hu
      · exact hskipped u hu
      · rw [List.mem_singleton.mp hu]
        exact hequals
    · rw [if_neg hequals]
      have hequals : equals p s.value = false := by simpa using hequals
      refine .inr ⟨rfl, by simpa [hequals] using hok.2, p, s.reads, hp, rfl, hequals, hskipped⟩

theorem Inv.evaluate [DecidableEq V] (h : Inv host equals s) (hok : readOk host equals s = true)
    (hs : step host equals s .evaluate = some s') : Inv host equals s' := by
  simp only [step] at hs
  split at hs
  · next previous hphase =>
    have hinv := h.phase
    unfold PhaseInv at hinv
    rw [hphase] at hinv
    rcases evaluate_cases h hphase hok with ⟨hresult, hskips⟩ | ⟨hresult, hplain, hreads⟩
    · rw [hresult] at hs
      simp only [host.settle_notYet] at hs
      cases hs
      refine
        { plain := h.plain, first := h.first, before := h.before, stored := h.stored,
          phase := ?_, failures := h.failures }
      unfold PhaseInv
      simp only [hphase]
      exact ⟨hinv.1, hinv.2.1, hskips⟩
    · rw [hresult] at hs
      simp only [hplain.1] at hs
      cases hs
      exact
        { plain := h.plain, first := h.first, before := h.before, stored := h.stored,
          phase := ⟨hplain, hinv.2.1, hreads⟩, failures := h.failures }
  · cases hs

theorem Inv.step [DecidableEq V] {a : Action V} (h : Inv host equals s) (hok : StepOk host equals s a)
    (hs : step host equals s a = some s') : Inv host equals s' := by
  cases a with
  | change value =>
    cases hs
    exact ⟨h.plain, h.first, h.before, h.stored, h.phase, h.failures⟩
  | call => exact h.call hs
  | lookup => exact h.lookup hs
  | evaluate => exact h.evaluate (hok rfl) hs
  | store =>
    simp only [UntilChanges.step] at hs
    split at hs
    · next v hphase =>
      cases hs
      exact h.store hphase
    · cases hs
  | next =>
    simp only [UntilChanges.step] at hs
    split at hs
    · next hphase =>
      cases hs
      have hreturned := h.phase
      unfold PhaseInv at hreturned
      rw [hphase] at hreturned
      refine ⟨h.plain, h.first, fun n hn => ?_, h.stored, trivial, h.failures⟩
      rcases Nat.lt_succ_iff_lt_or_eq.mp hn with hn | rfl
      · exact h.before n hn
      · exact hreturned
    · cases hs
  | retry iteration =>
    simp only [UntilChanges.step] at hs
    split at hs
    · next hle =>
      cases hs
      exact ⟨h.plain, h.first, fun n hn => h.before n (Nat.lt_of_lt_of_le hn hle), h.stored, trivial,
        h.failures⟩
    · cases hs

theorem Inv.init (value : V) : Inv host equals (.init value) where
  plain := nofun
  first := nofun
  before := nofun
  stored := nofun
  phase := trivial
  failures := rfl

theorem Inv.reports (h : Inv host equals s) : s.Reports equals where
  first := fun n v hv => h.first n v (h.stored n v hv)
  waits := by
    intro previous hphase
    have hinv := h.phase
    unfold PhaseInv at hinv
    rw [hphase] at hinv
    exact hinv.2.2
  again := by
    intro n v v' hv hv'
    have heq := (h.stored n v hv).symm.trans (h.stored n v' hv')
    exact Option.some.inj heq
  raisesNothing := h.failures

theorem reports_of_reach [DecidableEq V] {value : V}
    (h : Reach (step host equals) (StepOk host equals) (.init value) s) : s.Reports equals :=
  (h.invariant (Inv host equals) (Inv.init value) fun _ _ _ hinv hok hs => hinv.step hok hs).reports

end Model

/-- In both languages every change is reported in every run in which a value that is read is the one
returned before, or comes through `until` and comes back from the store as it was, and in which the
value returned before is not `None` or `null` when the next one is read. -/
theorem untilChanges_reports {T : Type} [DecidableEq T] :
    (∀ (isInstance : Python.Value T → Bool) (equals : Python.Value T → Python.Value T → Bool) value s,
      Reach (step (Python.host isInstance) equals) (StepOk (Python.host isInstance) equals)
        (.init value) s → s.Reports equals) ∧
    ∀ (validate : TypeScript.Value T → Option (TypeScript.Value T))
      (roundTrip : TypeScript.Value T → TypeScript.Value T)
      (equals : TypeScript.Value T → TypeScript.Value T → Bool) value s,
      Reach (step (TypeScript.host validate roundTrip) equals)
        (StepOk (TypeScript.host validate roundTrip) equals) (.init value) s → s.Reports equals :=
  ⟨fun _ _ _ _ h => reports_of_reach h, fun _ _ _ _ _ h => reports_of_reach h⟩

/-- Two iterations, the second one retried, and in it an unchanged value. -/
def twoIterations : List (Action (Python.Value Bool)) :=
  [.call, .lookup, .evaluate, .store, .next, .call, .lookup, .evaluate, .retry 1, .call, .lookup,
    .change (.other true), .evaluate, .store]

def schema (v : TypeScript.Value Bool) : Option (TypeScript.Value Bool) := some v

def twoIterationsNode : List (Action (TypeScript.Value Bool)) :=
  [.call, .lookup, .evaluate, .store, .next, .call, .lookup, .evaluate, .retry 1, .call, .lookup,
    .change (.other true), .evaluate, .store]

theorem untilChanges_reports_twoIterations :
    (last (step (Python.host fun _ => true) (· == ·)) (.init (.other false)) twoIterations).Reports
        (· == ·) ∧
      (last (step (TypeScript.host schema id) (· == ·)) (.init (.other false)) twoIterationsNode).Reports
        (· == ·) := by
  have hpython : Reach (step (Python.host fun _ => true) (· == ·))
      (StepOk (Python.host fun _ => true) (· == ·)) (.init (.other false))
      (last (step (Python.host fun _ => true) (· == ·)) (.init (.other false)) twoIterations) :=
    reach_last twoIterations .init (by decide)
  have hnode : Reach (step (TypeScript.host schema id) (· == ·))
      (StepOk (TypeScript.host schema id) (· == ·)) (.init (.other false))
      (last (step (TypeScript.host schema id) (· == ·)) (.init (.other false)) twoIterationsNode) :=
    reach_last twoIterationsNode .init (by decide)
  exact ⟨untilChanges_reports.1 _ _ _ _ hpython, untilChanges_reports.2 _ _ _ _ _ hnode⟩

/-- `False` is never returned in Python, the iteration after `None` raises, and `true` raises in
TypeScript. -/
theorem untilChanges_signals :
    (¬ ∀ (value : Python.Value Unit) s, Reach (step (Python.host fun _ => true) (· == ·))
      (fun _ _ => True) (.init value) s → s.Reports (· == ·)) ∧
    (¬ ∀ s, Reach (step (Python.host (T := Unit) fun _ => true) (· == ·))
      (fun _ _ => True) (.init .none) s → s.failures = []) ∧
    ¬ ∀ s, Reach (step (TypeScript.host (T := Unit) some id) (· == ·))
      (fun _ _ => True) (.init (.bool true)) s → s.failures = [] := by
  refine ⟨fun h => ?_, fun h => ?_, fun h => ?_⟩
  · have hreach : Reach (step (Python.host (T := Unit) fun _ => true) (· == ·)) (fun _ _ => True)
        (.init (.bool false)) (last (step (Python.host fun _ => true) (· == ·)) (.init (.bool false))
          [.call, .lookup, .evaluate]) := reach_last _ .init (by decide)
    have hreads := (h _ _ hreach).waits .none (by decide)
    revert hreads
    show ¬ [Python.Value.bool false] = []
    decide
  · have hreach : Reach (step (Python.host (T := Unit) fun _ => true) (· == ·)) (fun _ _ => True)
        (.init .none) (last (step (Python.host fun _ => true) (· == ·)) (.init .none)
          [.call, .lookup, .evaluate, .store, .next, .call, .lookup, .evaluate]) :=
      reach_last _ .init (by decide)
    have hfailures := h _ hreach
    revert hfailures
    decide
  · have hreach : Reach (step (TypeScript.host (T := Unit) some id) (· == ·)) (fun _ _ => True)
        (.init (.bool true)) (last (step (TypeScript.host some id) (· == ·)) (.init (.bool true))
          [.call, .lookup, .evaluate]) := reach_last _ .init (by decide)
    have hfailures := h _ hreach
    revert hfailures
    decide

end Reboot.Workflows.UntilChanges
