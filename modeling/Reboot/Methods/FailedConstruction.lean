import Reboot.Lib.Run
import Reboot.Txn.Lock

/-!
# Failed calls on a state that does not exist

Within a transaction `_load` sets `transaction.state` to an empty message before the method of an
implicit or explicit constructor runs. What the calls after it are told about the state, and what
`transaction_participant_prepare` stores, is decided from `transaction.state` and the lock mode.

`State` is the participant of one root transaction on a state that the database does not have.
`completed` says whether some call on it has completed and was not rolled back, and `counts` adds
the calls that are constructing it right now, whose own calls see the state.

> `constructed_iff_completed`: in every run in which no writer fails that was called before the
> state was constructed, and, for a state without restart detection, no nested transaction of
> another state fails in which the first call on the state completed (`StepOk`), every call is
> answered as `counts` says, and the commit stores an actor exactly if `completed`.

Mirroring notes:

* Calls of one root transaction are awaited one after another: the stack has the calls on this
  state and the nested transactions that run, the latest on top. The root transaction is of
  another state and is not in the stack.
* A snapshot is taken when a nested transaction starts; until the state is first used in it
  nothing about the state changes.
* Without restart detection `_store` writes to a transaction of the database, which `_rollback`
  does not touch, and a nested transaction's own failure dooms the root.
-/

namespace Reboot.Methods.Construct

open Reboot.Lib Reboot.Txn

structure Config (σ : Type) where
  /-- `service.proto.requires_constructor` -/
  requiresConstructor : Bool
  usingRestartDetection : Bool
  /-- `state_type()` -/
  empty : σ

/-- A call on the state, or a nested transaction of another state. -/
inductive Kind where
  | reader
  | writer (fromConstructor : Bool)
  | own (fromConstructor exclusive : Bool)
  /-- with whether that state's participant uses restart detection -/
  | other (usingRestartDetection : Bool)
deriving DecidableEq

def Kind.fromConstructor : Kind → Bool
  | .writer fromConstructor | .own fromConstructor _ => fromConstructor
  | .reader | .other _ => false

inductive Error where
  | stateNotConstructed
  | stateAlreadyConstructed
deriving DecidableEq

/-- What a failing nested transaction goes back to. `mode` is `none` if the state was not used
before. -/
structure Snapshot (σ : Type) where
  state : Option σ
  mode : Option Mode
  completed : Bool

/-- `constructing` is `context._constructor`: the state was not constructed at the call. -/
inductive Frame (σ : Type) where
  | reader
  | writer (constructing : Bool)
  | own (constructing : Bool) (snapshot : Snapshot σ)
  | other (usingRestartDetection : Bool) (snapshot : Snapshot σ)

def Frame.constructing {σ : Type} : Frame σ → Bool
  | .writer constructing | .own constructing _ => constructing
  | .reader | .other _ _ => false

def Frame.isWriter {σ : Type} : Frame σ → Bool
  | .writer _ => true
  | .reader | .own _ _ | .other _ _ => false

structure Answered where
  kind : Kind
  error : Option Error
  counts : Bool
deriving DecidableEq

structure State (σ : Type) where
  /-- `transaction.state` -/
  state : Option σ
  /-- `transaction.mode`, once the state is a participant -/
  mode : Option Mode
  /-- what the database's own transaction has to write -/
  pending : Option σ
  stack : List (Frame σ)
  /-- the root transaction can only abort -/
  doomed : Bool
  completed : Bool
  answered : List Answered
  /-- what the commit stored, after it -/
  committed : Option (Option σ)

variable {σ : Type}

def State.init : State σ :=
  { state := none, mode := none, pending := none, stack := [], doomed := false
    completed := false, answered := [], committed := none }

namespace State

def snapshot (s : State σ) : Snapshot σ := ⟨s.state, s.mode, s.completed⟩

/-- Whether the state counts as constructed for the next call. -/
def counts (s : State σ) : Bool := s.completed || s.stack.any Frame.constructing

/-- The mode the state is joined in, or upgraded to when it is called. -/
def joined (s : State σ) : Kind → Option Mode
  | .reader => some (s.mode.getD .shared)
  | .writer _ => some .exclusive
  | .own _ exclusive => some (if exclusive then .exclusive else s.mode.getD .shared)
  | .other _ => s.mode

def answer (s : State σ) (kind : Kind) (error : Option Error) : State σ :=
  { s with answered := ⟨kind, error, s.counts⟩ :: s.answered }

/-- `_rollback`. A state that is first used in the nested transaction stays a participant. -/
def rollback (s : State σ) (snapshot : Snapshot σ) : State σ :=
  { s with
    state := snapshot.state
    mode :=
      match snapshot.mode with
      | some mode => some mode
      | none => s.mode.map fun _ => .shared
    completed := snapshot.completed }

end State

/-- `_load`: the error it raises, if it raises, given whether there is a state. -/
def loadError (config : Config σ) (kind : Kind) (constructed : Bool) : Option Error :=
  if constructed then
    if kind.fromConstructor then some .stateAlreadyConstructed else none
  else if config.requiresConstructor && !kind.fromConstructor then some .stateNotConstructed
  else if kind = .reader then some .stateNotConstructed
  else none

/-- What is on the stack while a call runs. -/
def frameOf (kind : Kind) (constructing : Bool) (snapshot : Snapshot σ) : Frame σ :=
  match kind with
  | .reader => .reader
  | .writer _ => .writer constructing
  | .own _ _ => .own constructing snapshot
  | .other usingRestartDetection => .other usingRestartDetection snapshot

/-- A call on the state. A nested transaction that `_load` refuses fails before it runs. -/
def callState (config : Config σ) (s : State σ) (kind : Kind) : State σ :=
  let entered := { s.answer kind (loadError config kind s.state.isSome) with
    mode := s.joined kind }
  match loadError config kind s.state.isSome with
  | some _ =>
    match kind with
    | .own _ _ =>
      if config.usingRestartDetection then entered.rollback s.snapshot
      else { entered with doomed := true }
    | _ => entered
  | none =>
    { entered with
      state := some (s.state.getD config.empty)
      stack := frameOf kind s.state.isNone s.snapshot :: s.stack }

/-- Readers and writers call nothing but readers. -/
def mayCall (stack : List (Frame σ)) (kind : Kind) : Bool :=
  match stack with
  | .reader :: _ | .writer _ :: _ => kind = .reader
  | _ => true

def call (config : Config σ) (s : State σ) (kind : Kind) : State σ :=
  match kind with
  | .other usingRestartDetection =>
    { s with stack := .other usingRestartDetection s.snapshot :: s.stack }
  | kind => callState config s kind

/-- `_store` of a call that completed. -/
def store (config : Config σ) (s : State σ) (v : σ) (mode : Option Mode)
    (stack : List (Frame σ)) : State σ :=
  { s with
    state := some v
    mode
    pending := if config.usingRestartDetection then s.pending else some v
    stack
    completed := true }

inductive Action (σ : Type) where
  | call (kind : Kind)
  /-- the call on top of the stack completes, with the state `v` -/
  | returns (v : σ)
  /-- it fails with an error that its caller catches -/
  | fails
  | commit

def step [DecidableEq σ] (config : Config σ) (s : State σ) : Action σ → Option (State σ)
  | .call kind =>
    if s.doomed || s.committed.isSome || !mayCall s.stack kind then none
    else some (call config s kind)
  | .returns v =>
    match s.stack with
    | [] => none
    | .reader :: stack => some { s with stack }
    | .writer _ :: stack => some (store config s v s.mode stack)
    | .own constructing _ :: stack =>
      -- `context.constructor or effects.requires_exclusive(..)`
      let mode := if constructing || s.state ≠ some v then some .exclusive else s.mode
      some (store config s v mode stack)
    | .other _ _ :: stack => some { s with stack }
  | .fails =>
    match s.stack with
    | [] => none
    | .reader :: stack | .writer _ :: stack => some { s with stack }
    | .own _ snapshot :: stack =>
      if config.usingRestartDetection then some { s.rollback snapshot with stack }
      else some { s with stack, doomed := true }
    | .other usingRestartDetection snapshot :: stack =>
      if usingRestartDetection then some { s.rollback snapshot with stack }
      else some { s with stack, doomed := true }
  | .commit =>
    match s.stack with
    | [] =>
      if s.doomed || s.committed.isSome then none
      else
        some { s with
          committed :=
            some
              (if config.usingRestartDetection then
                -- only a mutated state is persisted
                if s.mode = some .exclusive then s.state else none
              else s.pending) }
    | _ :: _ => none

/-! ## The promise and the condition -/

structure Promised (config : Config σ) (s : State σ) : Prop where
  answered : ∀ a ∈ s.answered, a.error = loadError config a.kind a.counts
  committed : ∀ d, s.committed = some d → d.isSome = s.completed

def StepOk (config : Config σ) (s : State σ) : Action σ → Prop
  | .fails =>
    match s.stack with
    | .writer constructing :: _ => constructing = false
    | .other true snapshot :: _ =>
      config.usingRestartDetection = false → s.completed = true → snapshot.completed = true
    | _ => True
  | _ => True

instance (config : Config σ) (s : State σ) : ∀ a, Decidable (StepOk config s a)
  | .fails => by
    unfold StepOk
    exact match s.stack with
      | .writer constructing :: _ => inferInstanceAs (Decidable (constructing = false))
      | .other true snapshot :: _ =>
        inferInstanceAs (Decidable (config.usingRestartDetection = false → s.completed = true →
          snapshot.completed = true))
      | [] | .reader :: _ | .own _ _ :: _ | .other false _ :: _ => isTrue trivial
  | .call _ | .returns _ | .commit => isTrue trivial

/-! ## The invariant -/

/-- What has to be true of the state, and of every snapshot with the calls below it. -/
structure Sound (config : Config σ) (state : Option σ) (mode : Option Mode)
    (pending : Option σ) (completed : Bool) (stack : List (Frame σ)) : Prop where
  present : state.isSome = (completed || stack.any Frame.constructing)
  /-- a nested transaction that constructs the state takes it exclusively when it completes -/
  exclusive : completed = true → stack.any Frame.constructing = false → mode = some .exclusive
  writer : stack.any Frame.isWriter = true → mode = some .exclusive
  pending : config.usingRestartDetection = false → completed = true → pending.isSome = true

def Sound.Snapshots (config : Config σ) (pending : Option σ) : List (Frame σ) → Prop
  | [] => True
  | .own _ snapshot :: stack =>
    Sound config snapshot.state snapshot.mode pending snapshot.completed stack ∧
      Snapshots config pending stack
  | .other _ snapshot :: stack =>
    Sound config snapshot.state snapshot.mode pending snapshot.completed stack ∧
      Snapshots config pending stack
  | _ :: stack => Snapshots config pending stack

structure Inv (config : Config σ) (s : State σ) : Prop where
  promised : Promised config s
  /-- nothing is asked of a transaction that will abort -/
  sound : s.doomed = false →
    Sound config s.state s.mode s.pending s.completed s.stack ∧
      Sound.Snapshots config s.pending s.stack
  unwritten : config.usingRestartDetection = false → s.doomed = false → s.completed = false →
    s.pending = none
  finished : s.committed.isSome = true → s.stack = []

section

variable {config : Config σ} {s : State σ}

/-- More written is as good. -/
theorem Sound.mono {state : Option σ} {mode : Option Mode} {pending pending' : Option σ}
    {completed : Bool} {stack : List (Frame σ)} (hsub : pending.isSome = true → pending'.isSome = true)
    (h : Sound config state mode pending completed stack) :
    Sound config state mode pending' completed stack :=
  ⟨h.present, h.exclusive, h.writer, fun hd hc => hsub (h.pending hd hc)⟩

theorem Sound.Snapshots.mono {pending pending' : Option σ}
    (hsub : pending.isSome = true → pending'.isSome = true) {stack : List (Frame σ)}
    (h : Snapshots config pending stack) : Snapshots config pending' stack := by
  induction stack with
  | nil => trivial
  | cons f stack ih =>
    cases f with
    | reader => exact ih h
    | writer => exact ih h
    | own => exact ⟨h.1.mono hsub, ih h.2⟩
    | other => exact ⟨h.1.mono hsub, ih h.2⟩

theorem Sound.Snapshots.tail {pending : Option σ} {f : Frame σ} {stack : List (Frame σ)}
    (h : Snapshots config pending (f :: stack)) : Snapshots config pending stack := by
  cases f with
  | reader => exact h
  | writer => exact h
  | own => exact h.2
  | other => exact h.2

theorem Inv.init : Inv config (State.init : State σ) where
  promised := ⟨by simp [State.init], by simp [State.init]⟩
  sound := fun _ =>
    ⟨⟨rfl, fun h => (nomatch h), fun h => (nomatch h), fun _ h => (nomatch h)⟩, trivial⟩
  unwritten := fun _ _ _ => rfl
  finished := by simp [State.init]

/-- An answer that goes by whether there is a state goes by whether it counts. -/
theorem Promised.answer (h : Promised config s) (kind : Kind)
    (hcounts : s.state.isSome = s.counts) :
    Promised config (s.answer kind (loadError config kind s.state.isSome)) := by
  refine ⟨fun a ha => ?_, h.committed⟩
  obtain rfl | ha := List.mem_cons.mp ha
  · show loadError config kind s.state.isSome = loadError config kind s.counts
    rw [hcounts]
  · exact h.answered a ha

/-- A joined state that had to be exclusive still is. -/
theorem joined_exclusive {kind : Kind} (h : s.mode = some .exclusive) :
    s.joined kind = some .exclusive := by
  cases kind with
  | reader => simp [State.joined, h]
  | writer => rfl
  | own fromConstructor exclusive => cases exclusive <;> simp [State.joined, h]
  | other => exact h

/-- A sound state is as good in the mode it is joined in. -/
theorem Sound.join {stack : List (Frame σ)} {kind : Kind}
    (h : Sound config s.state s.mode s.pending s.completed stack) :
    Sound config s.state (s.joined kind) s.pending s.completed stack :=
  ⟨h.present, fun hc hn => joined_exclusive (h.exclusive hc hn),
    fun hw => joined_exclusive (h.writer hw), h.pending⟩

/-- Rolling back to a sound snapshot is sound. -/
theorem Sound.rollback {snapshot : Snapshot σ} {stack : List (Frame σ)}
    (h : Sound config snapshot.state snapshot.mode s.pending snapshot.completed stack) :
    Sound config (s.rollback snapshot).state (s.rollback snapshot).mode s.pending
      (s.rollback snapshot).completed stack := by
  have hmode : snapshot.mode = some .exclusive → (s.rollback snapshot).mode = some .exclusive := by
    intro hmode
    simp [State.rollback, hmode]
  exact ⟨h.present, fun hc hn => hmode (h.exclusive hc hn), fun hw => hmode (h.writer hw),
    h.pending⟩

/-! ## The steps -/

theorem Inv.callState (h : Inv config s) {kind : Kind} (hkind : ∀ b, kind ≠ .other b)
    (hdoomed : s.doomed = false) (hopen : s.committed = none) :
    Inv config (callState config s kind) := by
  obtain ⟨hsound, hsnaps⟩ := h.sound hdoomed
  have hpromised := h.promised.answer kind hsound.present
  have hfinished : ¬ s.committed.isSome = true := by simp [hopen]
  unfold Construct.callState
  dsimp only
  split
  next =>
    have hentered : Inv config
        { s.answer kind (loadError config kind s.state.isSome) with mode := s.joined kind } :=
      ⟨⟨hpromised.answered, hpromised.committed⟩, fun _ => ⟨hsound.join, hsnaps⟩, h.unwritten,
        fun hc => absurd hc hfinished⟩
    split
    next =>
      split
      next =>
        exact
          ⟨⟨hentered.promised.answered, hentered.promised.committed⟩,
            fun _ => ⟨Sound.rollback (s := { s.answer _ _ with mode := _ }) hsound, hsnaps⟩,
            h.unwritten, fun hc => absurd hc hfinished⟩
      next =>
        exact ⟨⟨hentered.promised.answered, hentered.promised.committed⟩,
          fun hd => (nomatch hd), fun _ hd => (nomatch hd), fun hc => absurd hc hfinished⟩
    next => exact hentered
  next herror =>
    have hpresent : (some (s.state.getD config.empty)).isSome =
        (s.completed || (frameOf kind s.state.isNone s.snapshot :: s.stack).any
          Frame.constructing) := by
      have hp := hsound.present
      cases hstate : s.state with
      | some v =>
        rw [hstate] at hp
        simp only [Option.isSome_some] at hp
        rw [List.any_cons, ← Bool.or_left_comm, ← hp]
        simp
      | none =>
        -- readers are refused, so the call constructs the state
        have hc : (frameOf kind true s.snapshot).constructing = true := by
          cases kind with
          | reader => simp [loadError, hstate, Kind.fromConstructor] at herror
          | writer => rfl
          | own => rfl
          | other b => exact absurd rfl (hkind b)
        simp [hc]
    have hsnapshots : Sound.Snapshots config s.pending
        (frameOf kind s.state.isNone s.snapshot :: s.stack) := by
      cases kind with
      | reader => exact hsnaps
      | writer => exact hsnaps
      | own => exact ⟨hsound, hsnaps⟩
      | other b => exact ⟨hsound, hsnaps⟩
    have hexclusive : s.completed = true →
        (frameOf kind s.state.isNone s.snapshot :: s.stack).any Frame.constructing = false →
        s.joined kind = some .exclusive := by
      intro hc hn
      rw [List.any_cons, Bool.or_eq_false_iff] at hn
      exact joined_exclusive (hsound.exclusive hc hn.2)
    have hwriter : (frameOf kind s.state.isNone s.snapshot :: s.stack).any Frame.isWriter = true →
        s.joined kind = some .exclusive := by
      intro hw
      rw [List.any_cons, Bool.or_eq_true] at hw
      obtain hw | hw := hw
      · cases kind with
        | writer => rfl
        | reader => exact (nomatch hw)
        | own => exact (nomatch hw)
        | other => exact (nomatch hw)
      · exact joined_exclusive (hsound.writer hw)
    exact
      ⟨⟨hpromised.answered, hpromised.committed⟩,
        fun _ => ⟨⟨hpresent, hexclusive, hwriter, hsound.pending⟩, hsnapshots⟩,
        h.unwritten, fun hc => absurd hc hfinished⟩

theorem Inv.call (h : Inv config s) {kind : Kind} (hdoomed : s.doomed = false)
    (hopen : s.committed = none) : Inv config (call config s kind) := by
  unfold Construct.call
  split
  next usingRestartDetection =>
    obtain ⟨hsound, hsnaps⟩ := h.sound hdoomed
    refine ⟨⟨h.promised.answered, h.promised.committed⟩, fun _ => ⟨?_, hsound, hsnaps⟩,
      h.unwritten, fun hc => by simp [hopen] at hc⟩
    exact ⟨by simpa [Frame.constructing] using hsound.present,
      fun hc hn => hsound.exclusive hc (by simpa [Frame.constructing] using hn),
      fun hw => hsound.writer (by simpa [Frame.isWriter] using hw), hsound.pending⟩
  next hkind => exact h.callState (fun b hb => hkind b hb) hdoomed hopen

/-- A call completes: it leaves a state, held exclusively unless somebody still constructs it. -/
theorem Inv.store (h : Inv config s) {v : σ} {mode : Option Mode} {f : Frame σ}
    {stack : List (Frame σ)} (hstack : s.stack = f :: stack)
    (hmode : s.doomed = false → stack.any Frame.constructing = false → mode = some .exclusive)
    (hkept : s.mode = some .exclusive → mode = some .exclusive) :
    Inv config (store config s v mode stack) := by
  have hopen : s.committed = none := by
    cases hc : s.committed with
    | none => rfl
    | some d =>
      have := h.finished (by simp [hc])
      rw [hstack] at this
      cases this
  refine ⟨⟨h.promised.answered, fun d hd => ?_⟩, fun hd => ?_, fun _ _ hc => (nomatch hc), ?_⟩
  · replace hd : s.committed = some d := hd
    rw [hopen] at hd
    cases hd
  · obtain ⟨hsound, hsnaps⟩ := h.sound hd
    rw [hstack] at hsound hsnaps
    have hsub : s.pending.isSome = true →
        (if config.usingRestartDetection then s.pending else some v).isSome = true := by
      intro hp
      split
      next => exact hp
      next => rfl
    refine ⟨⟨by simp [Construct.store], fun _ => hmode hd, fun hw => ?_, fun hdet _ => ?_⟩,
      hsnaps.tail.mono hsub⟩
    · exact hkept (hsound.writer (by rw [List.any_cons, Bool.or_eq_true]; exact .inr hw))
    · simp [Construct.store, hdet]
  · intro hc
    replace hc : s.committed.isSome = true := hc
    simp [hopen] at hc

/-- A call ends that neither constructs anything nor changes it. -/
theorem Inv.pop (h : Inv config s) {f : Frame σ} {stack : List (Frame σ)}
    (hstack : s.stack = f :: stack) (hf : f.constructing = false) :
    Inv config { s with stack } := by
  refine ⟨⟨h.promised.answered, h.promised.committed⟩, fun hd => ?_, h.unwritten, fun hc => ?_⟩
  · obtain ⟨hsound, hsnaps⟩ := h.sound hd
    rw [hstack] at hsound hsnaps
    refine ⟨⟨?_, fun hc hn => ?_, fun hw => ?_, hsound.pending⟩, hsnaps.tail⟩
    · simpa [hf] using hsound.present
    · exact hsound.exclusive hc (by simpa [hf] using hn)
    · exact hsound.writer (by rw [List.any_cons, Bool.or_eq_true]; exact .inr hw)
  · have := h.finished hc
    rw [hstack] at this
    cases this

/-- A nested transaction fails and the root transaction with it. -/
theorem Inv.doom (h : Inv config s) {f : Frame σ} {stack : List (Frame σ)}
    (hstack : s.stack = f :: stack) : Inv config { s with stack, doomed := true } := by
  refine ⟨⟨h.promised.answered, h.promised.committed⟩, fun hd => (nomatch hd),
    fun _ hd => (nomatch hd), fun hc => ?_⟩
  have := h.finished hc
  rw [hstack] at this
  cases this

/-- A nested transaction fails and is rolled back. -/
theorem Inv.rollback (h : Inv config s) {f : Frame σ} {stack : List (Frame σ)}
    {snapshot : Snapshot σ} (hstack : s.stack = f :: stack)
    (hsnap : s.doomed = false →
      Sound config snapshot.state snapshot.mode s.pending snapshot.completed stack)
    (hwritten : config.usingRestartDetection = false → s.completed = true →
      snapshot.completed = true) :
    Inv config { s.rollback snapshot with stack } := by
  have hopen : s.committed = none := by
    cases hc : s.committed with
    | none => rfl
    | some d =>
      have := h.finished (by simp [hc])
      rw [hstack] at this
      cases this
  refine ⟨⟨h.promised.answered, fun d hd => ?_⟩, fun hd => ?_, fun hdet hd hc => ?_, ?_⟩
  · replace hd : s.committed = some d := hd
    rw [hopen] at hd
    cases hd
  · have hsnaps := (h.sound hd).2
    rw [hstack] at hsnaps
    exact ⟨Sound.rollback (hsnap hd), hsnaps.tail⟩
  · replace hc : snapshot.completed = false := hc
    have hs : s.completed = false := by
      cases hcompleted : s.completed with
      | false => rfl
      | true =>
        have := hwritten hdet hcompleted
        rw [hc] at this
        exact this.symm
    exact h.unwritten hdet hd hs
  · intro hc
    replace hc : s.committed.isSome = true := hc
    simp [hopen] at hc

theorem Inv.commit (h : Inv config s) (hstack : s.stack = []) (hdoomed : s.doomed = false) :
    Inv config { s with
      committed :=
        some
          (if config.usingRestartDetection then
            if s.mode = some .exclusive then s.state else none
          else s.pending) } := by
  obtain ⟨hsound, hsnaps⟩ := h.sound hdoomed
  refine ⟨⟨h.promised.answered, fun d hd => ?_⟩, fun _ => ⟨hsound, hsnaps⟩, h.unwritten,
    fun _ => hstack⟩
  have hpresent : s.state.isSome = s.completed := by
    have hp := hsound.present
    rw [hstack] at hp
    simpa using hp
  obtain rfl := Option.some.inj hd
  show _ = s.completed
  by_cases hdet : config.usingRestartDetection = true
  · rw [if_pos hdet]
    split
    next => exact hpresent
    next hmode =>
      cases hc : s.completed with
      | false => rfl
      | true => exact absurd (hsound.exclusive hc (by simp [hstack])) hmode
  · rw [if_neg hdet]
    have hdet' : config.usingRestartDetection = false := by simpa using hdet
    cases hc : s.completed with
    | false => rw [h.unwritten hdet' hdoomed hc, Option.isSome_none]
    | true => exact hsound.pending hdet' hc

end

/-! ## One step and every run -/

/-- A transaction method that completes holds the state exclusively, unless another one that is
still running constructs it. -/
theorem own_mode [DecidableEq σ] {config : Config σ} {s : State σ} (h : Inv config s) {v : σ}
    {constructing : Bool} {snapshot : Snapshot σ} {stack : List (Frame σ)}
    (hstack : s.stack = .own constructing snapshot :: stack) (hd : s.doomed = false)
    (hbelow : stack.any Frame.constructing = false) :
    (if constructing || s.state ≠ some v then some .exclusive else s.mode) =
      some Mode.exclusive := by
  split
  next => rfl
  next hno =>
    have hsound := (h.sound hd).1
    simp only [Bool.or_eq_true, not_or, Bool.not_eq_true, decide_eq_true_eq,
      Decidable.not_not] at hno
    have hany : s.stack.any Frame.constructing = false := by
      rw [hstack, List.any_cons, hbelow, Bool.or_false]
      exact hno.1
    have hcompleted := hsound.present
    rw [hno.2, hany, Option.isSome_some, Bool.or_false] at hcompleted
    exact hsound.exclusive hcompleted.symm hany

theorem step_inv [DecidableEq σ] {config : Config σ} {s s' : State σ} {a : Action σ}
    (h : Inv config s) (hok : StepOk config s a) (hs : step config s a = some s') :
    Inv config s' := by
  cases a with
  | call kind =>
    dsimp only [step] at hs
    split at hs
    next => cases hs
    next hno =>
      cases hs
      simp only [Bool.or_eq_true, not_or, Bool.not_eq_true, Option.isSome_eq_false_iff,
        Option.isNone_iff_eq_none] at hno
      exact h.call hno.1.1 hno.1.2
  | returns v =>
    dsimp only [step] at hs
    split at hs
    next => cases hs
    next stack hstack =>
      cases hs
      exact h.pop hstack rfl
    next constructing stack hstack =>
      cases hs
      refine h.store hstack (fun hd _ => ?_) id
      exact (h.sound hd).1.writer (by simp [hstack, Frame.isWriter])
    next constructing snapshot stack hstack =>
      cases hs
      refine h.store hstack (fun hd hbelow => own_mode h hstack hd hbelow) fun hmode => ?_
      split
      next => rfl
      next => exact hmode
    next stack hstack =>
      cases hs
      exact h.pop hstack rfl
  | fails =>
    dsimp only [step] at hs
    split at hs
    next => cases hs
    next stack hstack =>
      cases hs
      exact h.pop hstack rfl
    next constructing stack hstack =>
      cases hs
      have hconstructing : constructing = false := by
        unfold StepOk at hok
        rw [hstack] at hok
        exact hok
      exact h.pop hstack hconstructing
    next constructing snapshot stack hstack =>
      split at hs
      next hdet =>
        cases hs
        refine h.rollback hstack (fun hd => ?_) fun hno => ?_
        · have hsnaps := (h.sound hd).2
          rw [hstack] at hsnaps
          exact hsnaps.1
        · rw [hdet] at hno
          cases hno
      next =>
        cases hs
        exact h.doom hstack
    next usingRestartDetection snapshot stack hstack =>
      split at hs
      next hdet =>
        cases hs
        subst hdet
        refine h.rollback hstack (fun hd => ?_) ?_
        · have hsnaps := (h.sound hd).2
          rw [hstack] at hsnaps
          exact hsnaps.1
        · unfold StepOk at hok
          rw [hstack] at hok
          exact hok
      next =>
        cases hs
        exact h.doom hstack
  | commit =>
    dsimp only [step] at hs
    split at hs
    next hstack =>
      split at hs
      next => cases hs
      next hno =>
        cases hs
        simp only [Bool.or_eq_true, not_or, Bool.not_eq_true] at hno
        exact h.commit hstack hno.1
    next => cases hs

/-- In every run that meets the condition, the state counts as constructed for the calls of the
transaction exactly if a call on it has completed, and so it does in the database. -/
theorem constructed_iff_completed [DecidableEq σ] {config : Config σ} {s : State σ}
    (h : Reach (step config) (StepOk config) .init s) : Promised config s :=
  (h.invariant (Inv config) Inv.init fun _ _ _ hi hok hs => step_inv hi hok hs).promised

/-- A state type with constructors, and without. -/
def exampleConfig (requiresConstructor usingRestartDetection : Bool) : Config Nat :=
  { requiresConstructor, usingRestartDetection, empty := 0 }

/-- A reader is refused, a nested constructor fails, another one completes. -/
def secondAttempt : List (Action Nat) :=
  [.call .reader, .call (.own true false), .fails, .call .reader, .call (.own true false),
   .returns 5, .call .reader, .returns 0, .commit]

theorem constructed_iff_completed_secondAttempt :
    (last (step (exampleConfig true true)) .init secondAttempt).committed = some (some 5) ∧
      Promised (exampleConfig true true)
        (last (step (exampleConfig true true)) .init secondAttempt) :=
  ⟨by decide +kernel, constructed_iff_completed (reach_last secondAttempt .init (by decide +kernel))⟩

/-- The constructor, a writer, fails; a reader and the constructor are called after it. -/
def failedWriter : List (Action Nat) :=
  [.call (.writer true), .fails, .call .reader, .returns 0, .call (.writer true), .commit]

/-- A writer of a state without restart detection completes in a nested transaction that fails. -/
def rolledBack : List (Action Nat) :=
  [.call (.other true), .call (.writer false), .returns 5, .fails, .commit]

/-- No call has completed, and yet the reader is let in, the constructor is told that the state is
constructed and the commit stores an actor; and the same for a call that was rolled back. -/
theorem failed_call_constructs :
    (∃ s : State Nat, exec (step (exampleConfig true true)) .init failedWriter = some s ∧
      s.completed = false ∧
      s.answered = [⟨.writer true, some .stateAlreadyConstructed, false⟩,
        ⟨.reader, none, false⟩, ⟨.writer true, none, false⟩] ∧
      s.committed = some (some 0) ∧ ¬ Promised (exampleConfig true true) s) ∧
    ∃ s : State Nat, exec (step (exampleConfig false false)) .init rolledBack = some s ∧
      s.completed = false ∧ s.committed = some (some 5) ∧
      ¬ Promised (exampleConfig false false) s := by
  constructor
  · refine ⟨_, exec_eq_last (by decide +kernel), by decide +kernel, by decide +kernel,
      by decide +kernel, fun h => ?_⟩
    exact absurd (h.committed (some 0) (by decide +kernel)) (by decide +kernel)
  · refine ⟨_, exec_eq_last (by decide +kernel), by decide +kernel, by decide +kernel, fun h => ?_⟩
    exact absurd (h.committed (some 5) (by decide +kernel)) (by decide +kernel)

end Reboot.Methods.Construct
