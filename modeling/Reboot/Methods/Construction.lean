import Mathlib.Data.List.Perm.Basic
import Mathlib.Data.List.Nodup
import Mathlib.Logic.Function.Basic
import Reboot.Lib.Run
import Reboot.Lib.Text

/-!
# States under construction

The generated `__{Method}` of `templates/reboot.py.j2` keeps the ids of states whose constructor
runs in `states_being_constructed`, one set for all state types of the module. A Pydantic method
whose state's id is in that set starts from the defaults of its model instead of the value that
`_load` gave it.

> `construction_tracked`: in every run in which no two constructors of one id run at the same
> time, and no other method is entered while a constructor of *another* state with its id runs
> (`StepOk`), every method of a state that is not being constructed starts from its own value,
> and no constructor raises when it leaves.

Mirroring notes:

* A module is Pydantic or not. A Pydantic method works on a model, `proto_to_pydantic` of the
  message it is given, which may fail to validate; otherwise on the message itself.
* From entering to the `await` of the servicer's method nothing is awaited, so `enter` is one
  action; what `_load` gave the call is in it, and so is how its method ends. Leaving is one
  action as well, whether the method returned, failed or was cancelled.
* A Python `set` is a list without duplicates; `remove` of a missing element raises `KeyError`.
* The key of `ongoing_transaction_states` is the triple it is printed from. State type names and
  transaction ids have no slash in them.
-/

namespace Reboot.Methods

open Reboot.Lib

/-! ## A module and its calls -/

structure StateKey where
  stateTypeName : Str
  stateId : Str
deriving DecidableEq

inductive Kind where
  | reader
  | writer
  | transaction
  | workflow
deriving DecidableEq

structure Call where
  state : StateKey
  kind : Kind
  constructor : Bool
  stateStreaming : Bool
  transactionRootId : Option Nat
deriving DecidableEq

/-- Whether the method is given a `typed_state`. -/
def Call.typed (c : Call) : Bool := !c.stateStreaming && c.kind ≠ .workflow

/-- `ongoing_transaction_state_key` -/
def Call.ongoingKey (c : Call) : StateKey × Option Nat := (c.state, c.transactionRootId)

/-- What a method works on. -/
inductive TypedState (M P : Type) where
  | model (m : M)
  | message (p : P)
deriving DecidableEq

structure Module (M P : Type) where
  pydantic : Bool
  /-- `proto_to_pydantic`, for each state type; `none` if the model does not validate -/
  protoToPydantic : Str → P → Option M
  /-- `model_construct()` -/
  modelConstruct : Str → M

variable {M P : Type}

/-- `{State}FromProto` -/
def stateFromProto (module : Module M P) (stateTypeName : Str) (state : P)
    (isInitialState : Bool) : Option (TypedState M P) :=
  if module.pydantic then
    if isInitialState then some (.model (module.modelConstruct stateTypeName))
    else (module.protoToPydantic stateTypeName state).map .model
  else some (.message state)

/-- A reader or writer of a Pydantic module takes a copy of the ongoing transaction's model, if
there is one; whatever else it is, the message has to validate first. -/
def typedState (module : Module M P) (c : Call) (state : P) (isInitialState : Bool)
    (ongoing : Option M) : Option (TypedState M P) :=
  (stateFromProto module c.state.stateTypeName state isInitialState).map fun typed =>
    match module.pydantic && (c.kind = .reader || c.kind = .writer), ongoing with
    | true, some m => .model m
    | _, _ => typed

/-! ## A server with the module -/

structure Running (M P : Type) where
  call : Call
  typed : Option (TypedState M P)
deriving DecidableEq

/-- A method that started, with what there was to start from. -/
structure Started (M P : Type) where
  call : Call
  state : P
  typed : TypedState M P
  beingConstructed : Bool
  ongoing : Option M
deriving DecidableEq

structure Server (M P : Type) where
  statesBeingConstructed : List Str
  ongoingTransactionStates : StateKey × Option Nat → Option M
  running : List (Running M P)
  started : List (Started M P)
  /-- calls whose `states_being_constructed.remove` raised `KeyError` -/
  raised : List Call

def Server.init : Server M P :=
  { statesBeingConstructed := [], ongoingTransactionStates := fun _ => none, running := []
    started := [], raised := [] }

/-- A constructor of the state runs, or is about to. -/
def beingConstructed (s : Server M P) (c : Call) : Bool :=
  c.constructor || s.running.any fun r => r.call.constructor && r.call.state = c.state

/-- `states_being_constructed.add(context.state_id)` -/
def addConstructed (s : Server M P) (c : Call) : List Str :=
  if c.constructor then s.statesBeingConstructed.insert c.state.stateId
  else s.statesBeingConstructed

/-- A transaction method of a Pydantic module puts its model into `ongoing_transaction_states`. -/
def ongoingAfter (module : Module M P) (s : Server M P) (c : Call)
    (typed : Option (TypedState M P)) : StateKey × Option Nat → Option M :=
  match module.pydantic && c.typed && c.kind = .transaction, typed with
  | true, some (.model m) => Function.update s.ongoingTransactionStates c.ongoingKey (some m)
  | _, _ => s.ongoingTransactionStates

/-- `__{Method}` up to where it awaits the servicer's method. A message that does not validate
raises, and the call is left with nothing to run. -/
def enter (module : Module M P) (s : Server M P) (c : Call) (state : P) : Server M P :=
  let ids := addConstructed s c
  let ongoing := s.ongoingTransactionStates c.ongoingKey
  let typed :=
    if c.typed then typedState module c state (ids.contains c.state.stateId) ongoing else none
  { s with
    statesBeingConstructed := ids
    ongoingTransactionStates := ongoingAfter module s c typed
    running := s.running ++ [⟨c, typed⟩]
    started :=
      match typed with
      | some t => ⟨c, state, t, beingConstructed s c, ongoing⟩ :: s.started
      | none => s.started }

/-- A Pydantic writer has returned: the fields of its model go to the ongoing transaction's. -/
def writerReturned (module : Module M P) (s : Server M P) (c : Call) (m : M) : Server M P :=
  if module.pydantic && c.kind = .writer && (s.ongoingTransactionStates c.ongoingKey).isSome then
    { s with
      ongoingTransactionStates :=
        Function.update s.ongoingTransactionStates c.ongoingKey (some m) }
  else s

/-- The `finally` of `__{Method}`; what is raised there skips the rest of it. -/
def leave (module : Module M P) (s : Server M P) (i : Nat) (c : Call) : Server M P :=
  let gone := { s with running := s.running.eraseIdx i }
  if c.constructor && !s.statesBeingConstructed.contains c.state.stateId then
    { gone with raised := c :: s.raised }
  else
    { gone with
      statesBeingConstructed :=
        if c.constructor then s.statesBeingConstructed.erase c.state.stateId
        else s.statesBeingConstructed
      ongoingTransactionStates :=
        if module.pydantic && c.kind = .transaction then
          Function.update s.ongoingTransactionStates c.ongoingKey none
        else s.ongoingTransactionStates }

inductive Action (M P : Type) where
  | enter (c : Call) (state : P)
  | returned (i : Nat) (m : M)
  | leave (i : Nat)

def step (module : Module M P) (s : Server M P) : Action M P → Option (Server M P)
  | .enter c state => some (enter module s c state)
  | .returned i m => (s.running[i]?).map fun r => writerReturned module s r.call m
  | .leave i => (s.running[i]?).map fun r => leave module s i r.call

/-! ## The promise and the condition -/

/-- What a method starts from if its state is not being constructed. -/
def ownValue (module : Module M P) (c : Call) (state : P) (ongoing : Option M) :
    Option (TypedState M P) :=
  typedState module c state false ongoing

def Tracked (module : Module M P) (s : Server M P) : Prop :=
  (∀ x ∈ s.started, x.beingConstructed = false →
    ownValue module x.call x.state x.ongoing = some x.typed) ∧ s.raised = []

/-- The constructors that run. -/
def constructorsOf (running : List (Running M P)) : List Call :=
  (running.map Running.call).filter Call.constructor

/-- No constructor is entered while another one with its id runs, and no other method of a
Pydantic module while one of another state does. -/
def StepOk (module : Module M P) (s : Server M P) : Action M P → Prop
  | .enter c _ =>
    ∀ d ∈ constructorsOf s.running, d.state.stateId = c.state.stateId →
      c.constructor = false ∧ (module.pydantic = true → c.typed = true → d.state = c.state)
  | _ => True

instance (module : Module M P) (s : Server M P) : ∀ a, Decidable (StepOk module s a)
  | .enter c _ =>
    inferInstanceAs (Decidable (∀ d ∈ constructorsOf s.running,
      d.state.stateId = c.state.stateId →
        c.constructor = false ∧ (module.pydantic = true → c.typed = true → d.state = c.state)))
  | .returned _ _ | .leave _ => inferInstanceAs (Decidable True)

/-! ## The invariant -/

/-- The set is the ids of the constructors that run, and no two of them share one. -/
structure Inv (module : Module M P) (s : Server M P) : Prop where
  ids : s.statesBeingConstructed.Perm
    ((constructorsOf s.running).map fun c => c.state.stateId)
  nodup : s.statesBeingConstructed.Nodup
  tracked : Tracked module s

theorem constructorsOf_append (running : List (Running M P)) (r : Running M P) :
    constructorsOf (running ++ [r]) =
      constructorsOf running ++ if r.call.constructor then [r.call] else [] := by
  unfold constructorsOf
  rw [List.map_append, List.filter_append]
  congr 1
  by_cases h : r.call.constructor = true
  · simp [h]
  · simp [h]

/-- A call that leaves takes itself out of the constructors, if it is one. -/
theorem constructorsOf_eraseIdx {running : List (Running M P)} {i : Nat} {r : Running M P}
    (h : running[i]? = some r) :
    (constructorsOf running).Perm
      ((if r.call.constructor then [r.call] else []) ++ constructorsOf (running.eraseIdx i)) := by
  obtain ⟨hi, rfl⟩ := List.getElem?_eq_some_iff.mp h
  have hperm := ((List.getElem_cons_eraseIdx_perm hi).map Running.call).filter Call.constructor
  refine hperm.symm.trans (List.Perm.of_eq ?_)
  unfold constructorsOf
  by_cases hc : (running[i]).call.constructor = true
  · simp [hc]
  · simp [hc]

theorem Inv.mem_ids {module : Module M P} {s : Server M P} (h : Inv module s) {stateId : Str} :
    stateId ∈ s.statesBeingConstructed ↔
      ∃ d ∈ constructorsOf s.running, d.state.stateId = stateId := by
  rw [h.ids.mem_iff, List.mem_map]

/-- Entered under the condition, a method of a state that is not being constructed does not find
its id in the set. -/
theorem Inv.not_initial {module : Module M P} {s : Server M P} (h : Inv module s) {c : Call}
    {state : P} (hok : StepOk module s (.enter c state)) (hp : module.pydantic = true)
    (ht : c.typed = true) (hb : beingConstructed s c = false) :
    (addConstructed s c).contains c.state.stateId = false := by
  rw [beingConstructed, Bool.or_eq_false_iff] at hb
  obtain ⟨hc, hany⟩ := hb
  have hnot : c.state.stateId ∉ s.statesBeingConstructed := by
    intro hmem
    obtain ⟨d, hd, hid⟩ := h.mem_ids.mp hmem
    have hstate : d.state = c.state := (hok d hd hid).2 hp ht
    obtain ⟨hd, hcon⟩ := List.mem_filter.mp hd
    obtain ⟨r, hr, rfl⟩ := List.mem_map.mp hd
    have hfalse := List.any_eq_false.mp hany r hr
    simp [hcon, hstate] at hfalse
  simpa [addConstructed, hc] using hnot

theorem Inv.init (module : Module M P) : Inv module (Server.init : Server M P) where
  ids := List.Perm.refl _
  nodup := List.nodup_nil
  tracked := ⟨by simp [Server.init], rfl⟩

theorem Inv.enter {module : Module M P} {s : Server M P} (h : Inv module s) {c : Call}
    {state : P} (hok : StepOk module s (.enter c state)) : Inv module (enter module s c state) where
  ids := by
    show (addConstructed s c).Perm ((constructorsOf (s.running ++ [_])).map _)
    rw [constructorsOf_append]
    unfold addConstructed
    by_cases hc : c.constructor = true
    · have hnot : c.state.stateId ∉ s.statesBeingConstructed := by
        intro hmem
        obtain ⟨d, hd, hid⟩ := h.mem_ids.mp hmem
        have := (hok d hd hid).1
        rw [hc] at this
        exact absurd this (by decide)
      rw [if_pos hc, if_pos hc, List.insert_of_not_mem hnot, List.map_append]
      exact (h.ids.cons _).trans (List.perm_append_singleton _ _).symm
    · rw [if_neg hc, if_neg hc, List.append_nil]
      exact h.ids
  nodup := by
    show (addConstructed s c).Nodup
    unfold addConstructed
    split
    next => exact h.nodup.insert
    next => exact h.nodup
  tracked := by
    refine ⟨?_, h.tracked.2⟩
    intro x hx hb
    dsimp only [Methods.enter] at hx
    split at hx
    next t ht =>
      obtain rfl | hx := List.mem_cons.mp hx
      · dsimp only at hb ⊢
        split at ht
        next htyped =>
          rw [← ht, ownValue]
          by_cases hp : module.pydantic = true
          · rw [h.not_initial hok hp htyped hb]
          · simp [typedState, stateFromProto, hp]
        next => exact absurd ht (by simp)
      · exact h.tracked.1 x hx hb
    next => exact h.tracked.1 x hx hb

theorem Inv.writerReturned {module : Module M P} {s : Server M P} (h : Inv module s) (c : Call)
    (m : M) : Inv module (writerReturned module s c m) := by
  unfold Methods.writerReturned
  split
  next => exact ⟨h.ids, h.nodup, h.tracked⟩
  next => exact h

theorem Inv.leave {module : Module M P} {s : Server M P} (h : Inv module s) {i : Nat}
    {r : Running M P} (hi : s.running[i]? = some r) : Inv module (leave module s i r.call) := by
  have hperm := constructorsOf_eraseIdx hi
  unfold Methods.leave
  by_cases hc : r.call.constructor = true
  · have hmem : r.call.state.stateId ∈ s.statesBeingConstructed := by
      rw [h.mem_ids]
      exact ⟨r.call, hperm.mem_iff.mpr (by simp [hc]), rfl⟩
    have hcontains : s.statesBeingConstructed.contains r.call.state.stateId = true := by
      simpa using hmem
    simp only [hc, hcontains, Bool.not_true, Bool.and_false, Bool.false_eq_true, if_false, if_true]
    refine ⟨?_, h.nodup.erase _, h.tracked⟩
    rw [if_pos hc] at hperm
    have hids := (h.ids.trans (hperm.map fun c => c.state.stateId)).erase r.call.state.stateId
    simpa using hids
  · have hfalse : r.call.constructor = false := by simpa using hc
    simp only [hfalse, Bool.false_and, Bool.false_eq_true, if_false]
    rw [if_neg hc] at hperm
    exact ⟨h.ids.trans (hperm.map _), h.nodup, h.tracked⟩

/-! ## One step and every run -/

theorem step_inv {module : Module M P} {s s' : Server M P} {a : Action M P}
    (h : Inv module s) (hok : StepOk module s a) (hs : step module s a = some s') :
    Inv module s' := by
  cases a with
  | enter c state =>
    cases hs
    exact h.enter hok
  | returned i m =>
    obtain ⟨r, -, rfl⟩ := Option.map_eq_some_iff.mp hs
    exact h.writerReturned r.call m
  | leave i =>
    obtain ⟨r, hi, rfl⟩ := Option.map_eq_some_iff.mp hs
    exact h.leave hi

/-- In every run that meets the condition, methods of states that are not being constructed start
from their own value and no constructor raises when it leaves. -/
theorem construction_tracked {module : Module M P} {s : Server M P}
    (h : Reach (step module) (StepOk module) .init s) : Tracked module s :=
  (h.invariant (Inv module) (Inv.init module) fun _ _ _ hi hok hs => step_inv hi hok hs).tracked

/-- A Pydantic module whose models are the messages and whose fields default to `0`. -/
def exampleModule : Module Nat Nat :=
  { pydantic := true, protoToPydantic := fun _ p => some p, modelConstruct := fun _ => 0 }

def exampleCall (stateTypeName stateId : Char) (kind : Kind) (constructor : Bool)
    (root : Option Nat) : Call :=
  { state := ⟨[stateTypeName], [stateId]⟩, kind, constructor, stateStreaming := false
    transactionRootId := root }

/-- The constructor of the user `a` writes the account `b`. -/
def otherId : List (Action Nat Nat) :=
  [.enter (exampleCall 'U' 'a' .transaction true (some 1)) 0,
   .enter (exampleCall 'A' 'b' .writer false (some 1)) 7, .returned 1 8, .leave 1, .leave 0]

theorem construction_tracked_otherId :
    (last (step exampleModule) .init otherId).started.length = 2 ∧
      Tracked exampleModule (last (step exampleModule) .init otherId) :=
  ⟨by decide +kernel, construction_tracked (reach_last otherId .init (by decide +kernel))⟩

/-- The constructor of the user `a` writes the account `a`, which exists with the value `7`. -/
def sameId : List (Action Nat Nat) :=
  [.enter (exampleCall 'U' 'a' .transaction true (some 1)) 0,
   .enter (exampleCall 'A' 'a' .writer false (some 1)) 7]

/-- The constructor of the user `a` constructs the account `a`. -/
def bothConstructed : List (Action Nat Nat) :=
  [.enter (exampleCall 'U' 'a' .transaction true (some 1)) 0,
   .enter (exampleCall 'A' 'a' .writer true (some 1)) 0, .returned 1 3, .leave 1, .leave 0]

/-- A writer starts from the defaults of its model though its state has a value, and a constructor
raises when it leaves. -/
theorem construction_not_tracked :
    (∃ s : Server Nat Nat, exec (step exampleModule) .init sameId = some s ∧
      (⟨exampleCall 'A' 'a' .writer false (some 1), 7, .model 0, false, none⟩ :
        Started Nat Nat) ∈ s.started ∧ ¬ Tracked exampleModule s) ∧
    ∃ s : Server Nat Nat, exec (step exampleModule) .init bothConstructed = some s ∧
      s.raised = [exampleCall 'U' 'a' .transaction true (some 1)] ∧
      ¬ Tracked exampleModule s := by
  constructor
  · refine ⟨_, exec_eq_last (by decide +kernel), by decide +kernel, fun h => ?_⟩
    exact absurd (h.1 ⟨exampleCall 'A' 'a' .writer false (some 1), 7, .model 0, false, none⟩
      (by decide +kernel) rfl) (by decide +kernel)
  · have hraised : (last (step exampleModule) .init bothConstructed).raised =
        [exampleCall 'U' 'a' .transaction true (some 1)] := by
      decide +kernel
    refine ⟨_, exec_eq_last (by decide +kernel), hraised, fun h => ?_⟩
    have hnil := h.2
    rw [hraised] at hnil
    exact absurd hnil (by simp)

end Reboot.Methods
