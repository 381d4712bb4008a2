import Mathlib.Logic.Function.Basic
import Reboot.Lib.Run

/-!
# The typed state of a transaction's methods

A Protobuf method works on `StateManager.Transaction.state`: a transaction method has it by
reference, readers and writers have a copy, a writer's copy is stored back when it completes,
and a nested transaction that fails rolls it back to a snapshot. A Pydantic method works on a
model instead, and `ongoing_transaction_states` of `templates/reboot.py.j2` is there so that it
looks the same: a dictionary entry refers to the model of the running transaction method, readers
and writers start from a copy of it, and a writer that returned sets its fields.

`Shared` is the first, at the level of decoded values; `Pydantic` is what the generated code
does. Both take the same actions, those of one root transaction on one state.

> `typed_state_shared`: in every run in which no transaction method of the state is called while
> another one runs, no nested transaction in which a writer of the state completed fails while
> one runs, and methods leave models that survive their conversion (`StepOk`), both do the same
> steps, every method sees the same value in both, and so does `Transaction.state`, except for
> changes that a running transaction method has made to its own model.

Mirroring notes:

* Calls of one root transaction are awaited one after another: the stack has the methods that
  run, the one that runs now on top. Transaction methods of other states are `other`; readers
  and writers of other states do nothing here and are left out.
* A snapshot is taken when a nested transaction starts. The source takes it when the state is
  first used in it, and until then the state does not change.
* `initial` is what `_load` puts into a transaction without a state: a copy of the committed
  state, or an empty message.
* On a state that does not decode a method raises before it starts, and its `finally` deletes the
  dictionary entry if it is a transaction method. The run goes on as if the caller had caught this.
* Explicit constructors, whose model is made without validating anything, are not modelled.
-/

namespace Reboot.Methods.Typed

open Reboot.Lib

/-- The conversions of a state type, and the state as the transaction finds it. -/
structure Config (M P : Type) where
  /-- `{State}FromProto`; `none` if the model does not validate -/
  fromProto : P → Option M
  /-- `{State}ToProto` -/
  toProto : M → P
  initial : P
  value : M
  decodes : fromProto initial = some value

inductive Kind where
  | reader
  | writer
  /-- a transaction method of this state -/
  | own
  /-- a transaction method of another state -/
  | other
deriving DecidableEq

inductive Action (M : Type) where
  | call (kind : Kind)
  /-- the method that runs changes its state to `m` -/
  | set (m : M)
  | returns
  /-- the method fails with a declared error, which its caller catches -/
  | fails

variable {M P : Type}

/-! ## The generated code -/

inductive Frame (M P : Type) where
  | reader (typed : M)
  | writer (typed : M)
  /-- the model is an object, which the dictionary may refer to -/
  | own (object : Nat) (snapshot : Option P)
  /-- `wrote`: a writer or transaction method of this state has completed in it -/
  | other (snapshot : Option P) (wrote : Bool)
deriving DecidableEq

structure Pydantic (M P : Type) where
  transactionState : Option P
  /-- the object in `ongoing_transaction_states` -/
  ongoing : Option Nat
  objects : Nat → M
  allocated : Nat
  stack : List (Frame M P)
  /-- the running transaction method has changed its model since it was last stored -/
  dirty : Bool

/-- Readers and writers call nothing but readers. -/
def Frame.calls (f : Frame M P) (kind : Kind) : Bool :=
  match f with
  | .reader _ | .writer _ => kind = .reader
  | .own _ _ | .other _ _ => true

def Frame.wroteIn : Frame M P → Frame M P
  | .other snapshot _ => .other snapshot true
  | f => f

namespace Pydantic

/-- What `_load` gives: the transaction's state, which it sets if there was none. -/
def loaded (config : Config M P) (s : Pydantic M P) : P :=
  s.transactionState.getD config.initial

/-- The model a reader or writer starts from. -/
def startsFrom (s : Pydantic M P) (typed : M) : M :=
  match s.ongoing with
  | none => typed
  | some object => s.objects object

/-- A call of the method on top of the stack. A state that does not decode raises, and the
caller goes on. -/
def call (config : Config M P) (s : Pydantic M P) (kind : Kind) : Pydantic M P :=
  let snapshot := s.transactionState
  match kind with
  | .other => { s with stack := .other snapshot false :: s.stack }
  | kind =>
    let message := s.loaded config
    let s := { s with transactionState := some message }
    match config.fromProto message with
    | none =>
      match kind with
      | .own => { s with ongoing := none }
      | _ => s
    | some typed =>
      match kind with
      | .reader => { s with stack := .reader (s.startsFrom typed) :: s.stack }
      | .writer => { s with stack := .writer (s.startsFrom typed) :: s.stack }
      | _ =>
        { s with
          ongoing := some s.allocated
          objects := Function.update s.objects s.allocated typed
          allocated := s.allocated + 1
          stack := .own s.allocated snapshot :: s.stack }

/-- A writer has returned: the dictionary's model gets its fields, its state is stored. -/
def writerReturns (config : Config M P) (s : Pydantic M P) (typed : M)
    (stack : List (Frame M P)) : Pydantic M P :=
  { s with
    objects :=
      match s.ongoing with
      | none => s.objects
      | some object => Function.update s.objects object typed
    transactionState := some (config.toProto typed)
    stack := stack.map Frame.wroteIn
    dirty := false }

def step (config : Config M P) (s : Pydantic M P) : Action M → Option (Pydantic M P)
  | .call kind =>
    match s.stack with
    | [] => none
    | f :: _ => if f.calls kind then some (s.call config kind) else none
  | .set m =>
    match s.stack with
    | .writer _ :: stack => some { s with stack := .writer m :: stack }
    | .own object _ :: _ =>
      some { s with objects := Function.update s.objects object m, dirty := true }
    | _ => none
  | .returns =>
    match s.stack with
    | [] => none
    | .reader _ :: stack => some { s with stack := stack }
    | .writer typed :: stack => some (s.writerReturns config typed stack)
    | .own object _ :: stack =>
      some { s with
        transactionState := some (config.toProto (s.objects object))
        -- `del ongoing_transaction_states[..]`, whosever the entry is
        ongoing := none
        stack := stack.map Frame.wroteIn
        dirty := false }
    | .other _ _ :: stack => some { s with stack := stack }
  | .fails =>
    match s.stack with
    | .reader _ :: stack | .writer _ :: stack => some { s with stack := stack }
    | .own _ snapshot :: f :: stack =>
      some { s with
        transactionState := snapshot, ongoing := none, stack := f :: stack, dirty := false }
    | .other snapshot _ :: f :: stack =>
      some { s with transactionState := snapshot, stack := f :: stack }
    | _ => none

end Pydantic

/-! ## The shared reference -/

/-- A method of the Protobuf path, with its copy or the snapshot it would roll back to. -/
inductive SharedFrame (M : Type) where
  | reader (state : M)
  | writer (state : M)
  | own (snapshot : M)
  | other (snapshot : M)
deriving DecidableEq

structure Shared (M : Type) where
  state : M
  stack : List (SharedFrame M)
deriving DecidableEq

namespace Shared

def push (s : Shared M) : Kind → Shared M
  | .reader => { s with stack := .reader s.state :: s.stack }
  | .writer => { s with stack := .writer s.state :: s.stack }
  | .own => { s with stack := .own s.state :: s.stack }
  | .other => { s with stack := .other s.state :: s.stack }

def step (s : Shared M) : Action M → Option (Shared M)
  | .call kind =>
    match s.stack with
    | [] => none
    | .reader _ :: _ | .writer _ :: _ => if kind = .reader then some (s.push kind) else none
    | .own _ :: _ | .other _ :: _ => some (s.push kind)
  | .set m =>
    match s.stack with
    | .writer _ :: stack => some { s with stack := .writer m :: stack }
    | .own _ :: _ => some { s with state := m }
    | _ => none
  | .returns =>
    match s.stack with
    | [] => none
    | .writer state :: stack => some { s with state, stack }
    | .reader _ :: stack | .own _ :: stack | .other _ :: stack => some { s with stack }
  | .fails =>
    match s.stack with
    | .reader _ :: stack | .writer _ :: stack => some { s with stack }
    | .own snapshot :: f :: stack | .other snapshot :: f :: stack =>
      some { s with state := snapshot, stack := f :: stack }
    | _ => none

end Shared

/-! ## Both at once -/

structure Pair (M P : Type) where
  pydantic : Pydantic M P
  shared : Shared M

/-- The root transaction's method has started: one of this state, or of another one. -/
def Pair.init (config : Config M P) (rootOwn : Bool) : Pair M P :=
  if rootOwn then
    { pydantic :=
        { transactionState := some config.initial, ongoing := some 0
          objects := fun _ => config.value, allocated := 1, stack := [.own 0 none]
          dirty := false }
      shared := { state := config.value, stack := [.own config.value] } }
  else
    { pydantic :=
        { transactionState := none, ongoing := none, objects := fun _ => config.value
          allocated := 0, stack := [.other none false], dirty := false }
      shared := { state := config.value, stack := [.other config.value] } }

def step (config : Config M P) (s : Pair M P) (a : Action M) : Option (Pair M P) :=
  match s.pydantic.step config a, s.shared.step a with
  | some pydantic, some shared => some ⟨pydantic, shared⟩
  | _, _ => none

/-! ## The promise and the condition -/

/-- What a running method has as its state. -/
def Frame.view (objects : Nat → M) : Frame M P → Option M
  | .reader typed => some typed
  | .writer typed => some typed
  | .own object _ => some (objects object)
  | .other _ _ => none

def SharedFrame.view (m : M) : SharedFrame M → Option M
  | .reader state => some state
  | .writer state => some state
  | .own _ => some m
  | .other _ => none

def Pydantic.views (s : Pydantic M P) : List (Option M) := s.stack.map (Frame.view s.objects)

def Shared.views (s : Shared M) : List (Option M) := s.stack.map (SharedFrame.view s.state)

/-- Every method sees what it would see if the state were shared, `Transaction.state` decodes to
that but for what a transaction method has changed in its own model, and the two go on together. -/
structure Agrees (config : Config M P) (s : Pair M P) : Prop where
  views : s.pydantic.views = s.shared.views
  transactionState : s.pydantic.dirty = false →
    config.fromProto (s.pydantic.loaded config) = some s.shared.state
  together : ∀ a, (s.pydantic.step config a).isSome = (s.shared.step a).isSome

/-- The transaction method of this state that runs, if one does. -/
def owner : List (Frame M P) → Option Nat
  | [] => none
  | .own object _ :: _ => some object
  | _ :: stack => owner stack

/-- The model converts to a message that converts back to it. -/
def Config.Faithful (config : Config M P) (m : M) : Prop :=
  config.fromProto (config.toProto m) = some m

instance [DecidableEq M] (config : Config M P) (m : M) : Decidable (config.Faithful m) :=
  inferInstanceAs (Decidable (_ = _))

def StepOk (config : Config M P) (s : Pair M P) : Action M → Prop
  | .call .own => owner s.pydantic.stack = none
  | .returns =>
    match s.pydantic.stack with
    | .writer typed :: _ => config.Faithful typed
    | .own object _ :: _ => config.Faithful (s.pydantic.objects object)
    | _ => True
  | .fails =>
    match s.pydantic.stack with
    | .other _ true :: stack => owner stack = none
    | _ => True
  | _ => True

instance [DecidableEq M] (config : Config M P) (s : Pair M P) : ∀ a, Decidable (StepOk config s a)
  | .call .own => inferInstanceAs (Decidable (owner s.pydantic.stack = none))
  | .returns => by
    unfold StepOk
    exact match s.pydantic.stack with
      | .writer typed :: _ => inferInstanceAs (Decidable (config.Faithful typed))
      | .own object _ :: _ =>
        inferInstanceAs (Decidable (config.Faithful (s.pydantic.objects object)))
      | [] | .reader _ :: _ | .other _ _ :: _ => isTrue trivial
  | .fails => by
    unfold StepOk
    exact match s.pydantic.stack with
      | .other _ true :: stack => inferInstanceAs (Decidable (owner stack = none))
      | [] | .reader _ :: _ | .writer _ :: _ | .own _ _ :: _ | .other _ false :: _ =>
        isTrue trivial
  | .call .reader | .call .writer | .call .other | .set _ => isTrue trivial

/-! ## How the two stacks correspond -/

/-- The snapshot decodes to what the other path would roll back to. -/
def RollsTo (config : Config M P) (snapshot : Option P) (m : M) : Prop :=
  config.fromProto (snapshot.getD config.initial) = some m

/-- Frame by frame. At most one frame is a transaction method of the state; below it, or without
it, the snapshots correspond, and above it nothing has changed unless a writer completed. -/
def Stacks (config : Config M P) (current : Option P) (m : M) :
    List (Frame M P) → List (SharedFrame M) → Prop
  | [], [] => True
  | .reader typed :: fs, .reader state :: gs => typed = state ∧ Stacks config current m fs gs
  | .writer typed :: fs, .writer state :: gs => typed = state ∧ Stacks config current m fs gs
  | .own _ snapshot :: fs, .own shared :: gs =>
    owner fs = none ∧ RollsTo config snapshot shared ∧ Stacks config current m fs gs
  | .other snapshot wrote :: fs, .other shared :: gs =>
    (owner fs = none → RollsTo config snapshot shared) ∧
      (owner fs ≠ none → wrote = false → snapshot = current ∧ shared = m) ∧
      Stacks config current m fs gs
  | _, _ => False

/-- The relation between the two paths. -/
structure Related (config : Config M P) (s : Pair M P) : Prop where
  contexts : Stacks config s.pydantic.transactionState s.shared.state s.pydantic.stack
    s.shared.stack
  /-- the dictionary has the model of the transaction method that runs -/
  ongoing : s.pydantic.ongoing = owner s.pydantic.stack
  model : ∀ object, owner s.pydantic.stack = some object →
    s.pydantic.objects object = s.shared.state ∧ s.pydantic.transactionState ≠ none
  clean : owner s.pydantic.stack = none → s.pydantic.dirty = false
  decodes : ∃ m, config.fromProto (s.pydantic.loaded config) = some m
  transactionState : s.pydantic.dirty = false →
    config.fromProto (s.pydantic.loaded config) = some s.shared.state

section

variable {config : Config M P} {current current' : Option P} {m m' : M}

@[simp] theorem owner_wroteIn : ∀ fs : List (Frame M P), owner (fs.map Frame.wroteIn) = owner fs
  | [] => rfl
  | .own _ _ :: _ => rfl
  | .reader _ :: fs | .writer _ :: fs | .other _ _ :: fs => owner_wroteIn fs

/-- Without a running transaction method of the state, its current value plays no part. -/
theorem Stacks.of_owner_none : ∀ {fs : List (Frame M P)} {gs : List (SharedFrame M)},
    owner fs = none → Stacks config current m fs gs → Stacks config current' m' fs gs
  | [], [], _, _ => trivial
  | .reader _ :: _, .reader _ :: _, ho, h => ⟨h.1, Stacks.of_owner_none ho h.2⟩
  | .writer _ :: _, .writer _ :: _, ho, h => ⟨h.1, Stacks.of_owner_none ho h.2⟩
  | .other _ _ :: _, .other _ :: _, ho, h =>
    ⟨h.1, fun hne => absurd ho hne, Stacks.of_owner_none ho h.2.2⟩
  | .own _ _ :: _, .own _ :: _, ho, _ => (nomatch ho)

/-- Once a writer has completed in all of them, the snapshots above are not used any more. -/
theorem Stacks.wroteIn : ∀ {fs : List (Frame M P)} {gs : List (SharedFrame M)},
    Stacks config current m fs gs → Stacks config current' m' (fs.map Frame.wroteIn) gs
  | [], [], _ => trivial
  | .reader _ :: _, .reader _ :: _, h => ⟨h.1, Stacks.wroteIn h.2⟩
  | .writer _ :: _, .writer _ :: _, h => ⟨h.1, Stacks.wroteIn h.2⟩
  | .other _ _ :: fs, .other _ :: _, h =>
    ⟨fun ho => h.1 (by rwa [owner_wroteIn] at ho), fun _ hw => (nomatch hw),
      Stacks.wroteIn h.2.2⟩
  | .own _ _ :: fs, .own _ :: _, h =>
    ⟨by rw [owner_wroteIn]; exact h.1, h.2.1, Stacks.wroteIn h.2.2⟩

end

/-! ## What the relation says -/

section

variable {config : Config M P} {s : Pair M P}

theorem views_of_stacks {current : Option P} {m : M} {objects : Nat → M} :
    ∀ {fs : List (Frame M P)} {gs : List (SharedFrame M)}, Stacks config current m fs gs →
      (∀ object, owner fs = some object → objects object = m) →
      fs.map (Frame.view objects) = gs.map (SharedFrame.view m)
  | [], [], _, _ => rfl
  | .reader _ :: _, .reader _ :: _, h, ho => by
    rw [List.map_cons, List.map_cons, views_of_stacks h.2 ho, h.1]
    rfl
  | .writer _ :: _, .writer _ :: _, h, ho => by
    rw [List.map_cons, List.map_cons, views_of_stacks h.2 ho, h.1]
    rfl
  | .other _ _ :: _, .other _ :: _, h, ho => by
    rw [List.map_cons, List.map_cons, views_of_stacks h.2.2 ho]
    rfl
  | .own object _ :: fs, .own _ :: _, h, ho => by
    have hrest : ∀ object', owner fs = some object' → objects object' = m := by
      intro object' ho'
      rw [h.1] at ho'
      cases ho'
    rw [List.map_cons, List.map_cons, views_of_stacks h.2.2 hrest, Frame.view, SharedFrame.view,
      ho object rfl]

theorem Related.views (h : Related config s) : s.pydantic.views = s.shared.views :=
  views_of_stacks h.contexts fun object ho => (h.model object ho).1

/-- The two paths can do the same. -/
theorem together_of_stacks {config : Config M P} : ∀ {s : Pair M P},
    Stacks config s.pydantic.transactionState s.shared.state s.pydantic.stack s.shared.stack →
    ∀ a, (s.pydantic.step config a).isSome = (s.shared.step a).isSome := by
  rintro ⟨⟨state, ongoing, objects, allocated, fs, dirty⟩, ⟨m, gs⟩⟩ h a
  dsimp only at h
  cases fs with
  | nil =>
    cases gs with
    | nil => cases a <;> rfl
    | cons g gs => exact h.elim
  | cons f fs =>
    cases gs with
    | nil => cases f <;> exact h.elim
    | cons g gs =>
      have hrest : fs = [] ↔ gs = [] := by
        have hnil : ∀ {fs : List (Frame M P)} {gs : List (SharedFrame M)},
            Stacks config state m fs gs → (fs = [] ↔ gs = []) := by
          intro fs gs h
          cases fs with
          | nil => cases gs with
            | nil => simp
            | cons g gs => exact h.elim
          | cons f fs => cases gs with
            | nil => cases f <;> exact h.elim
            | cons g gs => simp
        cases f <;> cases g <;> first | exact h.elim | skip
        · exact hnil h.2
        · exact hnil h.2
        · exact hnil h.2.2
        · exact hnil h.2.2
      cases f <;> cases g <;> first | exact h.elim | skip
      all_goals cases a with
        | call kind => cases kind <;> rfl
        | set m => rfl
        | returns => rfl
        | fails =>
          cases fs with
          | nil => rw [hrest.mp rfl]; rfl
          | cons f fs =>
            cases gs with
            | nil => exact absurd (hrest.mpr rfl) (by simp)
            | cons g gs => rfl

theorem Related.agrees (h : Related config s) : Agrees config s :=
  ⟨h.views, h.transactionState, together_of_stacks h.contexts⟩

end

end Reboot.Methods.Typed
