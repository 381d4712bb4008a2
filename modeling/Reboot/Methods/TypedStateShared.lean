import Reboot.Methods.TypedState

/-!
# The typed state is shared

One step of both paths keeps them `Related`, action by action, and so does every run that meets
the condition. `nested_effects_lost` shows two runs without it: a transaction method calls another
one of its own state, and a nested transaction in which a writer completed fails.
-/

namespace Reboot.Methods.Typed

open Reboot.Lib

variable {M P : Type} {config : Config M P} {s s' : Pair M P}

/-! ## What there is to start from -/

/-- While a transaction method of the state runs, the transaction has a state to load. -/
theorem Related.loaded_eq (h : Related config s) (ho : owner s.pydantic.stack ≠ none) :
    some (s.pydantic.loaded config) = s.pydantic.transactionState := by
  obtain ⟨object, hobject⟩ := Option.ne_none_iff_exists'.mp ho
  obtain ⟨p, hp⟩ := Option.ne_none_iff_exists'.mp (h.model object hobject).2
  rw [Pydantic.loaded, hp, Option.getD_some]

/-- Setting the transaction's state by loading it disturbs nothing. -/
theorem Related.stacks_loaded (h : Related config s) :
    Stacks config (some (s.pydantic.loaded config)) s.shared.state s.pydantic.stack
      s.shared.stack := by
  by_cases ho : owner s.pydantic.stack = none
  · exact h.contexts.of_owner_none ho
  · rw [h.loaded_eq ho]
    exact h.contexts

/-- Readers and writers start from the shared state. -/
theorem Related.startsFrom (h : Related config s) {typed : M}
    (ht : config.fromProto (s.pydantic.loaded config) = some typed) :
    s.pydantic.startsFrom typed = s.shared.state := by
  unfold Pydantic.startsFrom
  rw [h.ongoing]
  cases ho : owner s.pydantic.stack with
  | none =>
    have hshared := h.transactionState (h.clean ho)
    rw [ht] at hshared
    exact Option.some.inj hshared
  | some object => exact (h.model object ho).1

/-! ## Calls -/

theorem Related.call_other (h : Related config s) :
    Related config ⟨s.pydantic.call config .other, s.shared.push .other⟩ where
  contexts := by
    refine ⟨fun ho => ?_, fun _ _ => ⟨rfl, rfl⟩, h.contexts⟩
    exact h.transactionState (h.clean ho)
  ongoing := h.ongoing
  model := h.model
  clean := h.clean
  decodes := h.decodes
  transactionState := h.transactionState

theorem Related.call_reader (h : Related config s) :
    Related config ⟨s.pydantic.call config .reader, s.shared.push .reader⟩ := by
  obtain ⟨typed, ht⟩ := h.decodes
  simp only [Pydantic.call, ht]
  exact
    { contexts := ⟨h.startsFrom ht, h.stacks_loaded⟩
      ongoing := h.ongoing
      model := fun object ho => ⟨(h.model object ho).1, by simp⟩
      clean := h.clean
      decodes := h.decodes
      transactionState := h.transactionState }

theorem Related.call_writer (h : Related config s) :
    Related config ⟨s.pydantic.call config .writer, s.shared.push .writer⟩ := by
  obtain ⟨typed, ht⟩ := h.decodes
  simp only [Pydantic.call, ht]
  exact
    { contexts := ⟨h.startsFrom ht, h.stacks_loaded⟩
      ongoing := h.ongoing
      model := fun object ho => ⟨(h.model object ho).1, by simp⟩
      clean := h.clean
      decodes := h.decodes
      transactionState := h.transactionState }

theorem Related.call_own (h : Related config s) (hnone : owner s.pydantic.stack = none) :
    Related config ⟨s.pydantic.call config .own, s.shared.push .own⟩ := by
  have ht := h.transactionState (h.clean hnone)
  simp only [Pydantic.call, ht]
  exact
    { contexts := ⟨hnone, ht, h.contexts.of_owner_none hnone⟩
      ongoing := rfl
      model := by
        intro object ho
        cases ho
        exact ⟨Function.update_self .., by simp⟩
      clean := fun ho => (nomatch ho)
      decodes := h.decodes
      transactionState := h.transactionState }

theorem Related.call (h : Related config s) {kind : Kind} (hok : StepOk config s (.call kind)) :
    Related config ⟨s.pydantic.call config kind, s.shared.push kind⟩ := by
  cases kind with
  | reader => exact h.call_reader
  | writer => exact h.call_writer
  | own => exact h.call_own hok
  | other => exact h.call_other

/-! ## Steps that know the top of the stack -/

section

variable {state : Option P} {ongoing : Option Nat} {objects : Nat → M} {allocated : Nat}
  {fs : List (Frame M P)} {dirty : Bool} {m : M} {gs : List (SharedFrame M)}

theorem Related.set_writer {typed shared m' : M}
    (h : Related config ⟨⟨state, ongoing, objects, allocated, .writer typed :: fs, dirty⟩,
      ⟨m, .writer shared :: gs⟩⟩) :
    Related config ⟨⟨state, ongoing, objects, allocated, .writer m' :: fs, dirty⟩,
      ⟨m, .writer m' :: gs⟩⟩ where
  contexts := ⟨rfl, h.contexts.2⟩
  ongoing := h.ongoing
  model := h.model
  clean := h.clean
  decodes := h.decodes
  transactionState := h.transactionState

theorem Related.set_own {object : Nat} {snapshot : Option P} {shared m' : M}
    (h : Related config ⟨⟨state, ongoing, objects, allocated, .own object snapshot :: fs, dirty⟩,
      ⟨m, .own shared :: gs⟩⟩) :
    Related config ⟨⟨state, ongoing, Function.update objects object m', allocated,
      .own object snapshot :: fs, true⟩, ⟨m', .own shared :: gs⟩⟩ where
  contexts := ⟨h.contexts.1, h.contexts.2.1, h.contexts.2.2.of_owner_none h.contexts.1⟩
  ongoing := h.ongoing
  model := by
    intro object' ho
    cases ho
    exact ⟨Function.update_self .., (h.model object rfl).2⟩
  clean := fun ho => (nomatch ho)
  decodes := h.decodes
  transactionState := fun hd => (nomatch hd)

/-- A method that leaves nothing behind. -/
theorem Related.pop_reader {typed shared : M}
    (h : Related config ⟨⟨state, ongoing, objects, allocated, .reader typed :: fs, dirty⟩,
      ⟨m, .reader shared :: gs⟩⟩) :
    Related config ⟨⟨state, ongoing, objects, allocated, fs, dirty⟩, ⟨m, gs⟩⟩ where
  contexts := h.contexts.2
  ongoing := h.ongoing
  model := h.model
  clean := h.clean
  decodes := h.decodes
  transactionState := h.transactionState

theorem Related.pop_writer {typed shared : M}
    (h : Related config ⟨⟨state, ongoing, objects, allocated, .writer typed :: fs, dirty⟩,
      ⟨m, .writer shared :: gs⟩⟩) :
    Related config ⟨⟨state, ongoing, objects, allocated, fs, dirty⟩, ⟨m, gs⟩⟩ where
  contexts := h.contexts.2
  ongoing := h.ongoing
  model := h.model
  clean := h.clean
  decodes := h.decodes
  transactionState := h.transactionState

theorem Related.pop_other {snapshot : Option P} {wrote : Bool} {shared : M}
    (h : Related config ⟨⟨state, ongoing, objects, allocated, .other snapshot wrote :: fs, dirty⟩,
      ⟨m, .other shared :: gs⟩⟩) :
    Related config ⟨⟨state, ongoing, objects, allocated, fs, dirty⟩, ⟨m, gs⟩⟩ where
  contexts := h.contexts.2.2
  ongoing := h.ongoing
  model := h.model
  clean := h.clean
  decodes := h.decodes
  transactionState := h.transactionState

/-- A writer's state becomes everybody's. -/
theorem Related.writerReturns {typed shared : M} (hf : config.Faithful typed)
    (h : Related config ⟨⟨state, ongoing, objects, allocated, .writer typed :: fs, dirty⟩,
      ⟨m, .writer shared :: gs⟩⟩) :
    Related config ⟨Pydantic.writerReturns config
      ⟨state, ongoing, objects, allocated, .writer typed :: fs, dirty⟩ typed fs,
      ⟨shared, gs⟩⟩ := by
  obtain rfl : typed = shared := h.contexts.1
  have hongoing : ongoing = owner fs := h.ongoing
  exact
    { contexts := h.contexts.2.wroteIn
      ongoing := by
        show ongoing = owner (fs.map Frame.wroteIn)
        rw [owner_wroteIn]
        exact hongoing
      model := by
        intro object ho
        replace ho : owner (fs.map Frame.wroteIn) = some object := ho
        rw [owner_wroteIn, ← hongoing] at ho
        subst ho
        exact ⟨Function.update_self .., by simp [Pydantic.writerReturns]⟩
      clean := fun _ => rfl
      decodes := ⟨typed, hf⟩
      transactionState := fun _ => hf }

/-- A transaction method returns: its model is stored, and is the shared state. -/
theorem Related.ownReturns {object : Nat} {snapshot : Option P} {shared : M}
    (hf : config.Faithful (objects object))
    (h : Related config ⟨⟨state, ongoing, objects, allocated, .own object snapshot :: fs, dirty⟩,
      ⟨m, .own shared :: gs⟩⟩) :
    Related config ⟨⟨some (config.toProto (objects object)), none, objects, allocated,
      fs.map Frame.wroteIn, false⟩, ⟨m, gs⟩⟩ := by
  obtain rfl : objects object = m := (h.model object rfl).1
  have hnone : owner (fs.map Frame.wroteIn) = none := by
    rw [owner_wroteIn]
    exact h.contexts.1
  exact
    { contexts := h.contexts.2.2.wroteIn
      ongoing := hnone.symm
      model := fun object ho => by
        rw [hnone] at ho
        cases ho
      clean := fun _ => rfl
      decodes := ⟨_, hf⟩
      transactionState := fun _ => hf }

/-- A nested transaction method fails: both roll back to what it started from. -/
theorem Related.ownFails {object : Nat} {snapshot : Option P} {shared : M}
    (h : Related config ⟨⟨state, ongoing, objects, allocated, .own object snapshot :: fs, dirty⟩,
      ⟨m, .own shared :: gs⟩⟩) :
    Related config ⟨⟨snapshot, none, objects, allocated, fs, false⟩, ⟨shared, gs⟩⟩ := by
  obtain ⟨hnone, hrolls, hrest⟩ := h.contexts
  exact
    { contexts := hrest.of_owner_none hnone
      ongoing := hnone.symm
      model := fun object ho => by
        rw [hnone] at ho
        cases ho
      clean := fun _ => rfl
      decodes := ⟨shared, hrolls⟩
      transactionState := fun _ => hrolls }

/-- A nested transaction of another state fails. If a transaction method of this state runs, then
nothing was written that would have to be taken back. -/
theorem Related.otherFails {snapshot : Option P} {wrote : Bool} {shared : M}
    (hwrote : wrote = true → owner fs = none)
    (h : Related config ⟨⟨state, ongoing, objects, allocated, .other snapshot wrote :: fs, dirty⟩,
      ⟨m, .other shared :: gs⟩⟩) :
    Related config ⟨⟨snapshot, ongoing, objects, allocated, fs, dirty⟩, ⟨shared, gs⟩⟩ := by
  obtain ⟨hrolls, hsame, hrest⟩ := h.contexts
  by_cases ho : owner fs = none
  · exact
      { contexts := hrest.of_owner_none ho
        ongoing := h.ongoing
        model := fun object hobject => by
          rw [ho] at hobject
          cases hobject
        clean := h.clean
        decodes := ⟨shared, hrolls ho⟩
        transactionState := fun _ => hrolls ho }
  · have hw : wrote = false := by
      cases wrote with
      | false => rfl
      | true => exact absurd (hwrote rfl) ho
    obtain ⟨rfl, rfl⟩ := hsame ho hw
    exact h.pop_other

end

/-! ## One step and every run -/

theorem call_related {kind : Kind} {pydantic : Pydantic M P} {shared : Shared M}
    (h : Related config s) (hok : StepOk config s (.call kind))
    (hp : s.pydantic.step config (.call kind) = some pydantic)
    (hg : s.shared.step (.call kind) = some shared) : Related config ⟨pydantic, shared⟩ := by
  have hp' : pydantic = s.pydantic.call config kind := by
    dsimp only [Pydantic.step] at hp
    split at hp
    next => cases hp
    next =>
      split at hp
      next => exact (Option.some.inj hp).symm
      next => cases hp
  have hg' : shared = s.shared.push kind := by
    dsimp only [Shared.step] at hg
    split at hg
    next => cases hg
    next =>
      split at hg
      next => exact (Option.some.inj hg).symm
      next => cases hg
    next =>
      split at hg
      next => exact (Option.some.inj hg).symm
      next => cases hg
    next => exact (Option.some.inj hg).symm
    next => exact (Option.some.inj hg).symm
  subst hp' hg'
  exact h.call hok

theorem set_related {m' : M} {pydantic : Pydantic M P} {shared : Shared M} (h : Related config s)
    (hp : s.pydantic.step config (.set m') = some pydantic)
    (hg : s.shared.step (.set m') = some shared) : Related config ⟨pydantic, shared⟩ := by
  obtain ⟨⟨state, ongoing, objects, allocated, fs, dirty⟩, ⟨m, gs⟩⟩ := s
  dsimp only [Pydantic.step, Shared.step] at hp hg
  split at hp
  next =>
    cases hp
    cases gs with
    | nil => exact h.contexts.elim
    | cons g gs =>
      cases g with
      | writer =>
        cases hg
        exact h.set_writer
      | reader | own | other => exact h.contexts.elim
  next =>
    cases hp
    cases gs with
    | nil => exact h.contexts.elim
    | cons g gs =>
      cases g with
      | own =>
        cases hg
        exact h.set_own
      | reader | writer | other => exact h.contexts.elim
  next => cases hp

theorem returns_related {pydantic : Pydantic M P} {shared : Shared M} (h : Related config s)
    (hok : StepOk config s .returns)
    (hp : s.pydantic.step config .returns = some pydantic)
    (hg : s.shared.step .returns = some shared) : Related config ⟨pydantic, shared⟩ := by
  obtain ⟨⟨state, ongoing, objects, allocated, fs, dirty⟩, ⟨m, gs⟩⟩ := s
  dsimp only [Pydantic.step, Shared.step] at hp hg
  cases fs with
  | nil => cases hp
  | cons f fs =>
    cases gs with
    | nil => cases hg
    | cons g gs =>
      cases f with
      | reader =>
        cases g with
        | reader =>
          cases hp
          cases hg
          exact h.pop_reader
        | writer | own | other => exact h.contexts.elim
      | writer =>
        cases g with
        | writer =>
          cases hp
          cases hg
          exact h.writerReturns hok
        | reader | own | other => exact h.contexts.elim
      | own =>
        cases g with
        | own =>
          cases hp
          cases hg
          exact h.ownReturns hok
        | reader | writer | other => exact h.contexts.elim
      | other =>
        cases g with
        | other =>
          cases hp
          cases hg
          exact h.pop_other
        | reader | writer | own => exact h.contexts.elim

theorem fails_related {pydantic : Pydantic M P} {shared : Shared M} (h : Related config s)
    (hok : StepOk config s .fails)
    (hp : s.pydantic.step config .fails = some pydantic)
    (hg : s.shared.step .fails = some shared) : Related config ⟨pydantic, shared⟩ := by
  obtain ⟨⟨state, ongoing, objects, allocated, fs, dirty⟩, ⟨m, gs⟩⟩ := s
  dsimp only [Pydantic.step, Shared.step] at hp hg
  cases fs with
  | nil => cases hp
  | cons f fs =>
    cases gs with
    | nil => cases hg
    | cons g gs =>
      cases f with
      | reader =>
        cases g with
        | reader =>
          cases hp
          cases hg
          exact h.pop_reader
        | writer | own | other => exact h.contexts.elim
      | writer =>
        cases g with
        | writer =>
          cases hp
          cases hg
          exact h.pop_writer
        | reader | own | other => exact h.contexts.elim
      | own =>
        cases g with
        | own =>
          cases fs with
          | nil => cases hp
          | cons f' fs =>
            cases gs with
            | nil => cases hg
            | cons g' gs =>
              cases hp
              cases hg
              exact h.ownFails
        | reader | writer | other => exact h.contexts.elim
      | other snapshot wrote =>
        cases g with
        | other =>
          cases fs with
          | nil => cases hp
          | cons f' fs =>
            cases gs with
            | nil => cases hg
            | cons g' gs =>
              cases hp
              cases hg
              refine h.otherFails fun hw => ?_
              subst hw
              exact hok
        | reader | writer | own => exact h.contexts.elim

theorem step_related {a : Action M} (h : Related config s) (hok : StepOk config s a)
    (hs : step config s a = some s') : Related config s' := by
  unfold step at hs
  split at hs
  next pydantic shared hp hg =>
    cases hs
    cases a with
    | call kind => exact call_related h hok hp hg
    | set m' => exact set_related h hp hg
    | returns => exact returns_related h hok hp hg
    | fails => exact fails_related h hok hp hg
  next => cases hs

theorem init_related (config : Config M P) (rootOwn : Bool) :
    Related config (Pair.init config rootOwn) := by
  cases rootOwn with
  | true =>
    exact
      { contexts := ⟨rfl, config.decodes, trivial⟩
        ongoing := rfl
        model := by
          intro object ho
          cases ho
          exact ⟨rfl, by simp [Pair.init]⟩
        clean := fun ho => (nomatch ho)
        decodes := ⟨config.value, config.decodes⟩
        transactionState := fun _ => config.decodes }
  | false =>
    exact
      { contexts := ⟨fun _ => config.decodes, fun ho => absurd rfl ho, trivial⟩
        ongoing := rfl
        model := fun object ho => (nomatch ho)
        clean := fun _ => rfl
        decodes := ⟨config.value, config.decodes⟩
        transactionState := fun _ => config.decodes }

/-- In every run that meets the condition, the methods of a Pydantic module see what they would
see if the transaction's state were shared. -/
theorem typed_state_shared {rootOwn : Bool}
    (h : Reach (step config) (StepOk config) (Pair.init config rootOwn) s) : Agrees config s :=
  (h.invariant (Related config) (init_related config rootOwn)
    fun _ _ _ hi hok hs => step_related hi hok hs).agrees

/-- A state whose models are its messages, with the value `1`. -/
def exampleConfig : Config Nat Nat :=
  { fromProto := some, toProto := id, initial := 1, value := 1, decodes := rfl }

/-- A transaction method changes its state, calls a writer, and a nested transaction that only
reads fails. -/
def partialUpdates : List (Action Nat) :=
  [.set 2, .call .writer, .set 3, .returns, .call .other, .call .reader, .returns, .fails,
   .returns]

theorem typed_state_shared_partialUpdates :
    (last (step exampleConfig) (Pair.init exampleConfig true) partialUpdates).shared.state = 3 ∧
      Agrees exampleConfig
        (last (step exampleConfig) (Pair.init exampleConfig true) partialUpdates) :=
  ⟨by decide +kernel,
   typed_state_shared (reach_last partialUpdates .init (by decide +kernel))⟩

/-- A transaction method calls another transaction method of its state, and returns. -/
def nestedMethod : List (Action Nat) := [.call .own, .set 5, .returns, .returns]

/-- A transaction method calls a transaction method of another state, which calls a writer of this
state and fails. -/
def rolledBackWriter : List (Action Nat) := [.call .other, .call .writer, .set 5, .returns, .fails]

/-- The nested method's completed effect is not in what is stored at the end, and the resumed
method sees an effect that was rolled back. -/
theorem nested_effects_lost :
    (∃ s : Pair Nat Nat,
      exec (step exampleConfig) (Pair.init exampleConfig true) nestedMethod = some s ∧
      s.pydantic.transactionState = some 1 ∧ s.shared.state = 5 ∧ ¬ Agrees exampleConfig s) ∧
    ∃ s : Pair Nat Nat,
      exec (step exampleConfig) (Pair.init exampleConfig true) rolledBackWriter = some s ∧
      s.pydantic.views = [some 5] ∧ s.shared.views = [some 1] ∧ ¬ Agrees exampleConfig s := by
  constructor
  · refine ⟨_, exec_eq_last (by decide +kernel), by decide +kernel, by decide +kernel, ?_⟩
    intro h
    exact absurd (h.transactionState (by decide +kernel)) (by decide +kernel)
  · refine ⟨_, exec_eq_last (by decide +kernel), by decide +kernel, by decide +kernel, ?_⟩
    intro h
    exact absurd h.views (by decide +kernel)

end Reboot.Methods.Typed
