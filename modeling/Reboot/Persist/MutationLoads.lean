import Mathlib.Data.List.Basic
import Reboot.Lib.Run

/-!
# Loading the idempotent mutations of a state

The idempotent mutations of one state, which `check_for_idempotent_mutation` of the
`SidecarStateManager` (`reboot/aio/state_managers.py`) loads when it is first called and `preload`
loads ahead of it. Whoever loads registers a future in `_idempotent_mutations_loads`, which the
others await: a check that loads itself resolves it with nothing, since the mutations are there by
then; a preload resolves it with what it read, and the first check to see that keeps it.

> `State.Smooth`: no assertion on the registered future fails, no future is resolved twice, no
> registered future is replaced by another, and what a store recorded stays recorded.

Two things can go wrong. A check whose awaited load failed begins its own without a look at what
was registered since (`smooth_twoWaiters`). And a check that is cancelled while it awaits a future
cancels the future, since nothing shields it: the comment in the code has it that it does not, and
whoever is to resolve the future cannot any more (`smooth_twoWaiters` has a run of either kind).

Mirroring notes:
- One state; the mutations are the keys that are in its filter. The checks that precede the load,
  and what follows it, do not touch what is modelled.
- An `await` of a future that is done does not suspend. One that is pending is resumed in a later
  turn of the event loop, in any order with the other tasks; a timer, or a cancellation of the task
  that resolved the future, comes after the waiters that were resumed (`timeout`, `cancel`).
- A database call reads at some moment (`read`) and returns or fails later. Cancelling a task that
  awaits one makes it fail there.
- A preload of the mutations only; that of the state itself has other futures. Imports load before
  any other call.
- A store writes to the database first (`write`) and to memory second (`store`), and only after a
  check, so the mutations are loaded.
-/

namespace Reboot.Persist.Loads

open Reboot.Lib

/-! ## Model -/

inductive Status
  | pending
  /-- `none` from a check, the mutations from a preload -/
  | result (mutations : Option (List Nat))
  | failed
  | cancelled
  deriving DecidableEq

structure Future where
  /-- the task that resolves it -/
  owner : Nat
  status : Status
  deriving DecidableEq

/-- An asyncio task in a check or in a preload. -/
inductive Task
  /-- a check that awaits the load of another -/
  | waiting (f : Nat)
  /-- a check that awaits the database, with what was read -/
  | recovering (f : Nat) (mutations : Option (List Nat))
  /-- a preload that awaits the database -/
  | preloading (f : Nat) (mutations : Option (List Nat))
  /-- a preload that waits for 60 seconds -/
  | sleeping (f : Nat)
  /-- a check that goes on -/
  | ready
  | ended
  deriving DecidableEq

namespace Task

/-- The future that a task is loading for. -/
def loads : Task → Option Nat
  | recovering f _ | preloading f _ => some f
  | _ => none

/-- The future that a check awaits. -/
def awaits : Task → Option Nat
  | waiting f => some f
  | _ => none

/-- The future that a task has made and not given up. -/
def owns : Task → Option Nat
  | recovering f _ | preloading f _ | sleeping f => some f
  | _ => none

theorem owns_of_loads {t : Task} {f : Nat} (h : t.loads = some f) : t.owns = some f := by
  cases t <;> first | exact h | exact nomatch h

end Task

theorem set_of_getElem? {α : Type} {l : List α} {i : Nat} {a : α} (h : l[i]? = some a) :
    l.set i a = l := by
  obtain ⟨hlt, rfl⟩ := List.getElem?_eq_some_iff.mp h
  exact List.set_getElem_self hlt

theorem getElem?_set_cases {α : Type} {l : List α} {i j : Nat} {a b : α}
    (h : (l.set i a)[j]? = some b) : (j = i ∧ b = a) ∨ (j ≠ i ∧ l[j]? = some b) := by
  by_cases hij : j = i
  · subst hij
    have hlt : j < l.length := by
      have hlt := (List.getElem?_eq_some_iff.mp h).1
      rwa [List.length_set] at hlt
    rw [List.getElem?_set_self hlt] at h
    exact Or.inl ⟨rfl, (Option.some.inj h).symm⟩
  · rw [List.getElem?_set_ne (Ne.symm hij)] at h
    exact Or.inr ⟨hij, h⟩

structure State where
  /-- `_idempotent_mutations[..].get(state_ref)` -/
  entry : Option (List Nat)
  /-- `_idempotent_mutations_loads[..].get(state_ref)` -/
  load : Option Nat
  futures : List Future
  tasks : List Task
  database : List Nat
  /-- written to the database, and not yet to memory -/
  writing : List Nat
  /-- what was stored; not part of the code, like the flags -/
  stored : List Nat
  assertionFailed : Bool
  resolvedTwice : Bool
  /-- a future was registered in place of another -/
  replaced : Bool
  deriving DecidableEq

inductive Action
  | call
  | preload
  /-- a task whose awaited future is done goes on -/
  | wake (i : Nat)
  /-- the database reads for the call of a task -/
  | read (i : Nat)
  | returns (i : Nat)
  | fails (i : Nat)
  /-- the 60 seconds are over -/
  | timeout (i : Nat)
  | cancel (i : Nat)
  | write (key : Nat)
  | store (key : Nat)
  deriving DecidableEq

namespace State

def init (database : List Nat) : State :=
  ⟨none, none, [], [], database, [], [], false, false, false⟩

def statusOf (s : State) (f : Nat) : Option Status := s.futures[f]?.map Future.status

def setTask (s : State) (i : Nat) (t : Task) : State := { s with tasks := s.tasks.set i t }

/-- `set_result` or `set_exception`. -/
def resolve (s : State) (f : Nat) (status : Status) : State :=
  match s.futures[f]? with
  | some future =>
    if future.status = .pending then
      { s with futures := s.futures.set f { future with status := status } }
    else { s with resolvedTwice := true }
  | none => s

/-- A future is created and registered, for which task `i` calls the database. -/
def startLoad (s : State) (i : Nat) (t : Nat → Option (List Nat) → Task) : State :=
  { s with
    futures := s.futures ++ [⟨i, .pending⟩]
    load := some s.futures.length
    replaced := s.replaced || s.load.isSome
    tasks := s.tasks.set i (t s.futures.length none) }

/-- `assert loads.get(state_ref) is load; del loads[state_ref]`, and `t` is next. -/
def cleanUp (s : State) (i f : Nat) (t : Task) : State :=
  if s.load = some f then { s with load := none, tasks := s.tasks.set i t }
  else { s with assertionFailed := true, tasks := s.tasks.set i .ended }

/-- A check after it awaited a load, which gave mutations if it was a preload that succeeded. -/
def afterLoad (s : State) (i f : Nat) (mutations : Option (List Nat)) : State :=
  match s.entry, mutations with
  | some _, _ => s.setTask i .ready
  | none, some keys => { s with entry := some keys }.cleanUp i f .ready
  | none, none => s.startLoad i .recovering

/-- A check that awaits a future; `none` if it is suspended. -/
def await (s : State) (i f : Nat) : Option State :=
  match s.statusOf f with
  | some .pending => none
  | some (.result mutations) => some (s.afterLoad i f mutations)
  | some .failed => some (s.afterLoad i f none)
  | some .cancelled => some (s.setTask i .ended)
  | none => none

/-- A new task, before its first step. -/
def spawn (s : State) : State := { s with tasks := s.tasks ++ [.ended] }

/-- A check from its beginning. -/
def check (s : State) (i : Nat) : State :=
  match s.entry, s.load with
  | some _, _ => s.setTask i .ready
  | none, none => s.startLoad i .recovering
  | none, some f => (s.await i f).getD (s.setTask i (.waiting f))

/-- The `finally` of a preload. -/
def popOwn (s : State) (f : Nat) : State := if s.load = some f then { s with load := none } else s

/-- The recovery of a check failed, or the check is cancelled in it. -/
def recoveryFails (s : State) (i f : Nat) : State := (s.resolve f .failed).cleanUp i f .ended

/-- A preload that has delivered ends. Whoever waited for it was resumed before. -/
def wakeUp (s : State) (i f : Nat) : Option State :=
  if Task.waiting f ∈ s.tasks then none else some ((s.popOwn f).setTask i .ended)

def step (s : State) : Action → Option State
  | .call => some (s.spawn.check s.tasks.length)
  | .preload =>
    match s.entry, s.load with
    | none, none => some (s.spawn.startLoad s.tasks.length .preloading)
    | _, _ => some s
  | .wake i =>
    match s.tasks[i]? with
    | some (.waiting f) => s.await i f
    | _ => none
  | .read i =>
    match s.tasks[i]? with
    | some (.recovering f none) => some (s.setTask i (.recovering f (some s.database)))
    | some (.preloading f none) => some (s.setTask i (.preloading f (some s.database)))
    | _ => none
  | .returns i =>
    match s.tasks[i]? with
    | some (.recovering f (some keys)) =>
      -- a future that is done already makes `set_result` raise
      some (({ s with entry := some keys }.resolve f (.result none)).cleanUp i f
        (if s.statusOf f = some Status.pending then .ready else .ended))
    | some (.preloading f (some keys)) =>
      if s.statusOf f = some Status.pending then
        some ((s.resolve f (.result (some keys))).setTask i (.sleeping f))
      else some (((s.resolve f (.result (some keys))).popOwn f).setTask i .ended)
    | _ => none
  | .fails i =>
    match s.tasks[i]? with
    | some (.recovering f _) => some (s.recoveryFails i f)
    | some (.preloading f _) =>
      -- `if not idempotent_mutations_future.done()`
      if s.statusOf f = some Status.pending then
        some (((s.resolve f .failed).popOwn f).setTask i .ended)
      else some ((s.popOwn f).setTask i .ended)
    | _ => none
  | .timeout i =>
    match s.tasks[i]? with
    | some (.sleeping f) => s.wakeUp i f
    | _ => none
  | .cancel i =>
    match s.tasks[i]? with
    | some (.waiting f) =>
      -- a task that is cancelled cancels the future it awaits
      if s.statusOf f = some Status.pending then some ((s.resolve f .cancelled).setTask i .ended)
      else some (s.setTask i .ended)
    | some (.recovering f _) => some (s.recoveryFails i f)
    | some (.preloading f _) => some ((s.popOwn f).setTask i .ended)
    | some (.sleeping f) => s.wakeUp i f
    | _ => none
  | .write key =>
    if s.entry = none then none
    else some { s with database := key :: s.database, writing := key :: s.writing }
  | .store key =>
    if key ∈ s.writing then
      some { s with
        entry := s.entry.map (key :: ·)
        writing := s.writing.erase key
        stored := key :: s.stored }
    else none

/-! ## The promise -/

structure Smooth (s : State) : Prop where
  asserted : s.assertionFailed = false
  once : s.resolvedTwice = false
  single : s.replaced = false
  recorded : ∀ key ∈ s.stored, ∃ keys, s.entry = some keys ∧ key ∈ keys

/-- What the run leaves to chance and must not happen: a check whose awaited load failed goes on
while another load is registered, or a check is cancelled while it awaits a load that goes on. -/
def StepOk (s : State) : Action → Prop
  | .wake i => ∀ f ∈ s.tasks[i]?.bind Task.awaits, s.statusOf f = some Status.failed →
      s.entry = none → s.load = none
  | .cancel i => ∀ f ∈ s.tasks[i]?.bind Task.awaits, s.statusOf f = some Status.pending →
      ∀ t ∈ s.tasks, t.loads ≠ some f
  | _ => True

instance (s : State) (a : Action) : Decidable (s.StepOk a) := by
  cases a <;> unfold StepOk <;> infer_instance

theorem awaits_of {s : State} {i f : Nat} (hi : s.tasks[i]? = some (.waiting f)) :
    f ∈ s.tasks[i]?.bind Task.awaits := by
  rw [hi]
  rfl

theorem of_awaits {s : State} {i f : Nat} (hf : f ∈ s.tasks[i]?.bind Task.awaits) :
    s.tasks[i]? = some (.waiting f) := by
  obtain ⟨t, ht, hawaits⟩ := Option.bind_eq_some_iff.mp hf
  cases t with
  | waiting g =>
    obtain rfl := Option.some.inj hawaits
    exact ht
  | _ => exact nomatch hawaits

/-! ## Invariant -/

structure Inv (s : State) : Prop where
  smooth : s.Smooth
  /-- a future is resolved by the task that made it -/
  owner : ∀ (i : Nat) (t : Task) (f : Nat), s.tasks[i]? = some t → t.owns = some f →
    ∃ future : Future, s.futures[f]? = some future ∧ future.owner = i
  /-- while a task loads, its future is registered and nothing is in memory -/
  active : ∀ (i : Nat) (t : Task) (f : Nat), s.tasks[i]? = some t → t.loads = some f →
    s.statusOf f = some .pending ∧ s.load = some f ∧ s.entry = none
  /-- what is registered is being loaded, or was delivered -/
  registered : ∀ f, s.load = some f → s.entry = none ∧ ∃ (future : Future) (t : Task),
    s.futures[f]? = some future ∧ s.tasks[future.owner]? = some t ∧
    (t.loads = some f ∨ t = .sleeping f ∧ ∃ keys, future.status = .result (some keys))
  /-- a check that was given a result finds the mutations, or the future that has them -/
  waiting : ∀ i f : Nat, s.tasks[i]? = some (Task.waiting f) → ∃ status, s.statusOf f = some status ∧
    (status = .result none → s.entry ≠ none) ∧
    (∀ keys, status = .result (some keys) → s.entry ≠ none ∨ s.load = some f)
  writing : s.writing ≠ [] → s.entry ≠ none

theorem inv_init (database : List Nat) : (init database).Inv where
  smooth := ⟨rfl, rfl, rfl, fun _ hkey => absurd hkey List.not_mem_nil⟩
  owner _ _ _ ht := nomatch ht
  active _ _ _ ht := nomatch ht
  registered _ hload := nomatch hload
  waiting _ _ ht := nomatch ht
  writing h := absurd rfl h

variable {s s' : State} {i f : Nat}

theorem statusOf_of {future : Future} {status : Status} (h : s.futures[f]? = some future)
    (hstatus : future.status = status) : s.statusOf f = some status := by
  unfold statusOf
  rw [h, ← hstatus]
  rfl

/-- Nothing was recorded before something was loaded. -/
theorem Inv.smooth_of_none (h : s.Inv) (hentry : s.entry = none) : s.stored = [] := by
  cases hstored : s.stored with
  | nil => rfl
  | cons key rest =>
    obtain ⟨keys, hkeys, -⟩ := h.smooth.recorded key (hstored ▸ List.mem_cons_self)
    exact nomatch hentry.symm.trans hkeys

/-- A task owns its future alone. -/
theorem Inv.unique (h : s.Inv) {j : Nat} {t u : Task} (hi : s.tasks[i]? = some t)
    (hj : s.tasks[j]? = some u) (ht : t.owns = some f) (hu : u.owns = some f) : j = i := by
  obtain ⟨future, hfuture, howner⟩ := h.owner i t f hi ht
  obtain ⟨future', hfuture', howner'⟩ := h.owner j u f hj hu
  obtain rfl := Option.some.inj (hfuture.symm.trans hfuture')
  exact howner'.symm.trans howner

theorem Inv.spawn (h : s.Inv) : s.spawn.Inv := by
  have hold : ∀ {j : Nat} {t : Task}, t ≠ .ended → (s.tasks ++ [Task.ended])[j]? = some t →
      s.tasks[j]? = some t := by
    intro j t ht hj
    by_cases hlt : j < s.tasks.length
    · rwa [List.getElem?_append_left hlt] at hj
    · rw [List.getElem?_append_right (by omega)] at hj
      have hmem := List.mem_of_getElem? hj
      exact absurd (List.mem_singleton.mp hmem) ht
  refine ⟨⟨h.smooth.asserted, h.smooth.once, h.smooth.single, h.smooth.recorded⟩, ?_, ?_, ?_, ?_,
    h.writing⟩
  · intro j t g hj ht
    exact h.owner j t g (hold (by rintro rfl; exact nomatch ht) hj) ht
  · intro j t g hj ht
    exact h.active j t g (hold (by rintro rfl; exact nomatch ht) hj) ht
  · intro g hg
    obtain ⟨hentry, future, t, hfuture, ht, hloads⟩ := h.registered g hg
    refine ⟨hentry, future, t, hfuture, ?_, hloads⟩
    exact (List.getElem?_append_left (List.getElem?_eq_some_iff.mp ht).1).trans ht
  · intro j g hj
    exact h.waiting j g (hold (fun he => nomatch he) hj)

theorem spawn_task (s : State) : s.spawn.tasks[s.tasks.length]? = some .ended :=
  List.getElem?_concat_length

/-- A task begins to load when nothing is registered. -/
theorem Inv.startLoad (h : s.Inv) {t : Task} (hi : s.tasks[i]? = some t) (hentry : s.entry = none)
    (hload : s.load = none) {t' : Nat → Option (List Nat) → Task}
    (ht' : ∀ g, (t' g none).loads = some g) : (s.startLoad i t').Inv := by
  have hlt : i < s.tasks.length := (List.getElem?_eq_some_iff.mp hi).1
  have hold : ∀ {g : Nat} {future : Future}, s.futures[g]? = some future →
      (s.futures ++ [⟨i, .pending⟩])[g]? = some future := fun hg =>
    (List.getElem?_append_left (List.getElem?_eq_some_iff.mp hg).1).trans hg
  have hnew : (s.futures ++ [⟨i, .pending⟩])[s.futures.length]? = some ⟨i, .pending⟩ :=
    List.getElem?_concat_length
  refine ⟨⟨h.smooth.asserted, h.smooth.once, ?_, h.smooth.recorded⟩, ?_, ?_, ?_, ?_, h.writing⟩
  · show (s.replaced || s.load.isSome) = false
    rw [h.smooth.single, hload]
    rfl
  · intro j u g hj hu
    rcases getElem?_set_cases hj with ⟨rfl, rfl⟩ | ⟨-, hj'⟩
    · have hg := Option.some.inj ((Task.owns_of_loads (ht' _)).symm.trans hu)
      exact ⟨_, hg ▸ hnew, rfl⟩
    · obtain ⟨future, hfuture, howner⟩ := h.owner j u g hj' hu
      exact ⟨future, hold hfuture, howner⟩
  · intro j u g hj hu
    rcases getElem?_set_cases hj with ⟨rfl, rfl⟩ | ⟨-, hj'⟩
    · obtain rfl := Option.some.inj ((ht' _).symm.trans hu)
      exact ⟨statusOf_of hnew rfl, rfl, hentry⟩
    · exact nomatch hload.symm.trans (h.active j u g hj' hu).2.1
  · intro g hg
    obtain rfl := Option.some.inj hg
    exact ⟨hentry, _, _, hnew, List.getElem?_set_self hlt, Or.inl (ht' _)⟩
  · intro j g hj
    rcases getElem?_set_cases hj with ⟨-, he⟩ | ⟨-, hj'⟩
    · have hloads := ht' s.futures.length
      rw [← he] at hloads
      exact nomatch hloads
    · obtain ⟨status, hstatus, hnone, hsome⟩ := h.waiting j g hj'
      obtain ⟨future, hfuture, rfl⟩ := Option.map_eq_some_iff.mp hstatus
      refine ⟨future.status, statusOf_of (hold hfuture) rfl, hnone, ?_⟩
      intro keys hkeys
      rcases hsome keys hkeys with hne | hg
      · exact absurd hentry hne
      · exact nomatch hload.symm.trans hg

/-- What is registered is given up, by the task that loads or by a check that takes what was
delivered. -/
theorem Inv.release (h : s.Inv) (hload : s.load = some f) (t' : Task) (ht' : t'.owns = none)
    (hwait' : ∀ g, t' ≠ .waiting g)
    (hidle : ∀ j t, j ≠ i → s.tasks[j]? = some t → t.loads ≠ some f) {future : Future}
    (hfuture : s.futures[f]? = some future) (status : Status) (entry : Option (List Nat))
    (hresult : (∃ mutations, status = .result mutations) → entry ≠ none ∨
      ∀ j : Nat, s.tasks[j]? ≠ some (Task.waiting f)) :
    Inv { s with
      load := none
      entry := entry
      futures := s.futures.set f { future with status := status }
      tasks := s.tasks.set i t' } := by
  have hentry : s.entry = none := (h.registered f hload).1
  have hlt : f < s.futures.length := (List.getElem?_eq_some_iff.mp hfuture).1
  refine ⟨⟨h.smooth.asserted, h.smooth.once, h.smooth.single, ?_⟩, ?_, ?_, ?_, ?_, ?_⟩
  · intro key hkey
    have hkey : key ∈ s.stored := hkey
    rw [h.smooth_of_none hentry] at hkey
    exact absurd hkey List.not_mem_nil
  · intro j u g hj hu
    rcases getElem?_set_cases hj with ⟨rfl, rfl⟩ | ⟨-, hj⟩
    · exact nomatch ht'.symm.trans hu
    · obtain ⟨future', hfuture', howner⟩ := h.owner j u g hj hu
      by_cases hg : g = f
      · subst hg
        obtain rfl := Option.some.inj (hfuture.symm.trans hfuture')
        exact ⟨_, List.getElem?_set_self hlt, howner⟩
      · exact ⟨future', (List.getElem?_set_ne (Ne.symm hg)).trans hfuture', howner⟩
  · intro j u g hj hu
    rcases getElem?_set_cases hj with ⟨rfl, rfl⟩ | ⟨hne, hj⟩
    · exact nomatch ht'.symm.trans (Task.owns_of_loads hu)
    · have hg := (h.active j u g hj hu).2.1
      obtain rfl := Option.some.inj (hload.symm.trans hg)
      exact absurd hu (hidle j u hne hj)
  · intro g hg
    exact nomatch hg
  · intro j g hj
    rcases getElem?_set_cases hj with ⟨-, he⟩ | ⟨-, hj'⟩
    · exact absurd he.symm (hwait' g)
    · by_cases hg : g = f
      · subst hg
        refine ⟨status, ?_, fun hstatus => ?_, fun keys hstatus => ?_⟩
        · exact statusOf_of (List.getElem?_set_self hlt) rfl
        · exact (hresult ⟨_, hstatus⟩).resolve_right fun hnot => hnot j hj'
        · exact Or.inl ((hresult ⟨_, hstatus⟩).resolve_right fun hnot => hnot j hj')
      · obtain ⟨status', hstatus', hnone, hsome⟩ := h.waiting j g hj'
        refine ⟨status', ?_, fun he => absurd hentry (hnone he), fun keys he => ?_⟩
        · show Option.map _ _ = _
          rw [List.getElem?_set_ne (Ne.symm hg)]
          exact hstatus'
        · rcases hsome keys he with hne | hg'
          · exact absurd hentry hne
          · exact absurd (Option.some.inj (hg'.symm.trans hload)) hg
  · exact fun hwriting => absurd hentry (h.writing hwriting)

/-- A task gives up a future that is not registered, or not pending any more. -/
theorem Inv.leave (h : s.Inv) {t : Task} (hi : s.tasks[i]? = some t) (t' : Task)
    (ht' : t'.owns = none) (hwait : ∀ g, t' ≠ .waiting g) (hload : ∀ g, t.owns = some g → s.load ≠ some g) :
    (s.setTask i t').Inv where
  smooth := ⟨h.smooth.asserted, h.smooth.once, h.smooth.single, h.smooth.recorded⟩
  owner j u g hj hu := by
    rcases getElem?_set_cases hj with ⟨rfl, rfl⟩ | ⟨-, hj⟩
    · exact nomatch ht'.symm.trans hu
    · exact h.owner j u g hj hu
  active j u g hj hu := by
    rcases getElem?_set_cases hj with ⟨rfl, rfl⟩ | ⟨-, hj⟩
    · exact nomatch ht'.symm.trans (Task.owns_of_loads hu)
    · exact h.active j u g hj hu
  registered g hg := by
    obtain ⟨hentry, future, u, hfuture, hu, howns⟩ := h.registered g hg
    refine ⟨hentry, future, u, hfuture, ?_, howns⟩
    have hne : future.owner ≠ i := by
      rintro rfl
      obtain rfl := Option.some.inj (hi.symm.trans hu)
      refine hload g ?_ hg
      rcases howns with howns | ⟨rfl, -⟩
      · exact Task.owns_of_loads howns
      · rfl
    show (s.tasks.set i t')[future.owner]? = some u
    rw [List.getElem?_set_ne hne.symm, hu]
  waiting j g hj := by
    rcases getElem?_set_cases hj with ⟨rfl, he⟩ | ⟨-, hj⟩
    · exact absurd he.symm (hwait g)
    · exact h.waiting j g hj
  writing := h.writing

/-- The status of what is registered and loaded, or delivered. -/
theorem Inv.status_registered (h : s.Inv) (hload : s.load = some f) :
    s.statusOf f = some .pending ∨ ∃ keys, s.statusOf f = some (.result (some keys)) := by
  obtain ⟨-, future, t, hfuture, ht, hloads | ⟨-, keys, hkeys⟩⟩ := h.registered f hload
  · exact Or.inl (h.active _ t f ht hloads).1
  · exact Or.inr ⟨keys, statusOf_of hfuture hkeys⟩

/-- Nobody loads for a future that is done. -/
theorem Inv.idle (h : s.Inv) {status : Status} (hstatus : s.statusOf f = some status)
    (hne : status ≠ .pending) {j : Nat} {t : Task} (ht : s.tasks[j]? = some t) :
    t.loads ≠ some f := by
  intro hloads
  have hpending := (h.active j t f ht hloads).1
  exact hne (Option.some.inj (hstatus.symm.trans hpending))

/-- A check takes what a preload delivered. -/
theorem Inv.take (h : s.Inv) (hload : s.load = some f) {keys : List Nat}
    (hstatus : s.statusOf f = some (.result (some keys))) :
    ({ s with entry := some keys }.cleanUp i f .ready).Inv := by
  obtain ⟨future, hfuture, hdone⟩ := Option.map_eq_some_iff.mp hstatus
  have hidle : ∀ (j : Nat) (u : Task), j ≠ i → s.tasks[j]? = some u → u.loads ≠ some f :=
    fun j u _ hu => h.idle hstatus (fun he => nomatch he) hu
  have hrelease := h.release (i := i) hload .ready rfl (fun g he => nomatch he) hidle hfuture
    future.status (some keys) (fun _ => Or.inl (fun he => nomatch he))
  have hset : s.futures.set f { future with status := future.status } = s.futures :=
    set_of_getElem? hfuture
  rw [hset] at hrelease
  unfold cleanUp
  rw [if_pos hload]
  exact hrelease

/-- A check that was suspended, or was not, goes on after the load it awaited. -/
theorem Inv.afterLoad (h : s.Inv) {t : Task} (hi : s.tasks[i]? = some t) (ht : t.owns = none)
    {mutations : Option (List Nat)}
    (hnone : mutations = none → s.entry = none → s.load = none)
    (hsome : ∀ keys, mutations = some keys → s.entry = none →
      s.load = some f ∧ s.statusOf f = some (.result (some keys))) :
    (s.afterLoad i f mutations).Inv := by
  unfold State.afterLoad
  cases hentry : s.entry with
  | some keys =>
    exact h.leave hi .ready rfl (fun g he => nomatch he) (fun g hg => nomatch ht.symm.trans hg)
  | none =>
    cases mutations with
    | none => exact h.startLoad hi hentry (hnone rfl hentry) (fun g => rfl)
    | some keys =>
      obtain ⟨hload, hstatus⟩ := hsome keys rfl hentry
      exact h.take hload hstatus

/-- A check begins to wait. -/
theorem Inv.wait (h : s.Inv) {t : Task} (hi : s.tasks[i]? = some t) (ht : t.owns = none)
    (hstatus : s.statusOf f = some .pending) : (s.setTask i (.waiting f)).Inv where
  smooth := ⟨h.smooth.asserted, h.smooth.once, h.smooth.single, h.smooth.recorded⟩
  owner j u g hj hu := by
    rcases getElem?_set_cases hj with ⟨rfl, rfl⟩ | ⟨-, hj'⟩
    · exact nomatch hu
    · exact h.owner j u g hj' hu
  active j u g hj hu := by
    rcases getElem?_set_cases hj with ⟨rfl, rfl⟩ | ⟨-, hj'⟩
    · exact nomatch hu
    · exact h.active j u g hj' hu
  registered g hg := by
    obtain ⟨hentry, future, u, hfuture, hu, howns⟩ := h.registered g hg
    refine ⟨hentry, future, u, hfuture, ?_, howns⟩
    have hne : future.owner ≠ i := by
      rintro rfl
      obtain rfl := Option.some.inj (hi.symm.trans hu)
      rcases howns with howns | ⟨rfl, -⟩
      · exact nomatch ht.symm.trans (Task.owns_of_loads howns)
      · exact nomatch ht
    exact (List.getElem?_set_ne hne.symm).trans hu
  waiting j g hj := by
    rcases getElem?_set_cases hj with ⟨rfl, he⟩ | ⟨-, hj'⟩
    · obtain rfl := Task.waiting.inj he
      exact ⟨.pending, hstatus, fun he => (nomatch he), fun keys he => (nomatch he)⟩
    · exact h.waiting j g hj'
  writing := h.writing

theorem Inv.check (h : s.Inv) {t : Task} (hi : s.tasks[i]? = some t) (ht : t.owns = none) :
    (s.check i).Inv := by
  unfold State.check
  cases hentry : s.entry with
  | some keys =>
    exact h.leave hi .ready rfl (fun g he => nomatch he) (fun g hg => nomatch ht.symm.trans hg)
  | none =>
    cases hload : s.load with
    | none => exact h.startLoad hi hentry hload (fun g => rfl)
    | some f =>
      show ((s.await i f).getD (s.setTask i (.waiting f))).Inv
      unfold await
      rcases h.status_registered hload with hstatus | ⟨keys, hstatus⟩
      · rw [hstatus]
        exact h.wait hi ht hstatus
      · rw [hstatus]
        refine h.afterLoad hi ht (fun he => nomatch he) fun keys' he _ => ?_
        obtain rfl := Option.some.inj he
        exact ⟨hload, hstatus⟩

theorem Inv.wake (h : s.Inv) (hi : s.tasks[i]? = some (.waiting f))
    (hok : StepOk s (.wake i)) (hawait : s.await i f = some s') : s'.Inv := by
  obtain ⟨status, hstatus, hnone, hsome⟩ := h.waiting i f hi
  unfold await at hawait
  rw [hstatus] at hawait
  cases status with
  | pending => exact nomatch hawait
  | result mutations =>
    obtain rfl := Option.some.inj hawait
    refine h.afterLoad hi rfl (fun he hentry => ?_) fun keys he hentry => ?_
    · subst he
      exact absurd hentry (hnone rfl)
    · subst he
      exact ⟨(hsome keys rfl).resolve_left (fun hne => hne hentry), hstatus⟩
  | failed =>
    obtain rfl := Option.some.inj hawait
    exact h.afterLoad hi rfl (fun _ hentry => hok f (awaits_of hi) hstatus hentry) fun keys he => nomatch he
  | cancelled =>
    obtain rfl := Option.some.inj hawait
    exact h.leave hi .ended rfl (fun g he => nomatch he) (fun g hg => nomatch hg)

theorem resolve_pending {future : Future} (hfuture : s.futures[f]? = some future)
    (hpending : future.status = .pending) (status : Status) :
    s.resolve f status =
      { s with futures := s.futures.set f { future with status := status } } := by
  unfold resolve
  rw [hfuture]
  exact if_pos hpending

/-- A task that loads ends or goes on, and its future is resolved or left. -/
theorem Inv.finish (h : s.Inv) {t : Task} (hi : s.tasks[i]? = some t) (hloads : t.loads = some f)
    (t' : Task) (ht' : t'.owns = none) (hwait' : ∀ g, t' ≠ .waiting g) {future : Future}
    (hfuture : s.futures[f]? = some future) (status : Status) (entry : Option (List Nat))
    (hresult : (∃ mutations, status = .result mutations) → entry ≠ none) :
    Inv { s with
      load := none
      entry := entry
      futures := s.futures.set f { future with status := status }
      tasks := s.tasks.set i t' } := by
  have hidle : ∀ (j : Nat) (u : Task), j ≠ i → s.tasks[j]? = some u → u.loads ≠ some f := by
    intro j u hne hj hu
    exact hne (h.unique hi hj (Task.owns_of_loads hloads) (Task.owns_of_loads hu))
  exact h.release (h.active i t f hi hloads).2.1 t' ht' hwait' hidle hfuture status entry
    (fun hr => Or.inl (hresult hr))

theorem Inv.recovered (h : s.Inv) {mutations : Option (List Nat)}
    (hi : s.tasks[i]? = some (.recovering f mutations)) (keys : List Nat) :
    (({ s with entry := some keys }.resolve f (.result none)).cleanUp i f
      (if s.statusOf f = some Status.pending then .ready else .ended)).Inv := by
  obtain ⟨hstatus, hload, -⟩ := h.active i _ f hi rfl
  obtain ⟨future, hfuture, hpending⟩ := Option.map_eq_some_iff.mp hstatus
  rw [resolve_pending (s := { s with entry := some keys }) hfuture hpending, if_pos hstatus]
  unfold cleanUp
  rw [if_pos hload]
  exact h.finish hi rfl .ready rfl (fun g he => nomatch he) hfuture (.result none) (some keys)
    (fun _ he => nomatch he)

theorem Inv.recoveryFails (h : s.Inv) {mutations : Option (List Nat)}
    (hi : s.tasks[i]? = some (.recovering f mutations)) : (s.recoveryFails i f).Inv := by
  obtain ⟨hstatus, hload, -⟩ := h.active i _ f hi rfl
  obtain ⟨future, hfuture, hpending⟩ := Option.map_eq_some_iff.mp hstatus
  unfold State.recoveryFails
  rw [resolve_pending hfuture hpending]
  unfold cleanUp
  rw [if_pos hload]
  exact h.finish hi rfl .ended rfl (fun g he => nomatch he) hfuture .failed s.entry
    (fun hr => hr.elim fun _ he => nomatch he)

theorem Inv.preloadFails (h : s.Inv) {mutations : Option (List Nat)}
    (hi : s.tasks[i]? = some (.preloading f mutations)) :
    (((s.resolve f .failed).popOwn f).setTask i .ended).Inv := by
  obtain ⟨hstatus, hload, -⟩ := h.active i _ f hi rfl
  obtain ⟨future, hfuture, hpending⟩ := Option.map_eq_some_iff.mp hstatus
  rw [resolve_pending hfuture hpending]
  unfold popOwn
  rw [if_pos hload]
  exact h.finish hi rfl .ended rfl (fun g he => nomatch he) hfuture .failed s.entry
    (fun hr => hr.elim fun _ he => nomatch he)

/-- A preload that is cancelled leaves its future pending. -/
theorem Inv.preloadCancelled (h : s.Inv) {mutations : Option (List Nat)}
    (hi : s.tasks[i]? = some (.preloading f mutations)) :
    ((s.popOwn f).setTask i .ended).Inv := by
  obtain ⟨hstatus, hload, -⟩ := h.active i _ f hi rfl
  obtain ⟨future, hfuture, hpending⟩ := Option.map_eq_some_iff.mp hstatus
  have hfinish := h.finish hi rfl .ended rfl (fun g he => nomatch he) hfuture future.status
    s.entry (fun hr => hr.elim fun _ he => nomatch hpending.symm.trans he)
  have hset : s.futures.set f { future with status := future.status } = s.futures :=
    set_of_getElem? hfuture
  rw [hset] at hfinish
  unfold popOwn
  rw [if_pos hload]
  exact hfinish

theorem Inv.wakeUp (h : s.Inv) (hi : s.tasks[i]? = some (.sleeping f))
    (hwake : s.wakeUp i f = some s') : s'.Inv := by
  unfold State.wakeUp at hwake
  split at hwake
  · exact nomatch hwake
  · next hnot =>
    obtain rfl := Option.some.inj hwake
    unfold popOwn
    split
    · next hload =>
      obtain ⟨-, future, -, hfuture, -⟩ := h.registered f hload
      have hidle : ∀ (j : Nat) (u : Task), j ≠ i → s.tasks[j]? = some u → u.loads ≠ some f :=
        fun j u hne hj hu => hne (h.unique hi hj rfl (Task.owns_of_loads hu))
      have hrelease := h.release (i := i) hload .ended rfl (fun g he => nomatch he) hidle
        hfuture future.status s.entry
        (fun _ => Or.inr fun j hj => hnot (List.mem_of_getElem? hj))
      have hset : s.futures.set f { future with status := future.status } = s.futures :=
        set_of_getElem? hfuture
      rw [hset] at hrelease
      exact hrelease
    · next hload =>
      refine h.leave hi .ended rfl (fun g he => nomatch he) fun g hg hload' => ?_
      obtain rfl := Option.some.inj hg
      exact hload hload'

/-- A preload delivers what it read. -/
theorem Inv.deliver (h : s.Inv) {mutations : Option (List Nat)}
    (hi : s.tasks[i]? = some (.preloading f mutations)) (keys : List Nat) :
    ((s.resolve f (.result (some keys))).setTask i (.sleeping f)).Inv := by
  obtain ⟨hstatus, hload, hentry⟩ := h.active i _ f hi rfl
  obtain ⟨future, hfuture, hpending⟩ := Option.map_eq_some_iff.mp hstatus
  obtain ⟨future', hfuture', howner⟩ := h.owner i _ f hi rfl
  obtain rfl := Option.some.inj (hfuture.symm.trans hfuture')
  have hlt : i < s.tasks.length := (List.getElem?_eq_some_iff.mp hi).1
  have hself : (s.futures.set f { future with status := .result (some keys) })[f]? =
      some { future with status := .result (some keys) } :=
    List.getElem?_set_self (List.getElem?_eq_some_iff.mp hfuture).1
  have hother : ∀ {g : Nat}, g ≠ f →
      (s.futures.set f { future with status := .result (some keys) })[g]? = s.futures[g]? :=
    fun hg => List.getElem?_set_ne (Ne.symm hg)
  rw [resolve_pending hfuture hpending]
  refine ⟨⟨h.smooth.asserted, h.smooth.once, h.smooth.single, h.smooth.recorded⟩, ?_, ?_, ?_, ?_,
    h.writing⟩
  · intro j u g hj hu
    rcases getElem?_set_cases hj with ⟨rfl, rfl⟩ | ⟨hne, hj'⟩
    · obtain rfl := Option.some.inj hu
      exact ⟨_, hself, howner⟩
    · obtain ⟨future', hfuture', howner'⟩ := h.owner j u g hj' hu
      have hg : g ≠ f := by
        rintro rfl
        exact hne (h.unique hi hj' rfl hu)
      exact ⟨future', (hother hg).trans hfuture', howner'⟩
  · intro j u g hj hu
    rcases getElem?_set_cases hj with ⟨rfl, rfl⟩ | ⟨hne, hj'⟩
    · exact nomatch hu
    · have hg := (h.active j u g hj' hu).2.1
      obtain rfl := Option.some.inj (hload.symm.trans hg)
      exact absurd (h.unique hi hj' rfl (Task.owns_of_loads hu)) hne
  · intro g hg
    obtain rfl := Option.some.inj (hload.symm.trans hg)
    refine ⟨hentry, _, .sleeping f, hself, ?_, Or.inr ⟨rfl, keys, rfl⟩⟩
    show (s.tasks.set i (Task.sleeping f))[future.owner]? = some (.sleeping f)
    rw [howner]
    exact List.getElem?_set_self hlt
  · intro j g hj
    rcases getElem?_set_cases hj with ⟨-, he⟩ | ⟨-, hj'⟩
    · exact nomatch he
    · by_cases hg : g = f
      · subst hg
        exact ⟨_, statusOf_of hself rfl, fun he => (nomatch he), fun _ _ => Or.inr hload⟩
      · obtain ⟨status, hstatus', hnone, hsome⟩ := h.waiting j g hj'
        obtain ⟨future', hfuture', rfl⟩ := Option.map_eq_some_iff.mp hstatus'
        exact ⟨_, statusOf_of ((hother hg).trans hfuture') rfl, hnone, hsome⟩

/-- A future that nobody is going to resolve is cancelled with the check that awaits it. -/
theorem Inv.abandon (h : s.Inv) (hi : s.tasks[i]? = some (.waiting f))
    (hstatus : s.statusOf f = some .pending) (hok : StepOk s (.cancel i)) :
    ((s.resolve f .cancelled).setTask i .ended).Inv := by
  obtain ⟨future, hfuture, hpending⟩ := Option.map_eq_some_iff.mp hstatus
  have hunloaded : ∀ (j : Nat) (u : Task), s.tasks[j]? = some u → u.loads ≠ some f :=
    fun j u hj => hok f (awaits_of hi) hstatus u (List.mem_of_getElem? hj)
  have hload : s.load ≠ some f := by
    intro hload
    obtain ⟨-, future', u, hfuture', hu, hloads | ⟨-, keys, hkeys⟩⟩ := h.registered f hload
    · exact hunloaded _ u hu hloads
    · obtain rfl := Option.some.inj (hfuture.symm.trans hfuture')
      exact nomatch hpending.symm.trans hkeys
  have hself : (s.futures.set f { future with status := .cancelled })[f]? =
      some { future with status := .cancelled } :=
    List.getElem?_set_self (List.getElem?_eq_some_iff.mp hfuture).1
  have hother : ∀ {g : Nat}, g ≠ f →
      (s.futures.set f { future with status := .cancelled })[g]? = s.futures[g]? :=
    fun hg => List.getElem?_set_ne (Ne.symm hg)
  have hleave := h.leave hi .ended rfl (fun g he => nomatch he) (fun g hg => nomatch hg)
  rw [resolve_pending hfuture hpending]
  refine ⟨⟨h.smooth.asserted, h.smooth.once, h.smooth.single, h.smooth.recorded⟩, ?_, ?_, ?_, ?_,
    h.writing⟩
  · intro j u g hj hu
    obtain ⟨future', hfuture', howner'⟩ := hleave.owner j u g hj hu
    by_cases hg : g = f
    · subst hg
      obtain rfl := Option.some.inj (hfuture.symm.trans hfuture')
      exact ⟨_, hself, howner'⟩
    · exact ⟨future', (hother hg).trans hfuture', howner'⟩
  · intro j u g hj hu
    obtain ⟨hstatus', hload', hentry⟩ := hleave.active j u g hj hu
    have hg : g ≠ f := by
      rintro rfl
      exact hload hload'
    obtain ⟨future', hfuture', hpending'⟩ := Option.map_eq_some_iff.mp hstatus'
    exact ⟨statusOf_of ((hother hg).trans hfuture') hpending', hload', hentry⟩
  · intro g hg
    obtain ⟨hentry, future', u, hfuture', hu, hloads⟩ := hleave.registered g hg
    have hne : g ≠ f := by
      rintro rfl
      exact hload hg
    exact ⟨hentry, future', u, (hother hne).trans hfuture', hu, hloads⟩
  · intro j g hj
    by_cases hg : g = f
    · subst hg
      exact ⟨.cancelled, statusOf_of hself rfl, fun he => (nomatch he), fun _ he => (nomatch he)⟩
    · obtain ⟨status, hstatus', hnone, hsome⟩ := hleave.waiting j g hj
      obtain ⟨future', hfuture', rfl⟩ := Option.map_eq_some_iff.mp hstatus'
      exact ⟨_, statusOf_of ((hother hg).trans hfuture') rfl, hnone, hsome⟩

/-- The database reads for a task that loads. -/
theorem Inv.reading (h : s.Inv) {t t' : Task} (hi : s.tasks[i]? = some t) (hloads : t.loads = some f)
    (hloads' : t'.loads = some f) : (s.setTask i t').Inv where
  smooth := ⟨h.smooth.asserted, h.smooth.once, h.smooth.single, h.smooth.recorded⟩
  owner j u g hj hu := by
    rcases getElem?_set_cases hj with ⟨rfl, rfl⟩ | ⟨-, hj'⟩
    · obtain rfl := Option.some.inj ((Task.owns_of_loads hloads').symm.trans hu)
      exact h.owner j t f hi (Task.owns_of_loads hloads)
    · exact h.owner j u g hj' hu
  active j u g hj hu := by
    rcases getElem?_set_cases hj with ⟨rfl, rfl⟩ | ⟨-, hj'⟩
    · obtain rfl := Option.some.inj (hloads'.symm.trans hu)
      exact h.active j t f hi hloads
    · exact h.active j u g hj' hu
  registered g hg := by
    obtain ⟨hentry, future, u, hfuture, hu, howns⟩ := h.registered g hg
    by_cases hne : future.owner = i
    · have hgf : g = f := Option.some.inj (hg.symm.trans (h.active i t f hi hloads).2.1)
      refine ⟨hentry, future, t', hfuture, ?_, Or.inl (hgf ▸ hloads')⟩
      rw [hne]
      exact List.getElem?_set_self (List.getElem?_eq_some_iff.mp hi).1
    · exact ⟨hentry, future, u, hfuture, (List.getElem?_set_ne (Ne.symm hne)).trans hu, howns⟩
  waiting j g hj := by
    rcases getElem?_set_cases hj with ⟨-, rfl⟩ | ⟨-, hj'⟩
    · exact nomatch hloads'
    · exact h.waiting j g hj'
  writing := h.writing

theorem Inv.write (h : s.Inv) (key : Nat) (hentry : s.entry ≠ none) :
    Inv { s with database := key :: s.database, writing := key :: s.writing } :=
  ⟨⟨h.smooth.asserted, h.smooth.once, h.smooth.single, h.smooth.recorded⟩, h.owner, h.active,
    h.registered, h.waiting, fun _ => hentry⟩

theorem Inv.store (h : s.Inv) {key : Nat} (hkey : key ∈ s.writing) :
    Inv { s with
      entry := s.entry.map (key :: ·)
      writing := s.writing.erase key
      stored := key :: s.stored } := by
  obtain ⟨keys, hkeys⟩ := Option.ne_none_iff_exists'.mp (h.writing (List.ne_nil_of_mem hkey))
  rw [hkeys]
  have hentry : ¬ s.entry = none := fun he => nomatch he.symm.trans hkeys
  refine ⟨⟨h.smooth.asserted, h.smooth.once, h.smooth.single, ?_⟩, h.owner, ?_, ?_, ?_,
    fun _ he => (nomatch he)⟩
  · intro other hother
    rcases List.mem_cons.mp hother with rfl | hmem
    · exact ⟨_, rfl, List.mem_cons_self⟩
    · obtain ⟨keys', hkeys', hin⟩ := h.smooth.recorded other hmem
      obtain rfl := Option.some.inj (hkeys.symm.trans hkeys')
      exact ⟨_, rfl, List.mem_cons_of_mem _ hin⟩
  · intro j t g hj ht
    exact absurd (h.active j t g hj ht).2.2 hentry
  · intro g hg
    exact absurd (h.registered g hg).1 hentry
  · intro j g hj
    obtain ⟨status, hstatus, -, -⟩ := h.waiting j g hj
    exact ⟨status, hstatus, fun _ he => (nomatch he), fun _ _ => Or.inl fun he => (nomatch he)⟩

/-! ## Steps and runs -/

theorem step_inv (s : State) (a : Action) (s' : State) (h : s.Inv) (hok : StepOk s a)
    (hstep : step s a = some s') : s'.Inv := by
  cases a with
  | call =>
    obtain rfl := Option.some.inj hstep
    exact h.spawn.check s.spawn_task rfl
  | preload =>
    unfold step at hstep
    dsimp only at hstep
    split at hstep
    · next hentry hload =>
      obtain rfl := Option.some.inj hstep
      exact h.spawn.startLoad s.spawn_task hentry hload (fun g => rfl)
    · obtain rfl := Option.some.inj hstep
      exact h
  | wake i =>
    unfold step at hstep
    dsimp only at hstep
    split at hstep
    · next hi => exact h.wake hi hok hstep
    · exact nomatch hstep
  | read i =>
    unfold step at hstep
    dsimp only at hstep
    split at hstep
    · next hi =>
      obtain rfl := Option.some.inj hstep
      exact h.reading hi rfl rfl
    · next hi =>
      obtain rfl := Option.some.inj hstep
      exact h.reading hi rfl rfl
    · exact nomatch hstep
  | returns i =>
    unfold step at hstep
    dsimp only at hstep
    split at hstep
    · next hi =>
      obtain rfl := Option.some.inj hstep
      exact h.recovered hi _
    · next hi =>
      rw [if_pos (h.active i _ _ hi rfl).1] at hstep
      obtain rfl := Option.some.inj hstep
      exact h.deliver hi _
    · exact nomatch hstep
  | fails i =>
    unfold step at hstep
    dsimp only at hstep
    split at hstep
    · next hi =>
      obtain rfl := Option.some.inj hstep
      exact h.recoveryFails hi
    · next hi =>
      rw [if_pos (h.active i _ _ hi rfl).1] at hstep
      obtain rfl := Option.some.inj hstep
      exact h.preloadFails hi
    · exact nomatch hstep
  | timeout i =>
    unfold step at hstep
    dsimp only at hstep
    split at hstep
    · next hi => exact h.wakeUp hi hstep
    · exact nomatch hstep
  | cancel i =>
    unfold step at hstep
    dsimp only at hstep
    split at hstep
    · next hi =>
      split at hstep
      · next hstatus =>
        obtain rfl := Option.some.inj hstep
        exact h.abandon hi hstatus hok
      · obtain rfl := Option.some.inj hstep
        exact h.leave hi .ended rfl (fun g he => nomatch he) (fun g hg => nomatch hg)
    · next hi =>
      obtain rfl := Option.some.inj hstep
      exact h.recoveryFails hi
    · next hi =>
      obtain rfl := Option.some.inj hstep
      exact h.preloadCancelled hi
    · next hi => exact h.wakeUp hi hstep
    · exact nomatch hstep
  | write key =>
    unfold step at hstep
    dsimp only at hstep
    split at hstep
    · exact nomatch hstep
    · next hentry =>
      obtain rfl := Option.some.inj hstep
      exact h.write key hentry
  | store key =>
    unfold step at hstep
    dsimp only at hstep
    split at hstep
    · next hkey =>
      obtain rfl := Option.some.inj hstep
      exact h.store hkey
    · exact nomatch hstep

theorem inv_of_reach {database : List Nat} (hr : Reach step StepOk (init database) s) : s.Inv :=
  hr.invariant Inv (inv_init database) step_inv

/-- A check that begins a load of its own beside another registers it in place of the other. -/
theorem not_smooth_of_wake (hok : ¬ StepOk s (.wake i)) (hstep : step s (.wake i) = some s') :
    ¬ s'.Smooth := by
  obtain ⟨f, hf⟩ := Classical.not_forall.mp hok
  obtain ⟨hf, hrest⟩ := Classical.not_imp.mp hf
  obtain ⟨hstatus, hrest⟩ := Classical.not_imp.mp hrest
  obtain ⟨hentry, hload⟩ := Classical.not_imp.mp hrest
  obtain ⟨g, hload⟩ := Option.ne_none_iff_exists'.mp hload
  simp only [step, of_awaits hf, await, hstatus, afterLoad, hentry, Option.some.injEq] at hstep
  subst hstep
  intro hsmooth
  have hreplaced : (s.replaced || s.load.isSome) = false := hsmooth.single
  rw [hload, Option.isSome_some, Bool.or_true] at hreplaced
  exact nomatch hreplaced

@[simp] theorem setTask_resolvedTwice (s : State) (i : Nat) (t : Task) :
    (s.setTask i t).resolvedTwice = s.resolvedTwice := rfl

@[simp] theorem popOwn_resolvedTwice (s : State) (f : Nat) :
    (s.popOwn f).resolvedTwice = s.resolvedTwice := by
  unfold popOwn
  split <;> rfl

@[simp] theorem cleanUp_resolvedTwice (s : State) (i f : Nat) (t : Task) :
    (s.cleanUp i f t).resolvedTwice = s.resolvedTwice := by
  unfold cleanUp
  split <;> rfl

theorem resolve_done {future : Future} (hfuture : s.futures[f]? = some future)
    (hdone : future.status ≠ .pending) (status : Status) :
    (s.resolve f status).resolvedTwice = true := by
  unfold resolve
  rw [hfuture]
  show (if future.status = .pending then _ else _ : State).resolvedTwice = true
  rw [if_neg hdone]

/-- Whoever loads for a future that was cancelled resolves it a second time. -/
theorem not_smooth_of_returns {t : Task} (hi : s.tasks[i]? = some t) (hloads : t.loads = some f)
    (hcancelled : s.statusOf f = some .cancelled) (hstep : step s (.returns i) = some s') :
    ¬ s'.Smooth := by
  intro hsmooth
  have honce := hsmooth.once
  obtain ⟨future, hfuture, hstatus⟩ := Option.map_eq_some_iff.mp hcancelled
  have hdone : future.status ≠ .pending := fun he => nomatch he.symm.trans hstatus
  unfold step at hstep
  dsimp only at hstep
  rw [hi] at hstep
  cases t with
  | recovering g mutations =>
    obtain rfl := Option.some.inj hloads
    cases mutations with
    | none => exact nomatch hstep
    | some keys =>
      obtain rfl := Option.some.inj hstep
      rw [cleanUp_resolvedTwice,
        resolve_done (s := { s with entry := some keys }) hfuture hdone] at honce
      exact nomatch honce
  | preloading g mutations =>
    obtain rfl := Option.some.inj hloads
    cases mutations with
    | none => exact nomatch hstep
    | some keys =>
      have hnot : ¬ s.statusOf g = some .pending := fun he => nomatch he.symm.trans hcancelled
      dsimp only at hstep
      rw [if_neg hnot] at hstep
      obtain rfl := Option.some.inj hstep
      rw [setTask_resolvedTwice, popOwn_resolvedTwice, resolve_done hfuture hdone] at honce
      exact nomatch honce
  | _ => exact nomatch hloads

/-- The load that a cancelled check awaited resolves its future a second time. -/
theorem not_smooth_of_cancel (hok : ¬ StepOk s (.cancel i))
    (hstep : step s (.cancel i) = some s') :
    ∃ j : Nat, (∃ t f, s.tasks[j]? = some t ∧ t.loads = some f) ∧
      ∀ s'', step s' (.returns j) = some s'' → ¬ s''.Smooth := by
  obtain ⟨f, hf⟩ := Classical.not_forall.mp hok
  obtain ⟨hf, hrest⟩ := Classical.not_imp.mp hf
  obtain ⟨hstatus, hrest⟩ := Classical.not_imp.mp hrest
  obtain ⟨t, ht⟩ := Classical.not_forall.mp hrest
  obtain ⟨hmem, hloads⟩ := Classical.not_imp.mp ht
  have hloads : t.loads = some f := Classical.not_not.mp hloads
  have hi := of_awaits hf
  obtain ⟨j, hj⟩ := List.getElem?_of_mem hmem
  have hne : j ≠ i := by
    rintro rfl
    obtain rfl := Option.some.inj (hi.symm.trans hj)
    exact nomatch hloads
  obtain ⟨future, hfuture, hpending⟩ := Option.map_eq_some_iff.mp hstatus
  simp only [step, hi, if_pos hstatus, Option.some.injEq] at hstep
  rw [resolve_pending hfuture hpending] at hstep
  subst hstep
  refine ⟨j, ⟨t, f, hj, hloads⟩, fun s'' hreturns => ?_⟩
  refine not_smooth_of_returns ?_ hloads ?_ hreturns
  · exact (List.getElem?_set_ne hne.symm).trans hj
  · exact statusOf_of (List.getElem?_set_self (List.getElem?_eq_some_iff.mp hfuture).1) rfl

/-- A preload that two checks wait for, and a store before the preload is forgotten. -/
def delivered : List Action :=
  [.preload, .call, .call, .read 0, .returns 0, .wake 1, .wake 2, .write 7, .store 7, .timeout 0]

/-- A preload fails, both of the checks that waited for it load, and the second load is over after
a store. -/
def twoWaiters : List Action :=
  [.preload, .call, .call, .fails 0, .wake 1, .wake 2, .read 1, .read 2, .returns 1, .call,
    .write 7, .store 7, .returns 2]

/-- A check is cancelled while it waits for another. -/
def cancelledWaiter : List Action := [.call, .call, .cancel 1, .read 0, .returns 0]

end State

end Reboot.Persist.Loads
