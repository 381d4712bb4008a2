import Mathlib.Data.List.Nodup
import Mathlib.Data.List.Perm.Basic
import Reboot.Lib.Run
import Reboot.Names

/-!
# Importing while tasks run

What an import does with an item, `_handle_local_item`
(`reboot/admin/export_import_servicer.py`) and the `import_*` methods of
`reboot/aio/state_managers.py`, with the execution of the tasks that it dispatches
(`reboot/aio/internals/tasks_dispatcher.py`). Items are handled concurrently and
in no particular order, and a pending task runs from the moment it is stored.

Afterwards the actors should be as they were exported, with what the tasks did on top.
`replay` says what that is: the effects of the tasks, in their order, on what was exported.

> `imported_replayed`: so it is if no task commits anything while an item that it works
> on, the state of an actor or a stored response, is still to be imported.

Nothing in the code sees to that: `import_then_lost` is a run in which a task adds to
a state that is not there yet and is overwritten once it comes.

Mirroring notes:
- States and responses are stored values of one type, in cells. An effect on an actor is
  committed as a whole; a task may have several, of which one completes it.
- A task that fails is retried without having had an effect, and is not seen here.
- An item that raises makes the import fail. It is never handled, so what an import
  that is over says is about others.
- At most fifty items are handled at a time; any order of all is more than that allows.
-/

namespace Reboot.Admin.ImportOrder

open Reboot.Lib

/-! ## What is stored -/

/-- A state ref: its components, a state type and an ID each. -/
abbrev StateRef := List (Str × Str)

/-- Where a value is stored. -/
inductive Cell
  | actor (stateType : Str) (stateRef : StateRef)
  | idempotentMutation (stateType : Str) (stateRef : StateRef) (key : Nat)
  deriving DecidableEq

/-- The stored values. -/
abbrev World (V : Type) := Cell → Option V

/-- Store values, one after the other. -/
def World.store {V : Type} (w : World V) : List (Cell × V) → World V
  | [] => w
  | (cell, v) :: upserts => World.store (fun c => if c = cell then some v else w c) upserts

/-- `database_pb2.Task`, with what the task is to do. -/
structure Task (B : Type) where
  stateType : Str
  stateRef : StateRef
  taskUuid : Nat
  completed : Bool
  body : B
  deriving DecidableEq

/-- `ExportImportItem`. -/
inductive Item (V B : Type)
  | state (stateType : Str) (stateRef : StateRef) (state : V)
  | sortedMapEntry (stateType : Str) (stateRef : StateRef) (entry : V)
  | task (task : Task B)
  | idempotentMutation (stateType : Str) (stateRef : StateRef) (key : Nat) (response : V)
  deriving DecidableEq

section

variable {V B : Type}

/-- What an item says of a cell. -/
def Item.entry : Item V B → Option (Cell × V)
  | .state stateType stateRef value => some (.actor stateType stateRef, value)
  | .sortedMapEntry stateType stateRef value => some (.actor stateType stateRef, value)
  | .task _ => none
  | .idempotentMutation stateType stateRef key response =>
    some (.idempotentMutation stateType stateRef key, response)

/-- What a task does in a commit. -/
structure Performed (V B : Type) where
  writes : List (Cell × V)
  /-- the tasks that it schedules -/
  scheduled : List (Task B)
  completes : Bool

/-- The code of the application: what a task does in its commits, which are counted, and
the cells that it works on there. The state of a sorted map has no fields. -/
structure Application (V B : Type) where
  /-- the server that an actor is on -/
  serverForActor : StateRef → Nat
  emptySortedMap : V
  touches : Task B → Nat → Cell → Bool
  perform : Task B → Nat → World V → Performed V B
  perform_congr : ∀ task n w w', (∀ c, touches task n c = true → w c = w' c) →
    perform task n w = perform task n w'
  touches_of_write : ∀ task n w, ∀ e ∈ (perform task n w).writes, touches task n e.1 = true
  sortedMap_of_write : ∀ task n w, ∀ e ∈ (perform task n w).writes, ∀ stateRef,
    e.1 = .actor sortedMapTypeName stateRef → e.2 = emptySortedMap

/-- What an export yields: a cell once, and the entries of a map with the map. -/
structure Exported (app : Application V B) where
  items : List (Item V B)
  nodup : (items.filterMap Item.entry).map Prod.fst |>.Nodup
  sortedMap : ∀ stateRef state, Item.state sortedMapTypeName stateRef state ∈ items →
    state = app.emptySortedMap
  parent : ∀ stateType stateRef entry, Item.sortedMapEntry stateType stateRef entry ∈ items →
    stateType = sortedMapEntryTypeName ∧
    ∃ component id, stateRef = [component, (sortedMapEntryTypeName, id)] ∧
      Item.state sortedMapTypeName [component] app.emptySortedMap ∈ items

/-- The values as they were exported. -/
def exportedWorld (items : List (Item V B)) : World V := fun c =>
  ((items.filterMap Item.entry).find? fun e => decide (e.1 = c)).map (·.2)

/-! ## What an import does -/

/-- `DISPATCHED_TASKS_LIMIT`. -/
def dispatchedTasksLimit : Nat := 1024

/-- What happened, in the order of it. -/
inductive Event (V B : Type)
  | imported (item : Item V B)
  | committed (task : Task B) (n : Nat)
  deriving DecidableEq

structure State (V B : Type) where
  world : World V
  /-- the stored tasks -/
  tasks : Nat → Option (Task B)
  /-- the tasks that run, with how often they committed -/
  dispatched : List (Task B × Nat)
  /-- the items still to be handled -/
  todo : List (Item V B)
  history : List (Event V B)

/-- `_store` of states and responses. -/
def State.storeAll (s : State V B) (upserts : List (Cell × V)) : State V B :=
  { s with world := s.world.store upserts }

/-- `_store` of a task. -/
def State.storeTask (s : State V B) (task : Task B) : State V B :=
  { s with tasks := fun uuid => if uuid = task.taskUuid then some task else s.tasks uuid }

/-- `TasksDispatcher.dispatch`; a task that runs is not dispatched again. -/
def State.dispatch (s : State V B) (task : Task B) : State V B :=
  if s.dispatched.any (fun d => decide (d.1.taskUuid = task.taskUuid)) then s
  else { s with dispatched := s.dispatched ++ [(task, 0)] }

/-- `import_actor`. -/
def importActor (s : State V B) (stateType : Str) (stateRef : StateRef) (state : V) :
    Option (State V B) :=
  some (s.storeAll [(.actor stateType stateRef, state)])

/-- `import_sorted_map_entry`; `none` is a `ValueError`. -/
def importSortedMapEntry (app : Application V B) (s : State V B) (stateType : Str)
    (stateRef : StateRef) (entry : V) : Option (State V B) :=
  if stateType ≠ sortedMapEntryTypeName then none
  else
    match stateRef with
    | [component, (_, id)] =>
      if component.1 ≠ sortedMapTypeName then none
      else
        -- the map is stored along with its entry
        some (s.storeAll [(.actor sortedMapTypeName [component], app.emptySortedMap),
          (.actor sortedMapEntryTypeName [component, (sortedMapEntryTypeName, id)], entry)])
    | _ => none

/-- `import_task`; `none` where there are too many tasks. -/
def importTask (app : Application V B) (s : State V B) (task : Task B) : Option (State V B) :=
  if task.completed then some (s.storeTask task)
  else if (s.dispatched.filter fun d => decide (app.serverForActor d.1.stateRef =
      app.serverForActor task.stateRef)).length + 1 > dispatchedTasksLimit then none
  else some ((s.storeTask task).dispatch task)

/-- `import_idempotent_mutation`. -/
def importIdempotentMutation (s : State V B) (stateType : Str) (stateRef : StateRef) (key : Nat)
    (response : V) : Option (State V B) :=
  some (s.storeAll [(.idempotentMutation stateType stateRef key, response)])

/-- `_handle_local_item`. -/
def handleLocalItem (app : Application V B) (s : State V B) : Item V B → Option (State V B)
  | .state stateType stateRef state => importActor s stateType stateRef state
  | .sortedMapEntry stateType stateRef entry =>
    importSortedMapEntry app s stateType stateRef entry
  | .task task => importTask app s task
  | .idempotentMutation stateType stateRef key response =>
    importIdempotentMutation s stateType stateRef key response

/-! ## Steps -/

inductive Act
  /-- an item is handled, under the lock of its actor -/
  | handle (i : Nat)
  /-- a task that runs commits -/
  | commit (i : Nat)
  deriving DecidableEq

/-- A commit of the task at the `i`-th place. -/
def commitTask (app : Application V B) (s : State V B) (i : Nat) (task : Task B) (n : Nat) :
    State V B :=
  let performed := app.perform task n s.world
  let stored := (if performed.completes then
    (s.storeAll performed.writes).storeTask { task with completed := true }
    else s.storeAll performed.writes)
  let running := { stored with
    dispatched := if performed.completes then s.dispatched.eraseIdx i
      else s.dispatched.set i (task, n + 1)
    history := s.history ++ [.committed task n] }
  performed.scheduled.foldl (fun s task => (s.storeTask task).dispatch task) running

def step (app : Application V B) (s : State V B) : Act → Option (State V B)
  | .handle i =>
    match s.todo[i]? with
    | none => none
    | some item =>
      (handleLocalItem app s item).map fun s' =>
        { s' with todo := s.todo.eraseIdx i, history := s.history ++ [.imported item] }
  | .commit i =>
    match s.dispatched[i]? with
    | none => none
    | some (task, n) => some (commitTask app s i task n)

/-- An import begins, into a server that holds nothing. -/
def start (items : List (Item V B)) : State V B :=
  ⟨fun _ => none, fun _ => none, [], items, []⟩

/-- The import is over. -/
def State.Finished (s : State V B) : Prop := s.todo = []

/-! ## What it should come to -/

/-- The effects of the tasks on some values. -/
def replay (app : Application V B) (w : World V) : List (Event V B) → World V
  | [] => w
  | .imported _ :: history => replay app w history
  | .committed task n :: history =>
    replay app (w.store (app.perform task n w).writes) history

/-- A commit and an import of something that it worked on, in this order. -/
def Event.Clobbers (app : Application V B) : Event V B → Event V B → Prop
  | .committed task n, .imported item =>
    ∃ e, item.entry = some e ∧ app.touches task n e.1 = true
  | _, _ => False

/-- The actors are as exported, with the effects of the tasks, of which none was overwritten
by an import. -/
structure Kept (app : Application V B) (items : List (Item V B)) (s : State V B) : Prop where
  world : s.world = replay app (exportedWorld items) s.history
  effects : s.history.Pairwise fun e e' => ¬ e.Clobbers app e'

/-- All that a task works on has been imported when it commits. -/
def ImportedBefore (app : Application V B) (s : State V B) : Act → Prop
  | .handle _ => True
  | .commit i => ∀ task n, s.dispatched[i]? = some (task, n) →
    ∀ item ∈ s.todo, ∀ e, item.entry = some e → app.touches task n e.1 = false

/-! ## Storing -/

theorem World.store_of_not_mem {c : Cell} : ∀ {upserts : List (Cell × V)} {w : World V},
    (∀ e ∈ upserts, e.1 ≠ c) → w.store upserts c = w c
  | [], _, _ => rfl
  | (cell, v) :: upserts, _, h => by
    have hne : ¬ c = cell := fun heq => h _ (List.mem_cons_self ..) heq.symm
    rw [World.store, World.store_of_not_mem fun e he => h e (List.mem_cons_of_mem _ he)]
    simp [hne]

/-- A cell keeps its value or has one that was stored. -/
theorem World.store_cases {c : Cell} : ∀ (upserts : List (Cell × V)) {w : World V},
    w.store upserts c = w c ∨ ∃ v, (c, v) ∈ upserts ∧ w.store upserts c = some v
  | [], _ => .inl rfl
  | (cell, v) :: upserts, _ => by
    rw [World.store]
    rcases World.store_cases upserts with h | ⟨v', hv', h⟩
    · rw [h]
      by_cases hc : c = cell
      · exact .inr ⟨v, by simp [hc], by simp [hc]⟩
      · exact .inl (by simp [hc])
    · exact .inr ⟨v', List.mem_cons_of_mem _ hv', h⟩

/-- Equal values stay equal. -/
theorem World.store_congr {c : Cell} : ∀ {upserts : List (Cell × V)} {w w' : World V},
    w c = w' c → w.store upserts c = w'.store upserts c
  | [], _, _, h => h
  | (cell, v) :: upserts, w, w', h => by
    rw [World.store, World.store]
    apply World.store_congr
    simp only [h]

theorem replay_append {app : Application V B} : ∀ (history history' : List (Event V B))
    (w : World V), replay app w (history ++ history') = replay app (replay app w history) history'
  | [], _, _ => rfl
  | .imported _ :: history, history', _ => replay_append history history' _
  | .committed _ _ :: history, history', _ => replay_append history history' _

/-! ## What a step does -/

variable {app : Application V B} {s s' : State V B}

theorem storeTask_dispatch_frame (tasks : List (Task B)) : ∀ s : State V B,
    (tasks.foldl (fun s task => (s.storeTask task).dispatch task) s).world = s.world ∧
      (tasks.foldl (fun s task => (s.storeTask task).dispatch task) s).todo = s.todo ∧
      (tasks.foldl (fun s task => (s.storeTask task).dispatch task) s).history = s.history := by
  induction tasks with
  | nil => exact fun _ => ⟨rfl, rfl, rfl⟩
  | cons task tasks ih =>
    intro s
    obtain ⟨hworld, htodo, hhistory⟩ := ih ((s.storeTask task).dispatch task)
    rw [List.foldl_cons, hworld, htodo, hhistory]
    unfold State.dispatch
    split <;> exact ⟨rfl, rfl, rfl⟩

theorem commitTask_frame (s : State V B) (i : Nat) (task : Task B) (n : Nat) :
    (commitTask app s i task n).world = s.world.store (app.perform task n s.world).writes ∧
      (commitTask app s i task n).todo = s.todo ∧
      (commitTask app s i task n).history = s.history ++ [.committed task n] := by
  unfold commitTask
  dsimp only
  obtain ⟨hworld, htodo, hhistory⟩ := storeTask_dispatch_frame
    (app.perform task n s.world).scheduled
    { (if (app.perform task n s.world).completes then
        (s.storeAll (app.perform task n s.world).writes).storeTask { task with completed := true }
        else s.storeAll (app.perform task n s.world).writes) with
      dispatched := if (app.perform task n s.world).completes then s.dispatched.eraseIdx i
        else s.dispatched.set i (task, n + 1)
      history := s.history ++ [.committed task n] }
  rw [hworld, htodo, hhistory]
  split <;> exact ⟨rfl, rfl, rfl⟩

/-- What is stored for an item: what it says, with an entry the map it is in, or nothing. -/
theorem handleLocalItem_stores {x : Exported app} {item : Item V B} (hitem : item ∈ x.items)
    (h : handleLocalItem app s item = some s') :
    (item.entry = none ∧ s'.world = s.world) ∨
      ∃ e, item.entry = some e ∧
        (s'.world = s.world.store [e] ∨
          ∃ stateRef, Item.state sortedMapTypeName stateRef app.emptySortedMap ∈ x.items ∧
            s'.world = s.world.store [(.actor sortedMapTypeName stateRef, app.emptySortedMap), e]) := by
  cases item with
  | state stateType stateRef value =>
    cases h
    exact .inr ⟨_, rfl, .inl rfl⟩
  | sortedMapEntry stateType stateRef value =>
    obtain ⟨rfl, component, id, rfl, hparent⟩ := x.parent _ _ _ hitem
    simp only [handleLocalItem, importSortedMapEntry, ne_eq, not_true, if_false] at h
    split at h
    next => cases h
    next =>
      cases h
      exact .inr ⟨_, rfl, .inr ⟨[component], hparent, rfl⟩⟩
  | task task =>
    refine .inl ⟨rfl, ?_⟩
    simp only [handleLocalItem, importTask] at h
    split at h
    next =>
      cases h
      rfl
    next =>
      split at h
      next => cases h
      next =>
        cases h
        unfold State.dispatch
        split <;> rfl
  | idempotentMutation stateType stateRef key response =>
    cases h
    exact .inr ⟨_, rfl, .inl rfl⟩

/-! ## The invariant -/

/-- The cells that are still to be imported. -/
def State.Awaits (s : State V B) (c : Cell) : Prop :=
  ∃ item ∈ s.todo, ∃ v, item.entry = some (c, v)

/-- A cell that nothing more is imported into has what it should have, and one that
something is has so far only to have what was exported. -/
structure Inv (app : Application V B) (x : Exported app) (s : State V B) : Prop where
  todo : ∀ item ∈ s.todo, item ∈ x.items
  nodup : ((s.todo.filterMap Item.entry).map Prod.fst).Nodup
  arrived : ∀ c, ¬ s.Awaits c → s.world c = replay app (exportedWorld x.items) s.history c
  awaited : ∀ item ∈ s.todo, ∀ c v, item.entry = some (c, v) →
    replay app (exportedWorld x.items) s.history c = some v
  maps : ∀ stateRef, Item.state sortedMapTypeName stateRef app.emptySortedMap ∈ x.items →
    replay app (exportedWorld x.items) s.history (.actor sortedMapTypeName stateRef) =
      some app.emptySortedMap
  effects : s.history.Pairwise fun e e' => ¬ e.Clobbers app e'
  spared : ∀ event ∈ s.history, ∀ item ∈ s.todo, ¬ event.Clobbers app (.imported item)

/-- What was exported for a cell. -/
theorem exportedWorld_of_mem {x : Exported app} {item : Item V B} {c : Cell} {v : V}
    (hitem : item ∈ x.items) (hentry : item.entry = some (c, v)) :
    exportedWorld x.items c = some v := by
  have hmem : (c, v) ∈ x.items.filterMap Item.entry :=
    List.mem_filterMap.mpr ⟨item, hitem, hentry⟩
  unfold exportedWorld
  cases hfind : (x.items.filterMap Item.entry).find? fun e => decide (e.1 = c) with
  | none => simpa using List.find?_eq_none.mp hfind _ hmem
  | some e =>
    have hkey : e.1 = c := by simpa using List.find?_some hfind
    obtain rfl : e = (c, v) :=
      List.inj_on_of_nodup_map x.nodup (List.mem_of_find?_eq_some hfind) hmem hkey
    rfl

theorem inv_start (x : Exported app) : Inv app x (start x.items) where
  todo := fun _ h => h
  nodup := x.nodup
  arrived := by
    intro c hc
    have hnone : exportedWorld x.items c = none := by
      unfold exportedWorld
      rw [Option.map_eq_none_iff, List.find?_eq_none]
      intro e he hkey
      obtain ⟨item, hitem, hentry⟩ := List.mem_filterMap.mp he
      obtain ⟨c', v⟩ := e
      obtain rfl : c' = c := by simpa using hkey
      exact hc ⟨item, hitem, v, hentry⟩
    exact hnone.symm
  awaited := fun item hitem c v hentry => exportedWorld_of_mem hitem hentry
  maps := fun stateRef hitem => exportedWorld_of_mem hitem rfl
  effects := .nil
  spared := fun _ h => nomatch h

/-- A task that works on what has arrived does what it should do. -/
theorem Inv.perform_eq {x : Exported app} (hinv : Inv app x s) {task : Task B} {n : Nat}
    (hready : ∀ item ∈ s.todo, ∀ e, item.entry = some e → app.touches task n e.1 = false) :
    app.perform task n s.world =
      app.perform task n (replay app (exportedWorld x.items) s.history) := by
  apply app.perform_congr
  intro c htouches
  apply hinv.arrived
  rintro ⟨item, hitem, v, hentry⟩
  have hnot := hready item hitem _ hentry
  rw [htouches] at hnot
  cases hnot

theorem inv_commit {x : Exported app} (hinv : Inv app x s) {i n : Nat} {task : Task B}
    (hready : ∀ item ∈ s.todo, ∀ e, item.entry = some e → app.touches task n e.1 = false) :
    Inv app x (commitTask app s i task n) := by
  obtain ⟨hworld, htodo, hhistory⟩ := commitTask_frame s i task n
  have hreplay : replay app (exportedWorld x.items) (commitTask app s i task n).history =
      (replay app (exportedWorld x.items) s.history).store
        (app.perform task n s.world).writes := by
    rw [hhistory, replay_append, hinv.perform_eq hready]
    rfl
  have hawaits : ∀ c, (commitTask app s i task n).Awaits c ↔ s.Awaits c := by
    intro c
    unfold State.Awaits
    rw [htodo]
  constructor
  · rw [htodo]
    exact hinv.todo
  · rw [htodo]
    exact hinv.nodup
  · intro c hc
    rw [hworld, hreplay]
    exact World.store_congr (hinv.arrived c fun h => hc ((hawaits c).mpr h))
  · intro item hitem c v hentry
    rw [htodo] at hitem
    rw [hreplay, World.store_of_not_mem, hinv.awaited item hitem c v hentry]
    -- what is awaited is not worked on
    rintro e he rfl
    have hnot := hready item hitem _ hentry
    rw [app.touches_of_write task n _ e he] at hnot
    cases hnot
  · intro stateRef hitem
    rw [hreplay]
    rcases World.store_cases (c := .actor sortedMapTypeName stateRef)
      (app.perform task n s.world).writes
      (w := replay app (exportedWorld x.items) s.history) with h | ⟨v, hv, h⟩
    · rw [h, hinv.maps stateRef hitem]
    · have hempty : v = app.emptySortedMap := app.sortedMap_of_write task n _ _ hv stateRef rfl
      rw [h, hempty]
  · rw [hhistory, List.pairwise_append]
    refine ⟨hinv.effects, List.pairwise_singleton .., fun event _ event' hevent' => ?_⟩
    obtain rfl := List.mem_singleton.mp hevent'
    cases event <;> exact id
  · intro event hevent item hitem
    rw [htodo] at hitem
    rw [hhistory] at hevent
    rcases List.mem_append.mp hevent with hevent | hevent
    · exact hinv.spared event hevent item hitem
    · obtain rfl := List.mem_singleton.mp hevent
      rintro ⟨e, hentry, htouches⟩
      rw [hready item hitem e hentry] at htouches
      cases htouches

theorem inv_handle {x : Exported app} (hinv : Inv app x s) {i : Nat} {item : Item V B}
    (hi : s.todo[i]? = some item) (hhandle : handleLocalItem app s item = some s') :
    Inv app x { s' with todo := s.todo.eraseIdx i, history := s.history ++ [.imported item] } := by
  have hmem : item ∈ s.todo := List.mem_of_getElem? hi
  have hsub : ∀ other ∈ s.todo.eraseIdx i, other ∈ s.todo := fun _ h => List.mem_of_mem_eraseIdx h
  have hreplay : replay app (exportedWorld x.items) (s.history ++ [.imported item]) =
      replay app (exportedWorld x.items) s.history := by
    rw [replay_append]
    rfl
  constructor
  · exact fun other hother => hinv.todo other (hsub other hother)
  · exact hinv.nodup.sublist (((List.eraseIdx_sublist _ _).filterMap _).map _)
  · intro c hc
    dsimp only
    rw [hreplay]
    by_cases howner : s.Awaits c
    · -- what the item says has arrived
      obtain ⟨owner, howner, v, hentry⟩ := howner
      have hwaited := hinv.awaited owner howner c v hentry
      have hself : item.entry = some (c, v) := by
        obtain ⟨hlt, rfl⟩ := List.getElem?_eq_some_iff.mp hi
        rcases List.mem_cons.mp
          ((List.getElem_cons_eraseIdx_perm hlt).symm.subset howner) with rfl | hother
        · exact hentry
        · exact absurd ⟨owner, hother, v, hentry⟩ hc
      rw [hwaited]
      rcases handleLocalItem_stores (hinv.todo item hmem) hhandle with
        ⟨hnone, -⟩ | ⟨e, he, hstore | ⟨stateRef, -, hstore⟩⟩
      · rw [hself] at hnone
        cases hnone
      · rw [hself] at he
        cases he
        simp [hstore, World.store]
      · rw [hself] at he
        cases he
        simp [hstore, World.store]
    · rw [← hinv.arrived c howner]
      have hother : ∀ e, item.entry = some e → c ≠ e.1 := by
        rintro e he rfl
        exact howner ⟨item, hmem, e.2, he⟩
      rcases handleLocalItem_stores (hinv.todo item hmem) hhandle with
        ⟨-, hstore⟩ | ⟨e, he, hstore | ⟨stateRef, hparent, hstore⟩⟩
      · rw [hstore]
      · simp [hstore, World.store, hother e he]
      · -- the map that is stored along is there already
        by_cases hmap : c = .actor sortedMapTypeName stateRef
        · rw [hinv.arrived c howner, hmap, hinv.maps stateRef hparent]
          have hne := hother e he
          rw [hmap] at hne
          simp [hstore, World.store, hne]
        · simp [hstore, World.store, hother e he, hmap]
  · intro other hother c v hentry
    dsimp only
    rw [hreplay]
    exact hinv.awaited other (hsub other hother) c v hentry
  · intro stateRef hparent
    dsimp only
    rw [hreplay]
    exact hinv.maps stateRef hparent
  · refine List.pairwise_append.mpr ⟨hinv.effects, List.pairwise_singleton .., ?_⟩
    intro event hevent event' hevent'
    obtain rfl := List.mem_singleton.mp hevent'
    exact hinv.spared event hevent item hmem
  · intro event hevent other hother
    rcases List.mem_append.mp hevent with hevent | hevent
    · exact hinv.spared event hevent other (hsub other hother)
    · obtain rfl := List.mem_singleton.mp hevent
      exact id

theorem inv_step {x : Exported app} (hinv : Inv app x s) {a : Act} (hready : ImportedBefore app s a)
    (hstep : step app s a = some s') : Inv app x s' := by
  cases a with
  | handle i =>
    simp only [step] at hstep
    split at hstep
    next => cases hstep
    next item hi =>
      obtain ⟨handled, hhandled, rfl⟩ := Option.map_eq_some_iff.mp hstep
      exact inv_handle hinv hi hhandled
  | commit i =>
    simp only [step] at hstep
    split at hstep
    next => cases hstep
    next task n hi =>
      cases hstep
      exact inv_commit hinv (hready task n hi)

/-- **An import does not undo work** if everything a task works on has been imported before
it commits: afterwards the actors are as exported, with the effects of the tasks. -/
theorem imported_replayed (x : Exported app)
    (h : Reach (step app) (ImportedBefore app) (start x.items) s) (hfinished : s.Finished) :
    Kept app x.items s := by
  have hinv : Inv app x s :=
    h.invariant (Inv app x) (inv_start x) fun _ _ _ hinv hok hs => inv_step hinv hok hs
  refine ⟨?_, hinv.effects⟩
  funext c
  apply hinv.arrived
  rintro ⟨item, hitem, -⟩
  rw [hfinished] at hitem
  cases hitem

end

/-! ## A run -/

/-- An application whose tasks add to the state of their actor, in one commit; an actor
that is not there yet has the state 0. -/
def adding : Application Nat Nat where
  serverForActor := fun _ => 0
  emptySortedMap := 0
  touches := fun task _ c => decide (c = .actor task.stateType task.stateRef) &&
    decide (task.stateType ≠ sortedMapTypeName)
  perform := fun task _ w =>
    { writes :=
        if task.stateType ≠ sortedMapTypeName then
          [(.actor task.stateType task.stateRef,
            (w (.actor task.stateType task.stateRef)).getD 0 + task.body)]
        else []
      scheduled := []
      completes := true }
  perform_congr := by
    intro task n w w' h
    by_cases htype : task.stateType = sortedMapTypeName
    · simp [htype]
    · rw [h _ (by simp [htype])]
  touches_of_write := by
    intro task n w e he
    by_cases htype : task.stateType = sortedMapTypeName
    · simp [htype] at he
    · rw [if_pos htype, List.mem_singleton] at he
      simp [he, htype]
  sortedMap_of_write := by
    intro task n w e he stateRef heq
    by_cases htype : task.stateType = sortedMapTypeName
    · simp [htype] at he
    · rw [if_pos htype, List.mem_singleton] at he
      rw [he] at heq
      exact absurd (Cell.actor.inj heq).1 htype

/-- An account of 5 with a pending task that adds 1. -/
def account : Exported adding where
  items := [.state "Account".toList [("Account".toList, "a".toList)] 5,
    .task ⟨"Account".toList, [("Account".toList, "a".toList)], 0, false, 1⟩]
  nodup := by decide
  sortedMap := by
    intro stateRef state h
    have hne : sortedMapTypeName ≠ "Account".toList := by decide
    rcases List.mem_cons.mp h with h | h
    · exact absurd (Item.state.inj h).1 hne
    · cases List.mem_singleton.mp h
  parent := by
    intro stateType stateRef entry h
    simp at h

theorem imported_replayed_account :
    Kept adding account.items (last (step adding) (start account.items)
      [.handle 0, .handle 0, .commit 0]) :=
  imported_replayed account
    (((Reach.init.step (a := .handle 0) trivial rfl).step (a := .handle 0) trivial rfl).step
      (a := .commit 0) (fun _ _ _ _ h => nomatch h) rfl)
    rfl

/-- The task first: what it adds is lost, though it has completed. -/
theorem import_then_lost :
    Reach (step adding) (fun _ _ => True) (start account.items)
        (last (step adding) (start account.items) [.handle 1, .commit 0, .handle 0]) ∧
      (last (step adding) (start account.items) [.handle 1, .commit 0, .handle 0]).Finished ∧
      ((last (step adding) (start account.items)
        [.handle 1, .commit 0, .handle 0]).tasks 0).map (·.completed) = some true ∧
      (last (step adding) (start account.items) [.handle 1, .commit 0, .handle 0]).world
        (.actor "Account".toList [("Account".toList, "a".toList)]) = some 5 ∧
      ¬ Kept adding account.items
        (last (step adding) (start account.items) [.handle 1, .commit 0, .handle 0]) := by
  refine ⟨reach_last _ .init ⟨trivial, trivial, trivial, trivial⟩, rfl, rfl, rfl, ?_⟩
  intro hkept
  have hlost := congrFun hkept.world (.actor "Account".toList [("Account".toList, "a".toList)])
  exact absurd hlost (by decide)

end Reboot.Admin.ImportOrder
