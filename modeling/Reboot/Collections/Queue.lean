import Reboot.Collections.Items
import Reboot.Collections.Uuid7
import Reboot.Lib.Run
import Reboot.Lib.SortedAssoc

/-!
# A queue

`QueueServicer` of `reboot/std/collections/queue/v1/queue.py`: the items of a queue are the entries
of a sorted map, under keys that `uuid7` gives in time. `enqueue` and `try_dequeue` are transactions;
`dequeue` is a workflow that asks whether the queue is empty and tries to dequeue, until it has
something to return.

> `State.Fifo`: what was enqueued is what has been taken and what the queue holds, in the order in
> which the transactions committed, each take is the content of one response, and the queue can be
> drained.

The keys are drawn before the transaction waits for the map, so that the order of the commits may be
another one; an item in which no field is set is answered by what also says that there is none; and
`try_dequeue` inside an `until` has committed before its response is stored. `StepOk` leaves these
out, and then `queue_fifo` holds in every run.

Mirroring notes:
- A transaction is isolated: all that it does to the map is one action, its commit. `enqueue` has
  drawn its keys before (`enqueueStart`), and a transaction that is aborted may be made again.
- Keys are the integers of the UUIDs; their texts are in the same order (`uuidStr_lt`).
- `at_most` is what is asked for; `SortedMap.Range` refuses a limit of zero.
- `check` and `attempt` are the two calls in `have_items`; `store` is that of `memoize`, and a
  workflow with a stored response returns it however often it fails.
- `fail` is an exception that leaves the method of one workflow, which is run again; `crash` ends the
  process, and with it the globals of `uuidv7.py` and the transactions that have not committed.
-/

namespace Reboot.Queues

open Reboot.Lib Reboot.Collections Relation

variable {V A : Type}

/-! ## Model -/

/-- The number of items that a bulk dequeue without `at_most` returns. -/
def defaultBulkCount : Nat := 64

structure DequeueRequest where
  bulk : Bool
  atMost : Option Nat
  deriving DecidableEq

structure DequeueResponse (V A : Type) where
  value : Option V
  bytes : Option (List Byte)
  any : Option A
  items : List (Item V A)
  deriving DecidableEq

/-- `DequeueResponse()` -/
def DequeueResponse.none : DequeueResponse V A := ⟨.none, .none, .none, []⟩

/-- The items that a caller finds in a response. -/
def DequeueResponse.contents [DecidableEq V] [DecidableEq A] (response : DequeueResponse V A) :
    List (Item V A) :=
  if response = .none then []
  else if response.items = [] then [⟨response.value, response.bytes, response.any⟩]
  else response.items

/-- Whether a field of an item is set. -/
def hasContent (item : Item V A) : Bool :=
  item.value.isSome || item.bytes.isSome || item.any.isSome

/-- The `limit` of the range that is read. -/
def DequeueRequest.limit (request : DequeueRequest) : Nat :=
  if request.bulk then request.atMost.getD defaultBulkCount else 1

/-- `try_dequeue`: the items that it removes, its response and what is left of the map. `none` is the
error of `range` about its limit, or the assertion that there is one item. -/
def tryDequeue (constructed : Bool) (map : SortedAssoc Nat (Item V A)) (request : DequeueRequest) :
    Option (List (Item V A) × DequeueResponse V A × SortedAssoc Nat (Item V A)) :=
  if !constructed then some ([], .none, map)
  else if request.limit = 0 then .none
  else
    let entries := map.entries.take request.limit
    if entries.length = 0 then some ([], .none, map)
    else
      let items := entries.map Prod.snd
      let rest := (entries.map Prod.fst).foldl SortedAssoc.erase map
      if request.bulk then some (items, ⟨.none, .none, .none, items⟩, rest)
      else
        match items with
        | [item] => some (items, ⟨item.value, item.bytes, item.any, []⟩, rest)
        | _ => .none

/-- Where a `dequeue` stands. A response is with the number of the take that it answers. -/
inductive Phase (V A : Type)
  | checking
  | trying
  /-- `try_dequeue` has committed; its response is not stored. -/
  | got (take : Nat) (response : DequeueResponse V A)
  | stored (take : Nat) (response : DequeueResponse V A)
  | returned
  deriving DecidableEq

structure Dequeue (V A : Type) where
  request : DequeueRequest
  phase : Phase V A
  deriving DecidableEq

structure State (V A : Type) where
  /-- The globals of `uuidv7.py`. -/
  globals : Globals
  /-- Whether `sorted_map_id` is set. -/
  constructed : Bool
  map : SortedAssoc Nat (Item V A)
  /-- The entries of the `enqueue`s that have drawn their keys and not committed. -/
  enqueues : List (List (Nat × Item V A))
  dequeues : List (Dequeue V A)
  /-- The items that were enqueued, in the order of the commits and of each request. -/
  accepted : List (Item V A)
  /-- The items that the `try_dequeue`s have removed, in the order of the commits. -/
  takes : List (List (Item V A))
  /-- The responses that callers received, with the numbers of the takes. -/
  received : List (Nat × DequeueResponse V A)

/-- What the clock and the random source give to a call of `uuid7`. -/
abbrev Draw := Nat × Fin (2 ^ 80) × Fin (2 ^ 32)

inductive Action (V A : Type)
  | enqueueStart (request : ItemsRequest V A) (draws : List Draw)
  | enqueueCommit (i : Nat)
  | enqueueAbort (i : Nat)
  | tryDequeue (request : DequeueRequest)
  | dequeue (request : DequeueRequest)
  | check (i : Nat)
  | attempt (i : Nat)
  | store (i : Nat)
  | finish (i : Nat)
  | fail (i : Nat)
  | crash

/-- A queue that nothing was called on. -/
def State.fresh : State V A where
  globals := .init
  constructed := false
  map := .empty
  enqueues := []
  dequeues := []
  accepted := []
  takes := []
  received := []

def Draw.call (draw : Draw) : Call := .auto draw.1 draw.2.1 draw.2.2

/-- `str(uuid7())` for each item of a request, in order. -/
def drawKeys (globals : Globals) : List Draw → Globals × List Nat
  | [] => (globals, [])
  | draw :: draws =>
    let (globals, key) := uuid7 globals draw.call
    let (globals, keys) := drawKeys globals draws
    (globals, key :: keys)

/-- A workflow that is run again. -/
def Phase.failed : Phase V A → Phase V A
  | .checking | .trying | .got _ _ => .checking
  | phase => phase

/-- The take and the response that a workflow holds. -/
def Phase.held : Phase V A → List (Nat × DequeueResponse V A)
  | .got take response | .stored take response => [(take, response)]
  | _ => []

/-- A workflow goes on to a phase. -/
def State.setPhase (s : State V A) (i : Nat) (d : Dequeue V A) (phase : Phase V A) : State V A :=
  { s with dequeues := s.dequeues.set i { d with phase := phase } }

variable [DecidableEq V] [DecidableEq A]

/-- One action. -/
def step (s : State V A) : Action V A → Option (State V A)
  | .enqueueStart request draws =>
    match request.accepted with
    | none => some s
    | some items =>
      if draws.length = items.length then
        let (globals, keys) := drawKeys s.globals draws
        some { s with globals := globals, enqueues := s.enqueues ++ [keys.zip items] }
      else none
  | .enqueueCommit i =>
    match s.enqueues[i]? with
    | none => none
    | some entries => some { s with
        constructed := true
        map := entries.foldl (fun map entry => map.put entry.1 entry.2) s.map
        enqueues := s.enqueues.eraseIdx i
        accepted := s.accepted ++ entries.map Prod.snd }
  | .enqueueAbort i =>
    if i < s.enqueues.length then some { s with enqueues := s.enqueues.eraseIdx i } else none
  | .tryDequeue request =>
    match tryDequeue s.constructed s.map request with
    | none => some s
    | some ([], _, _) => some s
    | some (items, response, map) => some { s with
        map := map
        takes := s.takes ++ [items]
        received := s.received ++ [(s.takes.length, response)] }
  | .dequeue request => some { s with dequeues := s.dequeues ++ [⟨request, .checking⟩] }
  | .check i =>
    match s.dequeues[i]? with
    | some d =>
      if d.phase = .checking then
        if s.constructed && decide (s.map.entries.length ≠ 0) then some (s.setPhase i d .trying)
        else some s
      else none
    | none => none
  | .attempt i =>
    match s.dequeues[i]? with
    | some d =>
      if d.phase = .trying then
        match tryDequeue s.constructed s.map d.request with
        | none => some (s.setPhase i d .checking)
        | some ([], _, _) => some (s.setPhase i d .checking)
        | some (items, response, map) =>
          some (State.setPhase { s with map := map, takes := s.takes ++ [items] } i d
            (if response = .none then .checking else .got s.takes.length response))
      else none
    | none => none
  | .store i =>
    match s.dequeues[i]? with
    | some d =>
      match d.phase with
      | .got take response => some (s.setPhase i d (.stored take response))
      | _ => none
    | none => none
  | .finish i =>
    match s.dequeues[i]? with
    | some d =>
      match d.phase with
      | .stored take response =>
        some (State.setPhase { s with received := s.received ++ [(take, response)] } i d .returned)
      | _ => none
    | none => none
  | .fail i =>
    match s.dequeues[i]? with
    | some d => some (s.setPhase i d d.phase.failed)
    | none => none
  | .crash => some { s with
      globals := .init
      enqueues := []
      dequeues := s.dequeues.map fun d => { d with phase := d.phase.failed } }

/-- What the workflows hold. -/
def State.held (s : State V A) : List (Nat × DequeueResponse V A) :=
  s.dequeues.flatMap fun d => d.phase.held

/-- An action by which a queue is drained. -/
def Action.IsDequeue : Action V A → Prop
  | .tryDequeue _ | .check _ | .attempt _ | .store _ | .finish _ => True
  | _ => False

/-- The queue is FIFO and loses nothing. -/
structure State.Fifo (s : State V A) : Prop where
  /-- What was enqueued is what has been taken and what is left, in order. -/
  order : s.accepted = s.takes.flatten ++ s.map.entries.map Prod.snd
  /-- Each take is in one response, which a caller has received or a workflow will return. -/
  answered : ((s.received ++ s.held).map Prod.fst).Perm (List.range s.takes.length)
  contents : ∀ p ∈ s.received ++ s.held, s.takes[p.1]? = some p.2.contents
  /-- By dequeues alone everything comes to be received. -/
  drains : ∃ s', ReflTransGen (fun s s' => ∃ a : Action V A, a.IsDequeue ∧ step s a = some s') s s' ∧
    s.takes <+: s'.takes ∧ s'.takes.flatten = s.accepted ∧
    (s'.received.map Prod.fst).Perm (List.range s'.takes.length) ∧
    ∀ p ∈ s'.received, s'.takes[p.1]? = some p.2.contents

/-- The item that is taken alone has a field that is set. -/
def TakesContent (s : State V A) (request : DequeueRequest) : Prop :=
  request.bulk = true ∨ ∀ entry ∈ s.map.entries.take 1, hasContent entry.2 = true

instance (s : State V A) (request : DequeueRequest) : Decidable (TakesContent s request) :=
  inferInstanceAs (Decidable (_ ∨ _))

def Phase.isGot : Phase V A → Bool
  | .got _ _ => true
  | _ => false

/-- What `StepOk` asks of one action. -/
def stepOk (s : State V A) : Action V A → Bool
  -- the clock and what `uuid7` makes of it stay in 48 bits
  | .enqueueStart _ draws =>
    draws.all (fun draw => draw.1 / 1000000 < 2 ^ 48) &&
      (autoTimestamps s.globals (draws.map Draw.call)).all (· < 2 ^ 48)
  -- nothing in the queue has a later key
  | .enqueueCommit i =>
    (s.enqueues[i]?.getD []).all fun entry => s.map.entries.all fun e => e.1 < entry.1
  | .tryDequeue request => decide (TakesContent s request)
  | .attempt i => s.dequeues[i]?.all fun d => decide (TakesContent s d.request)
  -- no response is lost that is not stored
  | .fail i => s.dequeues[i]?.all fun d => !d.phase.isGot
  | .crash => s.dequeues.all fun d => !d.phase.isGot
  | _ => true

/-- The keys of an `enqueue` increase and are above all in the queue when it commits, no item without
content is taken alone, and no workflow fails that holds a response which is not stored. -/
def StepOk (s : State V A) (a : Action V A) : Prop := stepOk s a = true

instance (s : State V A) (a : Action V A) : Decidable (StepOk s a) :=
  inferInstanceAs (Decidable (_ = _))

/-! ## Keys -/

/-- The last timestamp, if there is one, has 48 bits. -/
def GlobalsOk (globals : Globals) : Prop :=
  globals = .init ∨ ∃ t counter, globals = ⟨some t, counter⟩ ∧ t < 2 ^ 48

omit [DecidableEq V] [DecidableEq A] in
theorem drawKeys_eq (globals : Globals) (draws : List Draw) :
    (drawKeys globals draws).2 = autoUuids globals (draws.map Draw.call) := by
  induction draws generalizing globals with
  | nil => rfl
  | cons draw draws ih => exact congrArg (List.cons _) (ih _)

omit [DecidableEq V] [DecidableEq A] in
theorem length_drawKeys (globals : Globals) (draws : List Draw) :
    (drawKeys globals draws).2.length = draws.length := by
  induction draws generalizing globals with
  | nil => rfl
  | cons draw draws ih => exact congrArg (· + 1) (ih _)

theorem drawKeys_globals {globals : Globals} {draws : List Draw} (h : GlobalsOk globals)
    (hdraws : ∀ t ∈ autoTimestamps globals (draws.map Draw.call), t < 2 ^ 48) :
    GlobalsOk (drawKeys globals draws).1 := by
  induction draws generalizing globals with
  | nil => exact h
  | cons draw draws ih =>
    have hcons : autoTimestamps globals ((draw :: draws).map Draw.call) =
        (autoFields globals draw.1 draw.2.1 draw.2.2).1 ::
          autoTimestamps (uuid7 globals draw.call).1 (draws.map Draw.call) := rfl
    rw [hcons, List.forall_mem_cons] at hdraws
    exact ih (.inr ⟨_, _, rfl, hdraws.1⟩) hdraws.2

/-- The keys of one request increase. -/
theorem drawKeys_pairwise {globals : Globals} {draws : List Draw} (h : GlobalsOk globals)
    (hclock : ∀ draw ∈ draws, draw.1 / 1000000 < 2 ^ 48)
    (hdraws : ∀ t ∈ autoTimestamps globals (draws.map Draw.call), t < 2 ^ 48) :
    (drawKeys globals draws).2.Pairwise (· < ·) := by
  have hcalls : ∀ c ∈ draws.map Draw.call, c.ClockInRange := fun c hc => by
    obtain ⟨draw, hdraw, rfl⟩ := List.mem_map.mp hc
    exact hclock draw hdraw
  rw [drawKeys_eq]
  rcases h with rfl | ⟨t, counter, rfl, ht⟩
  · exact (pairwise_autoUuids_iff _ hcalls).mpr hdraws
  · have hchain := (@chain_autoUuids_iff _ t counter 0 ht hcalls).mpr hdraws
    exact (List.isChain_iff_pairwise.mp hchain).of_cons

/-! ## The map -/

theorem putAssoc_append {ν : Type} {k : Nat} {v : ν} {l : List (Nat × ν)} (h : ∀ e ∈ l, e.1 < k) :
    putAssoc k v l = l ++ [(k, v)] := by
  induction l with
  | nil => rfl
  | cons e l ih =>
    obtain ⟨k', v'⟩ := e
    have hk : k' < k := h _ List.mem_cons_self
    have hnot : ¬ k < k' := by omega
    have hne : ¬ k = k' := by omega
    simp only [putAssoc, if_neg hnot, if_neg hne]
    rw [ih fun e he => h e (List.mem_cons_of_mem _ he), List.cons_append]

/-- Entries with increasing keys above all others are put behind them. -/
theorem foldl_put_entries {ν : Type} {entries : List (Nat × ν)} {map : SortedAssoc Nat ν}
    (hsorted : (entries.map Prod.fst).Pairwise (· < ·))
    (habove : ∀ entry ∈ entries, ∀ e ∈ map.entries, e.1 < entry.1) :
    (entries.foldl (fun map entry => map.put entry.1 entry.2) map).entries =
      map.entries ++ entries := by
  induction entries generalizing map with
  | nil => simp
  | cons entry entries ih =>
    have hput : (map.put entry.1 entry.2).entries = map.entries ++ [entry] :=
      putAssoc_append (habove entry List.mem_cons_self)
    rw [List.map_cons, List.pairwise_cons] at hsorted
    rw [List.foldl_cons, ih hsorted.2, hput, List.append_assoc, List.singleton_append]
    intro later hlater e he
    rw [hput] at he
    rcases List.mem_append.mp he with he | he
    · exact habove later (List.mem_cons_of_mem _ hlater) e he
    · rw [List.mem_singleton.mp he]
      exact hsorted.1 _ (List.mem_map_of_mem hlater)

/-- Removing the keys of the first entries leaves the others. -/
theorem foldl_erase_entries {ν : Type} (n : Nat) (map : SortedAssoc Nat ν) :
    (((map.entries.take n).map Prod.fst).foldl SortedAssoc.erase map).entries =
      map.entries.drop n := by
  induction n generalizing map with
  | zero => simp
  | succ n ih =>
    obtain ⟨entries, hsorted⟩ := map
    cases entries with
    | nil => simp
    | cons entry entries =>
      have hlt := (List.pairwise_cons.mp hsorted).1
      have herase : (SortedAssoc.erase ⟨entry :: entries, hsorted⟩ entry.1).entries = entries := by
        show eraseAssoc entry.1 (entry :: entries) = entries
        rw [eraseAssoc, List.filter_cons_of_neg (by simp), List.filter_eq_self]
        intro e he
        have := hlt e he
        simp
        omega
      have hrest := ih (SortedAssoc.erase ⟨entry :: entries, hsorted⟩ entry.1)
      rw [herase] at hrest
      exact hrest

/-! ## One dequeue -/

omit [DecidableEq V] [DecidableEq A] in
/-- What is removed are the first entries. -/
theorem tryDequeue_drop {constructed : Bool} {map map' : SortedAssoc Nat (Item V A)}
    {request : DequeueRequest} {items : List (Item V A)} {response : DequeueResponse V A}
    (h : tryDequeue constructed map request = some (items, response, map')) :
    ∃ n, items = (map.entries.take n).map Prod.snd ∧ map'.entries = map.entries.drop n := by
  unfold tryDequeue at h
  split at h
  · cases h
    exact ⟨0, rfl, rfl⟩
  · split at h
    · cases h
    · simp only at h
      split at h
      · cases h
        exact ⟨0, rfl, rfl⟩
      · split at h
        · cases h
          exact ⟨_, rfl, foldl_erase_entries _ _⟩
        · split at h
          · cases h
            exact ⟨_, rfl, foldl_erase_entries _ _⟩
          · cases h

omit [DecidableEq V] [DecidableEq A] in
/-- What is removed is in front of what is left. -/
theorem tryDequeue_order {constructed : Bool} {map map' : SortedAssoc Nat (Item V A)}
    {request : DequeueRequest} {items : List (Item V A)} {response : DequeueResponse V A}
    (h : tryDequeue constructed map request = some (items, response, map')) :
    map.entries.map Prod.snd = items ++ map'.entries.map Prod.snd := by
  obtain ⟨n, rfl, hdrop⟩ := tryDequeue_drop h
  rw [hdrop, ← List.map_append, List.take_append_drop]

/-- Unless an item without content is taken alone, the response has the items that are removed. -/
theorem tryDequeue_contents {s : State V A} {map' : SortedAssoc Nat (Item V A)}
    {request : DequeueRequest} {items : List (Item V A)} {response : DequeueResponse V A}
    (h : tryDequeue s.constructed s.map request = some (items, response, map'))
    (hok : TakesContent s request) (hitems : items ≠ []) :
    response ≠ .none ∧ response.contents = items := by
  unfold tryDequeue at h
  split at h
  · cases h
    exact absurd rfl hitems
  · split at h
    · cases h
    · simp only at h
      split at h
      · cases h
        exact absurd rfl hitems
      · split at h
        · cases h
          have hne : (⟨.none, .none, .none,
              (s.map.entries.take request.limit).map Prod.snd⟩ : DequeueResponse V A) ≠ .none :=
            fun heq => hitems (congrArg DequeueResponse.items heq)
          refine ⟨hne, ?_⟩
          rw [DequeueResponse.contents, if_neg hne, if_neg hitems]
        · next hbulk =>
          split at h
          · next item hone =>
            cases h
            have hcontent : hasContent item = true := by
              rcases hok with hok | hok
              · exact absurd hok hbulk
              · have hlimit : request.limit = 1 := by simp [DequeueRequest.limit, hbulk]
                rw [hlimit] at hone
                -- the one item is that of the first entry
                obtain ⟨entry, hentry, hsnd⟩ := List.mem_map.mp
                  (hone ▸ List.mem_cons_self : item ∈ (s.map.entries.take 1).map Prod.snd)
                exact hsnd ▸ hok entry hentry
            have hne : (⟨item.value, item.bytes, item.any, []⟩ : DequeueResponse V A) ≠ .none := by
              intro heq
              injection heq with hvalue hbytes hany _
              simp [hasContent, hvalue, hbytes, hany] at hcontent
            refine ⟨hne, ?_⟩
            rw [DequeueResponse.contents, if_neg hne, if_pos rfl]
            exact hone.symm
          · cases h

/-! ## What the workflows hold -/

omit [DecidableEq V] [DecidableEq A] in
/-- The phase of one workflow decides over what it holds, and leaves what the others do. -/
theorem held_setPhase {s : State V A} {i : Nat} {d : Dequeue V A} (h : s.dequeues[i]? = some d) :
    ∃ rest, s.held.Perm (d.phase.held ++ rest) ∧
      ∀ phase : Phase V A, (s.setPhase i d phase).held.Perm (phase.held ++ rest) := by
  obtain ⟨hi, hd⟩ := List.getElem?_eq_some_iff.mp h
  refine ⟨(s.dequeues.take i ++ s.dequeues.drop (i + 1)).flatMap fun d => d.phase.held, ?_,
    fun phase => ?_⟩
  · have hsplit : s.dequeues = s.dequeues.take i ++ d :: s.dequeues.drop (i + 1) := by
      rw [← hd, List.getElem_cons_drop, List.take_append_drop]
    show (s.dequeues.flatMap fun d => d.phase.held).Perm _
    conv_lhs => rw [hsplit]
    rw [List.flatMap_append, List.flatMap_append, List.flatMap_cons]
    exact List.perm_append_comm_assoc _ _ _
  · show ((s.dequeues.set i { d with phase := phase }).flatMap fun d => d.phase.held).Perm _
    rw [List.set_eq_take_append_cons_drop, if_pos hi, List.flatMap_append, List.flatMap_append,
      List.flatMap_cons]
    exact List.perm_append_comm_assoc _ _ _

omit [DecidableEq V] [DecidableEq A] in
/-- A workflow that goes on with what it holds. -/
theorem held_setPhase_same {s : State V A} {i : Nat} {d : Dequeue V A} {phase : Phase V A}
    (h : s.dequeues[i]? = some d) (hheld : phase.held = d.phase.held) :
    (s.setPhase i d phase).held.Perm s.held := by
  obtain ⟨rest, hold, hnew⟩ := held_setPhase h
  have := hnew phase
  rw [hheld] at this
  exact this.trans hold.symm

/-! ## The invariant -/

/-- Each take is in one of these responses, and is its content. -/
structure Answers (takes : List (List (Item V A))) (responses : List (Nat × DequeueResponse V A)) :
    Prop where
  once : (responses.map Prod.fst).Perm (List.range takes.length)
  contents : ∀ p ∈ responses, takes[p.1]? = some p.2.contents

theorem Answers.perm {takes : List (List (Item V A))} {responses responses' : List _}
    (h : Answers takes responses) (hperm : responses'.Perm responses) :
    Answers takes responses' :=
  ⟨(hperm.map Prod.fst).trans h.once, fun p hp => h.contents p (hperm.mem_iff.mp hp)⟩

/-- One more take, with its response. -/
theorem Answers.take {takes : List (List (Item V A))} {responses : List _}
    (h : Answers takes responses) {items : List (Item V A)} {response : DequeueResponse V A}
    (hcontents : response.contents = items) :
    Answers (takes ++ [items]) (responses ++ [(takes.length, response)]) := by
  constructor
  · rw [List.map_append, List.length_append, List.length_singleton, List.range_succ]
    exact h.once.append_right _
  · intro p hp
    rcases List.mem_append.mp hp with hp | hp
    · have hlt : p.1 < takes.length := by
        have := h.contents p hp
        rw [List.getElem?_eq_some_iff] at this
        exact this.1
      rw [List.getElem?_append_left hlt]
      exact h.contents p hp
    · rw [List.mem_singleton.mp hp]
      simp [hcontents]

structure Inv (s : State V A) : Prop where
  globals : GlobalsOk s.globals
  enqueues : ∀ entries ∈ s.enqueues, (entries.map Prod.fst).Pairwise (· < ·)
  constructed : s.map.entries ≠ [] → s.constructed = true
  order : s.accepted = s.takes.flatten ++ s.map.entries.map Prod.snd
  answers : Answers s.takes (s.received ++ s.held)

theorem Inv.fresh : Inv (State.fresh : State V A) :=
  ⟨.inl rfl, by simp [State.fresh], by simp [State.fresh, SortedAssoc.empty],
    by simp [State.fresh, SortedAssoc.empty], ⟨by simp [State.fresh, State.held], by simp [State.fresh, State.held]⟩⟩

/-- A workflow goes on with what it holds. -/
theorem Inv.goOn {s : State V A} (h : Inv s) {i : Nat} {d : Dequeue V A} {phase : Phase V A}
    (hd : s.dequeues[i]? = some d) (hheld : phase.held = d.phase.held) :
    Inv (s.setPhase i d phase) :=
  ⟨h.globals, h.enqueues, h.constructed, h.order,
    h.answers.perm ((held_setPhase_same hd hheld).append_left s.received)⟩

theorem Inv.enqueueStart {s : State V A} (h : Inv s) {items : List (Item V A)} {draws : List Draw}
    (hlength : draws.length = items.length)
    (hclock : ∀ draw ∈ draws, draw.1 / 1000000 < 2 ^ 48)
    (hdraws : ∀ t ∈ autoTimestamps s.globals (draws.map Draw.call), t < 2 ^ 48) :
    Inv { s with
      globals := (drawKeys s.globals draws).1
      enqueues := s.enqueues ++ [(drawKeys s.globals draws).2.zip items] } := by
  refine ⟨drawKeys_globals h.globals hdraws, fun entries hentries => ?_, h.constructed, h.order,
    h.answers⟩
  rcases List.mem_append.mp hentries with hentries | hentries
  · exact h.enqueues entries hentries
  · rw [List.mem_singleton.mp hentries,
      List.map_fst_zip (by rw [length_drawKeys, hlength])]
    exact drawKeys_pairwise h.globals hclock hdraws

theorem Inv.enqueueCommit {s : State V A} (h : Inv s) {i : Nat} {entries : List (Nat × Item V A)}
    (hentries : s.enqueues[i]? = some entries)
    (habove : ∀ entry ∈ entries, ∀ e ∈ s.map.entries, e.1 < entry.1) :
    Inv { s with
      constructed := true
      map := entries.foldl (fun map entry => map.put entry.1 entry.2) s.map
      enqueues := s.enqueues.eraseIdx i
      accepted := s.accepted ++ entries.map Prod.snd } := by
  have hsorted := h.enqueues entries (List.mem_of_getElem? hentries)
  refine ⟨h.globals, fun entries' h' => h.enqueues entries' (List.mem_of_mem_eraseIdx h'),
    fun _ => rfl, ?_, h.answers⟩
  show s.accepted ++ _ = s.takes.flatten ++ _
  rw [foldl_put_entries hsorted habove, h.order, List.map_append, List.append_assoc]

/-- Nothing is taken of a map that is not constructed. -/
theorem Inv.constructed_take {s : State V A} (h : Inv s) {request : DequeueRequest}
    {items : List (Item V A)} {response : DequeueResponse V A} {map : SortedAssoc Nat (Item V A)}
    (hs : tryDequeue s.constructed s.map request = some (items, response, map)) :
    map.entries ≠ [] → s.constructed = true := by
  intro hne
  refine h.constructed fun hnil => hne ?_
  have horder := tryDequeue_order hs
  rw [hnil, List.map_nil] at horder
  exact List.map_eq_nil_iff.mp (List.append_eq_nil_iff.mp horder.symm).2

/-- The items of a take leave the map. -/
theorem Inv.order_take {s : State V A} (h : Inv s) {request : DequeueRequest}
    {items : List (Item V A)} {response : DequeueResponse V A} {map : SortedAssoc Nat (Item V A)}
    (hs : tryDequeue s.constructed s.map request = some (items, response, map)) :
    s.accepted = (s.takes ++ [items]).flatten ++ map.entries.map Prod.snd := by
  rw [h.order, tryDequeue_order hs, List.flatten_append, List.append_assoc]
  simp

theorem Inv.tryDequeue {s : State V A} (h : Inv s) {request : DequeueRequest}
    (hok : TakesContent s request) {items : List (Item V A)} {response : DequeueResponse V A}
    {map : SortedAssoc Nat (Item V A)} (hitems : items ≠ [])
    (hs : tryDequeue s.constructed s.map request = some (items, response, map)) :
    Inv { s with
      map := map
      takes := s.takes ++ [items]
      received := s.received ++ [(s.takes.length, response)] } := by
  have hcontents := (tryDequeue_contents hs hok hitems).2
  refine ⟨h.globals, h.enqueues, h.constructed_take hs, h.order_take hs, (h.answers.take hcontents).perm ?_⟩
  show (s.received ++ [_] ++ s.held).Perm _
  rw [List.append_assoc, List.append_assoc]
  exact List.perm_append_comm.append_left _

theorem Inv.attempt {s : State V A} (h : Inv s) {i : Nat} {d : Dequeue V A}
    (hd : s.dequeues[i]? = some d) (hphase : d.phase = .trying) (hok : TakesContent s d.request)
    {items : List (Item V A)} {response : DequeueResponse V A} {map : SortedAssoc Nat (Item V A)}
    (hitems : items ≠ [])
    (hs : Queues.tryDequeue s.constructed s.map d.request = some (items, response, map)) :
    Inv (State.setPhase { s with map := map, takes := s.takes ++ [items] } i d
      (if response = .none then .checking else .got s.takes.length response)) := by
  obtain ⟨hresponse, hcontents⟩ := tryDequeue_contents hs hok hitems
  rw [if_neg hresponse]
  refine ⟨h.globals, h.enqueues, h.constructed_take hs, h.order_take hs, (h.answers.take hcontents).perm ?_⟩
  obtain ⟨rest, hold, hnew⟩ := held_setPhase (s := { s with
    map := map, takes := s.takes ++ [items] }) hd
  rw [hphase] at hold
  have hheld := (hnew (.got s.takes.length response)).trans
    ((List.perm_append_comm).trans (hold.symm.append_right _))
  show (s.received ++ _).Perm (s.received ++ s.held ++ _)
  rw [List.append_assoc]
  exact hheld.append_left _

theorem Inv.finish {s : State V A} (h : Inv s) {i : Nat} {d : Dequeue V A} {take : Nat}
    {response : DequeueResponse V A} (hd : s.dequeues[i]? = some d)
    (hphase : d.phase = .stored take response) :
    Inv (State.setPhase { s with received := s.received ++ [(take, response)] } i d .returned) := by
  refine ⟨h.globals, h.enqueues, h.constructed, h.order, h.answers.perm ?_⟩
  obtain ⟨rest, hold, hnew⟩ := held_setPhase (s := { s with
    received := s.received ++ [(take, response)] }) hd
  rw [hphase] at hold
  have hreturned : State.held (State.setPhase { s with
      received := s.received ++ [(take, response)] } i d .returned) |>.Perm rest :=
    hnew .returned
  show (s.received ++ [(take, response)] ++ _).Perm (s.received ++ s.held)
  rw [List.append_assoc]
  refine List.Perm.append_left _ ?_
  exact (hreturned.append_left [(take, response)]).trans hold.symm

omit [DecidableEq V] [DecidableEq A] in
theorem held_failed {phase : Phase V A} (h : phase.isGot = false) :
    phase.failed.held = phase.held := by
  cases phase <;> first | rfl | cases h

theorem Inv.crash {s : State V A} (h : Inv s)
    (hok : ∀ d ∈ s.dequeues, d.phase.isGot = false) :
    Inv { s with
      globals := .init
      enqueues := []
      dequeues := s.dequeues.map fun d => { d with phase := d.phase.failed } } := by
  refine ⟨.inl rfl, by simp, h.constructed, h.order, ?_⟩
  have hheld : State.held { s with
      globals := .init
      enqueues := []
      dequeues := s.dequeues.map fun d => { d with phase := d.phase.failed } } = s.held := by
    unfold State.held
    rw [List.flatMap_map]
    exact List.flatMap_congr fun d hd => held_failed (hok d hd)
  show Answers s.takes (s.received ++ _)
  rw [hheld]
  exact h.answers

/-- One action that meets `StepOk`. -/
theorem Inv.preserved {s s' : State V A} {a : Action V A} (h : Inv s) (hok : StepOk s a)
    (hs : step s a = some s') : Inv s' := by
  unfold StepOk at hok
  cases a with
  | enqueueStart request draws =>
    simp only [stepOk, Bool.and_eq_true, List.all_eq_true, decide_eq_true_eq] at hok
    unfold step at hs
    dsimp only at hs
    split at hs
    · cases hs
      exact h
    · split at hs
      · next hlength =>
        cases hs
        exact h.enqueueStart hlength hok.1 hok.2
      · cases hs
  | enqueueCommit i =>
    unfold step at hs
    dsimp only at hs
    split at hs
    · cases hs
    · next entries hentries =>
      cases hs
      refine h.enqueueCommit hentries fun entry hentry e he => ?_
      simp only [stepOk, hentries, Option.getD_some, List.all_eq_true, decide_eq_true_eq] at hok
      exact hok entry hentry e he
  | enqueueAbort i =>
    unfold step at hs
    dsimp only at hs
    split at hs
    · cases hs
      exact { h with
        enqueues := fun entries hentries => h.enqueues entries (List.mem_of_mem_eraseIdx hentries) }
    · cases hs
  | tryDequeue request =>
    have hcontent : TakesContent s request := of_decide_eq_true hok
    unfold step at hs
    dsimp only at hs
    split at hs
    · cases hs
      exact h
    · cases hs
      exact h
    · next items response map hne htry =>
      cases hs
      exact h.tryDequeue hcontent (fun hnil => hne hnil) htry
  | dequeue request =>
    cases hs
    refine { h with answers := h.answers.perm ?_ }
    simp [State.held, Phase.held]
  | check i =>
    unfold step at hs
    dsimp only at hs
    split at hs
    · next d hd =>
      split at hs
      · next hphase =>
        split at hs
        · cases hs
          exact h.goOn hd (by rw [hphase]; rfl)
        · cases hs
          exact h
      · cases hs
    · cases hs
  | attempt i =>
    unfold step at hs
    dsimp only at hs
    split at hs
    · next d hd =>
      have hcontent : TakesContent s d.request := by
        simp only [stepOk, hd, Option.all_some] at hok
        exact of_decide_eq_true hok
      split at hs
      · next hphase =>
        split at hs
        · cases hs
          exact h.goOn hd (by rw [hphase]; rfl)
        · cases hs
          exact h.goOn hd (by rw [hphase]; rfl)
        · next items response map hne htry =>
          cases hs
          exact h.attempt hd hphase hcontent (fun hnil => hne hnil) htry
      · cases hs
    · cases hs
  | store i =>
    unfold step at hs
    dsimp only at hs
    split at hs
    · next d hd =>
      split at hs
      · next take response hphase =>
        cases hs
        exact h.goOn hd (by rw [hphase]; rfl)
      · cases hs
    · cases hs
  | finish i =>
    unfold step at hs
    dsimp only at hs
    split at hs
    · next d hd =>
      split at hs
      · next take response hphase =>
        cases hs
        exact h.finish hd hphase
      · cases hs
    · cases hs
  | fail i =>
    unfold step at hs
    dsimp only at hs
    split at hs
    · next d hd =>
      cases hs
      have hgot : d.phase.isGot = false := by simpa [stepOk, hd] using hok
      exact h.goOn hd (held_failed hgot)
    · cases hs
  | crash =>
    cases hs
    refine h.crash fun d hd => ?_
    have := List.all_eq_true.mp hok d hd
    simpa using this

/-! ## Draining -/

/-- By a dequeue of any kind. -/
def DequeueStep (s s' : State V A) : Prop := ∃ a : Action V A, a.IsDequeue ∧ step s a = some s'

/-- How many actions a workflow has to go. -/
def Phase.togo : Phase V A → Nat
  | .got _ _ => 2
  | .stored _ _ => 1
  | _ => 0

def State.togo (s : State V A) : Nat := (s.dequeues.map fun d => d.phase.togo).sum

omit [DecidableEq V] [DecidableEq A] in
theorem togo_setPhase {s : State V A} {i : Nat} {d : Dequeue V A} {phase : Phase V A}
    (h : s.dequeues[i]? = some d) (hlt : phase.togo < d.phase.togo) :
    (s.setPhase i d phase).togo < s.togo := by
  obtain ⟨hi, hd⟩ := List.getElem?_eq_some_iff.mp h
  have hsplit : s.dequeues = s.dequeues.take i ++ d :: s.dequeues.drop (i + 1) := by
    rw [← hd, List.getElem_cons_drop, List.take_append_drop]
  have hset : (s.setPhase i d phase).dequeues =
      s.dequeues.take i ++ { d with phase := phase } :: s.dequeues.drop (i + 1) := by
    show s.dequeues.set i _ = _
    rw [List.set_eq_take_append_cons_drop, if_pos hi]
  unfold State.togo
  rw [hset]
  conv_rhs => rw [hsplit]
  simp only [List.map_append, List.map_cons, List.sum_append, List.sum_cons]
  omega

/-- The workflows that hold a response return it. -/
theorem Inv.settle {s : State V A} (h : Inv s) :
    ∃ s', ReflTransGen DequeueStep s s' ∧ Inv s' ∧ s'.held = [] ∧ s'.takes = s.takes ∧
      s'.accepted = s.accepted := by
  induction hn : s.togo using Nat.strongRecOn generalizing s with
  | ind n ih =>
    by_cases hall : ∀ d ∈ s.dequeues, d.phase.held = []
    · exact ⟨s, .refl, h, List.flatMap_eq_nil_iff.mpr hall, rfl, rfl⟩
    · push Not at hall
      obtain ⟨d, hd, hheld⟩ := hall
      obtain ⟨i, hi⟩ := List.mem_iff_getElem?.mp hd
      have hgo : ∀ {s₁ : State V A} {a : Action V A}, a.IsDequeue → step s a = some s₁ → Inv s₁ →
          s₁.togo < n → s₁.takes = s.takes → s₁.accepted = s.accepted →
          ∃ s', ReflTransGen DequeueStep s s' ∧ Inv s' ∧ s'.held = [] ∧ s'.takes = s.takes ∧
            s'.accepted = s.accepted := by
        intro s₁ a ha hs hinv hlt htakes haccepted
        obtain ⟨s', hsteps, hinv', hheld', htakes', haccepted'⟩ := ih s₁.togo hlt hinv rfl
        exact ⟨s', .head ⟨a, ha, hs⟩ hsteps, hinv', hheld', htakes'.trans htakes,
          haccepted'.trans haccepted⟩
      cases hphase : d.phase with
      | checking => exact absurd (by rw [hphase]; rfl) hheld
      | trying => exact absurd (by rw [hphase]; rfl) hheld
      | returned => exact absurd (by rw [hphase]; rfl) hheld
      | got take response =>
        have hs : step s (.store i) = some (s.setPhase i d (.stored take response)) := by
          simp [step, hi, hphase]
        refine hgo (a := .store i) trivial hs (h.goOn hi (by rw [hphase]; rfl)) ?_ rfl rfl
        rw [← hn]
        exact togo_setPhase hi (by rw [hphase]; exact Nat.lt_succ_self 1)
      | stored take response =>
        have hs : step s (.finish i) = some (State.setPhase { s with
            received := s.received ++ [(take, response)] } i d .returned) := by
          simp [step, hi, hphase]
        refine hgo (a := .finish i) trivial hs (h.finish hi hphase) ?_ rfl rfl
        rw [← hn]
        exact togo_setPhase (s := { s with received := s.received ++ [(take, response)] }) hi
          (by rw [hphase]; exact Nat.one_pos)

omit [DecidableEq V] [DecidableEq A] in
/-- A bulk dequeue of a queue that has items takes some. -/
theorem tryDequeue_bulk {constructed : Bool} {map : SortedAssoc Nat (Item V A)}
    (hconstructed : constructed = true) (h : map.entries ≠ []) :
    ∃ items response map', items ≠ [] ∧
      tryDequeue constructed map ⟨true, none⟩ = some (items, response, map') ∧
      map'.entries.length < map.entries.length := by
  subst hconstructed
  have hlimit : (⟨true, none⟩ : DequeueRequest).limit = 64 := rfl
  have hpos : 0 < map.entries.length := List.length_pos_iff.mpr h
  have htake : ¬ (map.entries.take 64).length = 0 := by
    rw [List.length_take]
    omega
  refine ⟨(map.entries.take 64).map Prod.snd,
    ⟨.none, .none, .none, (map.entries.take 64).map Prod.snd⟩,
    ((map.entries.take 64).map Prod.fst).foldl SortedAssoc.erase map, ?_, ?_, ?_⟩
  · intro hnil
    exact htake (by rw [List.map_eq_nil_iff.mp hnil]; rfl)
  · simp only [tryDequeue, Bool.not_true, Bool.false_eq_true, if_false, hlimit]
    rw [if_neg (by decide), if_neg htake]
    rfl
  · rw [foldl_erase_entries, List.length_drop]
    omega

/-- Where no workflow holds a response, bulk dequeues take all that is left. -/
theorem Inv.drain {s : State V A} (h : Inv s) (hheld : s.held = []) :
    ∃ s', ReflTransGen DequeueStep s s' ∧ Inv s' ∧ s'.held = [] ∧ s.takes <+: s'.takes ∧
      s'.accepted = s.accepted ∧ s'.map.entries = [] := by
  induction hn : s.map.entries.length using Nat.strongRecOn generalizing s with
  | ind n ih =>
    by_cases hnil : s.map.entries = []
    · exact ⟨s, .refl, h, hheld, List.prefix_rfl, rfl, hnil⟩
    · obtain ⟨items, response, map, hitems, htry, hlt⟩ := tryDequeue_bulk (h.constructed hnil) hnil
      have hs : step s (.tryDequeue ⟨true, none⟩) = some { s with
          map := map
          takes := s.takes ++ [items]
          received := s.received ++ [(s.takes.length, response)] } := by
        simp only [step, htry]
      obtain ⟨s', hsteps, hinv, hheld', hbegins, haccepted, hempty⟩ :=
        ih map.entries.length (hn ▸ hlt) (h.tryDequeue (.inl rfl) hitems htry) hheld rfl
      exact ⟨s', .head ⟨.tryDequeue ⟨true, none⟩, trivial, hs⟩ hsteps, hinv, hheld',
        (List.prefix_append _ _).trans hbegins, haccepted, hempty⟩

theorem Inv.fifo {s : State V A} (h : Inv s) : s.Fifo where
  order := h.order
  answered := h.answers.once
  contents := h.answers.contents
  drains := by
    obtain ⟨s₁, hsteps₁, hinv₁, hheld₁, htakes₁, haccepted₁⟩ := h.settle
    obtain ⟨s₂, hsteps₂, hinv₂, hheld₂, hbegins, haccepted₂, hempty⟩ := hinv₁.drain hheld₁
    have hanswers := hinv₂.answers
    rw [hheld₂, List.append_nil] at hanswers
    have horder := hinv₂.order
    rw [hempty, List.map_nil, List.append_nil] at horder
    exact ⟨s₂, hsteps₁.trans hsteps₂, htakes₁ ▸ hbegins,
      horder.symm.trans (haccepted₂.trans haccepted₁), hanswers.once, hanswers.contents⟩

/-! ## Runs -/

/-- In every run whose steps meet `StepOk` the queue is FIFO and loses nothing. -/
theorem queue_fifo {s : State V A} (h : Reach step StepOk State.fresh s) : s.Fifo :=
  (h.invariant Inv Inv.fresh fun _ _ _ hinv hok hs => hinv.preserved hok hs).fifo

def textItem (value : Nat) : Item Nat Nat := ⟨some value, none, none⟩

/-- Two items are enqueued by one request, and a workflow takes the first. -/
def enqueueTwo : List (Action Nat Nat) :=
  [.enqueueStart ⟨none, none, none, [textItem 1, textItem 2]⟩ [(10 ^ 6, 5, 0), (10 ^ 6, 5, 0)],
    .enqueueCommit 0, .dequeue ⟨false, none⟩, .check 0, .attempt 0, .store 0, .finish 0]

theorem queue_fifo_enqueueTwo :
    (last step State.fresh enqueueTwo).takes = [[textItem 1]] ∧
      (last step State.fresh enqueueTwo).Fifo :=
  ⟨by decide +kernel, queue_fifo (reach_last enqueueTwo .init (by decide +kernel))⟩

/-- On a queue that is there, the `enqueue` that drew the later key commits first. -/
def reorder : List (Action Nat Nat) :=
  [.enqueueStart ⟨some 0, none, none, []⟩ [(10 ^ 5, 5, 0)], .enqueueCommit 0,
    .enqueueStart ⟨some 1, none, none, []⟩ [(10 ^ 6, 5, 0)],
    .enqueueStart ⟨some 2, none, none, []⟩ [(2 * 10 ^ 6, 5, 0)], .enqueueCommit 1, .enqueueCommit 0]

/-- The workflow fails after `try_dequeue` has committed. -/
def loseResponse : List (Action Nat Nat) :=
  [.enqueueStart ⟨some 1, none, none, []⟩ [(10 ^ 6, 5, 0)], .enqueueCommit 0,
    .dequeue ⟨false, none⟩, .check 0, .attempt 0, .fail 0]

/-- What was committed last is taken first, and what was taken is in no response. -/
theorem queue_loses :
    (¬ ∀ s : State Nat Nat, Reach step (fun _ _ => True) State.fresh s →
      s.accepted = s.takes.flatten ++ s.map.entries.map Prod.snd) ∧
    ¬ ∀ s : State Nat Nat, Reach step (fun _ _ => True) State.fresh s → s.Fifo := by
  constructor
  · intro h
    have hreach : Reach step (fun _ _ => True) State.fresh (last step State.fresh reorder) :=
      reach_last reorder .init (by decide +kernel)
    exact absurd (h _ hreach) (by decide +kernel)
  · intro h
    have hreach : Reach step (fun _ _ => True) State.fresh (last step State.fresh loseResponse) :=
      reach_last loseResponse .init (by decide +kernel)
    have hlength := (h _ hreach).answered.length_eq
    exact absurd hlength (by decide +kernel)

end Reboot.Queues
