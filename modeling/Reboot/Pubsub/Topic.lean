import Mathlib.Data.List.Basic
import Mathlib.Logic.Function.Basic
import Mathlib.Logic.Relation
import Reboot.Collections.Items
import Reboot.Lib.Run

/-!
# A topic and its broker

`TopicServicer` of `reboot/std/pubsub/v1/pubsub.py`: `Publish` and `Subscribe` are writers of the
topic, `Broker` is its workflow. An iteration of the broker takes the items off the topic, in an
inline write inside an `until` whose result is memoized for the iteration, and enqueues them on the
queues that subscribed.

> `State.Delivered`: nothing that is published is lost, each queue has its items in order and once,
> and the broker, left to itself, gets all of them to all queues that are owed them.

Inside an `until` a mutation is not idempotent: the write that takes the items has committed before
`memoize` stores its result. A broker that fails or whose process dies between the two has lost the
items (`delivered_lost`); outside of this window it delivers (`topic_delivers`).

Mirroring notes:
- A writer is one action; its effects are committed when it returns. The broker is scheduled once,
  in the writer that sets `broker_started`.
- `memoize` is its three durable effects: what is stored for an iteration is found by every later
  attempt at this iteration. The same holds of an `Enqueue`, which is idempotent by iteration, for
  a queue and an iteration.
- `fail` is any exception that leaves the method, after which it is run again in the same process
  with the iteration of the same `TaskEffect`; after `crash` the iteration is the recorded one. The
  iteration is advanced before it is stored.
- The calls of `Enqueue` run concurrently, and one of an attempt that failed may commit later, as
  long as it has not committed before.
- `queue_ids` may have repetitions from before they were refused; `dict.fromkeys` drops them.
- A queue is the list of the items enqueued on it, in the order in which this commits.
- The ids that subscribe are assumed to be ones that `Queue.ref` takes.
-/

namespace Reboot.Pubsub

open Reboot.Lib Reboot.Collections Relation

/-! ## Model -/

/-- What `until` returns: `queue_ids` and `items`. -/
abbrev Batch (Q V A : Type) := List Q × List (Item V A)

/-- Where the broker stands. -/
inductive Phase (Q V A : Type)
  /-- The method does not run: it waits to be dispatched, for the first time or again. -/
  | waiting
  /-- `until` waits for items. -/
  | awaiting
  /-- The items are taken; their batch is not stored yet. -/
  | took (batch : Batch Q V A)
  /-- `until` has returned; the batch is being enqueued. -/
  | sending (batch : Batch Q V A)
  /-- The next iteration is being stored. -/
  | advancing

structure State (Q V A : Type) where
  /-- The state of the topic. -/
  brokerStarted : Bool
  queueIds : List Q
  items : List (Item V A)
  /-- The iteration in the record of the task. -/
  recorded : Nat
  /-- What is memoized of `until`, by iteration. -/
  memo : Nat → Option (Batch Q V A)
  /-- The queues on which the `Enqueue` of an iteration has committed. -/
  done : Nat → List Q
  queues : Q → List (Item V A)
  /-- `task_effect.iteration` -/
  iteration : Nat
  phase : Phase Q V A
  /-- All that was published, in order. -/
  published : List (Item V A)
  /-- All that the broker took, with the queues that were subscribed. -/
  takes : List (Batch Q V A)

inductive Action (Q V A : Type)
  | publish (request : ItemsRequest V A)
  | subscribe (queueId : Q)
  | run
  | takeItems
  | store
  | enqueue (iteration : Nat) (queueId : Q)
  | allSent
  | advance
  | fail
  | crash

variable {Q V A : Type}

/-- A topic that nothing was called on. -/
def State.fresh : State Q V A where
  brokerStarted := false
  queueIds := []
  items := []
  recorded := 0
  memo := fun _ => none
  done := fun _ => []
  queues := fun _ => []
  iteration := 0
  phase := .waiting
  published := []
  takes := []

/-- The body of the loop begins: `until` returns what is stored for the iteration, or waits. -/
def State.enterBody (s : State Q V A) : State Q V A :=
  { s with phase := match s.memo s.iteration with
      | some batch => .sending batch
      | none => .awaiting }

/-- Whether the method does not run. -/
def Phase.isWaiting : Phase Q V A → Bool
  | .waiting => true
  | _ => false

/-- Whether the next iteration is being stored. -/
def Phase.isAdvancing : Phase Q V A → Bool
  | .advancing => true
  | _ => false

variable [DecidableEq Q]

/-- One action. -/
def step (s : State Q V A) : Action Q V A → Option (State Q V A)
  | .publish request =>
    match request.accepted with
    | none => some s
    | some items =>
      some { s with
        items := s.items ++ items
        brokerStarted := true
        published := s.published ++ items }
  | .subscribe queueId =>
    some { s with
      queueIds := if queueId ∈ s.queueIds then s.queueIds else s.queueIds ++ [queueId]
      brokerStarted := true }
  | .run => if s.brokerStarted && s.phase.isWaiting then some s.enterBody else none
  | .takeItems =>
    match s.phase with
    | .awaiting =>
      if s.items = [] then some s
      else some { s with
        items := []
        phase := .took (s.queueIds, s.items)
        takes := s.takes ++ [(s.queueIds, s.items)] }
    | _ => none
  | .store =>
    match s.phase with
    | .took batch =>
      some { s with
        memo := Function.update s.memo s.iteration (some batch)
        phase := .sending batch }
    | _ => none
  | .enqueue iteration queueId =>
    match s.memo iteration with
    | some batch =>
      if queueId ∈ batch.1 ∧ queueId ∉ s.done iteration then
        some { s with
          queues := Function.update s.queues queueId (s.queues queueId ++ batch.2)
          done := Function.update s.done iteration (s.done iteration ++ [queueId]) }
      else none
    | none => none
  | .allSent =>
    match s.phase with
    | .sending batch =>
      if ∀ queueId ∈ batch.1, queueId ∈ s.done s.iteration then
        some { s with iteration := s.iteration + 1, phase := .advancing }
      else none
    | _ => none
  | .advance =>
    if s.phase.isAdvancing then some { s with recorded := s.iteration }.enterBody else none
  | .fail => if s.phase.isWaiting then none else some { s with phase := .waiting }
  | .crash => some { s with phase := .waiting, iteration := s.recorded }

/-- What a queue is owed: the items of the batches that were taken while it was subscribed. -/
def State.due (s : State Q V A) (queueId : Q) : List (Item V A) :=
  (s.takes.filter fun batch => queueId ∈ batch.1).flatMap Prod.snd

/-- An action of the broker with which it goes on. -/
def Action.IsBroker : Action Q V A → Prop
  | .run | .takeItems | .store | .enqueue _ _ | .allSent | .advance => True
  | _ => False

/-- The broker goes on. -/
def BrokerStep (s s' : State Q V A) : Prop := ∃ a : Action Q V A, a.IsBroker ∧ step s a = some s'

/-- Published items reach the subscribers exactly once and in order. -/
structure State.Delivered (s : State Q V A) : Prop where
  /-- What is published is taken once and in order, or on the topic. -/
  taken : s.published = s.takes.flatMap Prod.snd ++ s.items
  /-- A queue has what it is owed, in order, as far as it goes. -/
  inOrder : ∀ queueId, s.queues queueId <+: s.due queueId
  /-- When the broker waits for items, every queue has all that it is owed. -/
  settled : s.phase = .awaiting → ∀ queueId, s.queues queueId = s.due queueId
  /-- The broker can go on until all that is published is taken and enqueued. -/
  completes : s.published ≠ [] → ∃ s', ReflTransGen BrokerStep s s' ∧ s.takes <+: s'.takes ∧
    s'.published = s.published ∧ s'.published = s'.takes.flatMap Prod.snd ∧
    ∀ queueId, s'.queues queueId = s'.due queueId

/-- Whether nothing is in hand that a queue is owed. -/
def Phase.owesNothing : Phase Q V A → Bool
  | .took batch => batch.1.isEmpty
  | _ => true

/-- The broker does not fail between taking items that a queue is owed and storing them. -/
def StepOk (s : State Q V A) (a : Action Q V A) : Prop :=
  match a with
  | .fail | .crash => s.phase.owesNothing = true
  | _ => True

instance (s : State Q V A) (a : Action Q V A) : Decidable (StepOk s a) := by
  unfold StepOk
  split <;> infer_instance

/-! ## The invariant -/

/-- What an iteration has put on a queue. -/
def State.sent (s : State Q V A) (queueId : Q) (i : Nat) : List (Item V A) :=
  match s.memo i with
  | some batch => if queueId ∈ s.done i then batch.2 else []
  | none => []

/-- What an iteration owes to a queue. -/
def State.owed (s : State Q V A) (queueId : Q) (i : Nat) : List (Item V A) :=
  match s.memo i with
  | some batch => if queueId ∈ batch.1 then batch.2 else []
  | none => []

/-- What is taken and not stored, as far as a queue is concerned. -/
def Phase.inHand (phase : Phase Q V A) (queueId : Q) : List (Item V A) :=
  match phase with
  | .took batch => if queueId ∈ batch.1 then batch.2 else []
  | _ => []

/-- The iteration that a phase belongs to, where `n` iterations have stored their batch. -/
def Phase.Fits (phase : Phase Q V A) (memo : Nat → Option (Batch Q V A)) (iteration n : Nat) :
    Prop :=
  match phase with
  | .waiting | .advancing => True
  | .awaiting | .took _ => iteration = n
  | .sending batch => memo iteration = some batch

/-- `n` iterations have stored their batch. All but the last of them are done, and the last one is
when the iteration is beyond it. -/
structure Inv (s : State Q V A) (n : Nat) : Prop where
  memo_some : ∀ i < n, ∃ batch, s.memo i = some batch
  memo_none : ∀ i, n ≤ i → s.memo i = none ∧ s.done i = []
  recorded_le : s.recorded ≤ s.iteration
  iteration_le : s.iteration ≤ n
  complete : ∀ i batch, s.memo i = some batch → i < s.iteration ∨ i + 1 < n →
    ∀ queueId ∈ batch.1, queueId ∈ s.done i
  phase : s.phase.Fits s.memo s.iteration n
  done_sub : ∀ i batch, s.memo i = some batch → ∀ queueId ∈ s.done i, queueId ∈ batch.1
  queues : ∀ queueId, s.queues queueId = (List.range n).flatMap (s.sent queueId)
  due : ∀ queueId, s.due queueId =
    (List.range n).flatMap (s.owed queueId) ++ s.phase.inHand queueId
  taken : s.published = s.takes.flatMap Prod.snd ++ s.items
  started : s.published ≠ [] ∨ ¬ s.phase.isWaiting → s.brokerStarted = true

theorem Inv.fresh : Inv (State.fresh : State Q V A) 0 := by
  constructor <;> simp [State.fresh, Phase.Fits, State.due, Phase.inHand, Phase.isWaiting]

theorem flatMap_range_congr {α : Type} {f g : Nat → List α} {n : Nat} (h : ∀ i < n, f i = g i) :
    (List.range n).flatMap f = (List.range n).flatMap g := by
  induction n with
  | zero => rfl
  | succ n ih =>
    rw [List.range_succ, List.flatMap_append, List.flatMap_append,
      ih fun i hi => h i (by omega)]
    simp [h n (by omega)]

/-- An iteration that is done has sent what it owes. -/
theorem Inv.sent_eq_owed {s : State Q V A} {n i : Nat} (h : Inv s n)
    (hi : i < s.iteration ∨ i + 1 < n) (queueId : Q) : s.sent queueId i = s.owed queueId i := by
  unfold State.sent State.owed
  cases hmemo : s.memo i with
  | none => rfl
  | some batch =>
    have hiff : queueId ∈ s.done i ↔ queueId ∈ batch.1 :=
      ⟨h.done_sub i batch hmemo queueId, h.complete i batch hmemo hi queueId⟩
    simp [hiff]

/-- What a queue has is what it is owed, up to what is under way. -/
theorem Inv.queues_inOrder {s : State Q V A} {n : Nat} (h : Inv s n) (queueId : Q) :
    s.queues queueId <+: s.due queueId := by
  rw [h.queues, h.due]
  cases n with
  | zero => simp
  | succ n =>
    rw [List.range_succ, List.flatMap_append, List.flatMap_append,
      flatMap_range_congr fun i hi => h.sent_eq_owed (.inr (by omega)) queueId, List.append_assoc]
    refine (List.prefix_append_right_inj _).mpr ?_
    simp only [List.flatMap_cons, List.flatMap_nil, List.append_nil]
    have hlast : s.sent queueId n = s.owed queueId n ∨ s.sent queueId n = [] := by
      unfold State.sent State.owed
      cases hmemo : s.memo n with
      | none => exact .inl rfl
      | some batch =>
        by_cases hdone : queueId ∈ s.done n
        · simp [hdone, h.done_sub n batch hmemo queueId hdone]
        · simp [hdone]
    rcases hlast with hlast | hlast
    · rw [hlast]
      exact List.prefix_append _ _
    · rw [hlast]
      exact List.nil_prefix

/-- Beyond the last stored batch, each queue has all that it is owed. -/
theorem Inv.queues_eq {s : State Q V A} {n : Nat} (h : Inv s n) (hn : s.iteration = n)
    (hphase : ∀ queueId, s.phase.inHand queueId = []) (queueId : Q) :
    s.queues queueId = s.due queueId := by
  rw [h.queues, h.due, hphase, List.append_nil]
  exact flatMap_range_congr fun i hi => h.sent_eq_owed (.inl (by omega)) queueId

/-! ## One action keeps the invariant -/

theorem Inv.enterBody {s : State Q V A} {n : Nat} (h : Inv s n)
    (hphase : ∀ queueId, s.phase.inHand queueId = []) (hstarted : s.brokerStarted = true) :
    Inv s.enterBody n := by
  have hdue : ∀ (queueId : Q) (phase : Phase Q V A), phase.inHand queueId = [] →
      s.due queueId = (List.range n).flatMap (s.owed queueId) ++ phase.inHand queueId :=
    fun queueId phase hnil => by rw [h.due queueId, hphase, hnil]
  cases hmemo : s.memo s.iteration with
  | some batch =>
    have heq : s.enterBody = { s with phase := .sending batch } := by
      simp [State.enterBody, hmemo]
    rw [heq]
    exact { h with
      phase := hmemo
      due := fun queueId => hdue queueId (.sending batch) rfl
      started := fun _ => hstarted }
  | none =>
    have heq : s.enterBody = { s with phase := .awaiting } := by
      simp [State.enterBody, hmemo]
    have hiteration : s.iteration = n := by
      by_contra hne
      have hle := h.iteration_le
      obtain ⟨batch, hbatch⟩ := h.memo_some s.iteration (by omega)
      rw [hmemo] at hbatch
      cases hbatch
    rw [heq]
    exact { h with
      phase := hiteration
      due := fun queueId => hdue queueId .awaiting rfl
      started := fun _ => hstarted }

theorem Inv.publish {s : State Q V A} {n : Nat} (h : Inv s n) (items : List (Item V A)) :
    Inv { s with
      items := s.items ++ items
      brokerStarted := true
      published := s.published ++ items } n :=
  { h with
    taken := by
      show s.published ++ items = _
      rw [h.taken, List.append_assoc]
    started := fun _ => rfl }

theorem Inv.takeItems {s : State Q V A} {n : Nat} (h : Inv s n) (hphase : s.phase = .awaiting) :
    Inv { s with
      items := []
      phase := .took (s.queueIds, s.items)
      takes := s.takes ++ [(s.queueIds, s.items)] } n := by
  have hfits := h.phase
  rw [hphase] at hfits
  refine { h with phase := hfits, due := fun queueId => ?_, taken := ?_, started := fun _ => ?_ }
  · have hdue := h.due queueId
    rw [hphase] at hdue
    show ((s.takes ++ [(s.queueIds, s.items)]).filter fun batch => queueId ∈ batch.1).flatMap
      Prod.snd = _
    rw [List.filter_append, List.flatMap_append]
    show s.due queueId ++ _ = _
    rw [hdue]
    show _ = (List.range n).flatMap (s.owed queueId) ++ _
    by_cases hmem : queueId ∈ s.queueIds <;> simp [Phase.inHand, hmem]
  · rw [h.taken, List.flatMap_append]
    simp
  · exact h.started (.inr (by simp [hphase, Phase.isWaiting]))

theorem Inv.store {s : State Q V A} {n : Nat} (h : Inv s n) {batch : Batch Q V A}
    (hphase : s.phase = .took batch) :
    Inv { s with
      memo := Function.update s.memo s.iteration (some batch)
      phase := .sending batch } (n + 1) := by
  have hiteration : s.iteration = n := by
    have hfits := h.phase
    rwa [hphase] at hfits
  subst hiteration
  have hold : ∀ i < s.iteration, Function.update s.memo s.iteration (some batch) i = s.memo i :=
    fun i hi => Function.update_of_ne (by omega) ..
  have hnew : Function.update s.memo s.iteration (some batch) s.iteration = some batch := Function.update_self ..
  have hdone : s.done s.iteration = [] := (h.memo_none s.iteration le_rfl).2
  have hsome : ∀ i batch', Function.update s.memo s.iteration (some batch) i = some batch' → i ≤ s.iteration := by
    intro i batch' hi
    by_contra hlt
    rw [Function.update_of_ne (by omega), (h.memo_none i (by omega)).1] at hi
    cases hi
  constructor
  · intro i hi
    by_cases hin : i = s.iteration
    · exact ⟨batch, hin ▸ hnew⟩
    · obtain ⟨batch', hbatch'⟩ := h.memo_some i (by omega)
      exact ⟨batch', (hold i (by omega)).trans hbatch'⟩
  · intro i hi
    obtain ⟨hmemo, hdone⟩ := h.memo_none i (by omega)
    exact ⟨(Function.update_of_ne (by omega) ..).trans hmemo, hdone⟩
  · exact h.recorded_le
  · exact Nat.le_succ _
  · intro i batch' hi hlt
    have hin : i < s.iteration := by
      have : i < s.iteration ∨ i + 1 < s.iteration + 1 := hlt
      omega
    exact h.complete i batch' ((hold i hin).symm.trans hi) (.inl hin)
  · exact hnew
  · intro i batch' hi queueId hq
    by_cases hin : i = s.iteration
    · rw [hin] at hq
      rw [show s.done s.iteration = [] from hdone] at hq
      exact absurd hq List.not_mem_nil
    · have := hsome i batch' hi
      exact h.done_sub i batch' ((hold i (by omega)).symm.trans hi) queueId hq
  · intro queueId
    rw [List.range_succ, List.flatMap_append]
    show s.queues queueId = _
    rw [h.queues queueId]
    have hlast : (State.sent { s with
        memo := Function.update s.memo s.iteration (some batch), phase := .sending batch } queueId s.iteration) = [] := by
      simp [State.sent, hdone]
    rw [List.flatMap_cons, hlast, List.nil_append, List.flatMap_nil, List.append_nil]
    refine flatMap_range_congr fun i hi => ?_
    simp [State.sent, hold i hi]
  · intro queueId
    rw [List.range_succ, List.flatMap_append]
    show s.due queueId = _
    rw [h.due queueId, hphase]
    have hlast : (State.owed { s with
        memo := Function.update s.memo s.iteration (some batch), phase := .sending batch } queueId s.iteration) =
        (Phase.took batch).inHand queueId := by
      simp [State.owed, Phase.inHand]
    rw [List.flatMap_cons, hlast, List.flatMap_nil, List.append_nil]
    show _ = _ ++ _ ++ []
    rw [List.append_nil]
    congr 1
    refine flatMap_range_congr fun i hi => ?_
    simp [State.owed, hold i hi]
  · exact h.taken
  · exact fun _ => h.started (.inr (by simp [hphase, Phase.isWaiting]))

/-- An `Enqueue` that has not committed is of the iteration that stored its batch last. -/
theorem Inv.enqueue {s : State Q V A} {n i : Nat} (h : Inv s n) {batch : Batch Q V A} {queueId : Q}
    (hmemo : s.memo i = some batch) (hmem : queueId ∈ batch.1) (hnot : queueId ∉ s.done i) :
    Inv { s with
      queues := Function.update s.queues queueId (s.queues queueId ++ batch.2)
      done := Function.update s.done i (s.done i ++ [queueId]) } n := by
  have hlast : i + 1 = n := by
    have hlt : i < n := by
      by_contra hge
      rw [(h.memo_none i (by omega)).1] at hmemo
      cases hmemo
    by_contra hne
    exact hnot (h.complete i batch hmemo (.inr (by omega)) queueId hmem)
  have hcurrent : s.iteration ≤ i := by
    by_contra hlt
    exact hnot (h.complete i batch hmemo (.inl (by omega)) queueId hmem)
  have hother : ∀ j, j ≠ i → Function.update s.done i (s.done i ++ [queueId]) j = s.done j :=
    fun j hj => Function.update_of_ne hj ..
  have hself : Function.update s.done i (s.done i ++ [queueId]) i = s.done i ++ [queueId] :=
    Function.update_self ..
  have hgrows : ∀ j, ∀ q ∈ s.done j, q ∈ Function.update s.done i (s.done i ++ [queueId]) j := by
    intro j q hq
    by_cases hj : j = i
    · subst hj
      rw [hself]
      exact List.mem_append_left _ hq
    · rw [hother j hj]
      exact hq
  refine { h with
    memo_none := fun j hj => ?_
    complete := fun j batch' hj hlt q hq => hgrows j q (h.complete j batch' hj hlt q hq)
    done_sub := fun j batch' hj q hq => ?_
    queues := fun q => ?_ }
  · exact ⟨(h.memo_none j hj).1, (hother j (by omega)).trans (h.memo_none j hj).2⟩
  · by_cases hji : j = i
    · subst hji
      rw [hmemo] at hj
      cases hj
      simp only [hself, List.mem_append, List.mem_singleton] at hq
      rcases hq with hq | rfl
      · exact h.done_sub j _ hmemo q hq
      · exact hmem
    · simp only [hother j hji] at hq
      exact h.done_sub j batch' hj q hq
  · show Function.update s.queues queueId (s.queues queueId ++ batch.2) q = _
    have hsplit : ∀ f : Nat → List (Item V A),
        (List.range n).flatMap f = (List.range i).flatMap f ++ f i := by
      intro f
      rw [← hlast, List.range_succ, List.flatMap_append]
      simp
    have hearlier := flatMap_range_congr (n := i) (f := s.sent q) (g := State.sent { s with
        queues := Function.update s.queues queueId (s.queues queueId ++ batch.2)
        done := Function.update s.done i (s.done i ++ [queueId]) } q) fun j hj => by
      simp only [State.sent, hother j (by omega)]
    have hqueues := h.queues q
    rw [hsplit] at hqueues ⊢
    rw [← hearlier]
    by_cases hq : q = queueId
    · subst hq
      rw [Function.update_self, hqueues]
      simp [State.sent, hmemo, hnot]
    · rw [Function.update_of_ne hq, hqueues]
      simp [State.sent, hmemo, hq]

theorem Inv.allSent {s : State Q V A} {n : Nat} (h : Inv s n) {batch : Batch Q V A}
    (hphase : s.phase = .sending batch)
    (hdone : ∀ queueId ∈ batch.1, queueId ∈ s.done s.iteration) :
    Inv { s with iteration := s.iteration + 1, phase := .advancing } n := by
  have hmemo : s.memo s.iteration = some batch := by
    have hfits := h.phase
    rwa [hphase] at hfits
  refine { h with
    recorded_le := Nat.le_succ_of_le h.recorded_le
    iteration_le := ?_
    complete := fun i batch' hi hlt => ?_
    phase := trivial
    due := fun queueId => ?_
    started := fun _ => h.started (.inr (by simp [hphase, Phase.isWaiting])) }
  · by_contra hlt
    have hge : ¬ s.iteration + 1 ≤ n := hlt
    rw [(h.memo_none s.iteration (by omega)).1] at hmemo
    cases hmemo
  · by_cases hi' : i = s.iteration
    · subst hi'
      rw [hmemo] at hi
      cases hi
      exact hdone
    · refine h.complete i batch' hi ?_
      have : i < s.iteration + 1 ∨ i + 1 < n := hlt
      omega
  · have hdue := h.due queueId
    rwa [hphase] at hdue

theorem Inv.leave {s : State Q V A} {n i : Nat} (h : Inv s n)
    (hlost : s.phase.owesNothing = true) (hi : i ≤ s.iteration)
    (hrecorded : s.recorded ≤ i) : Inv { s with phase := .waiting, iteration := i } n := by
  have hiteration := h.iteration_le
  refine { h with
    recorded_le := hrecorded
    iteration_le := hi.trans hiteration
    complete := fun j batch hj hlt => h.complete j batch hj ?_
    phase := trivial
    due := fun queueId => ?_
    started := fun hs => h.started ?_ }
  · have : j < i ∨ j + 1 < n := hlt
    omega
  · have hnil : s.phase.inHand queueId = [] := by
      unfold Phase.inHand
      split
      · next batch hphase =>
        rw [hphase] at hlost
        simp [List.isEmpty_iff.mp hlost]
      · rfl
    have hdue := h.due queueId
    rwa [hnil] at hdue
  · rcases hs with hs | hs
    · exact .inl hs
    · exact absurd rfl hs

/-- One action, other than a failure that loses what is in hand. -/
theorem Inv.preserved {s s' : State Q V A} {a : Action Q V A} {n : Nat} (h : Inv s n) (hok : StepOk s a)
    (hs : step s a = some s') : ∃ n', Inv s' n' := by
  cases a with
  | publish request =>
    unfold step at hs
    dsimp only at hs
    split at hs
    · cases hs
      exact ⟨n, h⟩
    · next items _ =>
      cases hs
      exact ⟨n, h.publish items⟩
  | subscribe queueId =>
    cases hs
    exact ⟨n, { h with started := fun _ => rfl }⟩
  | run =>
    unfold step at hs
    dsimp only at hs
    split at hs
    · next hrun =>
      cases hs
      rw [Bool.and_eq_true] at hrun
      refine ⟨n, h.enterBody (fun queueId => ?_) hrun.1⟩
      cases hphase : s.phase <;> simp_all [Phase.isWaiting, Phase.inHand]
    · cases hs
  | takeItems =>
    unfold step at hs
    dsimp only at hs
    split at hs
    · next hphase =>
      split at hs
      · cases hs
        exact ⟨n, h⟩
      · cases hs
        exact ⟨n, h.takeItems hphase⟩
    · cases hs
  | store =>
    unfold step at hs
    dsimp only at hs
    split at hs
    · next batch hphase =>
      cases hs
      exact ⟨n + 1, h.store hphase⟩
    · cases hs
  | enqueue iteration queueId =>
    unfold step at hs
    dsimp only at hs
    split at hs
    · next batch hmemo =>
      split at hs
      · next hq =>
        cases hs
        exact ⟨n, h.enqueue hmemo hq.1 hq.2⟩
      · cases hs
    · cases hs
  | allSent =>
    unfold step at hs
    dsimp only at hs
    split at hs
    · next batch hphase =>
      split at hs
      · next hdone =>
        cases hs
        exact ⟨n, h.allSent hphase hdone⟩
      · cases hs
    · cases hs
  | advance =>
    unfold step at hs
    dsimp only at hs
    split at hs
    · next hphase =>
      cases hs
      have hnil : ∀ queueId, s.phase.inHand queueId = [] := fun queueId => by
        cases hp : s.phase <;> simp_all [Phase.isAdvancing, Phase.inHand]
      have hwaiting : ¬ s.phase.isWaiting = true := by
        cases hp : s.phase <;> simp_all [Phase.isAdvancing, Phase.isWaiting]
      have hadvanced : Inv { s with recorded := s.iteration } n :=
        { h with recorded_le := le_rfl }
      exact ⟨n, hadvanced.enterBody hnil (h.started (.inr hwaiting))⟩
    · cases hs
  | fail =>
    unfold step at hs
    dsimp only at hs
    split at hs
    · cases hs
    · cases hs
      exact ⟨n, h.leave hok le_rfl h.recorded_le⟩
  | crash =>
    cases hs
    exact ⟨n, h.leave hok h.recorded_le le_rfl⟩

/-! ## The broker left to itself -/

/-- The broker goes from one state to the other without taking anything. -/
structure Goes (s s' : State Q V A) : Prop where
  steps : ReflTransGen BrokerStep s s'
  items : s'.items = s.items
  published : s'.published = s.published
  takes : s'.takes = s.takes
  started : s'.brokerStarted = s.brokerStarted

theorem Goes.refl (s : State Q V A) : Goes s s := ⟨.refl, rfl, rfl, rfl, rfl⟩

theorem Goes.trans {s₁ s₂ s₃ : State Q V A} (h : Goes s₁ s₂) (h' : Goes s₂ s₃) : Goes s₁ s₃ :=
  ⟨h.steps.trans h'.steps, h'.items.trans h.items, h'.published.trans h.published,
    h'.takes.trans h.takes, h'.started.trans h.started⟩

/-- The batch of the iteration is enqueued on any of its queues. -/
theorem Inv.send {s : State Q V A} {n : Nat} (h : Inv s n) {batch : Batch Q V A}
    (hmemo : s.memo s.iteration = some batch) (queueIds : List Q)
    (hsub : ∀ queueId ∈ queueIds, queueId ∈ batch.1) :
    ∃ s', Goes s s' ∧ Inv s' n ∧ s'.phase = s.phase ∧ s'.iteration = s.iteration ∧
      s'.memo = s.memo ∧ ∀ queueId ∈ queueIds, queueId ∈ s'.done s.iteration := by
  induction queueIds with
  | nil => exact ⟨s, .refl s, h, rfl, rfl, rfl, by simp⟩
  | cons queueId rest ih =>
    obtain ⟨s₁, hgoes, hinv, hphase, hiteration, hmemo₁, hdone⟩ :=
      ih fun q hq => hsub q (List.mem_cons_of_mem _ hq)
    have hbatch : s₁.memo s.iteration = some batch := hmemo₁ ▸ hmemo
    have hmem := hsub queueId List.mem_cons_self
    by_cases hq : queueId ∈ s₁.done s.iteration
    · refine ⟨s₁, hgoes, hinv, hphase, hiteration, hmemo₁, fun q hq' => ?_⟩
      rcases List.mem_cons.mp hq' with rfl | hq'
      · exact hq
      · exact hdone q hq'
    · have hstep : step s₁ (.enqueue s.iteration queueId) = some { s₁ with
          queues := Function.update s₁.queues queueId (s₁.queues queueId ++ batch.2)
          done := Function.update s₁.done s.iteration (s₁.done s.iteration ++ [queueId]) } := by
        simp [step, hbatch, hmem, hq]
      refine ⟨_, hgoes.trans ⟨.single ⟨.enqueue s.iteration queueId, trivial, hstep⟩, rfl, rfl, rfl, rfl⟩,
        hinv.enqueue hbatch hmem hq, hphase, hiteration, hmemo₁, fun q hq' => ?_⟩
      show q ∈ Function.update s₁.done s.iteration (s₁.done s.iteration ++ [queueId]) s.iteration
      rw [Function.update_self]
      rcases List.mem_cons.mp hq' with rfl | hq'
      · simp
      · exact List.mem_append_left _ (hdone q hq')

omit [DecidableEq Q] in
theorem enterBody_phase (s : State Q V A) :
    s.enterBody.phase = .awaiting ∨ ∃ batch, s.enterBody.phase = .sending batch := by
  unfold State.enterBody
  cases s.memo s.iteration with
  | none => exact .inl rfl
  | some batch => exact .inr ⟨batch, rfl⟩

/-- The next iteration, stored and begun. -/
def State.next (s : State Q V A) : State Q V A :=
  { s with
    iteration := s.iteration + 1
    phase := .advancing
    recorded := s.iteration + 1 }.enterBody

/-- A batch that is enqueued on all its queues is left behind. -/
theorem Inv.goes_next {s : State Q V A} {n : Nat} (h : Inv s n) {batch : Batch Q V A}
    (hphase : s.phase = .sending batch)
    (hdone : ∀ queueId ∈ batch.1, queueId ∈ s.done s.iteration) :
    Goes s s.next ∧ Inv s.next n := by
  have hsent : step s .allSent =
      some { s with iteration := s.iteration + 1, phase := .advancing } := by
    simp only [step, hphase]
    rw [if_pos hdone]
  have hadvance : step { s with iteration := s.iteration + 1, phase := .advancing } .advance =
      some s.next := rfl
  have hstarted : s.brokerStarted = true := h.started (.inr (by simp [hphase, Phase.isWaiting]))
  have hinv := h.allSent hphase hdone
  exact ⟨⟨.head ⟨.allSent, trivial, hsent⟩ (.single ⟨.advance, trivial, hadvance⟩), rfl, rfl, rfl,
    rfl⟩, Inv.enterBody { hinv with recorded_le := le_rfl } (fun _ => rfl) hstarted⟩

/-- Through the iterations that have stored their batch. -/
theorem Inv.reach_awaiting {s : State Q V A} {n : Nat} (h : Inv s n)
    (hphase : s.phase = .awaiting ∨ ∃ batch, s.phase = .sending batch) :
    ∃ s', Goes s s' ∧ Inv s' n ∧ s'.phase = .awaiting := by
  induction hk : n - s.iteration using Nat.strongRecOn generalizing s with
  | ind k ih =>
    rcases hphase with hphase | ⟨batch, hphase⟩
    · exact ⟨s, .refl s, h, hphase⟩
    · have hmemo : s.memo s.iteration = some batch := by
        have hfits := h.phase
        rwa [hphase] at hfits
      obtain ⟨s₁, hgoes, hinv, hphase₁, hiteration, hmemo₁, hdone⟩ :=
        h.send hmemo batch.1 fun q hq => hq
      rw [hphase] at hphase₁
      rw [← hiteration] at hdone
      obtain ⟨hnext, hinvnext⟩ := hinv.goes_next hphase₁ hdone
      have hlt : s.iteration < n := by
        by_contra hge
        rw [(h.memo_none s.iteration (by omega)).1] at hmemo
        cases hmemo
      have hiterationnext : s₁.next.iteration = s.iteration + 1 := congrArg (· + 1) hiteration
      obtain ⟨s₃, hgoes₃, hinv₃, hphase₃⟩ := ih (n - s₁.next.iteration) (by omega) hinvnext
        (enterBody_phase _) rfl
      exact ⟨s₃, (hgoes.trans hnext).trans hgoes₃, hinv₃, hphase₃⟩

/-- The broker stores what it has in hand and goes on to wait for items. -/
theorem Inv.store_awaiting {s : State Q V A} {n : Nat} (h : Inv s n) {batch : Batch Q V A}
    (hphase : s.phase = .took batch) :
    ∃ s' n', Goes s s' ∧ Inv s' n' ∧ s'.phase = .awaiting := by
  have hstore : step s .store = some { s with
      memo := Function.update s.memo s.iteration (some batch)
      phase := .sending batch } := by
    simp [step, hphase]
  obtain ⟨s', hgoes, hinv, hawaiting⟩ := (h.store hphase).reach_awaiting (.inr ⟨batch, rfl⟩)
  refine ⟨s', n + 1, Goes.trans ⟨.single ⟨.store, trivial, hstore⟩, rfl, rfl, rfl, rfl⟩ hgoes,
    hinv, hawaiting⟩

/-- From wherever the broker is, it comes to wait for items. -/
theorem Inv.exists_awaiting {s : State Q V A} {n : Nat} (h : Inv s n)
    (hstarted : s.brokerStarted = true) :
    ∃ s' n', Goes s s' ∧ Inv s' n' ∧ s'.phase = .awaiting := by
  have henter : ∀ (r : State Q V A), BrokerStep s r.enterBody → Inv r.enterBody n →
      r.items = s.items → r.published = s.published → r.takes = s.takes →
      r.brokerStarted = s.brokerStarted →
      ∃ s' n', Goes s s' ∧ Inv s' n' ∧ s'.phase = .awaiting := by
    intro r hstep hinv hitems hpublished htakes hbroker
    obtain ⟨s', hgoes, hinv', hawaiting⟩ := hinv.reach_awaiting (enterBody_phase r)
    exact ⟨s', n, Goes.trans ⟨.single hstep, hitems, hpublished, htakes, hbroker⟩ hgoes, hinv',
      hawaiting⟩
  cases hphase : s.phase with
  | awaiting => exact ⟨s, n, .refl s, h, hphase⟩
  | took batch => exact h.store_awaiting hphase
  | sending batch =>
    obtain ⟨s', hgoes, hinv, hawaiting⟩ := h.reach_awaiting (.inr ⟨batch, hphase⟩)
    exact ⟨s', n, hgoes, hinv, hawaiting⟩
  | waiting =>
    refine henter s ⟨.run, trivial, ?_⟩ (h.enterBody ?_ hstarted) rfl rfl rfl rfl
    · simp [step, hstarted, hphase, Phase.isWaiting]
    · simp [hphase, Phase.inHand]
  | advancing =>
    refine henter { s with recorded := s.iteration } ⟨.advance, trivial, ?_⟩
      (Inv.enterBody { h with recorded_le := le_rfl } ?_ hstarted) rfl rfl rfl rfl
    · simp [step, hphase, Phase.isAdvancing]
    · simp [hphase, Phase.inHand]

/-- The broker takes what is left and gets everything to its queues. -/
theorem Inv.completes {s : State Q V A} {n : Nat} (h : Inv s n)
    (hpublished : s.published ≠ []) : ∃ s', ReflTransGen BrokerStep s s' ∧ s.takes <+: s'.takes ∧
      s'.published = s.published ∧ s'.published = s'.takes.flatMap Prod.snd ∧
      ∀ queueId, s'.queues queueId = s'.due queueId := by
  have hend : ∀ {s' : State Q V A} {n' : Nat}, Inv s' n' → s'.phase = .awaiting → s'.items = [] →
      s'.published = s'.takes.flatMap Prod.snd ∧
        ∀ queueId, s'.queues queueId = s'.due queueId := by
    intro s' n' hinv hphase hitems
    have hfits := hinv.phase
    rw [hphase] at hfits
    have htaken := hinv.taken
    rw [hitems, List.append_nil] at htaken
    exact ⟨htaken, hinv.queues_eq hfits (by simp [hphase, Phase.inHand])⟩
  obtain ⟨s₁, n₁, hgoes, hinv, hphase⟩ := h.exists_awaiting (h.started (.inl hpublished))
  by_cases hitems : s₁.items = []
  · obtain ⟨htaken, hqueues⟩ := hend hinv hphase hitems
    exact ⟨s₁, hgoes.steps, by rw [hgoes.takes], hgoes.published, htaken, hqueues⟩
  · have htake : step s₁ .takeItems = some { s₁ with
        items := []
        phase := .took (s₁.queueIds, s₁.items)
        takes := s₁.takes ++ [(s₁.queueIds, s₁.items)] } := by
      simp [step, hphase, hitems]
    obtain ⟨s₂, n₂, hgoes₂, hinv₂, hphase₂⟩ := (hinv.takeItems hphase).store_awaiting rfl
    obtain ⟨htaken, hqueues⟩ := hend hinv₂ hphase₂ hgoes₂.items
    refine ⟨s₂, (hgoes.steps.tail ⟨.takeItems, trivial, htake⟩).trans hgoes₂.steps, ?_,
      hgoes₂.published.trans hgoes.published, htaken, hqueues⟩
    rw [hgoes₂.takes, ← hgoes.takes]
    exact List.prefix_append _ _

theorem Inv.delivered {s : State Q V A} {n : Nat} (h : Inv s n) : s.Delivered where
  taken := h.taken
  inOrder := h.queues_inOrder
  settled := fun hphase => by
    have hfits := h.phase
    rw [hphase] at hfits
    exact h.queues_eq hfits (by simp [hphase, Phase.inHand])
  completes := h.completes

/-! ## Runs -/

/-- In every run in which the broker does not fail between taking items that a queue is owed and
storing them, published items reach the subscribers exactly once and in order. -/
theorem topic_delivers {s : State Q V A} (h : Reach step StepOk State.fresh s) : s.Delivered := by
  obtain ⟨n, hinv⟩ := h.invariant (fun s => ∃ n, Inv s n) ⟨0, Inv.fresh⟩
    fun s a s' ⟨n, hinv⟩ hok hs => hinv.preserved hok hs
  exact hinv.delivered

/-- One item is published after a queue has subscribed, and enqueued. -/
def publishOne : List (Action String String Unit) :=
  [.subscribe "queue", .publish ⟨some "item", none, none, []⟩, .run, .takeItems, .store,
    .enqueue 0 "queue", .allSent, .advance]

theorem topic_delivers_publishOne :
    (last step State.fresh publishOne).due "queue" = [⟨some "item", none, none⟩] ∧
      (last step State.fresh publishOne).queues "queue" =
        (last step State.fresh publishOne).due "queue" :=
  ⟨by decide, (topic_delivers (reach_last publishOne .init (by decide))).settled rfl "queue"⟩

/-- The process dies after the items are taken and before they are stored. -/
def lostBatch : List (Action String String Unit) :=
  [.subscribe "queue", .publish ⟨some "item", none, none, []⟩, .run, .takeItems, .crash, .run]

/-- The broker waits for items, and the queue never got the one that it is owed. -/
theorem topic_loses : ¬ ∀ s : State String String Unit,
    Reach step (fun _ _ => True) State.fresh s → s.Delivered := by
  intro h
  have hreach : Reach step (fun _ _ => True) State.fresh (last step State.fresh lostBatch) :=
    reach_last lostBatch .init (by decide)
  have heq := (h _ hreach).settled rfl "queue"
  exact absurd heq (by decide)

end Reboot.Pubsub
