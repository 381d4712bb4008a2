import Reboot.Pubsub.Topic

/-!
# What a broker that fails can do to its subscribers

`topic_delivers` leaves out the one window in which a broker loses items. This file is about every
run, with failures and crashes anywhere. The items of a failed window are gone, but no subscriber
gets an item twice, none gets items out of order, and what a window loses it loses as a whole, for
all subscribers: the queues have what they would have if the lost batches had never been taken
(`topic_at_most_once`).

The proof compares the topic with one from whose record the lost batches are struck out
(`State.recording`). Every action does the same to both, and a failure strikes out the batch in hand.
-/

namespace Reboot.Pubsub

open Reboot.Lib Reboot.Collections

variable {Q V A : Type} [DecidableEq Q]

/-- The topic as if it had taken only these batches. -/
def State.recording (s : State Q V A) (kept : List (Batch Q V A)) : State Q V A :=
  { s with takes := kept, published := kept.flatMap Prod.snd ++ s.items }

/-- The items of these batches that a queue is owed. -/
def dueOf (takes : List (Batch Q V A)) (queueId : Q) : List (Item V A) :=
  (takes.filter fun batch => queueId ∈ batch.1).flatMap Prod.snd

/-- Some of the batches have reached the queues, in order and once. -/
structure State.InOrder (s : State Q V A) : Prop where
  /-- What is published is taken once and in order, or on the topic. -/
  taken : s.published = s.takes.flatMap Prod.snd ++ s.items
  /-- But for the batches that are lost, each queue has what it is owed as far as it goes, and all
  of it when the broker waits for items. -/
  kept : ∃ kept, kept.Sublist s.takes ∧ (∀ queueId, s.queues queueId <+: dueOf kept queueId) ∧
    (s.phase = .awaiting → ∀ queueId, s.queues queueId = dueOf kept queueId)

/-- `kept` are the batches that are not lost, the one in hand included. -/
structure Keeps (s : State Q V A) (kept : List (Batch Q V A)) (n : Nat) : Prop where
  inv : Inv (s.recording kept) n
  sub : kept.Sublist s.takes
  inHand : ∀ batch, s.phase = .took batch → ∃ before, kept = before ++ [batch]
  taken : s.published = s.takes.flatMap Prod.snd ++ s.items

variable {s s' : State Q V A} {kept : List (Batch Q V A)} {n : Nat}

/-- The batch in hand is lost, or nothing is in hand. -/
theorem Keeps.leave (h : Keeps s kept n) {i : Nat} (hi : i ≤ s.iteration) (hrecorded : s.recorded ≤ i) :
    ∃ kept', Keeps { s with phase := .waiting, iteration := i } kept' n := by
  have hleave : ∀ kept', kept'.Sublist s.takes →
      Inv { s.recording kept' with phase := .waiting, iteration := i } n →
      Keeps { s with phase := .waiting, iteration := i } kept' n := fun kept' hsub hinv =>
    ⟨hinv, hsub, fun _ hphase => (by cases hphase), h.taken⟩
  cases hphase : s.phase with
  | took batch =>
    obtain ⟨before, rfl⟩ := h.inHand batch hphase
    refine ⟨before, hleave before ((List.sublist_append_left _ _).trans h.sub) ?_⟩
    -- before the batch was taken
    have hinv : Inv { s.recording before with phase := .awaiting } n := by
      have hfits : (s.recording (before ++ [batch])).phase.Fits s.memo s.iteration n := h.inv.phase
      have hsame : (s.recording (before ++ [batch])).phase = .took batch := hphase
      rw [hsame] at hfits
      refine { h.inv with phase := hfits, due := fun queueId => ?_, taken := rfl, started := ?_ }
      · have hdue := h.inv.due queueId
        rw [hsame] at hdue
        show dueOf before queueId = _ ++ []
        rw [List.append_nil]
        have hsplit : (s.recording (before ++ [batch])).due queueId =
            dueOf before queueId ++ if queueId ∈ batch.1 then batch.2 else [] := by
          show dueOf (before ++ [batch]) queueId = _
          by_cases hmem : queueId ∈ batch.1 <;> simp [dueOf, hmem]
        rw [hsplit] at hdue
        exact List.append_cancel_right hdue
      · intro _
        exact h.inv.started (.inr (by rw [hsame]; simp [Phase.isWaiting]))
    exact hinv.leave rfl hi hrecorded
  | waiting | awaiting | sending | advancing =>
    refine ⟨kept, hleave kept h.sub (h.inv.leave ?_ hi hrecorded)⟩
    show s.phase.owesNothing = true
    rw [hphase]
    rfl

/-- Any action but a failure does the same to both topics. -/
theorem Keeps.goOn (h : Keeps s kept n) {a : Action Q V A} (kept' : List (Batch Q V A))
    (hok : StepOk (s.recording kept) a) (hs : step (s.recording kept) a = some (s'.recording kept'))
    (hsub : kept'.Sublist s'.takes)
    (hinHand : ∀ batch, s'.phase = .took batch → ∃ before, kept' = before ++ [batch])
    (htaken : s'.published = s'.takes.flatMap Prod.snd ++ s'.items) : ∃ kept n, Keeps s' kept n := by
  obtain ⟨n', hinv⟩ := h.inv.preserved hok hs
  exact ⟨kept', n', hinv, hsub, hinHand, htaken⟩

theorem Keeps.step {a : Action Q V A} (h : Keeps s kept n) (hs : Pubsub.step s a = some s') :
    ∃ kept n, Keeps s' kept n := by
  cases a with
  | publish request =>
    unfold Pubsub.step at hs
    dsimp only at hs
    split at hs
    · cases hs
      exact ⟨kept, n, h⟩
    next items hitems =>
      cases hs
      refine h.goOn (a := .publish request) kept trivial ?_ h.sub h.inHand ?_
      · simp [Pubsub.step, hitems, State.recording]
      · rw [h.taken, List.append_assoc]
  | subscribe queueId =>
    cases hs
    exact h.goOn (a := .subscribe queueId) kept trivial rfl h.sub h.inHand h.taken
  | run =>
    unfold Pubsub.step at hs
    dsimp only at hs
    split at hs
    next hrun =>
      cases hs
      refine h.goOn (a := .run) kept trivial (if_pos hrun) h.sub (fun batch hphase => ?_) h.taken
      simp only [State.enterBody] at hphase
      split at hphase <;> cases hphase
    · cases hs
  | takeItems =>
    unfold Pubsub.step at hs
    dsimp only at hs
    split at hs
    next hphase =>
      split at hs
      · cases hs
        exact ⟨kept, n, h⟩
      next hitems =>
        cases hs
        refine h.goOn (a := .takeItems) (kept ++ [(s.queueIds, s.items)]) trivial ?_
          (h.sub.append (List.Sublist.refl _)) (fun batch hbatch => ?_) ?_
        · simp [Pubsub.step, State.recording, hphase, hitems]
        · cases hbatch
          exact ⟨kept, rfl⟩
        · simp [h.taken]
    · cases hs
  | store =>
    unfold Pubsub.step at hs
    dsimp only at hs
    split at hs
    next batch hphase =>
      cases hs
      refine h.goOn (a := .store) kept trivial ?_ h.sub (fun _ hbatch => by cases hbatch) h.taken
      simp [Pubsub.step, State.recording, hphase]
    · cases hs
  | enqueue iteration queueId =>
    unfold Pubsub.step at hs
    dsimp only at hs
    split at hs
    next batch hmemo =>
      split at hs
      next hmem =>
        cases hs
        refine h.goOn (a := .enqueue iteration queueId) kept trivial ?_ h.sub h.inHand h.taken
        simp [Pubsub.step, State.recording, hmemo, hmem]
      · cases hs
    · cases hs
  | allSent =>
    unfold Pubsub.step at hs
    dsimp only at hs
    split at hs
    next batch hphase =>
      split at hs
      next hsent =>
        cases hs
        refine h.goOn (a := .allSent) kept trivial ?_ h.sub (fun _ hbatch => by cases hbatch) h.taken
        simp only [Pubsub.step, State.recording, hphase]
        exact if_pos hsent
      · cases hs
    · cases hs
  | advance =>
    unfold Pubsub.step at hs
    dsimp only at hs
    split at hs
    next hphase =>
      cases hs
      refine h.goOn (a := .advance) kept trivial (if_pos hphase) h.sub (fun batch hbatch => ?_) h.taken
      simp only [State.enterBody] at hbatch
      split at hbatch <;> cases hbatch
    · cases hs
  | fail =>
    unfold Pubsub.step at hs
    dsimp only at hs
    split at hs
    · cases hs
    · cases hs
      obtain ⟨kept', h'⟩ := h.leave (Nat.le_refl _) h.inv.recorded_le
      exact ⟨kept', n, h'⟩
  | crash =>
    cases hs
    obtain ⟨kept', h'⟩ := h.leave h.inv.recorded_le (Nat.le_refl _)
    exact ⟨kept', n, h'⟩

theorem Keeps.inOrder (h : Keeps s kept n) : s.InOrder := by
  refine ⟨h.taken, kept, h.sub, h.inv.queues_inOrder, fun hphase => ?_⟩
  have hfits : (s.recording kept).phase.Fits s.memo s.iteration n := h.inv.phase
  have hsame : (s.recording kept).phase = .awaiting := hphase
  rw [hsame] at hfits
  exact h.inv.queues_eq hfits fun queueId => by rw [hsame]; rfl

/-- In every run, however often the broker fails and the process crashes, no queue has an item
twice or out of order; what is lost is lost in whole batches, for all queues. -/
theorem topic_at_most_once {Q V A : Type} [DecidableEq Q] {s : State Q V A}
    (h : Reach step (fun _ _ => True) State.fresh s) : s.InOrder := by
  have hfresh : Keeps (State.fresh : State Q V A) [] 0 :=
    ⟨Inv.fresh, List.Sublist.refl _, fun _ hphase => (by cases hphase), rfl⟩
  obtain ⟨kept, n, hkeeps⟩ := h.invariant (fun s => ∃ kept n, Keeps s kept n) ⟨[], 0, hfresh⟩
    fun _ _ _ ⟨_, _, hi⟩ _ hs => hi.step hs
  exact hkeeps.inOrder

/-- The first item is lost in a crash, the second one arrives. -/
def lostThenPublished : List (Action String String Unit) :=
  lostBatch ++ [.publish ⟨some "another", none, none, []⟩, .takeItems, .store, .enqueue 0 "queue"]

theorem lostThenPublished_inOrder :
    (last step State.fresh lostThenPublished).queues "queue" = [⟨some "another", none, none⟩] ∧
      (last step State.fresh lostThenPublished).InOrder :=
  ⟨by decide, topic_at_most_once (reach_last lostThenPublished .init (by decide))⟩

end Reboot.Pubsub
