import Reboot.Tasks.Dispatcher

/-!
# A task has one outcome

Once an outcome is stored for a task it should stay, and every `Wait` should return it, from
the cache or from the database. `OneOutcome` says so of the whole history of a task.

The completion of a task is stored inside the dispatched method. `Cancelled` is stored in two
more places, both of which only look at the flag that `CancelTask` sets: the handler of
`CancelledError` in the dispatched method, and `cleanup_async`, which runs after the task is
done, however it ended. Nothing clears the flag, and nothing looks at what is already stored.
So a `CancelTask` that arrives once the completion is sent replaces the outcome, and so does a
retry.

`one_outcome`: as long as that does not happen (`StepOk`), a task has one outcome in every run.
The invariant is `Task.Inv`: all that this process has sent is one outcome, nothing else is
stored, and a task that is cancelled has not sent anything but `Cancelled`.
-/

namespace Reboot.Tasks

open Reboot.Lib

variable {ρ : Type}

namespace Task

/-- Everything that was ever stored for the task, and everything that `Wait` ever returned, is
the outcome that is stored now. -/
def OneOutcome (s : Task ρ) : Prop := ∀ o ∈ s.landed ++ s.answers, s.stored = some o

/-- A completion that is about to be sent is not overtaken by a cancellation. -/
def SendOk (d : Dispatched ρ) : Prop :=
  match d.phase with
  | .completing o => d.isCancelled = true → o = .cancelled
  | _ => True

/-- The condition on a step. A `CancelTask` that takes effect finds a task of which no
completion was sent, and whose clean-up has not looked at the flag; a completion that is sent
after it is `Cancelled`; an attempt that has sent a completion does not fail; and neither does
the clean-up. -/
def StepOk (s : Task ρ) : Action ρ → Prop
  | .cancelTask => ∀ d ∈ s.dispatched, d.isCancelled = false →
      s.sent = none ∧ (d.cleanup = .notYet ∨ d.cleanup = .scheduled)
  | .send => ∀ d ∈ s.dispatched, SendOk d
  | .fail => s.sent = none
  | .cleanupFail => False
  | _ => True

instance [DecidableEq ρ] (d : Dispatched ρ) : Decidable (SendOk d) := by
  unfold SendOk
  split <;> infer_instance

instance [DecidableEq ρ] (s : Task ρ) (a : Action ρ) : Decidable (StepOk s a) := by
  unfold StepOk
  split <;> infer_instance

/-! ## The invariant -/

/-- What the phase of the coroutine says about what was sent and stored. -/
def PhaseInv (s : Task ρ) : Phase ρ → Prop
  | .notStarted => s.sent = none
  | .waiting => s.sent = none
  | .running => s.sent = none
  | .completing o => s.sent = none ∨ s.sent = some o
  | .storing o landed => s.sent = some o ∧ (landed = true → s.stored = some o)
  | .completed o => s.sent = some o ∧ s.stored = some o
  | .finished none => True
  | .finished (some o) => s.sent = some o ∧ s.stored = some o

/-- What the phase of the clean-up says. -/
def CleanupInv (s : Task ρ) (d : Dispatched ρ) : Prop :=
  match d.cleanup with
  | .notYet => True
  | .scheduled => isFinished d = true
  | .storing landed => isFinished d = true ∧ d.isCancelled = true ∧ s.sent = some .cancelled ∧
      (landed = true → s.stored = some .cancelled)
  | .checked => isFinished d = true ∧ (d.isCancelled = true → s.stored = some .cancelled)

/-- What an entry of the dispatcher says. -/
structure EntryInv (s : Task ρ) (d : Dispatched ρ) : Prop where
  unsent : s.sent = none → s.stored = none
  flagged : d.isCancelled = true → ∀ o, s.sent = some o → o = .cancelled
  phase : PhaseInv s d.phase
  cleanup : CleanupInv s d

/-- The invariant. -/
structure Inv (s : Task ρ) : Prop where
  history : s.OneOutcome
  cached : ∀ o, s.cache = some (some o) → s.stored = some o
  stored : ∀ o, s.sent = some o → s.stored = none ∨ s.stored = some o
  orphaned : ∀ o ∈ s.orphans, s.sent = some o
  entry : ∀ d, s.dispatched = some d → EntryInv s d

theorem init_inv : (init : Task ρ).Inv where
  history := fun o ho => absurd ho (List.not_mem_nil)
  cached := nofun
  stored := nofun
  orphaned := fun o ho => absurd ho (List.not_mem_nil)
  entry := fun d hd => by
    cases hd
    exact ⟨fun _ => rfl, nofun, rfl, trivial⟩

/-- Changing the entry only. -/
theorem Inv.setDispatched {s : Task ρ} (h : s.Inv) {d : Dispatched ρ} (hd : EntryInv s d) :
    (s.setDispatched d).Inv where
  history := h.history
  cached := h.cached
  stored := h.stored
  orphaned := h.orphaned
  entry := fun d' hd' => by
    cases hd'
    exact ⟨hd.unsent, hd.flagged, hd.phase, hd.cleanup⟩

/-- A store of what was sent: nothing else was stored before. -/
theorem Inv.store {s : Task ρ} (h : s.Inv) {o : Outcome ρ} (ho : s.sent = some o) :
    (s.store o).Inv := by
  have hmono : ∀ {o'}, s.stored = some o' → some o = some o' := by
    intro o' ho'
    rcases h.stored o ho with hs | hs
    · rw [hs] at ho'
      exact nomatch ho'
    · rw [← hs, ho']
  have hsent : ∀ {o'}, s.sent = some o' → some o = some o' := by
    intro o' ho'
    rw [← ho, ho']
  refine ⟨fun o' ho' => ?_, fun o' ho' => hmono (h.cached o' ho'), fun o' ho' => ?_, h.orphaned,
    fun d hd => ?_⟩
  · show some o = some o'
    have hmem : o' ∈ s.landed ++ s.answers ∨ o' = o := by
      have h' : o' ∈ (s.landed ++ [o]) ++ s.answers := ho'
      simp only [List.mem_append, List.mem_singleton] at h' ⊢
      tauto
    rcases hmem with hm | rfl
    · exact hmono (h.history o' hm)
    · rfl
  · exact Or.inr (hsent ho')
  · have he := h.entry d hd
    refine ⟨fun hn => ?_, he.flagged, ?_, ?_⟩
    · rw [show (s.store o).sent = s.sent from rfl, ho] at hn
      exact nomatch hn
    · have hp := he.phase
      cases hph : d.phase with
      | notStarted => rw [hph] at hp; exact hp
      | waiting => rw [hph] at hp; exact hp
      | running => rw [hph] at hp; exact hp
      | completing o' => rw [hph] at hp; exact hp
      | storing o' l => rw [hph] at hp; exact ⟨hp.1, fun _ => hsent hp.1⟩
      | completed o' => rw [hph] at hp; exact ⟨hp.1, hsent hp.1⟩
      | finished r =>
        rw [hph] at hp
        cases r with
        | none => trivial
        | some o' => exact ⟨hp.1, hsent hp.1⟩
    · have hc := he.cleanup
      unfold CleanupInv at hc ⊢
      cases hcl : d.cleanup with
      | notYet => trivial
      | scheduled => rw [hcl] at hc; exact hc
      | storing l => rw [hcl] at hc; exact ⟨hc.1, hc.2.1, hc.2.2.1, fun _ => hsent hc.2.2.1⟩
      | checked => rw [hcl] at hc; exact ⟨hc.1, fun hf => hmono (hc.2 hf)⟩

/-- Sending the first outcome, or the same one again. -/
theorem Inv.send {s : Task ρ} (h : s.Inv) {d : Dispatched ρ} (hd : s.dispatched = some d)
    {o : Outcome ρ} (ho : s.sent = none ∨ s.sent = some o) {d' : Dispatched ρ}
    (hflag : d'.isCancelled = true → o = .cancelled)
    (hphase : PhaseInv { s with sent := some o } d'.phase)
    (hclean : CleanupInv { s with sent := some o } d') :
    ({ s with sent := some o }.setDispatched d').Inv := by
  have hsent : ∀ {o'}, s.sent = some o' → o' = o := by
    intro o' ho'
    rcases ho with hn | hs
    · rw [hn] at ho'
      exact nomatch ho'
    · exact Option.some.inj (ho'.symm.trans hs)
  refine ⟨h.history, h.cached, fun o' ho' => ?_, fun o' ho' => ?_, fun d'' hd'' => ?_⟩
  · have heq : o = o' := Option.some.inj ho'
    rcases ho with hn | hs
    · exact Or.inl ((h.entry d hd).unsent hn)
    · exact h.stored o' (heq ▸ hs)
  · rw [hsent (h.orphaned o' ho')]
    rfl
  · cases hd''
    exact ⟨nofun, fun hf o' ho' => Option.some.inj ho' ▸ hflag hf, hphase, hclean⟩

/-- The caller of a completion that was sent goes away. -/
theorem Inv.orphan {s : Task ρ} (h : s.Inv) {o : Outcome ρ} (ho : s.sent = some o)
    (landed : Bool) : (s.orphan o landed).Inv := by
  unfold Task.orphan
  split
  next => exact h
  next =>
    refine ⟨h.history, h.cached, h.stored, fun o' ho' => ?_, fun d hd => ?_⟩
    · rcases List.mem_cons.mp ho' with rfl | hm
      · exact ho
      · exact h.orphaned o' hm
    · have he := h.entry d hd
      exact ⟨he.unsent, he.flagged, he.phase, he.cleanup⟩

theorem orphan_sent (s : Task ρ) (o : Outcome ρ) (landed : Bool) :
    (s.orphan o landed).sent = s.sent := by
  unfold Task.orphan
  split <;> rfl

theorem orphan_stored (s : Task ρ) (o : Outcome ρ) (landed : Bool) :
    (s.orphan o landed).stored = s.stored := by
  unfold Task.orphan
  split <;> rfl

/-- The future gets what is stored. -/
theorem Inv.resolveFuture {s : Task ρ} (h : s.Inv) {o : Outcome ρ} (ho : s.stored = some o) :
    (s.resolveFuture o).Inv := by
  unfold Task.resolveFuture
  split
  next =>
    refine ⟨h.history, fun o' ho' => ?_, h.stored, h.orphaned, fun d hd => ?_⟩
    · have heq : o = o' := Option.some.inj (Option.some.inj ho')
      exact heq ▸ ho
    · have he := h.entry d hd
      exact ⟨he.unsent, he.flagged, he.phase, he.cleanup⟩
  next => exact h

theorem resolveFuture_sent (s : Task ρ) (o : Outcome ρ) : (s.resolveFuture o).sent = s.sent := by
  unfold Task.resolveFuture
  split <;> rfl

theorem resolveFuture_stored (s : Task ρ) (o : Outcome ρ) :
    (s.resolveFuture o).stored = s.stored := by
  unfold Task.resolveFuture
  split <;> rfl

/-! ## The coroutine -/

/-- Until the coroutine is done there is no clean-up. -/
theorem EntryInv.cleanup_notYet {s : Task ρ} {d : Dispatched ρ} (h : EntryInv s d)
    (hf : isFinished d = false) : d.cleanup = .notYet := by
  have hc := h.cleanup
  unfold CleanupInv at hc
  cases hcl : d.cleanup with
  | notYet => rfl
  | scheduled =>
    rw [hcl] at hc
    exact nomatch hf.symm.trans hc
  | storing l =>
    rw [hcl] at hc
    exact nomatch hf.symm.trans hc.1
  | checked =>
    rw [hcl] at hc
    exact nomatch hf.symm.trans hc.1

/-- The entry with another phase, before any clean-up. What was sent and stored is the same. -/
theorem EntryInv.setPhase {s t : Task ρ} {d d' : Dispatched ρ} (h : EntryInv s d)
    (hf : isFinished d = false) (hsent : t.sent = s.sent) (hstored : t.stored = s.stored)
    (hflag : d'.isCancelled = d.isCancelled) (hclean : d'.cleanup = d.cleanup)
    (hphase : PhaseInv t d'.phase) : EntryInv t d' := by
  refine ⟨fun hn => ?_, fun hc o ho => ?_, hphase, ?_⟩
  · rw [hstored]
    exact h.unsent (hsent ▸ hn)
  · exact h.flagged (hflag ▸ hc) o (hsent ▸ ho)
  · unfold CleanupInv
    rw [hclean, h.cleanup_notYet hf]
    trivial

/-- After `CancelledError` the coroutine is done, or completes the task with `Cancelled`. -/
theorem Inv.deliver {s s' : Task ρ} (h : s.Inv) {d : Dispatched ρ} (hd : s.dispatched = some d)
    (hs : s.deliver d = some s') : s'.Inv := by
  have he := h.entry d hd
  have hp := he.phase
  have hend : ∀ {t : Task ρ}, t.Inv → t.sent = s.sent → t.stored = s.stored → isFinished d = false →
      (t.setDispatched { d with phase := .finished none, mustCancel := false }).Inv := by
    intro t ht hsent hstored hf
    exact ht.setDispatched (he.setPhase hf hsent hstored rfl rfl trivial)
  have heither : ∀ {t : Task ρ}, t.Inv → t.sent = s.sent → t.stored = s.stored →
      isFinished d = false →
      (t.setDispatched (if d.isCancelled then
          { d with phase := .completing .cancelled, mustCancel := false }
        else { d with phase := .finished none, mustCancel := false })).Inv := by
    intro t ht hsent hstored hf
    split
    next hflag =>
      refine ht.setDispatched (he.setPhase hf hsent hstored rfl rfl ?_)
      show t.sent = none ∨ t.sent = some .cancelled
      rw [hsent]
      cases hse : s.sent with
      | none => exact Or.inl rfl
      | some o => exact Or.inr (congrArg some (he.flagged hflag o hse))
    next => exact hend ht hsent hstored hf
  unfold Task.deliver at hs
  dsimp only at hs
  split at hs
  next hph =>
    cases hs
    exact hend h rfl rfl (by simp [isFinished, hph])
  next hph =>
    cases hs
    exact hend h rfl rfl (by simp [isFinished, hph])
  next hph =>
    cases hs
    exact heither h rfl rfl (by simp [isFinished, hph])
  next hph =>
    cases hs
    exact heither h rfl rfl (by simp [isFinished, hph])
  next hph =>
    cases hs
    exact hend h rfl rfl (by simp [isFinished, hph])
  next response landed hph =>
    cases hs
    rw [hph] at hp
    exact heither (h.orphan hp.1 landed) (orphan_sent ..) (orphan_stored ..)
      (by simp [isFinished, hph])
  next o landed _ hph =>
    cases hs
    rw [hph] at hp
    exact hend (h.orphan hp.1 landed) (orphan_sent ..) (orphan_stored ..) (by simp [isFinished, hph])
  next hph =>
    cases hs
    exact hend h rfl rfl (by simp [isFinished, hph])
  next => cases hs

/-- An attempt that fails has not sent anything. -/
theorem Inv.fail {s s' : Task ρ} (h : s.Inv) {d : Dispatched ρ} (hd : s.dispatched = some d)
    (hsent : s.sent = none) (hs : s.fail d = some s') : s'.Inv := by
  have he := h.entry d hd
  have hp := he.phase
  have hback : isFinished d = false → (s.setDispatched { d with phase := .waiting }).Inv :=
    fun hf => h.setDispatched (he.setPhase hf rfl rfl rfl rfl hsent)
  unfold Task.fail at hs
  dsimp only at hs
  split at hs
  next hph =>
    cases hs
    exact hback (by simp [isFinished, hph])
  next hph =>
    cases hs
    exact hback (by simp [isFinished, hph])
  next hph =>
    rw [hph] at hp
    exact nomatch hsent.symm.trans hp.1
  next hph =>
    rw [hph] at hp
    exact nomatch hsent.symm.trans hp.1
  next => cases hs

theorem Inv.progress {s s' : Task ρ} (h : s.Inv) {d : Dispatched ρ} (hd : s.dispatched = some d)
    {a : Action ρ} (hok : StepOk s a) (hs : s.progress d a = some s') : s'.Inv := by
  have he := h.entry d hd
  have hp := he.phase
  unfold Task.progress at hs
  split at hs
  next hph =>
    cases hs
    rw [hph] at hp
    exact h.setDispatched (he.setPhase (by simp [isFinished, hph]) rfl rfl rfl rfl hp)
  next hph =>
    cases hs
    rw [hph] at hp
    exact h.setDispatched (he.setPhase (by simp [isFinished, hph]) rfl rfl rfl rfl hp)
  next => cases hs
  next hph =>
    cases hs
    rw [hph] at hp
    exact h.setDispatched (he.setPhase (by simp [isFinished, hph]) rfl rfl rfl rfl (Or.inl hp))
  next o hph =>
    -- the completion is sent
    cases hs
    have hsend := hok d hd
    unfold SendOk at hsend
    rw [hph] at hp hsend
    refine h.send hd hp hsend ⟨rfl, nofun⟩ ?_
    show CleanupInv _ _
    unfold CleanupInv
    rw [show ({ d with phase := Phase.storing o false } : Dispatched ρ).cleanup = .notYet from
      he.cleanup_notYet (by simp [isFinished, hph])]
    trivial
  next o hph =>
    cases hs
    rw [hph] at hp
    exact h.setDispatched (he.setPhase (by simp [isFinished, hph]) rfl rfl rfl rfl
      ⟨hp.1, hp.2 rfl⟩)
  next o hph =>
    cases hs
    rw [hph] at hp
    refine (h.resolveFuture hp.2).setDispatched (he.setPhase (by simp [isFinished, hph])
      (resolveFuture_sent ..) (resolveFuture_stored ..) rfl rfl ?_)
    show _ = _ ∧ _ = _
    rw [resolveFuture_sent, resolveFuture_stored]
    exact hp
  next => exact h.fail hd hok hs
  next => cases hs

/-! ## Cancellation and clean-up -/

/-- The same entry, cancelled or being cancelled. -/
theorem EntryInv.cancel {s : Task ρ} {d : Dispatched ρ} (h : EntryInv s d) (hsent : s.sent = none)
    (hclean : d.cleanup = .notYet ∨ d.cleanup = .scheduled) (mustCancel : Bool) :
    EntryInv s { d with isCancelled := true, mustCancel := mustCancel } := by
  refine ⟨h.unsent, fun _ o ho => (nomatch hsent.symm.trans ho), h.phase, ?_⟩
  have hc := h.cleanup
  unfold CleanupInv at hc ⊢
  rcases hclean with hcl | hcl
  · rw [hcl] at hc
    simp only [hcl]
  · rw [hcl] at hc
    simp only [hcl]
    exact hc

/-- Only what happens next to the coroutine changes. -/
theorem EntryInv.setMustCancel {s : Task ρ} {d : Dispatched ρ} (h : EntryInv s d)
    (mustCancel : Bool) : EntryInv s { d with mustCancel := mustCancel } :=
  ⟨h.unsent, h.flagged, h.phase, h.cleanup⟩

/-- The done-callbacks go on. -/
theorem EntryInv.setCleanup {s : Task ρ} {d : Dispatched ρ} (h : EntryInv s d) {c : Cleanup}
    (hc : CleanupInv s { d with cleanup := c }) : EntryInv s { d with cleanup := c } :=
  ⟨h.unsent, h.flagged, h.phase, hc⟩

/-- `cleanup_async` looks at the flag. -/
theorem Inv.cleanupCheck {s : Task ρ} (h : s.Inv) {d : Dispatched ρ} (hd : s.dispatched = some d)
    (hc : d.cleanup = .scheduled) : (s.cleanupCheck d).Inv := by
  have he := h.entry d hd
  have hfin : isFinished d = true := by
    have hci := he.cleanup
    unfold CleanupInv at hci
    rwa [hc] at hci
  unfold Task.cleanupCheck
  split
  next hflag =>
    -- a cancelled task has sent nothing, or `Cancelled`
    have hsent : s.sent = none ∨ s.sent = some .cancelled := by
      cases hse : s.sent with
      | none => exact Or.inl rfl
      | some o => exact Or.inr (congrArg some (he.flagged hflag o hse))
    refine h.send hd hsent (fun _ => rfl) ?_ ⟨hfin, hflag, rfl, nofun⟩
    have hp := he.phase
    show PhaseInv _ d.phase
    cases hph : d.phase with
    | finished r =>
      rw [hph] at hp
      cases r with
      | none => trivial
      | some o => exact ⟨congrArg some (he.flagged hflag o hp.1).symm, hp.2⟩
    | _ => simp [isFinished, hph] at hfin
  next hflag => exact h.setDispatched (he.setCleanup ⟨hfin, fun hf => absurd hf hflag⟩)

/-- `cleanup_done`. -/
theorem Inv.cleanupDone {s : Task ρ} (h : s.Inv) {d : Dispatched ρ} (hd : s.dispatched = some d)
    (hc : d.cleanup = .checked) : (s.cleanupDone d).Inv := by
  have hci := (h.entry d hd).cleanup
  unfold CleanupInv at hci
  rw [hc] at hci
  have hdrop : ∀ {t : Task ρ}, t.Inv → ({ t with dispatched := none } : Task ρ).Inv :=
    fun ht => ⟨ht.history, ht.cached, ht.stored, ht.orphaned, fun _ h => nomatch h⟩
  unfold Task.cleanupDone
  dsimp only
  split
  next hflag => exact hdrop (h.resolveFuture (hci.2 hflag))
  next => exact hdrop h

theorem Inv.onDispatched {s s' : Task ρ} (h : s.Inv) {d : Dispatched ρ}
    (hd : s.dispatched = some d) {a : Action ρ} (hok : StepOk s a)
    (hs : s.onDispatched d a = some s') : s'.Inv := by
  have he := h.entry d hd
  unfold Task.onDispatched at hs
  split at hs
  next =>
    -- `land`
    split at hs
    next o hph =>
      cases hs
      have hp := he.phase
      rw [hph] at hp
      have hstore := h.store hp.1
      have hes := hstore.entry d hd
      refine hstore.setDispatched (hes.setPhase (by simp [isFinished, hph]) rfl rfl rfl rfl ?_)
      exact ⟨hp.1, fun _ => rfl⟩
    next => cases hs
  next =>
    -- `cancelTask`
    split at hs
    next =>
      cases hs
      exact h
    next hflag =>
      cases hs
      obtain ⟨hsent, hclean⟩ := hok d hd (Bool.eq_false_iff.mpr hflag)
      exact h.setDispatched (he.cancel hsent hclean _)
  next =>
    -- `stop`
    cases hs
    exact h.setDispatched (he.setMustCancel _)
  next =>
    -- `deliver`
    split at hs
    next => exact h.deliver hd hs
    next => cases hs
  next =>
    -- `swallow`
    split at hs
    next =>
      cases hs
      exact h.setDispatched (he.setMustCancel _)
    next => cases hs
  next =>
    -- `cleanup`
    split at hs
    next hfin =>
      cases hs
      exact h.setDispatched (he.setCleanup hfin.1)
    next => cases hs
  next =>
    -- `cleanupCheck`
    split at hs
    next hc =>
      cases hs
      exact h.cleanupCheck hd hc
    next => cases hs
  next =>
    -- `cleanupLand`
    split at hs
    next hc =>
      cases hs
      have hci := he.cleanup
      unfold CleanupInv at hci
      rw [hc] at hci
      have hstore := h.store hci.2.2.1
      have hes := hstore.entry d hd
      exact hstore.setDispatched (hes.setCleanup ⟨hci.1, hci.2.1, hci.2.2.1, fun _ => rfl⟩)
    next => cases hs
  next =>
    -- `cleanupAnswered`
    split at hs
    next hc =>
      cases hs
      have hci := he.cleanup
      unfold CleanupInv at hci
      rw [hc] at hci
      exact h.setDispatched (he.setCleanup ⟨hci.1, fun _ => hci.2.2.2 rfl⟩)
    next => cases hs
  next => exact hok.elim
  next =>
    -- `cleanupDone`
    split at hs
    next hc =>
      cases hs
      exact h.cleanupDone hd hc
    next => cases hs
  next =>
    split at hs
    next => cases hs
    next => exact h.progress hd hok hs

/-! ## Runs -/

theorem Inv.wait {s s' : Task ρ} (h : s.Inv) (hs : s.wait = some s') : s'.Inv := by
  have hanswer : ∀ {o : Outcome ρ} {c : Option (Option (Outcome ρ))}, s.stored = some o →
      (∀ o', c = some (some o') → s.stored = some o') →
      ({ s with answers := s.answers ++ [o], cache := c } : Task ρ).Inv := by
    intro o c ho hc
    refine ⟨fun o' ho' => ?_, hc, h.stored, h.orphaned, fun d hd => ?_⟩
    · have h' : o' ∈ s.landed ++ (s.answers ++ [o]) := ho'
      simp only [← List.append_assoc, List.mem_append, List.mem_singleton] at h'
      rcases h' with hm | rfl
      · exact h.history o' (List.mem_append.mpr hm)
      · exact ho
    · have he := h.entry d hd
      exact ⟨he.unsent, he.flagged, he.phase, he.cleanup⟩
  unfold Task.wait at hs
  split at hs
  next o hc =>
    cases hs
    exact hanswer (h.cached o hc) h.cached
  next => cases hs
  next hc =>
    split at hs
    next o ho =>
      cases hs
      exact hanswer ho fun o' ho' => Option.some.inj (Option.some.inj ho') ▸ ho
    next => cases hs

theorem Inv.restart {s : Task ρ} (h : s.Inv) : s.restart.Inv := by
  unfold Task.restart
  split
  next o ho =>
    exact ⟨h.history, nofun, nofun, fun o' ho' => absurd ho' (List.not_mem_nil),
      fun _ h => nomatch h⟩
  next hn =>
    refine ⟨h.history, nofun, nofun, fun o' ho' => absurd ho' (List.not_mem_nil), fun d hd => ?_⟩
    cases hd
    exact ⟨fun _ => hn, nofun, rfl, trivial⟩

/-- The step lemma. -/
theorem step_inv {s s' : Task ρ} {a : Action ρ} (h : s.Inv) (hok : StepOk s a)
    (hs : s.step a = some s') : s'.Inv := by
  unfold Task.step at hs
  split at hs
  next i =>
    -- a completion lands whose caller is gone
    split at hs
    next o ho =>
      cases hs
      have hstore := h.store (h.orphaned o (List.mem_of_getElem? ho))
      refine ⟨hstore.history, hstore.cached, hstore.stored, fun o' ho' => ?_, fun d hd => ?_⟩
      · exact h.orphaned o' (List.mem_of_mem_eraseIdx ho')
      · have he := hstore.entry d hd
        exact ⟨he.unsent, he.flagged, he.phase, he.cleanup⟩
    next => cases hs
  next =>
    split at hs
    next =>
      cases hs
      refine ⟨h.history, nofun, h.stored, h.orphaned, fun d hd => ?_⟩
      have he := h.entry d hd
      exact ⟨he.unsent, he.flagged, he.phase, he.cleanup⟩
    next => cases hs
  next => exact h.wait hs
  next =>
    cases hs
    exact h.restart
  next =>
    split at hs
    next =>
      cases hs
      exact h
    next d hd => exact h.onDispatched hd hok hs
  next =>
    split at hs
    next => cases hs
    next d hd => exact h.onDispatched hd hok hs

/-- A failed attempt, a restart, and a `CancelTask` while the method runs: `Wait` returns
`Cancelled`, from the cache and from the database. -/
def cancelledInTime : List (Action Nat) :=
  [.start, .begin, .fail, .begin, .restart, .start, .begin, .cancelTask, .deliver, .send, .land,
    .answered, .resolve, .cleanup, .cleanupCheck, .cleanupLand, .cleanupAnswered, .cleanupDone,
    .wait, .evict, .wait]

/-- A `CancelTask` when the task is done and its callbacks have not run: its response is
replaced, and `Wait` returns the one and then the other. -/
def cancelledLate : List (Action Nat) :=
  [.start, .begin, .returns (.response 7), .send, .land, .answered, .resolve, .cancelTask,
    .cleanup, .cleanupCheck, .cleanupLand, .cleanupAnswered, .cleanupDone, .wait, .evict, .wait]

/-- A `CancelTask` while the completion is being stored. -/
def cancelledWhileStoring : List (Action Nat) :=
  [.start, .begin, .returns (.response 7), .send, .land, .cancelTask, .deliver, .send, .land]

end Task

end Reboot.Tasks
