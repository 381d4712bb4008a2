import Reboot.Txn.CallTree

/-!
# What a step of the call tree can do

`Move` says once, with all guards, what each step leaves behind; `step_move` derives it
from the step function, and every invariant is then a case analysis over `Move`. Two
views of it are coarser. `CallMove` is about the calls alone: one is made, one goes on,
an answer is heard or lost. `SiteMove` is about the participant of one state.
-/

namespace Reboot.Txn.CallTree

open Reboot.Lib Reboot.Txn.Nested

variable {σ κ V M : Type}

namespace Phase

/-- The context is not within the `try` yet. -/
def outside : Phase κ V M → Bool
  | .starting | .claiming | .draining => true
  | _ => false

/-- The call has claimed its state. -/
def claimed : Phase κ V M → Bool
  | .draining | .upgrading _ | .loading | .running | .completed => true
  | _ => false

/-- The call has the lock in the mode it needs for its method. -/
def working : Phase κ V M → Bool
  | .loading | .running | .completed => true
  | _ => false

/-- The call has joined the participant of its state. -/
def engaged : Phase κ V M → Bool
  | .claiming => true
  | p => p.claimed

/-- The call is under way. -/
def live (p : Phase κ V M) : Bool := p.outside || p.entered

/-- The call has ended in a way its transaction can go on from. -/
def sound : Phase κ V M → Bool
  | .coordinating | .returned .ok | .returned .recoverable => true
  | _ => false

/-- The call has raised. -/
def failed : Phase κ V M → Bool
  | .returned .recoverable | .returned .unrecoverable => true
  | _ => false

@[simp] theorem outside_entered {p : Phase κ V M} (h : p.entered = true) :
    p.outside = false := by
  cases p <;> first | rfl | cases h

@[simp] theorem engaged_of_claimed {p : Phase κ V M} (h : p.claimed = true) :
    p.engaged = true := by
  cases p <;> first | rfl | cases h

theorem claimed_of_working {p : Phase κ V M} (h : p.working = true) : p.claimed = true := by
  cases p <;> first | rfl | cases h

theorem live_of_claimed {p : Phase κ V M} (h : p.claimed = true) : p.live = true := by
  cases p <;> first | rfl | cases h

theorem not_live_of_sound {p : Phase κ V M} (h : p.sound = true) : p.live = false := by
  cases p <;> first | rfl | cases h

theorem not_live_of_failed {p : Phase κ V M} (h : p.failed = true) : p.live = false := by
  cases p <;> first | rfl | cases h

theorem not_claiming_of_entered {p : Phase κ V M} (h : p.entered = true) : p ≠ .claiming := by
  rintro rfl
  cases h

theorem not_failed_of_entered {p : Phase κ V M} (h : p.entered = true) : p.failed = false := by
  cases p <;> first | rfl | cases h

/-- Within the `try` the call is not over. -/
theorem not_sound_of_entered {p : Phase κ V M} (h : p.entered = true) : p.sound = false := by
  cases p <;> first | rfl | cases h

end Phase

namespace Call

/-- A transaction that has aborted. -/
def aborted (k : Call σ κ V M) : Bool := k.method.kind.isTransaction && k.phase.failed

variable {k : Call σ κ V M}

theorem isTransaction_of_aborted (h : k.aborted = true) : k.method.kind.isTransaction = true := by
  simp only [aborted, Bool.and_eq_true] at h
  exact h.1

@[simp] theorem enter_entered (mode : Mode) : (k.enter mode).entered = true := by
  unfold enter
  split <;> rfl

end Call

variable [DecidableEq σ] [DecidableEq κ] [DecidableEq V] [DecidableEq M]

namespace System

variable (env : Env σ V) (s : System σ κ V M)

/-- The step and what it leaves behind. -/
inductive Move : Action σ κ V M → System σ κ V M → Prop
  | call {p : Nat} {k : Call σ κ V M} {method : Method σ κ} (hp : s.call p = some k)
      (hphase : k.phase = .running) : Move (.call p method) (s.madeCall p k method)
  | start {c : Nat} {k : Call σ κ V M} (hc : s.call c = some k) (hphase : k.phase = .starting)
      (hx : s.site k.method.ref = none) :
      Move (.start c) (s.putSite k.method.ref (Site.fromContext (modeOf k.method)))
  | acquire {x : σ} {i : Site κ V M} (hx : s.site x = some i) (hacquired : i.acquired = false) :
      Move (.acquire x) (s.putSite x { i with acquired := true })
  | refuse {x : σ} {i : Site κ V M} (hx : s.site x = some i) (hacquired : i.acquired = false) :
      Move (.refuse x) { s with site := Function.update s.site x none }
  | join {c : Nat} {k : Call σ κ V M} {i : Site κ V M} (hc : s.call c = some k)
      (hx : s.site k.method.ref = some i) (hphase : k.phase = .starting)
      (hacquired : i.acquired = true) :
      Move (.join c) (s.putCall c { k with
        phase := .claiming
        participants := k.participants.add k.method.ref (decide (i.mode = .shared ∧
          k.method.idempotencyKey = none ∧ env.usingRestartDetection k.method.ref = true)) })
  | claim {c : Nat} {k : Call σ κ V M} {i : Site κ V M}
      {t : Participant Nat κ (Option Nat × V) (Nat × M)} (hc : s.call c = some k)
      (hx : s.site k.method.ref = some i) (hphase : k.phase = .claiming)
      (ht : claimOwnership i.transaction k.transactionIds = some t) :
      Move (.claim c) ((s.putSite k.method.ref { i with
          transaction := t
          callCount := if k.method.kind.isTransaction then i.callCount
            else i.callCount + 1 }).putCall c
        { k with phase := if k.nested then .draining else k.enter i.mode })
  | drain {c : Nat} {k : Call σ κ V M} {i : Site κ V M} (hc : s.call c = some k)
      (hx : s.site k.method.ref = some i) (hnested : k.nested = true)
      (hphase : k.phase = .draining) :
      Move (.drain c) (s.putCall c { k with phase := k.enter i.mode })
  | upgrade {c : Nat} {k : Call σ κ V M} {i : Site κ V M} (hc : s.call c = some k)
      (hx : s.site k.method.ref = some i) (hphase : k.phase = .upgrading none) :
      Move (.upgrade c) ((s.putSite k.method.ref i.upgraded).putCall c
        { (if k.method.kind = .writer then markCommit k else k) with phase := .loading })
  | upgradeStored {c : Nat} {k : Call σ κ V M} {i : Site κ V M} {e : Effects κ V M}
      (hc : s.call c = some k) (hx : s.site k.method.ref = some i)
      (hphase : k.phase = .upgrading (some e))
      (hstore : mayStore env c (markCommit k) i.upgraded e = true) :
      Move (.upgrade c)
        ((s.putSite k.method.ref i.upgraded).stored env c (markCommit k) i.upgraded e)
  | load {c : Nat} {k k' : Call σ κ V M} {i : Site κ V M} (hc : s.call c = some k)
      (hx : s.site k.method.ref = some i) (hphase : k.phase = .loading)
      (state : Option (Option Nat × V))
      (hstate : state = i.transaction.contents.state ∨ ∃ v, state = some (none, v) ∨
        state = some (some c, v))
      (hk' : k' = { k with
        phase := .running, initialState := k'.initialState, constructor := k'.constructor }) :
      Move (.load c) ((s.putSite k.method.ref
        (i.withContents { i.transaction.contents with state := state })).putCall c k')
  | mutate {c : Nat} {k : Call σ κ V M} {i : Site κ V M} {v : V} (hc : s.call c = some k)
      (hx : s.site k.method.ref = some i) (hphase : k.phase = .running) :
      Move (.mutate c v) (s.putSite k.method.ref
        (i.withContents { i.transaction.contents with state := some (some c, v) }))
  | completeWaits {c : Nat} {k : Call σ κ V M} {e : Effects κ V M} (hc : s.call c = some k)
      (hphase : k.phase = .running) (hkind : k.method.kind ≠ .writer) :
      Move (.complete c e) (s.putCall c { k with phase := .upgrading (some e) })
  | completeStored {c : Nat} {k k' : Call σ κ V M} {i : Site κ V M} {e : Effects κ V M}
      (hc : s.call c = some k) (hx : s.site k.method.ref = some i)
      (hphase : k.phase = .running)
      (hk' : (k' = k ∧ (k.method.kind = .writer ∨ ¬ k.changes e)) ∨
        (k' = markCommit k ∧ k.method.kind.isTransaction = true ∧ k.changes e ∧
          i.mode = .exclusive))
      (hstore : mayStore env c k' i e = true) :
      Move (.complete c e) (s.stored env c k' i e)
  | finishOutside {c : Nat} {k : Call σ κ V M} {o : Outcome} (hc : s.call c = some k)
      (hphase : k.phase.outside = true) (ho : o ≠ .ok) :
      Move (.finish c o) (s.putCall c { k with phase := .returned o })
  | finishLeaf {c : Nat} {k : Call σ κ V M} {i : Site κ V M} {o : Outcome}
      (hc : s.call c = some k) (hx : s.site k.method.ref = some i)
      (hphase : k.phase.entered = true) (hkind : k.method.kind.isTransaction = false) :
      Move (.finish c o) ((s.putSite k.method.ref { flagged i (exitOutcome k o).2 with
          callCount := i.callCount - 1 }).putCall c
        { k with phase := .returned (exitOutcome k o).1 })
  | finishRoot {c : Nat} {k : Call σ κ V M} {i : Site κ V M} {o : Outcome}
      (hc : s.call c = some k) (hx : s.site k.method.ref = some i)
      (hphase : k.phase.entered = true) (hkind : k.method.kind.isTransaction = true)
      (hcaller : k.caller = none) :
      Move (.finish c o) ((s.putSite k.method.ref (flagged i (exitOutcome k o).2)).putCall c
        { k with phase := rootPhase (flagged i (exitOutcome k o).2) (exitOutcome k o).1 })
  | finishFlagged {c : Nat} {k : Call σ κ V M} {i : Site κ V M} {o : Outcome}
      (hc : s.call c = some k) (hx : s.site k.method.ref = some i)
      (hphase : k.phase.entered = true) (hnested : k.nested = true)
      (hflag : (flagged i (exitOutcome k o).2).unrecoverableAbort = true) :
      Move (.finish c o) ((s.putSite k.method.ref (flagged i (exitOutcome k o).2)).putCall c
        { k with phase := .returned (exitOutcome k o).1 })
  | finishDoomed {c : Nat} {k : Call σ κ V M} {i : Site κ V M} {o : Outcome}
      (hc : s.call c = some k) (hx : s.site k.method.ref = some i)
      (hphase : k.phase.entered = true) (hnested : k.nested = true) :
      Move (.finish c o)
        ((s.putSite k.method.ref (flagged (flagged i (exitOutcome k o).2) true)).putCall c
          { k with phase := .returned .unrecoverable })
  | finishNested {c : Nat} {k : Call σ κ V M} {i : Site κ V M} {o : Outcome}
      {t : Participant Nat κ (Option Nat × V) (Nat × M)} (hc : s.call c = some k)
      (hx : s.site k.method.ref = some i) (hphase : k.phase.entered = true)
      (hnested : k.nested = true)
      (hflag : (flagged i (exitOutcome k o).2).unrecoverableAbort = false)
      (ht : relinquishOwnership i.transaction c (decide ((exitOutcome k o).1 ≠ .ok)) = some t) :
      Move (.finish c o) (s.leftNested c k
        { flagged i (exitOutcome k o).2 with transaction := t } (exitOutcome k o).1
        (decide ((exitOutcome k o).1 ≠ .ok)))
  | reply {c p : Nat} {k kp : Call σ κ V M} {o : Outcome} (hc : s.call c = some k)
      (hcaller : k.caller = some p) (hp : s.call p = some kp) (hrpc : c ∈ kp.outstandingRpcs)
      (hentered : kp.phase.entered = true) (hphase : k.phase = .returned o) :
      Move (.reply c) (s.putCall p { kp with
        participants := kp.participants.union k.participants
        unrecoverableAbort := kp.unrecoverableAbort || decide (o = .unrecoverable)
        outstandingRpcs := kp.outstandingRpcs.filter fun d => decide (d ≠ c) })
  | lose {c p : Nat} {k kp : Call σ κ V M} (hc : s.call c = some k)
      (hcaller : k.caller = some p) (hp : s.call p = some kp)
      (hentered : kp.phase.entered = true) :
      Move (.lose c) (s.putCall p { kp with
        unrecoverableAbort := true
        outstandingRpcs := kp.outstandingRpcs.filter fun d => decide (d ≠ c) })
  | relinquish {m : Relinquish σ} {i : Site κ V M}
      {t : Participant Nat κ (Option Nat × V) (Nat × M)} (hm : m ∈ s.messages)
      (hx : s.site m.ref = some i)
      (ht : relinquishOwnership i.transaction m.transactionId m.aborted = some t) :
      Move (.relinquish m) (s.putSite m.ref { i with transaction := t })
  | release {x : σ} {k : Call σ κ V M} {i : Site κ V M} (hk : s.coordinator = some k)
      (hx : s.site x = some i) (howner : isClaimableBy i.ownerIds [0] = true)
      (hmode : i.mode = .shared) :
      Move (.prepare x) { s with released := Function.update s.released x true }
  | prepare {x : σ} {k : Call σ κ V M} {i : Site κ V M} {d : Stored κ V M}
      (hk : s.coordinator = some k) (hx : s.site x = some i)
      (howner : isClaimableBy i.ownerIds [0] = true)
      (hd : d = Site.toPrepare (env.usingRestartDetection x) i) :
      Move (.prepare x) { s with prepared := Function.update s.prepared x (some d) }
  | commit {k : Call σ κ V M} (hk : s.coordinator = some k)
      (hready : ∀ x ∈ k.participants.shouldCommit,
        (s.prepared x).isSome = true ∨ s.released x = true) :
      Move .commit { s with committed := true }

variable {env s}

omit [DecidableEq κ] [DecidableEq V] [DecidableEq M] in
theorem putSite_self {x : σ} {i : Site κ V M} (hx : s.site x = some i) : s.putSite x i = s := by
  have hsame : Function.update s.site x (some i) = s.site :=
    Function.update_eq_self_iff.mpr hx.symm
  rw [putSite, hsame]

omit [DecidableEq M] in
/-- What a store by `c` leaves behind, if it is allowed. -/
theorem store_eq {c : Nat} {k : Call σ κ V M} {i : Site κ V M} {e : Effects κ V M}
    {s' : System σ κ V M} (h : s.store env c k i e = some s') :
    mayStore env c k i e = true ∧ s' = s.stored env c k i e := by
  unfold store at h
  split at h
  next hmay => exact ⟨hmay, (Option.some.inj h).symm⟩
  next => cases h

omit [DecidableEq σ] [DecidableEq κ] [DecidableEq V] [DecidableEq M] in
theorem lookup_eq {c : Nat} {k : Call σ κ V M} {i : Site κ V M}
    (h : s.lookup c = some (k, i)) : s.call c = some k ∧ s.site k.method.ref = some i := by
  unfold lookup at h
  split at h
  next => cases h
  next k' hc =>
    split at h
    next => cases h
    next i' hx =>
      cases h
      exact ⟨hc, hx⟩

omit [DecidableEq σ] [DecidableEq κ] [DecidableEq V] [DecidableEq M] in
theorem waitingCaller_eq {c p : Nat} {k kp : Call σ κ V M}
    (h : s.waitingCaller c = some (p, kp, k)) :
    s.call c = some k ∧ k.caller = some p ∧ s.call p = some kp ∧ c ∈ kp.outstandingRpcs ∧
      kp.phase.entered = true := by
  unfold waitingCaller at h
  split at h
  next => cases h
  next k' hc =>
    split at h
    next => cases h
    next p' hcaller =>
      split at h
      next => cases h
      next kp' hp =>
        split at h
        next hin =>
          cases h
          exact ⟨hc, hcaller, hp, hin.1, hin.2⟩
        next => cases h

theorem complete_move {c : Nat} {e : Effects κ V M} {s' : System σ κ V M}
    (h : s.complete env c e = some s') : Move env s (.complete c e) s' := by
  unfold complete at h
  split at h
  next => cases h
  next k i hl =>
    obtain ⟨hc, hx⟩ := lookup_eq hl
    split at h
    next hphase =>
      split at h
      next => cases h
      next hkind =>
        obtain ⟨hmay, rfl⟩ := store_eq h
        exact .completeStored hc hx hphase (.inl ⟨rfl, .inl hkind⟩) hmay
      next hkind =>
        split at h
        next heff =>
          split at h
          next hchange =>
            split at h
            next =>
              cases h
              exact .completeWaits hc hphase (by rw [hkind]; nofun)
            next hmode =>
              obtain ⟨hmay, rfl⟩ := store_eq h
              have hexclusive : i.mode = .exclusive := by
                cases hm : i.mode with
                | shared => exact absurd hm hmode
                | exclusive => rfl
              exact .completeStored hc hx hphase
                (.inr ⟨rfl, by rw [hkind]; rfl, Call.changes_iff.mpr hchange, hexclusive⟩) hmay
          next hchange =>
            obtain ⟨hmay, rfl⟩ := store_eq h
            have hno : ¬ k.changes e := fun hk => hchange (Call.changes_iff.mp hk)
            exact .completeStored hc hx hphase (.inl ⟨rfl, .inr hno⟩) hmay
        next => cases h
    next => cases h

theorem upgrade_move {c : Nat} {s' : System σ κ V M} (h : s.upgrade env c = some s') :
    Move env s (.upgrade c) s' := by
  unfold upgrade at h
  split at h
  next => cases h
  next k i hl =>
    obtain ⟨hc, hx⟩ := lookup_eq hl
    split at h
    next e hphase =>
      obtain ⟨hmay, rfl⟩ := store_eq h
      exact .upgradeStored hc hx hphase hmay
    next hphase =>
      cases h
      exact .upgrade hc hx hphase
    next => cases h

theorem load_move {c : Nat} {s' : System σ κ V M} (h : s.load env c = some s') :
    Move env s (.load c) s' := by
  unfold load at h
  split at h
  next => cases h
  next k i hl =>
    obtain ⟨hc, hx⟩ := lookup_eq hl
    split at h
    next hphase =>
      split at h
      next tag v hstate =>
        cases h
        have hsame : i.withContents { i.transaction.contents with
            state := i.transaction.contents.state } = i := rfl
        have hmove : Move env s (.load c) ((s.putSite k.method.ref (i.withContents
            { i.transaction.contents with state := i.transaction.contents.state })).putCall c
            { k with phase := .running, initialState := some v }) :=
          .load hc hx hphase i.transaction.contents.state (.inl rfl) rfl
        rw [hsame, putSite_self hx] at hmove
        exact hmove
      next =>
        split at h
        next v _ =>
          cases h
          exact .load hc hx hphase (some (none, v)) (.inr ⟨v, .inl rfl⟩) rfl
        next =>
          split at h
          next => cases h
          next =>
            cases h
            exact .load hc hx hphase (some (some c, env.fresh)) (.inr ⟨_, .inr rfl⟩) rfl
    next => cases h

theorem finish_move {c : Nat} {o : Outcome} {s' : System σ κ V M}
    (h : s.finish env c o = some s') : Move env s (.finish c o) s' := by
  unfold finish at h
  split at h
  next => cases h
  next k hc =>
    split at h
    next hphase =>
      split at h
      next => cases h
      next =>
        split at h
        next => cases h
        next i hx =>
          simp only at h
          split at h
          next hnested =>
            unfold leaveNested at h
            simp only at h
            split at h
            next hflag =>
              cases h
              exact .finishFlagged hc hx hphase hnested hflag
            next hflag =>
              split at h
              next =>
                cases h
                exact .finishDoomed hc hx hphase hnested
              next =>
                split at h
                next => cases h
                next t ht =>
                  cases h
                  exact .finishNested hc hx hphase hnested (by simpa using hflag) ht
          next hnested =>
            split at h
            next hkind =>
              cases h
              refine .finishRoot hc hx hphase hkind ?_
              simpa [Call.nested, hkind] using hnested
            next hkind =>
              cases h
              exact .finishLeaf hc hx hphase (by simpa using hkind)
    next =>
      split at h <;> rename_i hphase
      all_goals first
        | cases h
        | (split at h
           next => cases h
           next ho =>
             cases h
             exact .finishOutside hc (by rw [hphase]; rfl) ho)

theorem call_move {p : Nat} {method : Method σ κ} {s' : System σ κ V M}
    (h : step env s (.call p method) = some s') : Move env s (.call p method) s' := by
  simp only [step, makeCall] at h
  split at h
  next => cases h
  next k hp =>
    split at h
    next hphase =>
      cases h
      exact .call hp hphase
    next => cases h

theorem start_move {c : Nat} {s' : System σ κ V M} (h : step env s (.start c) = some s') :
    Move env s (.start c) s' := by
  simp only [step, start] at h
  split at h
  next => cases h
  next k hc =>
    split at h
    next hg =>
      cases h
      exact .start hc hg.1 hg.2
    next => cases h

theorem acquire_move {x : σ} {s' : System σ κ V M} (h : step env s (.acquire x) = some s') :
    Move env s (.acquire x) s' := by
  simp only [step, acquire] at h
  split at h
  next => cases h
  next i hx =>
    split at h
    next => cases h
    next hacquired =>
      cases h
      exact .acquire hx (by simpa using hacquired)

theorem refuse_move {x : σ} {s' : System σ κ V M} (h : step env s (.refuse x) = some s') :
    Move env s (.refuse x) s' := by
  simp only [step, refuse] at h
  split at h
  next => cases h
  next i hx =>
    split at h
    next => cases h
    next hacquired =>
      cases h
      exact .refuse hx (by simpa using hacquired)

theorem join_move {c : Nat} {s' : System σ κ V M} (h : step env s (.join c) = some s') :
    Move env s (.join c) s' := by
  simp only [step, join] at h
  split at h
  next => cases h
  next k i hl =>
    obtain ⟨hc, hx⟩ := lookup_eq hl
    split at h
    next hg =>
      cases h
      exact .join hc hx hg.1 hg.2.1
    next => cases h

theorem claim_move {c : Nat} {s' : System σ κ V M} (h : step env s (.claim c) = some s') :
    Move env s (.claim c) s' := by
  simp only [step, claim] at h
  split at h
  next => cases h
  next k i hl =>
    obtain ⟨hc, hx⟩ := lookup_eq hl
    split at h
    next hphase =>
      split at h
      next => cases h
      next t ht =>
        cases h
        exact .claim hc hx hphase ht
    next => cases h

theorem drain_move {c : Nat} {s' : System σ κ V M} (h : step env s (.drain c) = some s') :
    Move env s (.drain c) s' := by
  simp only [step, drain] at h
  split at h
  next => cases h
  next k i hl =>
    obtain ⟨hc, hx⟩ := lookup_eq hl
    split at h
    next hg =>
      cases h
      exact .drain hc hx hg.1 hg.2.1
    next => cases h

theorem mutate_move {c : Nat} {v : V} {s' : System σ κ V M}
    (h : step env s (.mutate c v) = some s') : Move env s (.mutate c v) s' := by
  simp only [step, mutate] at h
  split at h
  next => cases h
  next k i hl =>
    obtain ⟨hc, hx⟩ := lookup_eq hl
    split at h
    next hg =>
      cases h
      exact .mutate hc hx hg.1
    next => cases h

theorem reply_move {c : Nat} {s' : System σ κ V M} (h : step env s (.reply c) = some s') :
    Move env s (.reply c) s' := by
  simp only [step, reply] at h
  split at h
  next => cases h
  next p kp k hw =>
    obtain ⟨hc, hcaller, hp, hrpc, hentered⟩ := waitingCaller_eq hw
    split at h
    next o hphase =>
      cases h
      exact .reply hc hcaller hp hrpc hentered hphase
    next => cases h

theorem lose_move {c : Nat} {s' : System σ κ V M} (h : step env s (.lose c) = some s') :
    Move env s (.lose c) s' := by
  simp only [step, lose] at h
  split at h
  next => cases h
  next p kp k hw =>
    obtain ⟨hc, hcaller, hp, -, hentered⟩ := waitingCaller_eq hw
    cases h
    exact .lose hc hcaller hp hentered

theorem relinquish_move {m : Relinquish σ} {s' : System σ κ V M}
    (h : step env s (.relinquish m) = some s') : Move env s (.relinquish m) s' := by
  simp only [step, relinquish] at h
  split at h
  next hm =>
    split at h
    next => cases h
    next i hx =>
      split at h
      next => cases h
      next t ht =>
        cases h
        exact .relinquish hm hx ht
  next => cases h

theorem prepare_move {x : σ} {s' : System σ κ V M} (h : step env s (.prepare x) = some s') :
    Move env s (.prepare x) s' := by
  simp only [step, prepare] at h
  split at h
  next => cases h
  next k hk =>
    split at h
    next => cases h
    next i hx =>
      split at h
      next hg =>
        obtain ⟨-, -, -, -, howner⟩ := hg
        split at h
        next hro =>
          cases h
          exact .release hk hx howner hro.1
        next =>
          cases h
          exact .prepare hk hx howner rfl
      next => cases h

theorem commit_move {s' : System σ κ V M} (h : step env s .commit = some s') :
    Move env s .commit s' := by
  simp only [step, commit] at h
  split at h
  next => cases h
  next k hk =>
    split at h
    next hready =>
      cases h
      refine .commit hk ?_
      rcases hready with hnone | hready
      · intro x hx
        rw [hnone] at hx
        cases hx
      · intro x hx
        exact hready x (List.mem_append_left _ hx)
    next => cases h

/-- **Inversion of a step.** -/
theorem step_move {a : Action σ κ V M} {s' : System σ κ V M} (h : step env s a = some s') :
    Move env s a s' := by
  cases a with
  | call p method => exact call_move h
  | start c => exact start_move h
  | acquire x => exact acquire_move h
  | refuse x => exact refuse_move h
  | join c => exact join_move h
  | claim c => exact claim_move h
  | drain c => exact drain_move h
  | upgrade c => exact upgrade_move h
  | load c => exact load_move h
  | mutate c v => exact mutate_move h
  | complete c e => exact complete_move h
  | finish c o => exact finish_move h
  | reply c => exact reply_move h
  | lose c => exact lose_move h
  | relinquish m => exact relinquish_move h
  | prepare x => exact prepare_move h
  | commit => exact commit_move h

end System

end Reboot.Txn.CallTree
