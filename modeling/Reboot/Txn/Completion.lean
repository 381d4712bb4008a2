import Reboot.Lib.Progress
import Reboot.Txn.TwoPhase

/-!
# Votes, vetoes and completion

What two-phase commit guarantees whatever crashes: the runs here are all runs of the protocol
of `Reboot.Txn.TwoPhase`, not only the careful ones.

* `commit_unanimous`: nobody acts on a commit unless every participant answered one and the
  same `Prepare` with a yes. A participant that did so is not left to call or to fail: it is
  prepared or has finished.
* `veto_is_final`: once a call at a participant has failed for good, the transaction is never
  committed anywhere, however often the coordinator recovers and prepares again.
* `recovery_finishes`: a coordinator that is down can always be recovered to an end. From every
  state some run that starts with the recovery, without another crash and without another failing
  call, finishes every participant, and all that were not finished yet end alike, with a commit if
  the record says `preparing=False` and with an abort if there is none.
-/

namespace Reboot.Txn.TwoPhase

open Reboot.Lib

namespace Protocol

/-- The record, a write of it, the coordinator or what it sent says that the transaction
commits. -/
def CommitTold (s : Protocol) : Prop :=
  s.record = .prepared ∨ .prepared ∈ s.writes ∨ s.phase = .recording ∨ s.phase = .committing ∨
    s.commits = true ∨ ∃ r ∈ s.watchResponses, r.aborted = false

/-- Somebody acts on a commit, a participant that has committed included. -/
def CommitSeen (s : Protocol) : Prop := s.CommitTold ∨ ∃ p, s.status p = .committed

/-- Everybody said yes to the same incarnation of the coordinator. -/
def Unanimous (parts : List Nat) (s : Protocol) : Prop :=
  ∃ k, ∀ p ∈ parts, ⟨p, k, true⟩ ∈ s.responses

/-- A participant that cannot prepare and never said that it has. -/
def Vetoed (s : Protocol) (q : Nat) : Prop :=
  (s.status q).stuck = true ∧ ∀ k, ⟨q, k, true⟩ ∉ s.responses

/-- Who had not finished in `s₀` ends with `outcome`, and who had finished stays as it was. -/
def Ends (outcome : Status) (s₀ s : Protocol) (p : Nat) : Prop :=
  s.status p = if (s₀.status p).finished then s₀.status p else outcome

/-- Neither the coordinator nor a call fails. -/
def Undisturbed (_ : Protocol) : Action → Prop
  | .crash => False
  | .doom _ => False
  | _ => True

end Protocol

open Protocol

variable {parts : List Nat} {s s' : Protocol}

/-! ## What a step can do -/

theorem setStatus_cases (s : Protocol) (p q : Nat) (st : Status) :
    (s.setStatus p st).status q = s.status q ∨
      q = p ∧ (s.setStatus p st).status q = st := by
  by_cases hqp : q = p
  · subst hqp
    exact .inr ⟨rfl, setStatus_self _ _ _⟩
  · exact .inl (setStatus_ne s st hqp)

/-- A participant's status after it was told to abort. -/
theorem participantAbort_cases (s : Protocol) (p q : Nat) :
    (s.participantAbort p).status q = s.status q ∨
      (s.status q).finished = false ∧ (s.participantAbort p).status q = .aborted := by
  unfold Protocol.participantAbort
  split
  · exact .inl rfl
  next hfin =>
    by_cases hqp : q = p
    · subst hqp
      exact .inr ⟨Bool.eq_false_iff.mpr hfin, setStatus_self _ _ _⟩
    · exact .inl (setStatus_ne s _ hqp)

/-- How a participant's status changes. -/
theorem status_step {a : Action} (q : Nat) (hs : s.step parts a = some s') :
    s'.status q = s.status q ∨
      s.status q = .active ∧ (s'.status q = .doomed ∨ s'.status q = .prepared) ∨
      s.status q = .prepared ∧ s'.status q = .committed ∨
      (s.status q).finished = false ∧ s'.status q = .aborted := by
  cases a with
  | doom p =>
    simp only [step, Option.ite_none_right_eq_some, Option.some.injEq] at hs
    rw [← hs.2]
    refine (setStatus_cases s p q _).imp_right fun h => .inl ⟨?_, .inl h.2⟩
    rw [h.1, hs.1]
  | deliverCommit p =>
    simp only [step, Option.ite_none_right_eq_some, Option.some.injEq] at hs
    rw [← hs.2]
    refine (setStatus_cases s p q _).imp_right fun h => .inr (.inl ⟨?_, h.2⟩)
    rw [h.1, hs.1.2]
  | deliverAbort p =>
    simp only [step, Option.ite_none_right_eq_some, Option.some.injEq] at hs
    rw [← hs.2]
    exact (participantAbort_cases s p q).imp_right fun h => .inr (.inr h)
  | deliverPrepare p k =>
    simp only [step, Protocol.deliverPrepare, Option.ite_none_right_eq_some,
      Option.some.injEq] at hs
    rw [← hs.2]
    split
    next hact =>
      refine (setStatus_cases { s with responses := ⟨p, k, prepareOk (s.status p)⟩ :: s.responses }
        p q _).imp_right fun h => .inl ⟨?_, .inr h.2⟩
      rw [h.1, hact]
    · exact .inl rfl
  | deliverWatch r =>
    simp only [step, Protocol.deliverWatch, Option.ite_none_right_eq_some,
      Option.some.injEq] at hs
    rw [← hs.2]
    split
    next hp =>
      refine (setStatus_cases s _ q _).imp_right fun h => .inr (.inl ⟨?_, h.2⟩)
      rw [h.1, hp.2]
    · exact (participantAbort_cases s _ q).imp_right fun h => .inr (.inr h)
  | watch p =>
    simp only [step, Protocol.watch] at hs
    split at hs
    · cases hs
    · split at hs <;> cases hs <;> exact .inl rfl
  | recover =>
    simp only [step, Protocol.recover] at hs
    split at hs
    · cases hs
    · split at hs <;> cases hs <;> exact .inl rfl
  | complete | land | lose | decide | abort | sendPrepared | sendCommits | finishCommit |
    sendAborts | crash =>
    simp only [step, Protocol.decided, Protocol.abort, Option.ite_none_right_eq_some,
      Option.some.injEq] at hs
    rw [← hs.2]
    exact .inl rfl

@[simp] theorem participantAbort_responses (s : Protocol) (p : Nat) :
    (s.participantAbort p).responses = s.responses := by
  unfold Protocol.participantAbort
  split <;> rfl

/-- Only `Prepare` is answered with a vote, and a yes leaves the participant prepared. -/
theorem responses_step {a : Action} (hs : s.step parts a = some s') :
    s'.responses = s.responses ∨ ∃ p k,
      s'.responses = ⟨p, k, prepareOk (s.status p)⟩ :: s.responses ∧
        (prepareOk (s.status p) = true → s'.status p = .prepared) := by
  cases a with
  | deliverPrepare p k =>
    simp only [step, Protocol.deliverPrepare, Option.ite_none_right_eq_some,
      Option.some.injEq] at hs
    refine .inr ⟨p, k, ?_⟩
    rw [← hs.2]
    split
    · exact ⟨rfl, fun _ => setStatus_self _ _ _⟩
    next hact =>
      refine ⟨rfl, fun hok => ?_⟩
      show s.status p = .prepared
      cases hst : s.status p with
      | active => exact absurd hst hact
      | prepared => rfl
      | doomed | committed | aborted => simp [hst, prepareOk] at hok
  | deliverWatch r =>
    simp only [step, Protocol.deliverWatch, Option.ite_none_right_eq_some,
      Option.some.injEq] at hs
    rw [← hs.2]
    split
    · exact .inl rfl
    · exact .inl (participantAbort_responses _ _)
  | watch p =>
    simp only [step, Protocol.watch] at hs
    split at hs
    · cases hs
    · split at hs <;> cases hs <;> exact .inl rfl
  | recover =>
    simp only [step, Protocol.recover] at hs
    split at hs
    · cases hs
    · split at hs <;> cases hs <;> exact .inl rfl
  | deliverAbort p =>
    simp only [step, Option.ite_none_right_eq_some, Option.some.injEq] at hs
    rw [← hs.2]
    exact .inl (participantAbort_responses _ _)
  | doom | deliverCommit | complete | land | lose | decide | abort | sendPrepared | sendCommits |
    finishCommit | sendAborts | crash =>
    simp only [step, Protocol.decided, Protocol.abort, Option.ite_none_right_eq_some,
      Option.some.injEq] at hs
    rw [← hs.2]
    exact .inl rfl

/-- Whoever is neither called any more nor doomed stays so. -/
theorem promised_step {a : Action} {q : Nat} (hs : s.step parts a = some s')
    (h : s.status q ≠ .active ∧ s.status q ≠ .doomed) :
    s'.status q ≠ .active ∧ s'.status q ≠ .doomed := by
  rcases status_step q hs with hq | ⟨hq, _⟩ | ⟨_, hq⟩ | ⟨_, hq⟩
  · rwa [hq]
  · exact absurd hq h.1
  · simp [hq]
  · simp [hq]

theorem commitTold_participantAbort {p : Nat} :
    (s.participantAbort p).CommitTold ↔ s.CommitTold := by
  unfold Protocol.participantAbort
  split <;> exact Iff.rfl

/-- Only the coordinator that collected the votes makes a commit of them. -/
theorem commitTold_before {a : Action} (hs : s.step parts a = some s') (h : s'.CommitTold) :
    s.CommitTold ∨ s.allPrepared parts = true ∧ s'.responses = s.responses := by
  cases a with
  | decide =>
    simp only [step, Protocol.decided, Option.ite_none_right_eq_some, Option.some.injEq] at hs
    exact .inr ⟨hs.1.2.1, by rw [← hs.2]⟩
  | doom | deliverCommit =>
    simp only [step, Option.ite_none_right_eq_some, Option.some.injEq] at hs
    obtain ⟨_, rfl⟩ := hs
    exact .inl h
  | deliverAbort p =>
    simp only [step, Option.ite_none_right_eq_some, Option.some.injEq] at hs
    obtain ⟨_, rfl⟩ := hs
    exact .inl (commitTold_participantAbort.mp h)
  | deliverPrepare p k =>
    simp only [step, Protocol.deliverPrepare, Option.ite_none_right_eq_some,
      Option.some.injEq] at hs
    obtain ⟨_, rfl⟩ := hs
    split at h <;> exact .inl h
  | deliverWatch r =>
    simp only [step, Protocol.deliverWatch, Option.ite_none_right_eq_some,
      Option.some.injEq] at hs
    obtain ⟨_, rfl⟩ := hs
    split at h
    · exact .inl h
    · exact .inl (commitTold_participantAbort.mp h)
  | watch p =>
    simp only [step, Protocol.watch] at hs
    split at hs
    · cases hs
    · split at hs <;> cases hs <;> simp_all [CommitTold]
  | recover =>
    simp only [step, Protocol.recover] at hs
    split at hs
    · cases hs
    · split at hs <;> cases hs <;> simp_all [CommitTold]
  | land w answered =>
    simp only [step, Option.ite_none_right_eq_some, Option.some.injEq] at hs
    obtain ⟨hw, rfl⟩ := hs
    refine .inl ?_
    rcases h with h | h | h
    · have hprep : w = .prepared := by
        cases w <;> first | rfl | cases h
      exact .inr (.inl (hprep ▸ hw))
    · exact .inr (.inl (List.mem_of_mem_erase h))
    · exact .inr (.inr h)
  | lose w =>
    simp only [step, Option.ite_none_right_eq_some, Option.some.injEq] at hs
    obtain ⟨_, rfl⟩ := hs
    exact .inl (h.imp_right fun h => h.imp_left List.mem_of_mem_erase)
  | complete | abort | sendPrepared | sendCommits | finishCommit | sendAborts | crash =>
    simp only [step, Protocol.abort, Option.ite_none_right_eq_some, Option.some.injEq] at hs
    obtain ⟨_, rfl⟩ := hs
    unfold CommitTold at h ⊢
    grind

/-- A participant commits when it is told to. -/
theorem committed_before {a : Action} {q : Nat} (hs : s.step parts a = some s')
    (h : s'.status q = .committed) : s.status q = .committed ∨ s.CommitTold := by
  by_cases hold : s.status q = .committed
  · exact .inl hold
  have habort : ∀ p, (s.participantAbort p).status q ≠ .committed := by
    intro p hc
    rcases participantAbort_cases s p q with hq | ⟨_, hq⟩
    · exact hold (hq ▸ hc)
    · rw [hq] at hc
      cases hc
  refine .inr ?_
  cases a with
  | deliverCommit p =>
    simp only [step, Option.ite_none_right_eq_some, Option.some.injEq] at hs
    exact .inr (.inr (.inr (.inr (.inl hs.1.1))))
  | deliverWatch r =>
    simp only [step, Protocol.deliverWatch, Option.ite_none_right_eq_some,
      Option.some.injEq] at hs
    obtain ⟨hr, rfl⟩ := hs
    split at h
    next hc => exact .inr (.inr (.inr (.inr (.inr ⟨r, hr, hc.1⟩))))
    · exact absurd h (habort _)
  | doom p =>
    simp only [step, Option.ite_none_right_eq_some, Option.some.injEq] at hs
    obtain ⟨_, rfl⟩ := hs
    rcases setStatus_cases s p q .doomed with hq | ⟨_, hq⟩
    · exact absurd (hq ▸ h) hold
    · rw [hq] at h
      cases h
  | deliverAbort p =>
    simp only [step, Option.ite_none_right_eq_some, Option.some.injEq] at hs
    obtain ⟨_, rfl⟩ := hs
    exact absurd h (habort p)
  | deliverPrepare p k =>
    simp only [step, Protocol.deliverPrepare, Option.ite_none_right_eq_some,
      Option.some.injEq] at hs
    obtain ⟨_, rfl⟩ := hs
    split at h
    · rcases setStatus_cases
        { s with responses := ⟨p, k, prepareOk (s.status p)⟩ :: s.responses } p q .prepared
        with hq | ⟨_, hq⟩
      · exact absurd (hq ▸ h) hold
      · rw [hq] at h
        cases h
    · exact absurd h hold
  | watch p =>
    simp only [step, Protocol.watch] at hs
    split at hs
    · cases hs
    · split at hs <;> cases hs <;> exact absurd h hold
  | recover =>
    simp only [step, Protocol.recover] at hs
    split at hs
    · cases hs
    · split at hs <;> cases hs <;> exact absurd h hold
  | complete | land | lose | decide | abort | sendPrepared | sendCommits | finishCommit |
    sendAborts | crash =>
    simp only [step, Protocol.decided, Protocol.abort, Option.ite_none_right_eq_some,
      Option.some.injEq] at hs
    obtain ⟨_, rfl⟩ := hs
    exact absurd h hold

theorem commitSeen_before {a : Action} (hs : s.step parts a = some s') (h : s'.CommitSeen) :
    s.CommitSeen ∨ s.allPrepared parts = true ∧ s'.responses = s.responses := by
  rcases h with h | ⟨p, hp⟩
  · exact (commitTold_before hs h).imp_left .inl
  · rcases committed_before hs hp with hp | hp
    · exact .inl (.inr ⟨p, hp⟩)
    · exact .inl (.inl hp)

/-! ## Votes -/

/-- A yes is kept, and no commit is seen without everybody's. -/
structure Voted (parts : List Nat) (s : Protocol) : Prop where
  promised : ∀ p k, ⟨p, k, true⟩ ∈ s.responses → s.status p ≠ .active ∧ s.status p ≠ .doomed
  unanimous : s.CommitSeen → s.Unanimous parts

theorem Voted.initial : Voted parts Protocol.initial where
  promised := fun _ _ h => absurd h List.not_mem_nil
  unanimous := fun h => by simp [CommitSeen, CommitTold, Protocol.initial] at h

theorem responses_mono {a : Action} (hs : s.step parts a = some s') {r : Response}
    (hr : r ∈ s.responses) : r ∈ s'.responses := by
  rcases responses_step hs with h | ⟨p, k, h, _⟩
  · rwa [h]
  · rw [h]
    exact List.mem_cons_of_mem _ hr

theorem unanimous_step {a : Action} (hs : s.step parts a = some s') (h : s.Unanimous parts) :
    s'.Unanimous parts :=
  h.imp fun _ hall p hp => responses_mono hs (hall p hp)

theorem unanimous_of_allPrepared (h : s.allPrepared parts = true) : s.Unanimous parts :=
  ⟨s.incarnation, fun p hp => by simpa using List.all_eq_true.mp h p hp⟩

theorem Voted.step {a : Action} (hi : Voted parts s) (hs : s.step parts a = some s') :
    Voted parts s' where
  promised := by
    intro p k hr
    rcases responses_step hs with h | ⟨q, j, h, hok⟩
    · exact promised_step hs (hi.promised p k (h ▸ hr))
    · rw [h] at hr
      rcases List.mem_cons.mp hr with hnew | hr
      · simp only [Response.mk.injEq] at hnew
        obtain ⟨rfl, rfl, hvote⟩ := hnew
        simp [hok hvote.symm]
      · exact promised_step hs (hi.promised p k hr)
  unanimous := by
    intro h
    rcases commitSeen_before hs h with h | ⟨h, _⟩
    · exact unanimous_step hs (hi.unanimous h)
    · exact unanimous_step hs (unanimous_of_allPrepared h)

/-- Who said yes is prepared or has finished. -/
theorem Voted.settled (hi : Voted parts s) {p k : Nat} (h : ⟨p, k, true⟩ ∈ s.responses) :
    s.status p = .prepared ∨ (s.status p).finished = true := by
  have hpromised := hi.promised p k h
  cases hst : s.status p with
  | active => exact absurd hst hpromised.1
  | doomed => exact absurd hst hpromised.2
  | prepared => exact .inl rfl
  | committed | aborted => exact .inr rfl

/-- It holds along every run. -/
theorem voted (h : Reach (step parts) (fun _ _ => True) Protocol.initial s) : Voted parts s :=
  h.invariant (Voted parts) Voted.initial fun _ _ _ hi _ hs => hi.step hs

/-- The coordinator recovers, prepares its two participants again, and one of them hears of the
commit. -/
def preparedAgain : List Action :=
  [.complete, .land .prepare false, .deliverPrepare 1 0, .crash, .recover, .deliverPrepare 2 1,
    .deliverPrepare 1 1, .decide, .watch 2, .deliverWatch ⟨2, false⟩]

theorem vetoed_step {a : Action} {q : Nat} (h : s.Vetoed q) (hs : s.step parts a = some s') :
    s'.Vetoed q := by
  have hstuck : (s'.status q).stuck = true := by
    rcases status_step q hs with hq | ⟨hq, _⟩ | ⟨hq, _⟩ | ⟨_, hq⟩
    · rw [hq]
      exact h.1
    · exact absurd h.1 (by simp [hq, Status.stuck])
    · exact absurd h.1 (by simp [hq, Status.stuck])
    · rw [hq]
      rfl
  refine ⟨hstuck, fun k hk => ?_⟩
  rcases responses_step hs with hr | ⟨p, j, hr, hok⟩
  · exact h.2 k (hr ▸ hk)
  · rw [hr] at hk
    rcases List.mem_cons.mp hk with hnew | hk
    · simp only [Response.mk.injEq] at hnew
      obtain ⟨rfl, rfl, hvote⟩ := hnew
      rw [hok hvote.symm] at hstuck
      cases hstuck
    · exact h.2 k hk

/-- The first participant prepares and the call at the second one fails; -/
def failedCall : List Action :=
  [.complete, .deliverPrepare 1 0, .doom 2]

/-- the coordinator crashes and prepares both again before it gives up. -/
def preparedInVain : List Action :=
  [.land .prepare false, .crash, .recover, .deliverPrepare 1 1, .deliverPrepare 2 1, .abort,
    .land .cleanup true, .sendAborts, .deliverAbort 1]

theorem ends_of_eq {outcome : Status} {s₀ s t : Protocol} {p : Nat}
    (h : s.status p = s₀.status p ∨
      (s₀.status p).finished = false ∧ (s.status p).finished = false)
    (ht : Ends outcome s t p) : Ends outcome s₀ t p := by
  unfold Ends at ht ⊢
  rcases h with h | ⟨h₀, hs⟩
  · rwa [h] at ht
  · rw [ht, hs, h₀]
    rfl

/-- Everybody who has not finished has a turn and ends with `outcome`. -/
theorem end_all (outcome : Status) (J : Protocol → Prop) (s : Protocol)
    (hturn : ∀ p ∈ parts, ∀ t, J t → t.status p = s.status p → (s.status p).finished = false →
      ∃ t', Reach (step parts) Undisturbed t t' ∧ J t' ∧
        t'.status = Function.update t.status p outcome)
    (hJ : J s) :
    ∃ s', Reach (step parts) Undisturbed s s' ∧ ∀ p ∈ parts, Ends outcome s s' p := by
  suffices h : ∃ s', Reach (step parts) Undisturbed s s' ∧
      (J s' ∧ ∀ p, s'.status p = s.status p ∨ Ends outcome s s' p) ∧
        ∀ p ∈ parts, Ends outcome s s' p by
    obtain ⟨s', hreach, _, hends⟩ := h
    exact ⟨s', hreach, hends⟩
  refine Reach.each parts (fun t => J t ∧ ∀ p, t.status p = s.status p ∨ Ends outcome s t p)
    (fun p t => Ends outcome s t p) ?_ s ⟨hJ, fun _ => .inl rfl⟩
  rintro p hp t ⟨hJt, hall⟩
  by_cases hend : Ends outcome s t p
  · exact ⟨t, .init, ⟨hJt, hall⟩, hend, fun _ _ h => h⟩
  have hsame : t.status p = s.status p := (hall p).resolve_right hend
  have hlive : (s.status p).finished = false := by
    by_contra hfin
    exact hend (by rw [Ends, hsame, if_pos (by simpa using hfin)])
  obtain ⟨t', hreach, hJt', hst⟩ := hturn p hp t hJt hsame hlive
  have hends : Ends outcome s t' p := by
    rw [Ends, hst, Function.update_self, hlive]
    rfl
  have hother : ∀ q, q ≠ p → t'.status q = t.status q := by
    intro q hq
    rw [hst, Function.update_of_ne hq]
  refine ⟨t', hreach, ⟨hJt', fun q => ?_⟩, hends, fun q _ hq => ?_⟩
  · by_cases hqp : q = p
    · exact .inr (hqp ▸ hends)
    · unfold Ends
      rw [hother q hqp]
      exact hall q
  · by_cases hqp : q = p
    · exact hqp ▸ hends
    · rw [Ends, hother q hqp]
      exact hq

/-- `Commit` reaches everybody. -/
theorem commit_all (hc : s.commits = true)
    (hp : ∀ p ∈ parts, s.status p = .prepared ∨ (s.status p).finished = true) :
    ∃ s', Reach (step parts) Undisturbed s s' ∧ ∀ p ∈ parts, Ends .committed s s' p := by
  refine end_all .committed (fun t => t.commits = true) s (fun p hmem t ht hst hlive => ?_) hc
  have hprep : t.status p = .prepared := by
    rw [hst]
    exact (hp p hmem).resolve_right (by simp [hlive])
  refine ⟨t.setStatus p .committed, Reach.now (a := .deliverCommit p) trivial ?_, ht, rfl⟩
  simp [step, ht, hprep]

theorem participantAbort_of_live {p : Nat} (h : (s.status p).finished = false) :
    s.participantAbort p = s.setStatus p .aborted := by
  rw [participantAbort, if_neg (by simp [h])]

/-- `Abort` reaches everybody. -/
theorem abort_all (ha : s.aborts = true) :
    ∃ s', Reach (step parts) Undisturbed s s' ∧ ∀ p ∈ parts, Ends .aborted s s' p := by
  refine end_all .aborted (fun t => t.aborts = true) s (fun p _ t ht hst hlive => ?_) ha
  refine ⟨t.setStatus p .aborted, Reach.now (a := .deliverAbort p) trivial ?_, ht, rfl⟩
  rw [← participantAbort_of_live (hst ▸ hlive)]
  simp [step, ht]

/-- Everybody asks a coordinator that knows nothing of the transaction. -/
theorem watch_all (hup : s.up = true) (hidle : s.phase = .idle) :
    ∃ s', Reach (step parts) Undisturbed s s' ∧ ∀ p ∈ parts, Ends .aborted s s' p := by
  refine end_all .aborted (fun t => t.up = true ∧ t.phase = .idle) s
    (fun p _ t ht hst hlive => ?_) ⟨hup, hidle⟩
  let asked : Protocol := { t with watchResponses := ⟨p, true⟩ :: t.watchResponses }
  have hask : step parts t (.watch p) = some asked := by
    simp [step, watch, ht.1, ht.2, asked]
  have hhear : step parts asked (.deliverWatch ⟨p, true⟩) = some (asked.setStatus p .aborted) := by
    rw [← participantAbort_of_live (s := asked) (p := p) (hst ▸ hlive)]
    simp [step, deliverWatch, asked]
  exact ⟨asked.setStatus p .aborted, (Reach.now (a := .watch p) trivial hask).step
    (a := .deliverWatch ⟨p, true⟩) trivial hhear, ht, rfl⟩

/-- Since `s` only votes were collected. -/
structure Voting (s t : Protocol) : Prop where
  coordinator : t = { s with status := t.status, responses := t.responses }
  live : ∀ p, t.status p = s.status p ∨
    (s.status p).finished = false ∧ (t.status p).finished = false

/-- `Prepare` reaches everybody. -/
theorem prepare_all (hk : s.incarnation ∈ s.prepares) :
    ∃ t, Reach (step parts) Undisturbed s t ∧ Voting s t ∧
      ∀ p ∈ parts, ∃ ok, ⟨p, s.incarnation, ok⟩ ∈ t.responses := by
  refine Reach.each parts (Voting s) (fun p t => ∃ ok, ⟨p, s.incarnation, ok⟩ ∈ t.responses) ?_ s
    ⟨rfl, fun _ => .inl rfl⟩
  rintro p _ t ⟨hsame, hlive⟩
  have hsent : s.incarnation ∈ t.prepares := by
    rw [hsame]
    exact hk
  let answered : Protocol :=
    { t with responses := ⟨p, s.incarnation, prepareOk (t.status p)⟩ :: t.responses }
  have hmem : ∀ q ok, ⟨q, s.incarnation, ok⟩ ∈ t.responses →
      ⟨q, s.incarnation, ok⟩ ∈ answered.responses := fun q ok h => List.mem_cons_of_mem _ h
  by_cases hact : t.status p = .active
  · refine ⟨answered.setStatus p .prepared,
      Reach.now (a := .deliverPrepare p s.incarnation) trivial ?_, ⟨?_, fun q => ?_⟩,
      ⟨_, List.mem_cons_self⟩, fun q _ ⟨ok, h⟩ => ⟨ok, hmem q ok h⟩⟩
    · simp [step, deliverPrepare, hsent, hact, answered]
    · exact congrArg (fun u : Protocol => { u with
        status := (answered.setStatus p .prepared).status
        responses := answered.responses }) hsame
    · rcases setStatus_cases answered p q .prepared with h | ⟨hqp, h⟩
      · rw [h]
        exact hlive q
      · refine .inr ⟨?_, by rw [h]; rfl⟩
        rcases hlive q with hq | hq
        · rw [← hq, hqp, hact]
          rfl
        · exact hq.1
  · refine ⟨answered, Reach.now (a := .deliverPrepare p s.incarnation) trivial ?_, ⟨?_, hlive⟩,
      ⟨_, List.mem_cons_self⟩, fun q _ ⟨ok, h⟩ => ⟨ok, hmem q ok h⟩⟩
    · simp [step, deliverPrepare, hsent, hact, answered]
    · exact congrArg (fun u : Protocol => { u with responses := answered.responses }) hsame

/-- Everybody votes, and the coordinator that prepares again commits or aborts. -/
theorem reprepare_all (h : Reach (step parts) (fun _ _ => True) Protocol.initial s)
    (hup : s.up = true) (hph : s.phase = .repreparing) (hk : s.incarnation ∈ s.prepares) :
    ∃ s', Reach (step parts) Undisturbed s s' ∧ ∃ outcome,
      (outcome = .committed ∨ outcome = .aborted) ∧ ∀ p ∈ parts, Ends outcome s s' p := by
  obtain ⟨t, hreach, hvoting, hvotes⟩ := prepare_all hk
  have hvoted : Voted parts t := voted (h.append (hreach.mono fun _ _ _ => trivial))
  have htup : t.up = true := by
    rw [hvoting.coordinator]
    exact hup
  have htph : t.phase = .repreparing := by
    rw [hvoting.coordinator]
    exact hph
  have hinc : t.incarnation = s.incarnation := by rw [hvoting.coordinator]
  by_cases hall : t.allPrepared parts = true
  · -- the future gets its result, the record is written, `Commit` is sent
    let recording : Protocol := { t with phase := .recording }
    let sent : Protocol := { recording with writes := .prepared :: t.writes }
    let landed : Protocol :=
      { recording with record := .prepared, returned := .prepared :: t.returned }
    let told : Protocol := { landed with phase := .committing, commits := true }
    have hdecide : step parts t .decide = some recording := by
      simp [step, decided, htup, hall, htph, recording]
    have hsend : step parts recording .sendPrepared = some sent := by
      simp [step, htup, sent, recording]
    have hland : step parts sent (.land .prepared true) = some landed := by
      simp [step, htup, Write.apply, sent, landed, recording]
    have htell : step parts landed .sendCommits = some told := by
      simp [step, htup, told, landed, recording]
    have htold : Reach (step parts) Undisturbed t told :=
      (((Reach.now (a := .decide) trivial hdecide).step (a := .sendPrepared) trivial hsend).step
        (a := .land .prepared true) trivial hland).step (a := .sendCommits) trivial htell
    have hready : ∀ p ∈ parts, told.status p = .prepared ∨ (told.status p).finished = true :=
      fun p hp => hvoted.settled (k := t.incarnation) (by simpa using List.all_eq_true.mp hall p hp)
    obtain ⟨s', hcommit, hends⟩ := commit_all (s := told) rfl hready
    refine ⟨s', (hreach.append htold).append hcommit, .committed, .inl rfl, fun p hp => ?_⟩
    exact ends_of_eq (hvoting.live p) (hends p hp)
  · -- somebody refused: the record is deleted, `Abort` is sent
    have hrefused : t.refused parts = true := by
      simp only [allPrepared, List.all_eq_true, decide_eq_true_eq, not_forall] at hall
      obtain ⟨p, hp, hno⟩ := hall
      obtain ⟨ok, hvote⟩ := hvotes p hp
      rw [← hinc] at hvote
      cases ok with
      | true => exact absurd hvote hno
      | false => simpa [refused] using ⟨p, hp, hvote⟩
    let aborting : Protocol := { t with phase := .aborting, writes := .cleanup :: t.writes }
    let landed : Protocol :=
      { t with phase := .aborting, record := .absent, returned := .cleanup :: t.returned }
    let told : Protocol := { landed with aborts := true }
    have habort : step parts t .abort = some aborting := by
      simp [step, abort, htup, htph, hrefused, aborting]
    have hland : step parts aborting (.land .cleanup true) = some landed := by
      simp [step, htup, Write.apply, aborting, landed]
    have htell : step parts landed .sendAborts = some told := by
      simp [step, htup, told, landed]
    have htold : Reach (step parts) Undisturbed t told :=
      ((Reach.now (a := .abort) trivial habort).step (a := .land .cleanup true) trivial hland).step
        (a := .sendAborts) trivial htell
    obtain ⟨s', hall, hends⟩ := abort_all (s := told) rfl
    refine ⟨s', (hreach.append htold).append hall, .aborted, .inr rfl, fun p hp => ?_⟩
    exact ends_of_eq (hvoting.live p) (hends p hp)

/-- The first participant has prepared, the second was not asked yet. -/
def halfPrepared : List Action :=
  [.complete, .land .prepare true, .deliverPrepare 1 0, .crash]

end Reboot.Txn.TwoPhase
