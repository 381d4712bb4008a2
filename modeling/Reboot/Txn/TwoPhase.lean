import Mathlib.Logic.Function.Basic
import Reboot.Lib.Run

/-!
# The coordinator's two phases

One transaction, the coordinator that ends it and the participants with effects, across any
number of crashes and recoveries of the coordinator. The model follows
`_transaction_coordinator_complete`, `_transaction_coordinator_prepare`,
`_transaction_coordinator_abort`, `_transaction_coordinator_reprepare`,
`_transaction_coordinator_commit_control_loop`, `Watch`, `Prepare`, `Commit`, `Abort` and
`_transaction_participant_watch` (`reboot/aio/state_managers.py`).

The outcome becomes visible in three places, at three moments:

* the future in `_coordinator_participants`, which `Watch` answers from: with a commit from
  the moment all participants have answered `Prepare`, with an abort once it is resolved to
  `None` or gone;
* the durable record, which says `preparing=True` until `transaction_coordinator_prepared`
  overwrites it, or until the cleanup of an abort deletes it;
* the `Commit` and `Abort` requests, which are sent once the record is.

A coordinator that recovers a record with `preparing=True` prepares everybody again. A
participant that has finished the transaction in the meantime no longer knows it and refuses.

`careful_agree`: as long as the coordinator does not crash after it told a participant the
outcome, while the record says `preparing=True` or a write in flight will make it say so, no
two participants end the transaction differently. A crash is harmless even then if some
participant can no longer prepare, or if all of them have committed. `split_outcome` is a run
with such a crash.

Mirroring notes:
- Participants do not crash, and a write to the database is atomic. A write in flight at a
  crash is handled or lost before the recovery reads the record.
- Messages are never taken out of flight: they may be delivered late, more than once, or not
  at all. An answer to `Prepare` only reaches the coordinator that asked, so it is kept with
  the number of that coordinator's incarnation.
- Read-only participants have no part in the outcome, except that one of them may make the
  first prepare fail. `abort` allows that, as it does a cancellation.
- The commit control loop that is cancelled at a shutdown takes no further step.
-/

namespace Reboot.Txn.TwoPhase

open Reboot.Lib

/-! ## The protocol -/

/-- A participant's transaction. -/
inductive Status
  | active
  /-- `unrecoverable_abort` -/
  | doomed
  | prepared
  | committed
  | aborted
  deriving DecidableEq

/-- Finished, and forgotten by the participant. -/
def Status.finished : Status → Bool
  | .committed => true
  | .aborted => true
  | _ => false

/-- No `Prepare` will succeed any more. -/
def Status.stuck : Status → Bool
  | .doomed => true
  | .aborted => true
  | _ => false

/-- The coordinator's record in the database. -/
inductive Record
  | absent
  /-- `preparing=True` -/
  | preparing
  /-- `preparing=False` -/
  | prepared
  deriving DecidableEq

/-- A write to that record. -/
inductive Write
  /-- `transaction_coordinator_prepare` -/
  | prepare
  /-- `transaction_coordinator_prepared` -/
  | prepared
  /-- `transaction_coordinator_cleanup` -/
  | cleanup
  deriving DecidableEq

def Write.apply : Write → Record
  | .prepare => .preparing
  | .prepared => .prepared
  | .cleanup => .absent

/-- Where the coordinator is. -/
inductive Phase
  /-- no entry in `_coordinator_participants`, and nothing running -/
  | idle
  /-- the transaction's method -/
  | running
  /-- `_transaction_coordinator_complete` -/
  | preparing
  /-- `_transaction_coordinator_reprepare` -/
  | repreparing
  /-- the future has its result, `transaction_coordinator_prepared` has not returned -/
  | recording
  /-- `_transaction_coordinator_commit` -/
  | committing
  /-- `_transaction_coordinator_abort`: no entry any more -/
  | aborting
  deriving DecidableEq

/-- A participant's answer to `Prepare`. -/
structure Response where
  participant : Nat
  incarnation : Nat
  /-- not `abort` -/
  ok : Bool
  deriving DecidableEq

/-- The coordinator's answer to `Watch`. -/
structure WatchResponse where
  participant : Nat
  aborted : Bool
  deriving DecidableEq

structure Protocol where
  status : Nat → Status
  record : Record
  /-- writes in flight -/
  writes : List Write
  up : Bool
  incarnation : Nat
  phase : Phase
  /-- the writes that returned to this incarnation -/
  returned : List Write
  /-- the incarnations that sent `Prepare` -/
  prepares : List Nat
  responses : List Response
  watchResponses : List WatchResponse
  /-- `Commit` was sent -/
  commits : Bool
  /-- `Abort` was sent -/
  aborts : Bool

inductive Action
  /-- a call at the participant fails for good -/
  | doom (p : Nat)
  /-- the transaction's method returned: `_transaction_coordinator_complete` -/
  | complete
  /-- the database handles a write, and its answer arrives or does not -/
  | land (w : Write) (answered : Bool)
  | lose (w : Write)
  | deliverPrepare (p k : Nat)
  /-- all participants have answered: the future gets its result -/
  | decide
  /-- `_transaction_coordinator_abort`: the future is resolved to `None` -/
  | abort
  | sendPrepared
  | sendCommits
  | deliverCommit (p : Nat)
  /-- all participants have acknowledged the commit -/
  | finishCommit
  | sendAborts
  | deliverAbort (p : Nat)
  /-- `Watch`, at the coordinator -/
  | watch (p : Nat)
  /-- and back at the participant -/
  | deliverWatch (r : WatchResponse)
  | crash
  | recover
  deriving DecidableEq

namespace Protocol

def initial : Protocol where
  status := fun _ => .active
  record := .absent
  writes := []
  up := true
  incarnation := 0
  phase := .running
  returned := []
  prepares := []
  responses := []
  watchResponses := []
  commits := false
  aborts := false

def setStatus (s : Protocol) (p : Nat) (st : Status) : Protocol :=
  { s with status := Function.update s.status p st }

/-- `transaction_participant_abort`. -/
def participantAbort (s : Protocol) (p : Nat) : Protocol :=
  if (s.status p).finished then s else s.setStatus p .aborted

/-- The answer of a participant that knows the transaction as `st`. -/
def prepareOk : Status → Bool
  | .active => true
  | .prepared => true
  | _ => false

/-- `Prepare`. -/
def deliverPrepare (s : Protocol) (p k : Nat) : Option Protocol :=
  if k ∈ s.prepares then
    let s' := { s with responses := ⟨p, k, prepareOk (s.status p)⟩ :: s.responses }
    some (if s.status p = .active then s'.setStatus p .prepared else s')
  else none

/-- Everybody answered this incarnation that they are prepared. -/
def allPrepared (s : Protocol) (parts : List Nat) : Bool :=
  parts.all fun p => decide (⟨p, s.incarnation, true⟩ ∈ s.responses)

/-- The first time the write of the record has to return as well (`asyncio.gather`). -/
def decided (s : Protocol) (parts : List Nat) : Option Protocol :=
  if s.up ∧ s.allPrepared parts ∧
      (s.phase = .repreparing ∨ (s.phase = .preparing ∧ .prepare ∈ s.returned)) then
    some { s with phase := .recording }
  else none

/-- Some participant refused this incarnation. -/
def refused (s : Protocol) (parts : List Nat) : Bool :=
  parts.any fun p => decide (⟨p, s.incarnation, false⟩ ∈ s.responses)

/-- The first time any failure and any cancellation aborts; a coordinator that prepares again
only aborts if it is refused. -/
def abort (s : Protocol) (parts : List Nat) : Option Protocol :=
  if s.up ∧ (s.phase = .running ∨ s.phase = .preparing ∨
      (s.phase = .repreparing ∧ s.refused parts)) then
    some { s with phase := .aborting, writes := .cleanup :: s.writes }
  else none

/-- `Watch`: no answer while the future has no result. -/
def watch (s : Protocol) (p : Nat) : Option Protocol :=
  if s.up = false then none
  else match s.phase with
    | .idle | .aborting => some { s with watchResponses := ⟨p, true⟩ :: s.watchResponses }
    | .recording | .committing => some { s with watchResponses := ⟨p, false⟩ :: s.watchResponses }
    | .running | .preparing | .repreparing => none

/-- A participant hears that the transaction has finished. -/
def deliverWatch (s : Protocol) (r : WatchResponse) : Option Protocol :=
  if r ∈ s.watchResponses then
    some (if r.aborted = false ∧ s.status r.participant = .prepared then
      s.setStatus r.participant .committed
    else s.participantAbort r.participant)
  else none

def recover (s : Protocol) : Option Protocol :=
  if s.up then none
  else
    let s := { s with up := true, incarnation := s.incarnation + 1, writes := [], returned := [] }
    match s.record with
    | .absent => some { s with phase := .idle }
    | .preparing => some { s with phase := .repreparing, prepares := s.incarnation :: s.prepares }
    | .prepared => some { s with phase := .committing, commits := true }

def step (parts : List Nat) (s : Protocol) : Action → Option Protocol
  | .doom p => if s.status p = .active then some (s.setStatus p .doomed) else none
  | .complete =>
    if s.up ∧ s.phase = .running then
      some { s with
        phase := .preparing
        writes := .prepare :: s.writes
        prepares := s.incarnation :: s.prepares }
    else none
  | .land w answered =>
    if w ∈ s.writes then
      some { s with
        record := w.apply
        writes := s.writes.erase w
        returned := if s.up ∧ answered then w :: s.returned else s.returned }
    else none
  | .lose w => if w ∈ s.writes then some { s with writes := s.writes.erase w } else none
  | .deliverPrepare p k => s.deliverPrepare p k
  | .decide => s.decided parts
  | .abort => s.abort parts
  | .sendPrepared =>
    if s.up ∧ s.phase = .recording then some { s with writes := .prepared :: s.writes } else none
  | .sendCommits =>
    if s.up ∧ s.phase = .recording ∧ .prepared ∈ s.returned then
      some { s with phase := .committing, commits := true }
    else none
  | .deliverCommit p =>
    -- a transaction that is not known is acknowledged, one that is not prepared is refused
    if s.commits ∧ s.status p = .prepared then some (s.setStatus p .committed) else none
  | .finishCommit =>
    if s.up ∧ s.phase = .committing ∧ ∀ p ∈ parts, (s.status p).finished then
      some { s with phase := .idle, writes := .cleanup :: s.writes }
    else none
  | .sendAborts =>
    if s.up ∧ s.phase = .aborting ∧ .cleanup ∈ s.returned then some { s with aborts := true }
    else none
  | .deliverAbort p => if s.aborts then some (s.participantAbort p) else none
  | .watch p => s.watch p
  | .deliverWatch r => s.deliverWatch r
  | .crash =>
    if s.up then some { s with up := false, phase := .idle, returned := [] } else none
  | .recover => s.recover

/-- A participant was told the outcome. -/
def Told (s : Protocol) : Prop := s.watchResponses ≠ [] ∨ s.commits = true ∨ s.aborts = true

instance (s : Protocol) : Decidable s.Told := inferInstanceAs (Decidable (_ ∨ _))

/-- Nothing makes a recovery prepare again. -/
def Settled (s : Protocol) : Prop := s.record ≠ .preparing ∧ .prepare ∉ s.writes

instance (s : Protocol) : Decidable s.Settled := inferInstanceAs (Decidable (_ ∧ _))

/-- The coordinator does not crash once it told a participant the outcome while the record
says, or will say, that it is preparing; unless some participant can no longer prepare, or
all have committed. -/
def Careful (parts : List Nat) (s : Protocol) : Action → Prop
  | .crash => ¬ s.Told ∨ s.Settled ∨ (∃ p ∈ parts, (s.status p).stuck = true) ∨
      ∀ p ∈ parts, s.status p = .committed
  | _ => True

instance (parts : List Nat) (s : Protocol) (a : Action) : Decidable (Careful parts s a) :=
  match a with
  | .crash => inferInstanceAs (Decidable (_ ∨ _))
  | .doom _ | .complete | .land _ _ | .lose _ | .deliverPrepare _ _ | .decide | .abort
  | .sendPrepared | .sendCommits | .deliverCommit _ | .finishCommit | .sendAborts
  | .deliverAbort _ | .watch _ | .deliverWatch _ | .recover => isTrue trivial

/-- No participant commits the transaction that another one aborts. -/
def Agree (parts : List Nat) (s : Protocol) : Prop :=
  ∀ p ∈ parts, ∀ q ∈ parts, ¬ (s.status p = .committed ∧ s.status q = .aborted)

end Protocol

open Protocol

/-! ## The invariant

A run goes through stages. Until somebody is told the outcome nobody has finished. Then either
the outcome is a commit, which every participant is prepared for and which the record keeps, or
it is an abort, which a participant that cannot prepare, a record without `preparing=True` or
the coordinator's memory keeps. Once all have committed nothing can happen any more. -/

/-- Nobody knows the outcome. -/
structure Untold (parts : List Nat) (s : Protocol) : Prop where
  silent : s.watchResponses = [] ∧ s.commits = false ∧ s.aborts = false
  live : ∀ p ∈ parts, (s.status p).finished = false
  ok : ∀ p ∈ parts, ∀ k, ⟨p, k, true⟩ ∈ s.responses → s.status p = .prepared
  all : s.record = .prepared ∨ .prepared ∈ s.writes ∨ s.phase = .recording →
    ∀ p ∈ parts, s.status p = .prepared
  unrecorded : s.up = true → s.phase ≠ .recording → s.record ≠ .prepared ∧ .prepared ∉ s.writes
  undone : s.phase ≠ .committing
  cleanup : .cleanup ∈ s.writes → s.up = true → s.phase = .aborting
  recorded : s.phase = .recording ∨ s.phase = .repreparing → s.record ≠ .absent
  returned : s.phase = .preparing → .prepare ∈ s.returned → s.record ≠ .absent
  running : s.phase = .running → s.writes = [] ∧ s.returned = []
  idle : s.up = true → s.phase = .idle → s.record = .absent ∧ s.writes = []

/-- The outcome is a commit. -/
structure Commits (parts : List Nat) (s : Protocol) : Prop where
  told : s.Told
  kept : ∀ p ∈ parts, s.status p = .prepared ∨ s.status p = .committed
  answers : (∀ r ∈ s.watchResponses, r.aborted = false) ∧ s.aborts = false
  phase : s.up = true → s.phase = .recording ∨ s.phase = .committing
  record : s.record ≠ .absent ∧ .cleanup ∉ s.writes
  down : s.up = false → s.Settled

/-- The outcome is an abort. -/
structure Aborts (parts : List Nat) (s : Protocol) : Prop where
  told : s.Told
  kept : ∀ p ∈ parts, s.status p ≠ .committed
  answers : (∀ r ∈ s.watchResponses, r.aborted = true) ∧ s.commits = false
  phase : s.up = true → s.phase = .aborting ∨ s.phase = .idle ∨ s.phase = .repreparing
  unrecorded : s.record ≠ .prepared ∧ .prepared ∉ s.writes
  safe : (∃ p ∈ parts, (s.status p).stuck = true) ∨ s.Settled ∨ s.up = true ∧ s.phase = .aborting
  again : s.phase = .repreparing →
    ∃ p ∈ parts, (s.status p).stuck = true ∧ ⟨p, s.incarnation, true⟩ ∉ s.responses

/-- One of the stages of a run. -/
def Stage (parts : List Nat) (s : Protocol) : Prop :=
  Untold parts s ∨ Commits parts s ∨ Aborts parts s ∨ ∀ p ∈ parts, s.status p = .committed

/-- Prepares and their answers are of this incarnation or an earlier one. -/
structure Dated (s : Protocol) : Prop where
  prepares : ∀ k ∈ s.prepares, k ≤ s.incarnation
  responses : ∀ r ∈ s.responses, r.incarnation ≤ s.incarnation
  down : s.up = false → s.phase = .idle

structure Inv (parts : List Nat) (s : Protocol) : Prop where
  dated : Dated s
  stage : Stage parts s

variable {parts : List Nat} {s s' : Protocol}

theorem setStatus_self (s : Protocol) (p : Nat) (st : Status) : (s.setStatus p st).status p = st :=
  Function.update_self _ _ _

theorem setStatus_ne (s : Protocol) {p q : Nat} (st : Status) (h : q ≠ p) :
    (s.setStatus p st).status q = s.status q :=
  Function.update_of_ne h _ _

/-- A property of every participant's status, after one of them changed. -/
theorem forall_setStatus {P : Nat → Status → Prop} {p : Nat} {st : Status}
    (h : ∀ q ∈ parts, P q (s.status q)) (hp : p ∈ parts → P p (s.status p) → P p st) :
    ∀ q ∈ parts, P q ((s.setStatus p st).status q) := by
  intro q hq
  by_cases hqp : q = p
  · subst hqp
    rw [setStatus_self]
    exact hp hq (h q hq)
  · rw [setStatus_ne s st hqp]
    exact h q hq

/-- A participant that cannot prepare stays so, unless it is its status that changes. -/
theorem stuck_setStatus {p q : Nat} {st : Status} (h : (s.status q).stuck = true)
    (hp : p = q → st.stuck = true) : ((s.setStatus p st).status q).stuck = true := by
  by_cases hqp : q = p
  · subst hqp
    rw [setStatus_self]
    exact hp rfl
  · rwa [setStatus_ne s st hqp]

theorem stuck_of_prepareOk {st : Status} (h : prepareOk st = true) : st.stuck = false := by
  cases st with
  | active | prepared | committed => rfl
  | doomed | aborted => cases h

theorem committed_setStatus {p q : Nat} {st : Status} (h : s.status q = .committed)
    (hp : s.status p ≠ .committed) : (s.setStatus p st).status q = .committed := by
  have hne : q ≠ p := by
    intro hqp
    exact hp (hqp ▸ h)
  rw [setStatus_ne s st hne]
  exact h

theorem committed_participantAbort {p q : Nat} (h : s.status q = .committed) :
    (s.participantAbort p).status q = .committed := by
  unfold Protocol.participantAbort
  split
  · exact h
  next hfin => exact committed_setStatus h fun hp => by simp [hp, Status.finished] at hfin

/-- Who has committed stays so. -/
theorem committed_step {a : Action} {q : Nat} (h : s.status q = .committed)
    (hs : s.step parts a = some s') : s'.status q = .committed := by
  cases a with
  | doom p =>
    simp only [step, Option.ite_none_right_eq_some, Option.some.injEq] at hs
    rw [← hs.2]
    exact committed_setStatus h (by simp [hs.1])
  | deliverCommit p =>
    simp only [step, Option.ite_none_right_eq_some, Option.some.injEq] at hs
    rw [← hs.2]
    exact committed_setStatus h (by simp [hs.1.2])
  | deliverAbort p =>
    simp only [step, Option.ite_none_right_eq_some, Option.some.injEq] at hs
    rw [← hs.2]
    exact committed_participantAbort h
  | deliverPrepare p k =>
    simp only [step, Protocol.deliverPrepare, Option.ite_none_right_eq_some,
      Option.some.injEq] at hs
    rw [← hs.2]
    split
    next hact =>
      exact committed_setStatus
        (s := { s with responses := ⟨p, k, prepareOk (s.status p)⟩ :: s.responses })
        h (by simp [hact])
    · exact h
  | deliverWatch r =>
    simp only [step, Protocol.deliverWatch, Option.ite_none_right_eq_some,
      Option.some.injEq] at hs
    rw [← hs.2]
    split
    next hp => exact committed_setStatus h (by simp [hp.2])
    · exact committed_participantAbort h
  | watch p =>
    simp only [step, Protocol.watch] at hs
    split at hs
    · cases hs
    · split at hs <;> cases hs <;> exact h
  | recover =>
    simp only [step, Protocol.recover] at hs
    split at hs
    · cases hs
    · split at hs <;> cases hs <;> exact h
  | complete | land | lose | decide | abort | sendPrepared | sendCommits | finishCommit |
    sendAborts | crash =>
    simp only [step, Protocol.decided, Protocol.abort, Option.ite_none_right_eq_some,
      Option.some.injEq] at hs
    rw [← hs.2]
    exact h

namespace Untold

theorem initial : Untold parts Protocol.initial where
  silent := ⟨rfl, rfl, rfl⟩
  live := fun _ _ => rfl
  ok := fun _ _ _ h => absurd h List.not_mem_nil
  all := fun h => by simp [Protocol.initial] at h
  unrecorded := fun _ _ => ⟨by simp [Protocol.initial], List.not_mem_nil⟩
  undone := by simp [Protocol.initial]
  cleanup := fun h => absurd h List.not_mem_nil
  recorded := fun h => by simp [Protocol.initial] at h
  returned := fun h => by simp [Protocol.initial] at h
  running := fun _ => ⟨rfl, rfl⟩
  idle := fun _ h => by simp [Protocol.initial] at h

/-- A participant that is not prepared yet changes its status. -/
theorem setStatus (hi : Untold parts s) {p : Nat} {st : Status} (hst : st.finished = false)
    (hp : s.status p = .prepared → st = .prepared) : Untold parts (s.setStatus p st) :=
  { hi with
    live := forall_setStatus (P := fun _ st => st.finished = false) hi.live fun _ _ => hst
    ok := by
      intro q hq k hk
      have := hi.ok q hq k hk
      by_cases hqp : q = p
      · subst hqp
        rw [setStatus_self]
        exact hp this
      · rw [setStatus_ne s st hqp]
        exact this
    all := fun h => forall_setStatus (P := fun _ st => st = .prepared) (hi.all h) fun _ => hp }

theorem deliverPrepare (hi : Untold parts s) {p k : Nat} (h : s.deliverPrepare p k = some s') :
    Untold parts s' := by
  unfold Protocol.deliverPrepare at h
  split at h
  next hk =>
    cases h
    by_cases hact : s.status p = .active
    · rw [if_pos hact]
      have hi' : Untold parts (s.setStatus p .prepared) := hi.setStatus rfl fun _ => rfl
      exact { hi' with
        ok := by
          intro q hq k' hk'
          rcases List.mem_cons.mp hk' with heq | hmem
          · injection heq with hqp
            subst hqp
            exact setStatus_self _ _ _
          · exact hi'.ok q hq k' hmem }
    · rw [if_neg hact]
      exact { hi with
        ok := by
          intro q hq k' hk'
          rcases List.mem_cons.mp hk' with heq | hmem
          · -- the answer is positive only if the participant is prepared
            injection heq with hqp _ hok
            subst hqp
            show s.status q = .prepared
            cases hst : s.status q with
            | prepared => rfl
            | active => exact absurd hst hact
            | doomed | committed | aborted => simp [hst, prepareOk] at hok
          · exact hi.ok q hq k' hmem }
  · cases h

theorem land (hi : Untold parts s) {w : Write} (hw : w ∈ s.writes) (answered : Bool)
    (hdown : s.up = false → s.phase = .idle) :
    Untold parts { s with
      record := w.apply
      writes := s.writes.erase w
      returned := if s.up ∧ answered then w :: s.returned else s.returned } := by
  have hsub : ∀ {x}, x ∈ s.writes.erase w → x ∈ s.writes := List.mem_of_mem_erase
  -- a record that is written by now is not deleted: the cleanup comes with the abort
  have hkeep : ∀ ph, s.phase = ph → ph ≠ .idle → ph ≠ .aborting → w.apply ≠ .absent := by
    intro ph hph hidle habort habs
    have hup : s.up = true := by
      by_contra hup
      exact hidle (hph.symm.trans (hdown (by simpa using hup)))
    cases w with
    | cleanup => exact habort (hph.symm.trans (hi.cleanup hw hup))
    | prepare | prepared => cases habs
  exact { hi with
    all := by
      rintro (hrec | hmem | hph)
      · have : w = .prepared := by
          cases w with
          | prepared => rfl
          | prepare | cleanup => cases hrec
        exact hi.all (.inr (.inl (this ▸ hw)))
      · exact hi.all (.inr (.inl (hsub hmem)))
      · exact hi.all (.inr (.inr hph))
    unrecorded := by
      intro hup hph
      have hno := (hi.unrecorded hup hph).2
      refine ⟨fun hrec => ?_, fun hmem => hno (hsub hmem)⟩
      cases w with
      | prepared => exact hno hw
      | prepare | cleanup => cases hrec
    cleanup := fun hmem => hi.cleanup (hsub hmem)
    recorded := by
      rintro (hph | hph)
      · exact hkeep _ hph (by decide) (by decide)
      · exact hkeep _ hph (by decide) (by decide)
    returned := fun hph _ => hkeep _ hph (by decide) (by decide)
    running := by
      intro hph
      rw [(hi.running hph).1] at hw
      cases hw
    idle := by
      intro hup hph
      rw [(hi.idle hup hph).2] at hw
      cases hw }

theorem lose (hi : Untold parts s) (w : Write) :
    Untold parts { s with writes := s.writes.erase w } := by
  have hsub : ∀ {x}, x ∈ s.writes.erase w → x ∈ s.writes := List.mem_of_mem_erase
  exact { hi with
    all := fun h => hi.all (h.imp_right (Or.imp_left hsub))
    unrecorded := fun hup hph => (hi.unrecorded hup hph).imp_right fun hno h => hno (hsub h)
    cleanup := fun hmem => hi.cleanup (hsub hmem)
    running := fun hph => (hi.running hph).imp_left fun h => by simp [h]
    idle := fun hup hph => (hi.idle hup hph).imp_right fun h => by simp [h] }

theorem complete (hi : Untold parts s) (hup : s.up = true) (hph : s.phase = .running) :
    Untold parts { s with
      phase := .preparing
      writes := .prepare :: s.writes
      prepares := s.incarnation :: s.prepares } := by
  obtain ⟨hw, hret⟩ := hi.running hph
  have hun := hi.unrecorded hup (by simp [hph])
  exact { hi with
    all := by
      rintro (h | h | h)
      · exact absurd h hun.1
      · simp [hw] at h
      · cases h
    unrecorded := fun _ _ => ⟨hun.1, by simp [hw]⟩
    undone := by simp
    cleanup := fun h => by simp [hw] at h
    recorded := fun h => by simp at h
    returned := fun _ h => by simp [hret] at h
    running := fun h => by cases h
    idle := fun _ h => by cases h }

theorem decided (hi : Untold parts s) (h : s.decided parts = some s') : Untold parts s' := by
  unfold Protocol.decided at h
  split at h
  next hd =>
    cases h
    obtain ⟨hup, hall, hph⟩ := hd
    have hprep : ∀ p ∈ parts, s.status p = .prepared := by
      intro p hp
      exact hi.ok p hp s.incarnation (by simpa using List.all_eq_true.mp hall p hp)
    exact { hi with
      all := fun _ => hprep
      unrecorded := fun _ h => absurd rfl h
      undone := by simp
      cleanup := by
        intro hmem hup'
        have := hi.cleanup hmem hup'
        rcases hph with hph | hph
        · simp [hph] at this
        · simp [hph.1] at this
      recorded := by
        intro _
        rcases hph with hph | hph
        · exact hi.recorded (.inr hph)
        · exact hi.returned hph.1 hph.2
      returned := fun h => by cases h
      running := fun h => by cases h
      idle := fun _ h => by cases h }
  · cases h

theorem abort (hi : Untold parts s) (h : s.abort parts = some s') : Untold parts s' := by
  unfold Protocol.abort at h
  split at h
  next ha =>
    cases h
    obtain ⟨hup, hph⟩ := ha
    have hun := hi.unrecorded hup (by rcases hph with h | h | h <;> simp [h])
    exact { hi with
      all := by
        rintro (h | h | h)
        · exact absurd h hun.1
        · exact absurd (by simpa using h) hun.2
        · cases h
      unrecorded := fun _ _ => ⟨hun.1, by simpa using hun.2⟩
      undone := by simp
      cleanup := fun _ _ => rfl
      recorded := fun h => by simp at h
      returned := fun h => by cases h
      running := fun h => by cases h
      idle := fun _ h => by cases h }
  · cases h

theorem sendPrepared (hi : Untold parts s) (hph : s.phase = .recording) :
    Untold parts { s with writes := .prepared :: s.writes } :=
  { hi with
    all := fun _ => hi.all (.inr (.inr hph))
    unrecorded := fun _ h => absurd hph h
    cleanup := fun h => hi.cleanup (by simpa using h)
    running := fun h => by simp [hph] at h
    idle := fun _ h => by simp [hph] at h }

theorem crash (hi : Untold parts s) :
    Untold parts { s with up := false, phase := .idle, returned := [] } :=
  { hi with
    all := fun h => hi.all (h.imp_right (Or.imp_right fun h => by cases h))
    unrecorded := fun h => by cases h
    undone := by simp
    cleanup := fun _ h => by cases h
    recorded := fun h => by simp at h
    returned := fun h => by cases h
    running := fun h => by cases h
    idle := fun h => by cases h }

/-- A record that says prepared is a commit; everything else leaves the outcome open. -/
theorem recover (hi : Untold parts s) (h : s.recover = some s') :
    Untold parts s' ∨ Commits parts s' := by
  obtain ⟨hw, hc, ha⟩ := hi.silent
  unfold Protocol.recover at h
  split at h
  · cases h
  · dsimp only at h
    split at h
    next hrec =>
      cases h
      exact .inl { hi with
        all := fun h => by simp [hrec] at h
        unrecorded := fun _ _ => ⟨by simp [hrec], List.not_mem_nil⟩
        undone := by simp
        cleanup := fun h => absurd h List.not_mem_nil
        recorded := fun h => by simp at h
        returned := fun h => by cases h
        running := fun h => by cases h
        idle := fun _ _ => ⟨hrec, rfl⟩ }
    next hrec =>
      cases h
      exact .inl { hi with
        all := fun h => by simp [hrec] at h
        unrecorded := fun _ _ => ⟨by simp [hrec], List.not_mem_nil⟩
        undone := by simp
        cleanup := fun h => absurd h List.not_mem_nil
        recorded := fun _ => by simp [hrec]
        returned := fun h => by cases h
        running := fun h => by cases h
        idle := fun _ h => by cases h }
    next hrec =>
      cases h
      exact .inr
        { told := .inr (.inl rfl)
          kept := fun p hp => .inl (hi.all (.inl hrec) p hp)
          answers := ⟨by simp [hw], ha⟩
          phase := fun _ => .inr rfl
          record := ⟨by simp [hrec], List.not_mem_nil⟩
          down := fun h => by cases h }

/-- The outcome is a commit from the moment it is told while it is being recorded. -/
theorem commits (hi : Untold parts s) (hup : s.up = true) (hph : s.phase = .recording)
    (ht : s'.Told) (hst : s'.status = s.status)
    (hans : (∀ r ∈ s'.watchResponses, r.aborted = false) ∧ s'.aborts = false)
    (hph' : s'.phase = .recording ∨ s'.phase = .committing) (hup' : s'.up = true)
    (hrec : s'.record = s.record) (hw : s'.writes = s.writes) : Commits parts s' where
  told := ht
  kept := fun p hp => .inl (by rw [hst]; exact hi.all (.inr (.inr hph)) p hp)
  answers := hans
  phase := fun _ => hph'
  record := by
    rw [hrec, hw]
    refine ⟨hi.recorded (.inl hph), fun hmem => ?_⟩
    have := hi.cleanup hmem hup
    simp [hph] at this
  down := fun h => by simp [hup'] at h

/-- The outcome is an abort from the moment it is told by a coordinator that has no entry. -/
theorem aborts (hi : Untold parts s) (hup : s.up = true) (hph : s.phase = .aborting ∨ s.phase = .idle)
    (ht : s'.Told) (hst : s'.status = s.status)
    (hans : (∀ r ∈ s'.watchResponses, r.aborted = true) ∧ s'.commits = false)
    (hph' : s'.phase = s.phase) (hup' : s'.up = true)
    (hrec : s'.record = s.record) (hw : s'.writes = s.writes) : Aborts parts s' where
  told := ht
  kept := by
    intro p hp hc
    rw [hst] at hc
    have := hi.live p hp
    simp [hc, Status.finished] at this
  answers := hans
  phase := fun _ => by
    rw [hph']
    exact hph.imp_right .inl
  unrecorded := by
    rw [hrec, hw]
    exact hi.unrecorded hup (by rcases hph with h | h <;> simp [h])
  safe := by
    rcases hph with hph | hph
    · exact .inr (.inr ⟨hup', hph'.trans hph⟩)
    · obtain ⟨habs, hnil⟩ := hi.idle hup hph
      exact .inr (.inl ⟨by simp [hrec, habs], by simp [hw, hnil]⟩)
  again := by
    intro h
    rw [hph'] at h
    rcases hph with hph | hph <;> simp [hph] at h

end Untold

namespace Commits

theorem setStatus (hi : Commits parts s) {p : Nat} {st : Status}
    (hp : p ∈ parts → st = .prepared ∨ st = .committed) : Commits parts (s.setStatus p st) :=
  { hi with
    kept := forall_setStatus (P := fun _ st => st = .prepared ∨ st = .committed) hi.kept
      fun hmem _ => hp hmem }

/-- A participant that has neither prepared nor committed is none of those with effects. -/
theorem not_mem (hi : Commits parts s) {p : Nat} (h1 : s.status p ≠ .prepared)
    (h2 : s.status p ≠ .committed) : p ∉ parts :=
  fun hp => (hi.kept p hp).elim h1 h2

theorem participantAbort (hi : Commits parts s) {p : Nat} (hp : s.status p ≠ .prepared) :
    Commits parts (s.participantAbort p) := by
  unfold Protocol.participantAbort
  split
  · exact hi
  next hfin =>
    refine hi.setStatus fun hmem => absurd hmem (hi.not_mem hp fun hc => ?_)
    simp [hc, Status.finished] at hfin

theorem deliverPrepare (hi : Commits parts s) {p k : Nat} (h : s.deliverPrepare p k = some s') :
    Commits parts s' := by
  unfold Protocol.deliverPrepare at h
  split at h
  · cases h
    split
    next hact =>
      have hi' : Commits parts (s.setStatus p .prepared) := hi.setStatus fun _ => .inl rfl
      exact { hi' with }
    · exact { hi with }
  · cases h

theorem land (hi : Commits parts s) {w : Write} (hw : w ∈ s.writes) (returned : List Write) :
    Commits parts { s with
      record := w.apply
      writes := s.writes.erase w
      returned := returned } := by
  have hsub : ∀ {x}, x ∈ s.writes.erase w → x ∈ s.writes := List.mem_of_mem_erase
  exact { hi with
    record := by
      refine ⟨fun habs => ?_, fun hmem => hi.record.2 (hsub hmem)⟩
      cases w with
      | cleanup => exact hi.record.2 hw
      | prepare | prepared => cases habs
    down := by
      intro hup
      have hset := hi.down hup
      refine ⟨fun hrec => ?_, fun hmem => hset.2 (hsub hmem)⟩
      cases w with
      | prepare => exact hset.2 hw
      | prepared | cleanup => cases hrec }

theorem lose (hi : Commits parts s) (w : Write) :
    Commits parts { s with writes := s.writes.erase w } :=
  { hi with
    record := hi.record.imp_right fun hno h => hno (List.mem_of_mem_erase h)
    down := fun hup => (hi.down hup).imp_right fun hno h => hno (List.mem_of_mem_erase h) }

theorem watch (hi : Commits parts s) {p : Nat} (h : s.watch p = some s') : Commits parts s' := by
  unfold Protocol.watch at h
  split at h
  · cases h
  next hup =>
    have hph := hi.phase (by simpa using hup)
    split at h
    next hp => simp [hp] at hph
    next hp => simp [hp] at hph
    next =>
      cases h
      exact { hi with
        told := .inl (by simp)
        answers := ⟨by simpa using hi.answers.1, hi.answers.2⟩ }
    next =>
      cases h
      exact { hi with
        told := .inl (by simp)
        answers := ⟨by simpa using hi.answers.1, hi.answers.2⟩ }
    all_goals cases h

theorem deliverWatch (hi : Commits parts s) {r : WatchResponse} (h : s.deliverWatch r = some s') :
    Commits parts s' := by
  unfold Protocol.deliverWatch at h
  split at h
  next hr =>
    cases h
    have hab := hi.answers.1 r hr
    split
    · exact hi.setStatus fun _ => .inr rfl
    next hno => exact hi.participantAbort fun hp => hno ⟨hab, hp⟩
  · cases h

theorem recover (hi : Commits parts s) (h : s.recover = some s') : Commits parts s' := by
  unfold Protocol.recover at h
  split at h
  · cases h
  next hup =>
    have hset := hi.down (by simpa using hup)
    dsimp only at h
    split at h
    next hrec => exact absurd hrec hi.record.1
    next hrec => exact absurd hrec hset.1
    next hrec =>
      cases h
      exact { hi with
        told := .inr (.inl rfl)
        phase := fun _ => .inr rfl
        record := ⟨hi.record.1, List.not_mem_nil⟩
        down := fun h => by cases h }

/-- A crash that is not one of those to avoid leaves the record as prepared. -/
theorem crash (hi : Commits parts s) (hok : Careful parts s .crash) :
    Commits parts { s with up := false, phase := .idle, returned := [] } ∨
      ∀ p ∈ parts, s.status p = .committed := by
  rcases hok with ht | hset | ⟨p, hp, hst⟩ | hall
  · exact absurd hi.told ht
  · refine .inl { hi with phase := fun h => ?_, down := fun _ => hset }
    cases h
  · rcases hi.kept p hp with h | h <;> simp [h, Status.stuck] at hst
  · exact .inr hall

end Commits

namespace Aborts

theorem setStatus (hi : Aborts parts s) {p : Nat} {st : Status} (hst : st ≠ .committed)
    (hstuck : (s.status p).stuck = true → st.stuck = true) : Aborts parts (s.setStatus p st) := by
  have hkeep : ∀ q, (s.status q).stuck = true → ((s.setStatus p st).status q).stuck = true := by
    intro q hq
    refine stuck_setStatus hq fun hpq => hstuck ?_
    rwa [hpq]
  exact { hi with
    kept := forall_setStatus (P := fun _ st => st ≠ .committed) hi.kept fun _ _ => hst
    safe := hi.safe.imp_left fun ⟨q, hq, hs⟩ => ⟨q, hq, hkeep q hs⟩
    again := by
      intro hph
      obtain ⟨q, hq, hs, hno⟩ := hi.again hph
      exact ⟨q, hq, hkeep q hs, hno⟩ }

theorem participantAbort (hi : Aborts parts s) (p : Nat) :
    Aborts parts (s.participantAbort p) := by
  unfold Protocol.participantAbort
  split
  · exact hi
  · exact hi.setStatus (by decide) fun _ => rfl

theorem deliverPrepare (hi : Aborts parts s) {p k : Nat} (h : s.deliverPrepare p k = some s') :
    Aborts parts s' := by
  unfold Protocol.deliverPrepare at h
  split at h
  · cases h
    -- the one that cannot prepare still has not answered that it is prepared
    have hno : ∀ q, (s.status q).stuck = true → ⟨q, s.incarnation, true⟩ ∉ s.responses →
        (⟨q, s.incarnation, true⟩ : Response) ∉
          ⟨p, k, prepareOk (s.status p)⟩ :: s.responses := by
      intro q hq hno hmem
      rcases List.mem_cons.mp hmem with heq | hmem
      · injection heq with hqp _ hok
        subst hqp
        exact absurd (stuck_of_prepareOk hok.symm) (by simp [hq])
      · exact hno hmem
    have hi1 : Aborts parts
        { s with responses := ⟨p, k, prepareOk (s.status p)⟩ :: s.responses } :=
      { hi with
        again := by
          intro hph
          obtain ⟨q, hq, hs, hr⟩ := hi.again hph
          exact ⟨q, hq, hs, hno q hs hr⟩ }
    split
    next hact =>
      refine hi1.setStatus (by decide) fun hs => ?_
      simp [hact, Status.stuck] at hs
    · exact hi1
  · cases h

theorem land (hi : Aborts parts s) {w : Write} (hw : w ∈ s.writes) (returned : List Write) :
    Aborts parts { s with
      record := w.apply
      writes := s.writes.erase w
      returned := returned } := by
  have hsub : ∀ {x}, x ∈ s.writes.erase w → x ∈ s.writes := List.mem_of_mem_erase
  exact { hi with
    unrecorded := by
      refine ⟨fun hrec => ?_, fun hmem => hi.unrecorded.2 (hsub hmem)⟩
      cases w with
      | prepared => exact hi.unrecorded.2 hw
      | prepare | cleanup => cases hrec
    safe := by
      rcases hi.safe with h | h | h
      · exact .inl h
      · refine .inr (.inl ⟨fun hrec => ?_, fun hmem => h.2 (hsub hmem)⟩)
        cases w with
        | prepare => exact h.2 hw
        | prepared | cleanup => cases hrec
      · exact .inr (.inr h) }

theorem lose (hi : Aborts parts s) (w : Write) :
    Aborts parts { s with writes := s.writes.erase w } :=
  { hi with
    unrecorded := hi.unrecorded.imp_right fun hno h => hno (List.mem_of_mem_erase h)
    safe := hi.safe.imp_right (Or.imp_left fun h =>
      h.imp_right fun hno hmem => hno (List.mem_of_mem_erase hmem)) }

/-- Who prepares again does not get to a decision. -/
theorem decided (hi : Aborts parts s) : s.decided parts = none := by
  unfold Protocol.decided
  rw [if_neg]
  rintro ⟨hup, hall, hph | ⟨hph, -⟩⟩
  · obtain ⟨p, hp, -, hno⟩ := hi.again hph
    exact hno (by simpa using List.all_eq_true.mp hall p hp)
  · simpa [hph] using hi.phase hup

theorem abort (hi : Aborts parts s) (h : s.abort parts = some s') : Aborts parts s' := by
  unfold Protocol.abort at h
  split at h
  next ha =>
    cases h
    exact { hi with
      phase := fun _ => .inl rfl
      unrecorded := ⟨hi.unrecorded.1, by simpa using hi.unrecorded.2⟩
      safe := .inr (.inr ⟨ha.1, rfl⟩)
      again := fun h => by cases h }
  · cases h

theorem watch (hi : Aborts parts s) {p : Nat} (h : s.watch p = some s') : Aborts parts s' := by
  unfold Protocol.watch at h
  split at h
  · cases h
  next hup =>
    have hph := hi.phase (by simpa using hup)
    split at h
    next =>
      cases h
      exact { hi with
        told := .inl (by simp)
        answers := ⟨by simpa using hi.answers.1, hi.answers.2⟩ }
    next =>
      cases h
      exact { hi with
        told := .inl (by simp)
        answers := ⟨by simpa using hi.answers.1, hi.answers.2⟩ }
    next hp => simp [hp] at hph
    next hp => simp [hp] at hph
    all_goals cases h

theorem deliverWatch (hi : Aborts parts s) {r : WatchResponse} (h : s.deliverWatch r = some s') :
    Aborts parts s' := by
  unfold Protocol.deliverWatch at h
  split at h
  next hr =>
    cases h
    rw [if_neg (by simp [hi.answers.1 r hr])]
    exact hi.participantAbort _
  · cases h

theorem crash (hi : Aborts parts s) (hok : Careful parts s .crash) :
    Aborts parts { s with up := false, phase := .idle, returned := [] } ∨
      ∀ p ∈ parts, s.status p = .committed := by
  have hcrash : (∃ p ∈ parts, (s.status p).stuck = true) ∨ s.Settled →
      Aborts parts { s with up := false, phase := .idle, returned := [] } := fun hsafe =>
    { hi with
      phase := fun h => by cases h
      safe := hsafe.imp_right .inl
      again := fun h => by cases h }
  rcases hok with ht | hset | hstuck | hall
  · exact absurd hi.told ht
  · exact .inl (hcrash (.inr hset))
  · exact .inl (hcrash (.inl hstuck))
  · exact .inr hall

theorem recover (hi : Aborts parts s) (hage : ∀ r ∈ s.responses, r.incarnation ≤ s.incarnation)
    (h : s.recover = some s') : Aborts parts s' := by
  unfold Protocol.recover at h
  split at h
  · cases h
  next hup =>
    dsimp only at h
    split at h
    next hrec =>
      cases h
      exact { hi with
        phase := fun _ => .inr (.inl rfl)
        unrecorded := ⟨hi.unrecorded.1, List.not_mem_nil⟩
        safe := .inr (.inl ⟨by simp [hrec], List.not_mem_nil⟩)
        again := fun h => by cases h }
    next hrec =>
      cases h
      have hstuck : ∃ p ∈ parts, (s.status p).stuck = true := by
        rcases hi.safe with h | h | h
        · exact h
        · exact absurd hrec h.1
        · exact absurd h.1 hup
      exact { hi with
        phase := fun _ => .inr (.inr rfl)
        unrecorded := ⟨hi.unrecorded.1, List.not_mem_nil⟩
        safe := .inl hstuck
        again := by
          -- nobody has answered the new incarnation yet
          obtain ⟨p, hp, hs⟩ := hstuck
          refine fun _ => ⟨p, hp, hs, fun hmem => ?_⟩
          have hle : s.incarnation + 1 ≤ s.incarnation := hage _ hmem
          omega }
    next hrec => exact absurd hrec hi.unrecorded.1

end Aborts

theorem Untold.step {a : Action} (hi : Untold parts s) (hdown : s.up = false → s.phase = .idle)
    (hs : s.step parts a = some s') : Stage parts s' := by
  obtain ⟨hw, hc, ha⟩ := hi.silent
  cases a with
  | doom p =>
    simp only [Protocol.step, Option.ite_none_right_eq_some, Option.some.injEq] at hs
    rw [← hs.2]
    exact .inl (hi.setStatus rfl fun h => by simp [hs.1] at h)
  | complete =>
    simp only [Protocol.step, Option.ite_none_right_eq_some, Option.some.injEq] at hs
    rw [← hs.2]
    exact .inl (hi.complete hs.1.1 hs.1.2)
  | land w answered =>
    simp only [Protocol.step, Option.ite_none_right_eq_some, Option.some.injEq] at hs
    rw [← hs.2]
    exact .inl (hi.land hs.1 answered hdown)
  | lose w =>
    simp only [Protocol.step, Option.ite_none_right_eq_some, Option.some.injEq] at hs
    rw [← hs.2]
    exact .inl (hi.lose w)
  | deliverPrepare p k => exact .inl (hi.deliverPrepare hs)
  | decide => exact .inl (hi.decided hs)
  | abort => exact .inl (hi.abort hs)
  | sendPrepared =>
    simp only [Protocol.step, Option.ite_none_right_eq_some, Option.some.injEq] at hs
    rw [← hs.2]
    exact .inl (hi.sendPrepared hs.1.2)
  | sendCommits =>
    simp only [Protocol.step, Option.ite_none_right_eq_some, Option.some.injEq] at hs
    rw [← hs.2]
    exact .inr (.inl (hi.commits hs.1.1 hs.1.2.1 (.inr (.inl rfl)) rfl ⟨by simp [hw], ha⟩
      (.inr rfl) hs.1.1 rfl rfl))
  | deliverCommit p => simp [Protocol.step, hc] at hs
  | finishCommit =>
    simp only [Protocol.step, Option.ite_none_right_eq_some] at hs
    exact absurd hs.1.2.1 hi.undone
  | sendAborts =>
    simp only [Protocol.step, Option.ite_none_right_eq_some, Option.some.injEq] at hs
    rw [← hs.2]
    exact .inr (.inr (.inl (hi.aborts hs.1.1 (.inl hs.1.2.1) (.inr (.inr rfl)) rfl
      ⟨by simp [hw], hc⟩ rfl hs.1.1 rfl rfl)))
  | deliverAbort p => simp [Protocol.step, ha] at hs
  | watch p =>
    simp only [Protocol.step, Protocol.watch] at hs
    split at hs
    · cases hs
    next hup =>
      have hup : s.up = true := by simpa using hup
      split at hs
      next hph =>
        cases hs
        exact .inr (.inr (.inl (hi.aborts hup (.inr hph) (.inl (by simp)) rfl
          ⟨by simp [hw], hc⟩ rfl hup rfl rfl)))
      next hph =>
        cases hs
        exact .inr (.inr (.inl (hi.aborts hup (.inl hph) (.inl (by simp)) rfl
          ⟨by simp [hw], hc⟩ rfl hup rfl rfl)))
      next hph =>
        cases hs
        exact .inr (.inl (hi.commits hup hph (.inl (by simp)) rfl ⟨by simp [hw], ha⟩
          (.inl hph) hup rfl rfl))
      next hph => exact absurd hph hi.undone
      all_goals cases hs
  | deliverWatch r => simp [Protocol.step, Protocol.deliverWatch, hw] at hs
  | crash =>
    simp only [Protocol.step, Option.ite_none_right_eq_some, Option.some.injEq] at hs
    rw [← hs.2]
    exact .inl hi.crash
  | recover => exact (hi.recover hs).imp_right .inl

theorem Commits.step {a : Action} (hi : Commits parts s) (hok : Careful parts s a)
    (hs : s.step parts a = some s') : Stage parts s' := by
  cases a with
  | doom p =>
    simp only [Protocol.step, Option.ite_none_right_eq_some, Option.some.injEq] at hs
    rw [← hs.2]
    have hp := hi.not_mem (p := p) (by simp [hs.1]) (by simp [hs.1])
    exact .inr (.inl (hi.setStatus fun hmem => absurd hmem hp))
  | land w answered =>
    simp only [Protocol.step, Option.ite_none_right_eq_some, Option.some.injEq] at hs
    rw [← hs.2]
    exact .inr (.inl (hi.land hs.1 _))
  | lose w =>
    simp only [Protocol.step, Option.ite_none_right_eq_some, Option.some.injEq] at hs
    rw [← hs.2]
    exact .inr (.inl (hi.lose w))
  | deliverPrepare p k => exact .inr (.inl (hi.deliverPrepare hs))
  | sendPrepared =>
    simp only [Protocol.step, Option.ite_none_right_eq_some, Option.some.injEq] at hs
    rw [← hs.2]
    exact .inr (.inl { hi with
      record := ⟨hi.record.1, by simpa using hi.record.2⟩
      down := fun h => by simp [hs.1.1] at h })
  | sendCommits =>
    simp only [Protocol.step, Option.ite_none_right_eq_some, Option.some.injEq] at hs
    rw [← hs.2]
    exact .inr (.inl { hi with
      told := .inr (.inl rfl)
      phase := fun _ => .inr rfl })
  | deliverCommit p =>
    simp only [Protocol.step, Option.ite_none_right_eq_some, Option.some.injEq] at hs
    rw [← hs.2]
    exact .inr (.inl (hi.setStatus fun _ => .inr rfl))
  | finishCommit =>
    simp only [Protocol.step, Option.ite_none_right_eq_some, Option.some.injEq] at hs
    rw [← hs.2]
    refine .inr (.inr (.inr fun p hp => ?_))
    have hfin := hs.1.2.2 p hp
    show s.status p = .committed
    rcases hi.kept p hp with h | h
    · simp [h, Status.finished] at hfin
    · exact h
  | deliverAbort p => simp [Protocol.step, hi.answers.2] at hs
  | watch p => exact .inr (.inl (hi.watch hs))
  | deliverWatch r => exact .inr (.inl (hi.deliverWatch hs))
  | crash =>
    simp only [Protocol.step, Option.ite_none_right_eq_some, Option.some.injEq] at hs
    rw [← hs.2]
    exact .inr ((hi.crash hok).imp_right .inr)
  | recover => exact .inr (.inl (hi.recover hs))
  | complete | decide | abort | sendAborts =>
    -- the coordinator is past all of these
    simp only [Protocol.step, Protocol.decided, Protocol.abort,
      Option.ite_none_right_eq_some] at hs
    have hph := hi.phase hs.1.1
    exfalso
    grind

theorem Aborts.step {a : Action} (hi : Aborts parts s) (hok : Careful parts s a)
    (hage : ∀ r ∈ s.responses, r.incarnation ≤ s.incarnation)
    (hs : s.step parts a = some s') : Stage parts s' := by
  cases a with
  | doom p =>
    simp only [Protocol.step, Option.ite_none_right_eq_some, Option.some.injEq] at hs
    rw [← hs.2]
    exact .inr (.inr (.inl (hi.setStatus (by decide) fun _ => rfl)))
  | land w answered =>
    simp only [Protocol.step, Option.ite_none_right_eq_some, Option.some.injEq] at hs
    rw [← hs.2]
    exact .inr (.inr (.inl (hi.land hs.1 _)))
  | lose w =>
    simp only [Protocol.step, Option.ite_none_right_eq_some, Option.some.injEq] at hs
    rw [← hs.2]
    exact .inr (.inr (.inl (hi.lose w)))
  | deliverPrepare p k => exact .inr (.inr (.inl (hi.deliverPrepare hs)))
  | decide =>
    rw [Protocol.step, hi.decided] at hs
    cases hs
  | abort => exact .inr (.inr (.inl (hi.abort hs)))
  | deliverCommit p => simp [Protocol.step, hi.answers.2] at hs
  | sendAborts =>
    simp only [Protocol.step, Option.ite_none_right_eq_some, Option.some.injEq] at hs
    rw [← hs.2]
    exact .inr (.inr (.inl { hi with told := .inr (.inr rfl) }))
  | deliverAbort p =>
    simp only [Protocol.step, Option.ite_none_right_eq_some, Option.some.injEq] at hs
    rw [← hs.2]
    exact .inr (.inr (.inl (hi.participantAbort p)))
  | watch p => exact .inr (.inr (.inl (hi.watch hs)))
  | deliverWatch r => exact .inr (.inr (.inl (hi.deliverWatch hs)))
  | crash =>
    simp only [Protocol.step, Option.ite_none_right_eq_some, Option.some.injEq] at hs
    rw [← hs.2]
    exact .inr (.inr (hi.crash hok))
  | recover => exact .inr (.inr (.inl (hi.recover hage hs)))
  | complete | sendPrepared | sendCommits | finishCommit =>
    -- the coordinator does none of these
    simp only [Protocol.step, Option.ite_none_right_eq_some] at hs
    have hph := hi.phase hs.1.1
    exfalso
    grind

namespace Dated

theorem setStatus (hi : Dated s) (p : Nat) (st : Status) : Dated (s.setStatus p st) := { hi with }

theorem participantAbort (hi : Dated s) (p : Nat) : Dated (s.participantAbort p) := by
  unfold Protocol.participantAbort
  split
  · exact hi
  · exact hi.setStatus _ _

theorem deliverPrepare (hi : Dated s) {p k : Nat} (h : s.deliverPrepare p k = some s') :
    Dated s' := by
  unfold Protocol.deliverPrepare at h
  split at h
  next hk =>
    cases h
    have hi' : Dated { s with responses := ⟨p, k, prepareOk (s.status p)⟩ :: s.responses } :=
      { hi with
        responses := by
          intro r hr
          rcases List.mem_cons.mp hr with rfl | hr
          · exact hi.prepares k hk
          · exact hi.responses r hr }
    split
    · exact hi'.setStatus _ _
    · exact hi'
  · cases h

theorem recover (hi : Dated s) (h : s.recover = some s') : Dated s' := by
  have hresp : ∀ r ∈ s.responses, r.incarnation ≤ s.incarnation + 1 := fun r hr =>
    Nat.le_succ_of_le (hi.responses r hr)
  have hprep : ∀ k ∈ s.prepares, k ≤ s.incarnation + 1 := fun k hk =>
    Nat.le_succ_of_le (hi.prepares k hk)
  unfold Protocol.recover at h
  split at h
  · cases h
  · dsimp only at h
    split at h
    · cases h
      exact ⟨hprep, hresp, fun h => by cases h⟩
    · cases h
      refine ⟨fun k hk => ?_, hresp, fun h => by cases h⟩
      rcases List.mem_cons.mp hk with rfl | hk
      · exact Nat.le_refl _
      · exact hprep k hk
    · cases h
      exact ⟨hprep, hresp, fun h => by cases h⟩

theorem step {a : Action} (hi : Dated s) (hs : s.step parts a = some s') : Dated s' := by
  cases a with
  | doom p | deliverCommit p =>
    simp only [Protocol.step, Option.ite_none_right_eq_some, Option.some.injEq] at hs
    rw [← hs.2]
    exact hi.setStatus _ _
  | complete =>
    simp only [Protocol.step, Option.ite_none_right_eq_some, Option.some.injEq] at hs
    rw [← hs.2]
    refine ⟨fun k hk => ?_, hi.responses, fun h => by simp [hs.1.1] at h⟩
    rcases List.mem_cons.mp hk with rfl | hk
    · exact Nat.le_refl _
    · exact hi.prepares k hk
  | land w answered | lose w | sendAborts =>
    simp only [Protocol.step, Option.ite_none_right_eq_some, Option.some.injEq] at hs
    rw [← hs.2]
    exact { hi with }
  | deliverPrepare p k => exact hi.deliverPrepare hs
  | decide | abort | sendPrepared | sendCommits | finishCommit =>
    simp only [Protocol.step, Protocol.decided, Protocol.abort, Option.ite_none_right_eq_some,
      Option.some.injEq] at hs
    rw [← hs.2]
    exact { hi with down := fun h => by simp [hs.1.1] at h }
  | deliverAbort p =>
    simp only [Protocol.step, Option.ite_none_right_eq_some, Option.some.injEq] at hs
    rw [← hs.2]
    exact hi.participantAbort p
  | watch p =>
    simp only [Protocol.step, Protocol.watch] at hs
    split at hs
    · cases hs
    · split at hs <;> cases hs <;> exact { hi with }
  | deliverWatch r =>
    simp only [Protocol.step, Protocol.deliverWatch, Option.ite_none_right_eq_some,
      Option.some.injEq] at hs
    rw [← hs.2]
    split
    · exact hi.setStatus _ _
    · exact hi.participantAbort _
  | crash =>
    simp only [Protocol.step, Option.ite_none_right_eq_some, Option.some.injEq] at hs
    rw [← hs.2]
    exact { hi with down := fun _ => rfl }
  | recover => exact hi.recover hs

end Dated

namespace Inv

theorem initial : Inv parts Protocol.initial where
  dated :=
    { prepares := fun _ h => absurd h List.not_mem_nil
      responses := fun _ h => absurd h List.not_mem_nil
      down := fun h => by cases h }
  stage := .inl .initial

theorem step {a : Action} (hi : Inv parts s) (hok : Careful parts s a)
    (hs : s.step parts a = some s') : Inv parts s' := by
  refine ⟨hi.dated.step hs, ?_⟩
  rcases hi.stage with h | h | h | h
  · exact h.step hi.dated.down hs
  · exact h.step hok hs
  · exact h.step hok hi.dated.responses hs
  · exact .inr (.inr (.inr fun p hp => committed_step (h p hp) hs))

end Inv

/-- The invariant holds along every careful run. -/
theorem careful_inv (h : Reach (step parts) (Careful parts) Protocol.initial s) : Inv parts s :=
  h.invariant (Inv parts) Inv.initial fun _ _ _ hi hok hs => hi.step hok hs

/-! ## Agreement -/

theorem Inv.agree (hi : Inv parts s) : Agree parts s := by
  intro p hp q hq ⟨hc, ha⟩
  rcases hi.stage with h | h | h | h
  · have := h.live p hp
    simp [hc, Status.finished] at this
  · rcases h.kept q hq with h | h <;> simp [h] at ha
  · exact h.kept p hp hc
  · simp [h q hq] at ha

/-- Along a careful run no participant commits what another one aborts. -/
theorem careful_agree {parts : List Nat} {s : Protocol}
    (h : Reach (step parts) (Careful parts) Protocol.initial s) : Agree parts s :=
  (careful_inv h).agree

/-- Two participants prepare; the first hears of the commit from its watch, but the record
does not say so yet. -/
def toldEarly : List Action :=
  [.complete, .land .prepare true, .deliverPrepare 1 0, .deliverPrepare 2 0, .decide, .watch 1,
    .deliverWatch ⟨1, false⟩]

/-- The record is written before the crash: the recovered coordinator commits. -/
def recordedThenCrashed : List Action :=
  toldEarly ++ [.sendPrepared, .land .prepared false, .crash, .recover, .deliverCommit 2]

theorem recordedThenCrashed_agree :
    Agree [1, 2] (last (step [1, 2]) Protocol.initial recordedThenCrashed) ∧
      (last (step [1, 2]) Protocol.initial recordedThenCrashed).status 1 = .committed ∧
      (last (step [1, 2]) Protocol.initial recordedThenCrashed).status 2 = .committed := by
  refine ⟨careful_agree (reach_last recordedThenCrashed .init (by decide +kernel)), ?_⟩
  decide +kernel

/-- The crash comes first: the recovered coordinator prepares again, the participant that has
committed refuses, and the other one aborts. -/
def crashedThenRefused : List Action :=
  toldEarly ++ [.crash, .recover, .deliverPrepare 1 1, .abort, .watch 2, .deliverWatch ⟨2, true⟩]

theorem split_outcome :
    Reach (step [1, 2]) (fun _ _ => True) Protocol.initial
        (last (step [1, 2]) Protocol.initial crashedThenRefused) ∧
      ¬ Agree [1, 2] (last (step [1, 2]) Protocol.initial crashedThenRefused) := by
  refine ⟨reach_last crashedThenRefused .init (by decide +kernel), fun h => ?_⟩
  exact h 1 (by decide) 2 (by decide) (by decide +kernel)

end Reboot.Txn.TwoPhase
