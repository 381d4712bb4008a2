import Reboot.Lib.Run
import Reboot.Txn.DatabaseService
import Reboot.Txn.Lock

/-!
# Participants of one state and the requests they leave in flight

A server and its database exchange requests, and a request outlives the coroutine that
sent it: cancelling the coroutine, or losing the connection, only stops the waiting. The
database handles what it received, when it gets to it, in any order. This module puts
the participants of one state around `DatabaseService` under every such interleaving and
asks two things of `transaction_participant_abort`:

* `abort_spares_others` — does it leave the other transactions of the state alone? Not
  when one of them has something in the database: the abort names the state only.
* `aborted_owns_nothing` — does it leave nothing behind? Not when a call outlives it:
  the call's Store begins the transaction again.

Both hold in the runs the respective theorem describes, and the runs after them show
that the condition is needed.

Mirroring notes:
- A participant is an object; its index in `participants` is its identity. When a
  transaction is finished here and a call of it arrives after that, the call joins again
  with a new object, and calls that started before still have the old one.
- `lock` is the holder of `transaction.lock` and what it waits for. Any holder can be
  cancelled, or fail to hear back, at any time: `cancel`.
- A participant holds the state's `Lock` from `join` until it finishes; waiting for it is
  the subject of `LockSystem`.
- `_store` takes `transaction.lock` and does not look whether the transaction finished in
  the meantime. A call only looks when it starts (`call`).
- Not here: restarts (`Recovery`), nested ownership, the checks of `Prepare` that only
  refuse (rogue streaming readers, `validate`, `unrecoverable_abort`). Leaving a check
  out only adds runs.
-/

namespace Reboot.Txn.Requests

open Reboot.Lib

/-- How a participant finished. -/
inductive Outcome
  | committed
  | aborted
  deriving DecidableEq

/-- `prepare_task`. -/
inductive Task
  | notStarted
  /-- waits for the answer to the given request -/
  | running (request : Nat)
  /-- finished by raising, `_task_raised` -/
  | raised
  /-- finished after it marked the transaction prepared -/
  | returned
  deriving DecidableEq

/-- Who holds `transaction.lock`, and what it waits for. -/
inductive Holder (υ : Type)
  /-- `_store`, which has sent its request -/
  | storing (request : Nat) (upserts mutations : List υ)
  /-- a Prepare, which waits for the prepare task -/
  | preparing
  /-- a commit, which has sent its request -/
  | committing (request : Nat)
  /-- an abort in `wait_for_prepare_task` -/
  | aborting
  /-- an abort, which has sent its request -/
  | rollingBack (request : Nat)
  deriving DecidableEq

/-- `StateManager.Transaction`, as far as its requests to the database go. -/
structure Participant (τ υ : Type) where
  root : τ
  mode : Mode
  usingRestartDetection : Bool
  /-- the state and the tasks written so far -/
  upserts : List υ
  idempotentMutations : List υ
  stored : Bool
  prepareTask : Task
  prepared : Bool
  outcome : Option Outcome
  lock : Option (Holder υ)
  /-- calls of the transaction that have not returned yet -/
  calls : Nat
  deriving DecidableEq

/-- What a server asks the database. -/
inductive Ask (τ υ : Type)
  | store (transaction : τ) (upserts mutations : List υ)
  | prepare (transaction : Option τ) (updates : List υ)
  | commit
  | abort
  deriving DecidableEq

/-- A request and, once the database has handled it, whether it was accepted. -/
structure Request (τ υ : Type) where
  sender : Nat
  ask : Ask τ υ
  answer : Option Bool
  deriving DecidableEq

/-- One state on its server and in its database. -/
structure Site (τ υ : Type) where
  db : Database τ υ
  participants : List (Participant τ υ)
  requests : List (Request τ υ)
  /-- The requests the database has accepted, latest first: the sender, and whether it
  was a write (Store or Prepare) or an end (Commit or Abort). -/
  handled : List (Nat × Bool)

/-- What can happen next. `p` is a participant, `r` a request. -/
inductive Action (τ υ : Type)
  /-- the first call of a transaction on this state, once it has the state's lock -/
  | join (t : τ) (mode : Mode) (usingRestartDetection : Bool)
  | call (p : Nat)
  | upgrade (p : Nat)
  /-- a call gets to `_store` -/
  | store (p : Nat) (upserts mutations : List υ)
  | callReturns (p : Nat)
  | prepare (p : Nat) (readOnlyAware : Bool)
  /-- the prepare task hears back -/
  | taskResumes (p : Nat)
  /-- the prepare task fails to hear back -/
  | taskRaises (p : Nat)
  | commit (p : Nat)
  | abort (p : Nat)
  /-- the abort gets past `wait_for_prepare_task` -/
  | rollback (p : Nat)
  /-- what the holder of `transaction.lock` waits for has arrived -/
  | resume (p : Nat)
  | cancel (p : Nat)
  /-- the database handles a request -/
  | handle (r : Nat)
  deriving DecidableEq

/-- Whether the prepare task is still in flight. -/
def Task.isRunning : Task → Bool
  | .running _ => true
  | _ => false

/-- Stores and prepares write, commits and aborts end. -/
def Ask.writes {τ υ : Type} : Ask τ υ → Bool
  | .store .. => true
  | .prepare .. => true
  | .commit => false
  | .abort => false

/-- The request is about the transaction of the participant that sent it, or names none. -/
def Ask.Of {τ υ : Type} (t : τ) : Ask τ υ → Prop
  | .store t' _ _ => t' = t
  | .prepare t' _ => ∀ u ∈ t', u = t
  | .commit => True
  | .abort => True

namespace Participant

variable {τ υ : Type}

/-- `_prepared` and `_committed` both unset: a call may start. -/
def isUsable (x : Participant τ υ) : Bool := x.outcome.isNone && !x.prepared

/-- The branch of prepare that touches no disk. -/
def isElidable (x : Participant τ υ) (readOnlyAware : Bool) : Bool :=
  x.mode == .shared && x.idempotentMutations.isEmpty && x.usingRestartDetection &&
    readOnlyAware

/-- The prepare request: all deferred writes, or nothing when they were stored before.
Under a shared lock the state has not been changed. -/
def prepareRequest (x : Participant τ υ) : Ask τ υ :=
  if x.usingRestartDetection then
    .prepare (some x.root)
      ((if x.mode = .exclusive then x.upserts else []) ++ x.idempotentMutations)
  else .prepare none []

/-- The in-memory half of `_store`. -/
def record (x : Participant τ υ) (upserts mutations : List υ) : Participant τ υ :=
  { x with
    upserts := x.upserts ++ upserts
    idempotentMutations := x.idempotentMutations ++ mutations }

end Participant

namespace Site

variable {τ υ : Type} [DecidableEq τ]

/-- Nobody participates and nothing is stored. -/
def init : Site τ υ := ⟨Database.empty, [], [], []⟩

/-- Replace a participant. -/
def set (s : Site τ υ) (p : Nat) (x : Participant τ υ) : Site τ υ :=
  { s with participants := s.participants.set p x }

/-- Send a request; its index is its identity. -/
def send (s : Site τ υ) (p : Nat) (ask : Ask τ υ) : Site τ υ :=
  { s with requests := s.requests ++ [⟨p, ask, none⟩] }

/-- What the database answered to a request, if it did. -/
def answerOf (s : Site τ υ) (r : Nat) : Option Bool := (s.requests[r]?).bind (·.answer)

/-- A participant that has not finished has the state's lock. -/
def holders (s : Site τ υ) : List (Participant τ υ) :=
  s.participants.filter (·.outcome.isNone)

/-- `transactionally()` for a transaction that does not participate yet. Shared holders
coexist, an exclusive one is alone. -/
def join (s : Site τ υ) (t : τ) (mode : Mode) (usingRestartDetection : Bool) :
    Option (Site τ υ) :=
  if (∀ x ∈ s.holders, x.root ≠ t) ∧
      (if mode = .shared then ∀ x ∈ s.holders, x.mode = .shared else s.holders = []) then
    some { s with participants := s.participants ++
      [⟨t, mode, usingRestartDetection, [], [], false, .notStarted, false, none, none, 1⟩] }
  else none

/-- `_store`. With restart detection the writes are kept in memory. -/
def store (s : Site τ υ) (p : Nat) (x : Participant τ υ) (upserts mutations : List υ) :
    Option (Site τ υ) :=
  if 0 < x.calls ∧ x.lock = none ∧ (upserts ≠ [] → x.mode = .exclusive) then
    if x.usingRestartDetection then some (s.set p (x.record upserts mutations))
    else
      some ((s.send p (.store x.root upserts mutations)).set p
        { x with lock := some (.storing s.requests.length upserts mutations) })
  else none

/-- A call returns, or raises. -/
def callReturns (s : Site τ υ) (p : Nat) (x : Participant τ υ) : Option (Site τ υ) :=
  match x.lock with
  | some (.storing ..) =>
    if 1 < x.calls then some (s.set p { x with calls := x.calls - 1 }) else none
  | _ => if 0 < x.calls then some (s.set p { x with calls := x.calls - 1 }) else none

/-- `Prepare` and `transaction_participant_prepare`, until they wait for the task. -/
def prepare (s : Site τ υ) (p : Nat) (x : Participant τ υ) (readOnlyAware : Bool) :
    Option (Site τ υ) :=
  if x.isUsable ∧ x.lock = none then
    if x.isElidable readOnlyAware then
      some (s.set p { x with prepared := true, outcome := some .committed })
    else if x.prepareTask = .notStarted ∨ x.prepareTask = .raised then
      some ((s.send p x.prepareRequest).set p
        { x with prepareTask := .running s.requests.length, lock := some .preparing })
    else some (s.set p { x with lock := some .preparing })
  else none

/-- The prepare task hears back. -/
def taskResumes (s : Site τ υ) (p : Nat) (x : Participant τ υ) : Option (Site τ υ) :=
  match x.prepareTask with
  | .running r =>
    match s.answerOf r with
    | some true => some (s.set p { x with prepareTask := .returned, prepared := true })
    | some false => some (s.set p { x with prepareTask := .raised })
    | none => none
  | _ => none

/-- `transaction_participant_commit`, until it waits for the database. -/
def commit (s : Site τ υ) (p : Nat) (x : Participant τ υ) : Option (Site τ υ) :=
  if x.outcome = none ∧ x.lock = none ∧ x.prepared ∧ ¬ x.prepareTask.isRunning then
    some ((s.send p .commit).set p { x with lock := some (.committing s.requests.length) })
  else none

/-- `transaction_participant_abort` after `wait_for_prepare_task`. Without restart
detection a transaction that was not stored is not in the database, or so the server
thinks: the database is not asked. -/
def rollback (s : Site τ υ) (p : Nat) (x : Participant τ υ) : Option (Site τ υ) :=
  match x.lock with
  | some .aborting =>
    if x.prepareTask.isRunning then none
    else if x.stored || x.usingRestartDetection then
      some ((s.send p .abort).set p
        { x with lock := some (.rollingBack s.requests.length) })
    else some (s.set p { x with lock := none, outcome := some .aborted })
  | _ => none

/-- The holder of `transaction.lock` has what it waits for. -/
def resume (s : Site τ υ) (p : Nat) (x : Participant τ υ) : Option (Site τ υ) :=
  match x.lock with
  | some (.storing r upserts mutations) =>
    match s.answerOf r with
    | some true =>
      some (s.set p { x.record upserts mutations with stored := true, lock := none })
    | some false => some (s.set p { x with lock := none })
    | none => none
  | some .preparing =>
    if x.prepareTask.isRunning then none else some (s.set p { x with lock := none })
  | some (.committing r) =>
    match s.answerOf r with
    | some true => some (s.set p { x with lock := none, outcome := some .committed })
    | some false => some (s.set p { x with lock := none })
    | none => none
  | some (.rollingBack r) =>
    match s.answerOf r with
    | some true => some (s.set p { x with lock := none, outcome := some .aborted })
    | some false => some (s.set p { x with lock := none })
    | none => none
  | some .aborting => none
  | none => none

/-- What the database does with a request. -/
def serve (d : Database τ υ) : Ask τ υ → Except Refusal (Database τ υ)
  | .store t us ms => d.store (some t) us ms
  | .prepare t us => d.transactionParticipantPrepare t us
  | .commit => d.transactionParticipantCommit
  | .abort => .ok d.transactionParticipantAbort

/-- The database handles a request it has not handled yet. -/
def handle (s : Site τ υ) (r : Nat) : Option (Site τ υ) :=
  match s.requests[r]? with
  | some q =>
    if q.answer = none then
      match serve s.db q.ask with
      | .ok d =>
        some { s with
          db := d
          requests := s.requests.set r { q with answer := some true }
          handled := (q.sender, q.ask.writes) :: s.handled }
      | .error _ =>
        some { s with requests := s.requests.set r { q with answer := some false } }
    else none
  | none => none

/-- Something happens to a participant. -/
def onParticipant (s : Site τ υ) (p : Nat) (f : Participant τ υ → Option (Site τ υ)) :
    Option (Site τ υ) :=
  match s.participants[p]? with
  | some x => f x
  | none => none

/-- One turn. -/
def step (s : Site τ υ) : Action τ υ → Option (Site τ υ)
  | .join t mode rd => s.join t mode rd
  | .call p => s.onParticipant p fun x =>
    if x.isUsable then some (s.set p { x with calls := x.calls + 1 }) else none
  | .upgrade p => s.onParticipant p fun x =>
    if 0 < x.calls ∧ x.outcome = none ∧ s.holders.length = 1 then
      some (s.set p { x with mode := .exclusive })
    else none
  | .store p us ms => s.onParticipant p fun x => s.store p x us ms
  | .callReturns p => s.onParticipant p fun x => s.callReturns p x
  | .prepare p readOnlyAware => s.onParticipant p fun x => s.prepare p x readOnlyAware
  | .taskResumes p => s.onParticipant p fun x => s.taskResumes p x
  | .taskRaises p => s.onParticipant p fun x =>
    if x.prepareTask.isRunning then some (s.set p { x with prepareTask := .raised }) else none
  | .commit p => s.onParticipant p fun x => s.commit p x
  | .abort p => s.onParticipant p fun x =>
    if x.outcome = none ∧ x.lock = none then some (s.set p { x with lock := some .aborting })
    else none
  | .rollback p => s.onParticipant p fun x => s.rollback p x
  | .resume p => s.onParticipant p fun x => s.resume p x
  | .cancel p => s.onParticipant p fun x =>
    if x.lock.isSome then some (s.set p { x with lock := none }) else none
  | .handle r => s.handle r

/-! ## What the database has accepted of a participant -/

/-- The last request of the participant that the database accepted was a Store or a
Prepare, and not its commit or its abort. -/
def begun (s : Site τ υ) (p : Nat) : Bool :=
  match s.handled.find? (fun h => h.1 == p) with
  | some h => h.2
  | none => false

/-- The participant's abort has completed. -/
def isAborted (s : Site τ υ) (p : Nat) : Bool :=
  (s.participants[p]?).any fun x => x.outcome == some .aborted

/-- The root transaction of a participant. -/
def rootOf (s : Site τ υ) (p : Nat) : Option τ := (s.participants[p]?).map (·.root)

/-! ## What one turn changes -/

omit [DecidableEq τ] in
theorem onParticipant_some {s s' : Site τ υ} {p : Nat} {f : Participant τ υ → Option (Site τ υ)}
    (h : s.onParticipant p f = some s') :
    ∃ x, s.participants[p]? = some x ∧ f x = some s' := by
  unfold onParticipant at h
  split at h
  next x hx => exact ⟨x, hx, h⟩
  next => cases h

omit [DecidableEq τ] in
theorem set_getElem? {s : Site τ υ} {p : Nat} {x : Participant τ υ}
    (hx : s.participants[p]? = some x) (y : Participant τ υ) (q : Nat) :
    (s.set p y).participants[q]? = if p = q then some y else s.participants[q]? := by
  have hp : p < s.participants.length := (List.getElem?_eq_some_iff.mp hx).1
  simp only [set, List.getElem?_set, if_pos hp]

omit [DecidableEq τ] in
theorem prepareRequest_of (x : Participant τ υ) : x.prepareRequest.Of x.root := by
  unfold Participant.prepareRequest
  split
  · rintro u ⟨⟩
    rfl
  · rintro u ⟨⟩

/-- The abort of `p` completes with the action: it skips the database, or it has heard
back from it. -/
def Completes (s : Site τ υ) (p : Nat) : Action τ υ → Prop
  | .rollback p' => p' = p ∧ ∀ x ∈ s.participants[p]?, (x.stored || x.usingRestartDetection) = false
  | .resume p' => p' = p ∧ ∀ x ∈ s.participants[p]?, ∃ r, x.lock = some (.rollingBack r)
  | _ => False

/-- A turn in which the database does nothing. -/
structure Quiet (s : Site τ υ) (a : Action τ υ) (s' : Site τ υ) : Prop where
  db : s'.db = s.db
  handled : s'.handled = s.handled
  participants : ∀ q x, s.participants[q]? = some x → ∃ x', s'.participants[q]? = some x' ∧
    x'.root = x.root ∧
    (x'.outcome = some .aborted → x.outcome = some .aborted ∨ s.Completes q a)
  requests : ∀ (r : Nat) (R : Request τ υ), s'.requests[r]? = some R →
    s.requests[r]? = some R ∨ ∃ x, s.participants[R.sender]? = some x ∧ R.ask.Of x.root

namespace Quiet

variable {s : Site τ υ} {a : Action τ υ} {p : Nat} {x y : Participant τ υ}

omit [DecidableEq τ] in
theorem set (hx : s.participants[p]? = some x) (hroot : y.root = x.root)
    (hout : y.outcome = some .aborted → x.outcome = some .aborted ∨ s.Completes p a) :
    s.Quiet a (s.set p y) where
  db := rfl
  handled := rfl
  participants q z hz := by
    rw [set_getElem? hx]
    split
    next h =>
      subst h
      rw [hx] at hz
      cases hz
      exact ⟨y, rfl, hroot, hout⟩
    next => exact ⟨z, hz, rfl, .inl⟩
  requests r R hR := .inl hR

omit [DecidableEq τ] in
theorem send (hx : s.participants[p]? = some x) {ask : Ask τ υ} (hask : ask.Of x.root)
    (hroot : y.root = x.root) (hout : y.outcome = x.outcome) :
    s.Quiet a ((s.send p ask).set p y) where
  db := rfl
  handled := rfl
  participants := by
    have hset : s.Quiet a (s.set p y) := Quiet.set hx hroot (fun h => .inl (hout ▸ h))
    exact hset.participants
  requests r R hR := by
    have hR' : (s.requests ++ [⟨p, ask, none⟩])[r]? = some R := hR
    rw [List.getElem?_append] at hR'
    split at hR'
    next => exact .inl hR'
    next =>
      refine .inr ⟨x, ?_⟩
      obtain ⟨_, hr⟩ := List.getElem?_eq_some_iff.mp hR'
      rw [← hr]
      simp only [List.getElem_singleton]
      exact ⟨hx, hask⟩

end Quiet

/-- Every turn but the database's own is quiet, and the only turns that mark a
participant aborted are the last ones of `transaction_participant_abort`. -/
theorem step_quiet {s s' : Site τ υ} {a : Action τ υ} (hs : s.step a = some s')
    (ha : ∀ r, a ≠ .handle r) : s.Quiet a s' := by
  cases a with
  | join t mode rd =>
    simp only [step, join, Option.ite_none_right_eq_some, Option.some.injEq] at hs
    obtain ⟨-, rfl⟩ := hs
    refine ⟨rfl, rfl, fun q x hx => ⟨x, ?_, rfl, .inl⟩, fun r R hR => .inl hR⟩
    have hq : q < s.participants.length := (List.getElem?_eq_some_iff.mp hx).1
    simp only [List.getElem?_append_left hq, hx]
  | call p =>
    obtain ⟨x, hx, hf⟩ := onParticipant_some hs
    split at hf
    · cases hf
      exact .set hx rfl .inl
    · cases hf
  | upgrade p =>
    obtain ⟨x, hx, hf⟩ := onParticipant_some hs
    split at hf
    · cases hf
      exact .set hx rfl .inl
    · cases hf
  | store p us ms =>
    obtain ⟨x, hx, hf⟩ := onParticipant_some hs
    unfold store at hf
    split at hf
    · split at hf
      · cases hf
        exact .set hx rfl .inl
      · cases hf
        exact .send hx rfl rfl rfl
    · cases hf
  | callReturns p =>
    obtain ⟨x, hx, hf⟩ := onParticipant_some hs
    unfold callReturns at hf
    split at hf <;> split at hf <;> cases hf
    · exact .set hx rfl .inl
    · exact .set hx rfl .inl
  | prepare p readOnlyAware =>
    obtain ⟨x, hx, hf⟩ := onParticipant_some hs
    unfold prepare at hf
    split at hf
    · split at hf
      · cases hf
        exact .set hx rfl (fun h => by cases h)
      · split at hf
        · cases hf
          exact .send hx (prepareRequest_of x) rfl rfl
        · cases hf
          exact .set hx rfl .inl
    · cases hf
  | taskResumes p =>
    obtain ⟨x, hx, hf⟩ := onParticipant_some hs
    unfold taskResumes at hf
    split at hf
    · split at hf <;> cases hf
      · exact .set hx rfl .inl
      · exact .set hx rfl .inl
    · cases hf
  | taskRaises p =>
    obtain ⟨x, hx, hf⟩ := onParticipant_some hs
    split at hf
    · cases hf
      exact .set hx rfl .inl
    · cases hf
  | commit p =>
    obtain ⟨x, hx, hf⟩ := onParticipant_some hs
    unfold commit at hf
    split at hf
    · cases hf
      exact .send hx trivial rfl rfl
    · cases hf
  | abort p =>
    obtain ⟨x, hx, hf⟩ := onParticipant_some hs
    split at hf
    · cases hf
      exact .set hx rfl .inl
    · cases hf
  | rollback p =>
    obtain ⟨x, hx, hf⟩ := onParticipant_some hs
    unfold rollback at hf
    split at hf
    · split at hf
      · cases hf
      · split at hf
        · cases hf
          exact .send hx trivial rfl rfl
        · -- the database is not asked
          next hskip =>
            cases hf
            refine .set hx rfl (fun _ => .inr ⟨rfl, fun z hz => ?_⟩)
            rw [hx] at hz
            cases hz
            exact Bool.not_eq_true _ ▸ hskip
    · cases hf
  | resume p =>
    obtain ⟨x, hx, hf⟩ := onParticipant_some hs
    unfold resume at hf
    split at hf
    · split at hf <;> cases hf
      · exact .set hx rfl .inl
      · exact .set hx rfl .inl
    · split at hf <;> cases hf
      exact .set hx rfl .inl
    · split at hf <;> cases hf
      · exact .set hx rfl (fun h => by cases h)
      · exact .set hx rfl .inl
    · next r hlock =>
        split at hf <;> cases hf
        · -- the rollback was accepted
          refine .set hx rfl (fun _ => .inr ⟨rfl, fun z hz => ⟨r, ?_⟩⟩)
          rw [hx] at hz
          cases hz
          exact hlock
        · exact .set hx rfl .inl
    · cases hf
    · cases hf
  | cancel p =>
    obtain ⟨x, hx, hf⟩ := onParticipant_some hs
    split at hf
    · cases hf
      exact .set hx rfl .inl
    · cases hf
  | handle r => exact absurd rfl (ha r)

/-- What a request leaves open is the transaction of its sender, if it is a write, or
what was open before. -/
theorem serve_open {d d' : Database τ υ} {ask : Ask τ υ} {u : τ}
    (h : serve d ask = .ok d') (hask : ask.Of u) (hd : d.Recorded) :
    d'.Recorded ∧ ∀ t, d'.txn.map (·.name) = some t →
      ask.writes = true ∧ (t = u ∨ d.txn.map (·.name) = some t) := by
  cases ask with
  | store t' us ms =>
    obtain ⟨hname, hrec⟩ := Database.store_name h hd
    refine ⟨hrec, fun t ht => ⟨rfl, .inl ?_⟩⟩
    rw [hname] at ht
    cases ht
    exact hask
  | prepare t' us =>
    obtain ⟨hname, hrec⟩ := Database.prepare_name h hd
    refine ⟨hrec, fun t ht => ⟨rfl, ?_⟩⟩
    rcases hname with hname | ⟨-, hname⟩
    · exact .inl (hask t (hname ▸ ht))
    · exact .inr (hname ▸ ht)
  | commit =>
    obtain ⟨hnone, hrec⟩ := Database.commit_txn h
    refine ⟨hrec, fun t ht => ?_⟩
    rw [hnone] at ht
    cases ht
  | abort =>
    cases h
    obtain ⟨hnone, hrec⟩ := Database.abort_txn d hd
    refine ⟨hrec, fun t ht => ?_⟩
    rw [hnone] at ht
    cases ht

/-- The database's turn, taken apart. -/
theorem handle_some {s s' : Site τ υ} {r : Nat} (h : s.handle r = some s') :
    ∃ R, s.requests[r]? = some R ∧ s'.participants = s.participants ∧
      (∃ b, s'.requests = s.requests.set r { R with answer := b }) ∧
      (serve s.db R.ask = .ok s'.db ∧ s'.handled = (R.sender, R.ask.writes) :: s.handled ∨
        s'.db = s.db ∧ s'.handled = s.handled) := by
  unfold handle at h
  split at h
  next R hR =>
    split at h
    · split at h
      next d hd =>
        cases h
        exact ⟨R, hR, rfl, ⟨_, rfl⟩, .inl ⟨hd, rfl⟩⟩
      next e he =>
        cases h
        exact ⟨R, hR, rfl, ⟨_, rfl⟩, .inr ⟨rfl, rfl⟩⟩
    · cases h
  next => cases h

/-! ## Whose transaction is open

The database's table is keyed by the state. What makes it somebody's is the history: the
open transaction belongs to a participant whose last accepted request was a write.
-/

structure Inv (s : Site τ υ) : Prop where
  senders : ∀ (r : Nat) (R : Request τ υ), s.requests[r]? = some R →
    ∃ x, s.participants[R.sender]? = some x ∧ R.ask.Of x.root
  recorded : s.db.Recorded
  openBy : ∀ t, s.db.txn.map (·.name) = some t →
    ∃ p, s.rootOf p = some t ∧ s.begun p = true

omit [DecidableEq τ] in
theorem inv_init : (init : Site τ υ).Inv where
  senders r R hR := by cases hR
  recorded := Database.recorded_empty
  openBy t ht := by cases ht

omit [DecidableEq τ] in
theorem Quiet.rootOf {s s' : Site τ υ} {a : Action τ υ} (h : s.Quiet a s') {p : Nat} {t : τ}
    (hp : s.rootOf p = some t) : s'.rootOf p = some t := by
  obtain ⟨x, hx, rfl⟩ := Option.map_eq_some_iff.mp hp
  obtain ⟨x', hx', hroot, -⟩ := h.participants p x hx
  unfold Site.rootOf
  rw [hx', Option.map_some, hroot]

omit [DecidableEq τ] in
theorem Quiet.begun {s s' : Site τ υ} {a : Action τ υ} (h : s.Quiet a s') (p : Nat) :
    s'.begun p = s.begun p := by
  unfold Site.begun
  rw [h.handled]

omit [DecidableEq τ] in
theorem Quiet.inv {s s' : Site τ υ} {a : Action τ υ} (h : s.Quiet a s') (hi : s.Inv) :
    s'.Inv where
  senders r R hR := by
    have hR' : ∃ x, s.participants[R.sender]? = some x ∧ R.ask.Of x.root := by
      rcases h.requests r R hR with hold | hnew
      · exact hi.senders r R hold
      · exact hnew
    obtain ⟨x, hx, hof⟩ := hR'
    obtain ⟨x', hx', hroot, -⟩ := h.participants R.sender x hx
    exact ⟨x', hx', hroot ▸ hof⟩
  recorded := h.db ▸ hi.recorded
  openBy t ht := by
    rw [h.db] at ht
    obtain ⟨p, hroot, hbegun⟩ := hi.openBy t ht
    exact ⟨p, h.rootOf hroot, (h.begun p).trans hbegun⟩

/-- After the database's turn the open transaction is the one of the write it accepted, or
the one that was open before, and then nobody's last accepted request has become an end. -/
theorem handle_open {s s' : Site τ υ} {r : Nat} (hi : s.Inv) (h : s.handle r = some s')
    {t : τ} (ht : s'.db.txn.map (·.name) = some t) :
    (∃ R, s.requests[r]? = some R ∧ R.ask.writes = true ∧ s.rootOf R.sender = some t ∧
      s'.begun R.sender = true) ∨
    s.db.txn.map (·.name) = some t ∧ ∀ p, s.begun p = true → s'.begun p = true := by
  obtain ⟨R, hR, -, -, ⟨hserve, hhandled⟩ | ⟨hdb, hhandled⟩⟩ := handle_some h
  · obtain ⟨x, hx, hof⟩ := hi.senders r R hR
    obtain ⟨hw, ht'⟩ := (serve_open hserve hof hi.recorded).2 t ht
    have hself : s'.begun R.sender = true := by simp [begun, hhandled, hw]
    rcases ht' with rfl | ht'
    · exact .inl ⟨R, hR, hw, by unfold rootOf; rw [hx]; rfl, hself⟩
    · refine .inr ⟨ht', fun p hp => ?_⟩
      by_cases hps : R.sender = p
      · exact hps ▸ hself
      · have hne : (R.sender == p) = false := beq_eq_false_iff_ne.mpr hps
        simpa only [begun, hhandled, List.find?_cons, hne] using hp
  · exact .inr ⟨hdb ▸ ht, fun p hp => by simpa only [begun, hhandled] using hp⟩

theorem handle_inv {s s' : Site τ υ} {r : Nat} (hi : s.Inv) (h : s.handle r = some s') :
    s'.Inv := by
  obtain ⟨R, hR, hpart, ⟨b, hreq⟩, hcase⟩ := handle_some h
  refine ⟨fun r' R' hR' => ?_, ?_, fun t ht => ?_⟩
  · -- an answered request keeps its sender and what it asked
    rw [hpart]
    rw [hreq, List.getElem?_set] at hR'
    split at hR'
    · split at hR'
      · cases hR'
        exact hi.senders r R hR
      · cases hR'
    · exact hi.senders r' R' hR'
  · rcases hcase with ⟨hserve, -⟩ | ⟨hdb, -⟩
    · obtain ⟨x, -, hof⟩ := hi.senders r R hR
      exact (serve_open hserve hof hi.recorded).1
    · exact hdb ▸ hi.recorded
  · have hroot : ∀ p, s'.rootOf p = s.rootOf p := fun p => by unfold rootOf; rw [hpart]
    rcases handle_open hi h ht with ⟨R', -, -, hr, hb⟩ | ⟨ht', hkeep⟩
    · exact ⟨R'.sender, (hroot _).trans hr, hb⟩
    · obtain ⟨p, hr, hb⟩ := hi.openBy t ht'
      exact ⟨p, (hroot p).trans hr, hkeep p hb⟩

/-- Either the database takes a turn, or the turn is quiet. -/
theorem step_cases {s s' : Site τ υ} {a : Action τ υ} (hs : s.step a = some s') :
    (∃ r, a = .handle r ∧ s.handle r = some s') ∨ s.Quiet a s' := by
  by_cases ha : ∃ r, a = .handle r
  · obtain ⟨r, rfl⟩ := ha
    exact .inl ⟨r, rfl, hs⟩
  · exact .inr (step_quiet hs (fun r hr => ha ⟨r, hr⟩))

theorem step_inv {s s' : Site τ υ} {a : Action τ υ} (hi : s.Inv) (hs : s.step a = some s') :
    s'.Inv := by
  rcases step_cases hs with ⟨r, -, hh⟩ | hq
  · exact handle_inv hi hh
  · exact hq.inv hi

theorem reach_inv {ok : Site τ υ → Action τ υ → Prop} {s : Site τ υ}
    (hr : Reach step ok init s) : s.Inv :=
  hr.invariant Inv inv_init (fun _ _ _ hi _ hs => step_inv hi hs)

/-! ## The abort of one transaction and the others on the state -/

/-- A turn of the abort of `p`, on the server or in the database. -/
def AbortTurn (s : Site τ υ) (p : Nat) : Action τ υ → Prop
  | .abort p' => p' = p
  | .rollback p' => p' = p
  | .resume p' => p' = p
  | .cancel p' => p' = p
  | .handle r => ∃ R, s.requests[r]? = some R ∧ R.sender = p ∧ R.ask = .abort
  | _ => False

/-- When the database handles an abort, the last request it accepted of every participant
of another transaction, if any, was that participant's own commit or abort. -/
def Alone (s : Site τ υ) : Action τ υ → Prop
  | .handle r => (s.requests[r]?).all (fun R =>
      R.ask.writes || (List.range s.participants.length).all fun q =>
        s.rootOf q == s.rootOf R.sender || !s.begun q) = true
  | _ => True

instance (s : Site τ υ) (a : Action τ υ) : Decidable (s.Alone a) :=
  match a with
  | .handle _ => inferInstanceAs (Decidable (_ = true))
  | .join .. | .call _ | .upgrade _ | .store .. | .callReturns _ | .prepare .. | .taskResumes _
  | .taskRaises _ | .commit _ | .abort _ | .rollback _ | .resume _ | .cancel _ =>
    inferInstanceAs (Decidable True)

omit [DecidableEq τ] in
theorem rootOf_lt {s : Site τ υ} {p : Nat} {t : τ} (h : s.rootOf p = some t) :
    p < s.participants.length := by
  obtain ⟨x, hx, -⟩ := Option.map_eq_some_iff.mp h
  exact (List.getElem?_eq_some_iff.mp hx).1

/-- What `Alone` says of the participant whose transaction is open. -/
theorem alone_open {s : Site τ υ} {r p q : Nat} {R : Request τ υ} {t u : τ}
    (h : s.Alone (.handle r)) (hR : s.requests[r]? = some R) (hab : R.ask = .abort)
    (hp : R.sender = p) (hroot : s.rootOf p = some t) (hq : s.rootOf q = some u)
    (hbegun : s.begun q = true) : u = t := by
  have hlt : q ∈ List.range s.participants.length := List.mem_range.mpr (rootOf_lt hq)
  simp only [Alone, hR, Option.all_some, hab, Ask.writes, Bool.false_or, List.all_eq_true] at h
  have h' := h q hlt
  rw [hp, hq, hroot, hbegun] at h'
  simpa using h'

/-- In every run in which the database handles an abort only while no other transaction
has begun there, no turn of an abort rolls back another transaction's RocksDB transaction
or deletes its participant record. -/
theorem abort_spares_others {s s' : Site τ υ} {a : Action τ υ} {p : Nat} {t : τ}
    (hr : Reach step Alone init s) (hok : s.Alone a) (hs : s.step a = some s')
    (hturn : s.AbortTurn p a) (hp : s.rootOf p = some t) (u : τ) (hu : u ≠ t) :
    (∀ x, s.db.txn = some x → x.name = u → s'.db.txn = some x) ∧
      (s.db.participant = some u → s'.db.participant = some u) := by
  have hi := reach_inv hr
  rcases step_cases hs with ⟨r, rfl, hh⟩ | hq
  · obtain ⟨R, hR, hsender, hab⟩ := hturn
    -- whatever is open belongs to the transaction that aborts
    have hopen : s.db.txn.map (·.name) ≠ some u := by
      intro hname
      obtain ⟨q, hroot, hbegun⟩ := hi.openBy u hname
      exact hu (alone_open hok hR hab hsender hp hroot hbegun)
    refine ⟨fun x hx hname => absurd ?_ hopen, fun hrec => absurd ?_ hopen⟩
    · rw [hx, Option.map_some, hname]
    · rw [← hi.recorded, hrec]
  · rw [hq.db]
    exact ⟨fun _ hx _ => hx, id⟩

/-- Two transactions share the state, with restart detection. Neither has anything in the
database when the first one aborts. -/
def sharedReaders : List (Action Nat Nat) :=
  [.join 1 .shared true, .join 2 .shared true, .callReturns 0, .callReturns 1, .abort 0,
    .rollback 0]

theorem sharedReaders_spared :
    (last step init sharedReaders).rootOf 1 = some 2 ∧
    ∀ x, (last step init sharedReaders).db.txn = some x → x.name = 2 →
      (last step init (sharedReaders ++ [.handle 0])).db.txn = some x :=
  ⟨rfl, (abort_spares_others (a := .handle 0) (p := 0) (t := 1)
    (reach_last sharedReaders .init (by decide)) (by decide) rfl ⟨_, rfl, rfl, rfl⟩ rfl 2
    (by decide)).1⟩

/-- Two transactions share the state, with restart detection. The second one records an
idempotent mutation and prepares; then the first one aborts. -/
def preparedNextToAbort : List (Action Nat Nat) :=
  [.join 1 .shared true, .join 2 .shared true, .store 1 [] [7], .callReturns 0, .callReturns 1,
    .prepare 1 true, .handle 0, .taskResumes 1, .resume 1, .abort 0, .rollback 0]

/-- The database rolls back the second transaction, which is prepared, and its commit is
refused from then on. -/
theorem abort_rolls_back_other : ∃ s s' : Site Nat Nat,
    Reach step (fun _ _ => True) init s ∧ s.step (.handle 1) = some s' ∧
    s.AbortTurn 0 (.handle 1) ∧ s.rootOf 0 = some 1 ∧
    s.db = ⟨some ⟨2, [7], true⟩, some 2, []⟩ ∧ s'.db = ⟨none, none, []⟩ ∧
    ∃ s'', exec step s' [.commit 1, .handle 2] = some s'' ∧ s''.answerOf 2 = some false := by
  refine ⟨last step init preparedNextToAbort,
    last step init (preparedNextToAbort ++ [.handle 1]),
    reach_last preparedNextToAbort .init (by decide), rfl, ⟨_, rfl, rfl, rfl⟩, rfl, rfl, rfl,
    last step init (preparedNextToAbort ++ [.handle 1, .commit 1, .handle 2]), rfl, rfl⟩

/-! ## What an aborted transaction leaves behind -/

/-- The database handles no Store and no Prepare of a participant whose abort has
completed, and when an abort completes, no Store and no Prepare of the participant was
accepted after its last rollback (or at all, if none was sent). -/
def Timely (s : Site τ υ) : Action τ υ → Prop
  | .handle r => (s.requests[r]?).all
      (fun R => !(R.ask.writes && s.isAborted R.sender)) = true
  | .rollback p => (s.participants[p]?).all
      (fun x => x.stored || x.usingRestartDetection || !s.begun p) = true
  | .resume p => (s.participants[p]?).all
      (fun x =>
        match x.lock with
        | some (.rollingBack _) => !s.begun p
        | _ => true) = true
  | _ => True

instance (s : Site τ υ) (a : Action τ υ) : Decidable (s.Timely a) :=
  match a with
  | .handle _ | .rollback _ | .resume _ => inferInstanceAs (Decidable (_ = true))
  | .join .. | .call _ | .upgrade _ | .store .. | .callReturns _ | .prepare .. | .taskResumes _
  | .taskRaises _ | .commit _ | .abort _ | .cancel _ => inferInstanceAs (Decidable True)

omit [DecidableEq τ] in
/-- When an abort completes in time, nothing of the participant is open. -/
theorem timely_completes {s : Site τ υ} {a : Action τ υ} {p : Nat} {x : Participant τ υ}
    (h : s.Timely a) (hc : s.Completes p a) (hx : s.participants[p]? = some x) :
    s.begun p = false := by
  cases a with
  | rollback p' =>
    obtain ⟨rfl, hskip⟩ := hc
    simpa [Timely, hx, hskip x hx] using h
  | resume p' =>
    obtain ⟨rfl, hlock⟩ := hc
    obtain ⟨r, hr⟩ := hlock x hx
    simpa [Timely, hx, hr] using h
  | join | call | upgrade | store | callReturns | prepare | taskResumes | taskRaises | commit
  | abort | cancel | handle => exact hc.elim

/-- The open transaction belongs to a participant whose abort has not completed. -/
def Live (s : Site τ υ) : Prop :=
  ∀ t, s.db.txn.map (·.name) = some t →
    ∃ p, s.rootOf p = some t ∧ s.begun p = true ∧ s.isAborted p = false

omit [DecidableEq τ] in
theorem Quiet.live {s s' : Site τ υ} {a : Action τ υ} (h : s.Quiet a s') (hok : s.Timely a)
    (hl : s.Live) : s'.Live := by
  intro t ht
  rw [h.db] at ht
  obtain ⟨p, hroot, hbegun, hab⟩ := hl t ht
  refine ⟨p, h.rootOf hroot, (h.begun p).trans hbegun, ?_⟩
  obtain ⟨x, hx, -⟩ := Option.map_eq_some_iff.mp hroot
  obtain ⟨x', hx', -, hout⟩ := h.participants p x hx
  by_contra hne
  have hab' : x'.outcome = some .aborted := by simpa [isAborted, hx'] using hne
  rcases hout hab' with hold | hcompletes
  · simp [isAborted, hx, hold] at hab
  · rw [timely_completes hok hcompletes hx] at hbegun
    cases hbegun

theorem handle_live {s s' : Site τ υ} {r : Nat} (hi : s.Inv) (hl : s.Live)
    (hok : s.Timely (.handle r)) (h : s.handle r = some s') : s'.Live := by
  obtain ⟨-, -, hpart, -⟩ := handle_some h
  have hroot : ∀ p, s'.rootOf p = s.rootOf p := fun p => by unfold rootOf; rw [hpart]
  have hab : ∀ p, s'.isAborted p = s.isAborted p := fun p => by unfold isAborted; rw [hpart]
  intro t ht
  rcases handle_open hi h ht with ⟨R, hR, hw, hr, hb⟩ | ⟨ht', hkeep⟩
  · refine ⟨R.sender, (hroot _).trans hr, hb, (hab _).trans ?_⟩
    simpa [Timely, hR, hw] using hok
  · obtain ⟨p, hr, hb, hp⟩ := hl t ht'
    exact ⟨p, (hroot p).trans hr, hkeep p hb, (hab p).trans hp⟩

theorem reach_live {s : Site τ υ} (hr : Reach step Timely init s) : s.Live := by
  have hboth : s.Inv ∧ s.Live := by
    refine hr.invariant (fun s => s.Inv ∧ s.Live) ⟨inv_init, fun t ht => by cases ht⟩ ?_
    rintro s a s' ⟨hi, hl⟩ hok hs
    refine ⟨step_inv hi hs, ?_⟩
    rcases step_cases hs with ⟨r, rfl, hh⟩ | hq
    · exact handle_live hi hl hok hh
    · exact hq.live hok hl
  exact hboth.2

/-- In every run that is `Timely`, once the abort of a transaction has completed the
database has no open or prepared transaction of it and no record of it, and if a store
outside of any transaction is refused, then on account of another transaction. -/
theorem aborted_owns_nothing {s : Site τ υ} (hr : Reach step Timely init s) (t : τ)
    (hab : ∀ x ∈ s.participants, x.root = t → x.outcome = some .aborted) :
    s.db.txn.map (·.name) ≠ some t ∧ s.db.participant ≠ some t ∧
    ∀ us ms e, s.db.store none us ms = .error e →
      ∃ x ∈ s.participants, x.root ≠ t ∧ x.outcome ≠ some .aborted ∧
        s.db.txn.map (·.name) = some x.root := by
  have hlive := reach_live hr
  -- the open transaction has a participant that is not aborted, so it is not `t`'s
  have howner : ∀ u, s.db.txn.map (·.name) = some u →
      ∃ x ∈ s.participants, x.root = u ∧ x.outcome ≠ some .aborted := by
    intro u hu
    obtain ⟨p, hroot, -, hp⟩ := hlive u hu
    obtain ⟨x, hx, rfl⟩ := Option.map_eq_some_iff.mp hroot
    exact ⟨x, List.mem_of_getElem? hx, rfl, by simpa [isAborted, hx] using hp⟩
  have hnot : s.db.txn.map (·.name) ≠ some t := by
    intro ht
    obtain ⟨x, hx, hroot, hne⟩ := howner t ht
    exact hne (hab x hx hroot)
  refine ⟨hnot, fun hrec => hnot ((reach_inv hr).recorded ▸ hrec), ?_⟩
  intro us ms e he
  simp only [Database.store] at he
  split at he
  next hopen =>
    obtain ⟨y, hy⟩ := Option.isSome_iff_exists.mp hopen.2
    have hname : s.db.txn.map (·.name) = some y.name := by rw [hy]; rfl
    obtain ⟨x, hx, hroot, hne⟩ := howner y.name hname
    refine ⟨x, hx, fun heq => hnot ?_, hne, hroot ▸ hname⟩
    rw [hname, ← hroot, heq]
  next => cases he

/-- Without restart detection: a transaction joins, stores, and is aborted after its call
has returned. -/
def abortedInTime : List (Action Nat Nat) :=
  [.join 1 .exclusive false, .store 0 [] [], .handle 0, .resume 0, .store 0 [7] [], .handle 1,
    .resume 0, .callReturns 0, .abort 0, .rollback 0, .handle 2, .resume 0]

theorem abortedInTime_owns_nothing :
    (∀ x ∈ (last step init abortedInTime).participants, x.outcome = some .aborted) ∧
    (last step init abortedInTime).db.txn.map (·.name) ≠ some 1 :=
  ⟨by decide, (aborted_owns_nothing (reach_last abortedInTime .init (by decide)) 1
    (by decide)).1⟩

/-- Without restart detection: a second call is under way when the transaction is aborted,
and completes after it. -/
def callOutlivesAbort : List (Action Nat Nat) :=
  [.join 1 .exclusive false, .store 0 [] [], .handle 0, .resume 0, .call 0, .callReturns 0,
    .abort 0, .rollback 0, .handle 1, .resume 0, .store 0 [7] [], .handle 2, .resume 0,
    .callReturns 0]

/-- The abort has completed, every call has returned and no request is in flight: the
database has the transaction open all the same and refuses every later store of the
state. -/
theorem aborted_begun_again : ∃ s : Site Nat Nat,
    Reach step (fun _ _ => True) init s ∧
    s.participants.map (·.root) = [1] ∧
    (∀ x ∈ s.participants, x.outcome = some .aborted ∧ x.calls = 0 ∧ x.lock = none) ∧
    (∀ R ∈ s.requests, R.answer.isSome) ∧
    s.db.txn = some ⟨1, [7], false⟩ ∧ s.db.participant = some 1 ∧
    s.db.store none [8] [] = .error .ongoing := by
  refine ⟨last step init callOutlivesAbort, reach_last callOutlivesAbort .init (by decide), rfl,
    by decide, by decide, rfl, rfl, rfl⟩

end Site

end Reboot.Txn.Requests
