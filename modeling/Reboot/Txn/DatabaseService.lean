import Mathlib.Data.List.Basic

/-!
# The participant transactions of one state in the database

`DatabaseService` keeps at most one open RocksDB transaction per state, in `txns_`, and
next to it a persisted record that says which transaction the state participates in.
The requests of a server begin, extend, prepare, commit and roll back that transaction.
Some of them name the transaction they are about and some only name the state: which is
which decides what one transaction can do to another, so it is kept exactly as the
source has it.

Mirroring notes:
- The state ref is fixed. A RocksDB transaction is named after the state ref and the
  *root* transaction; here the name is the root transaction.
- The updates of a request are opaque. `upserts` stands for its actor and task upserts,
  the ones `ValidateNonTransactionalStore` looks at, `mutations` for its idempotent
  mutations, which that check does not look at.
- The library's part: `Prepare` accepts an open transaction once, `Commit` only a
  prepared one (`skip_prepare = false`), `Rollback` either. Reads and writes of the disk
  succeed.
- `TransactionParticipantPrepare` deletes the participant record *inside* the RocksDB
  transaction, so the record goes when the transaction commits.
-/

namespace Reboot.Txn

/-- Why a request is refused. -/
inductive Refusal
  /-- "Failed to begin transaction … as transaction … has already begun" -/
  | alreadyBegun
  /-- "Missing transaction for state type … actor …" -/
  | missing
  /-- "Attempt to store outside of a transaction while there is an ongoing transaction" -/
  | ongoing
  /-- the library refuses to prepare a transaction twice -/
  | alreadyPrepared
  /-- the library refuses to commit a transaction that skipped prepare -/
  | notPrepared
  deriving DecidableEq

/-- An entry of `txns_`. -/
structure RocksTransaction (τ υ : Type) where
  name : τ
  updates : List υ
  prepared : Bool
  deriving DecidableEq

/-- What the database has for one state. -/
structure Database (τ υ : Type) where
  /-- the entry of `txns_` -/
  txn : Option (RocksTransaction τ υ)
  /-- the persisted transaction participant -/
  participant : Option τ
  /-- the updates that are committed, oldest first -/
  applied : List υ
  deriving DecidableEq

namespace Database

variable {τ υ : Type}

/-- Nothing stored and no transaction. -/
def empty : Database τ υ := ⟨none, none, []⟩

/-- `LookupTransaction`: by the state ref alone. -/
def lookupTransaction (d : Database τ υ) : Except Refusal (RocksTransaction τ υ) :=
  match d.txn with
  | some x => .ok x
  | none => .error .missing

/-- `LookupOrBeginTransaction`: an open transaction has to be the one asked for; if none
is open, the participation is persisted and the transaction begun. -/
def lookupOrBeginTransaction [DecidableEq τ] (d : Database τ υ) (t : τ) :
    Except Refusal (Database τ υ) :=
  match d.txn with
  | some x => if x.name = t then .ok d else .error .alreadyBegun
  | none => .ok { d with txn := some ⟨t, [], false⟩, participant := some t }

/-- `Apply` to the open transaction. -/
def extend (d : Database τ υ) (us : List υ) : Database τ υ :=
  { d with txn := d.txn.map fun x => { x with updates := x.updates ++ us } }

/-- `Store`, inside the given transaction or, with `none`, outside of any. -/
def store [DecidableEq τ] (d : Database τ υ) (transaction : Option τ)
    (upserts mutations : List υ) : Except Refusal (Database τ υ) :=
  match transaction with
  | some t => (d.lookupOrBeginTransaction t).map fun d' => d'.extend (upserts ++ mutations)
  | none =>
    if upserts ≠ [] ∧ d.txn.isSome then .error .ongoing
    else .ok { d with applied := d.applied ++ (upserts ++ mutations) }

/-- `Transaction::Prepare` of the open transaction. -/
def prepareOpen (d : Database τ υ) : Except Refusal (Database τ υ) :=
  match d.txn with
  | none => .error .missing
  | some x =>
    if x.prepared then .error .alreadyPrepared
    else .ok { d with txn := some { x with prepared := true } }

/-- `TransactionParticipantPrepare`. Only a request that carries a transaction, that is
one of a participant which deferred its writes, says which transaction it is for. -/
def transactionParticipantPrepare [DecidableEq τ] (d : Database τ υ) (transaction : Option τ)
    (updates : List υ) : Except Refusal (Database τ υ) :=
  match transaction with
  | some t =>
    match d.lookupOrBeginTransaction t with
    | .ok d' => (d'.extend updates).prepareOpen
    | .error e => .error e
  | none => d.prepareOpen

/-- `TransactionParticipantCommit`: of whatever is open for the state. -/
def transactionParticipantCommit (d : Database τ υ) : Except Refusal (Database τ υ) :=
  match d.lookupTransaction with
  | .error e => .error e
  | .ok x =>
    if x.prepared then .ok ⟨none, none, d.applied ++ x.updates⟩ else .error .notPrepared

/-- `TransactionParticipantAbort`: of whatever is open for the state, and a no-op when
nothing is. -/
def transactionParticipantAbort (d : Database τ υ) : Database τ υ :=
  match d.txn with
  | none => d
  | some _ => { d with txn := none, participant := none }

/-! ## What each request does to the transaction and to its record -/

/-- The record names the open transaction. -/
def Recorded (d : Database τ υ) : Prop := d.participant = d.txn.map (·.name)

theorem recorded_empty : (empty : Database τ υ).Recorded := rfl

theorem lookupOrBegin_name [DecidableEq τ] {d d' : Database τ υ} {t : τ}
    (h : d.lookupOrBeginTransaction t = .ok d') (hd : d.Recorded) :
    d'.txn.map (·.name) = some t ∧ d'.Recorded := by
  unfold lookupOrBeginTransaction at h
  split at h
  next x hx =>
    split at h
    next hname =>
      cases h
      exact ⟨by rw [hx, ← hname]; rfl, hd⟩
    next => cases h
  next hnone =>
    cases h
    exact ⟨rfl, rfl⟩

@[simp] theorem extend_name (d : Database τ υ) (us : List υ) :
    (d.extend us).txn.map (·.name) = d.txn.map (·.name) := by
  unfold extend
  cases d.txn with
  | none => rfl
  | some x => rfl

@[simp] theorem extend_participant (d : Database τ υ) (us : List υ) :
    (d.extend us).participant = d.participant := rfl

theorem prepareOpen_name {d d' : Database τ υ} (h : d.prepareOpen = .ok d') :
    d'.txn.map (·.name) = d.txn.map (·.name) ∧ d'.participant = d.participant := by
  unfold prepareOpen at h
  split at h
  next => cases h
  next x hx =>
    split at h
    next => cases h
    next =>
      cases h
      exact ⟨by rw [hx]; rfl, rfl⟩

/-- An accepted Store of a transaction leaves that transaction open. -/
theorem store_name [DecidableEq τ] {d d' : Database τ υ} {t : τ} {us ms : List υ}
    (h : d.store (some t) us ms = .ok d') (hd : d.Recorded) :
    d'.txn.map (·.name) = some t ∧ d'.Recorded := by
  simp only [store] at h
  cases hb : d.lookupOrBeginTransaction t with
  | error e =>
    rw [hb] at h
    cases h
  | ok d1 =>
    rw [hb] at h
    cases h
    obtain ⟨hname, hrec⟩ := lookupOrBegin_name hb hd
    refine ⟨by rw [extend_name, hname], ?_⟩
    unfold Recorded
    rw [extend_participant, extend_name]
    exact hrec

/-- An accepted prepare that carries a transaction leaves that transaction open; one that
does not leaves open whatever was. -/
theorem prepare_name [DecidableEq τ] {d d' : Database τ υ} {transaction : Option τ}
    {us : List υ} (h : d.transactionParticipantPrepare transaction us = .ok d')
    (hd : d.Recorded) :
    (d'.txn.map (·.name) = transaction ∨
      transaction = none ∧ d'.txn.map (·.name) = d.txn.map (·.name)) ∧ d'.Recorded := by
  unfold transactionParticipantPrepare at h
  split at h
  next t =>
    split at h
    next d1 hb =>
      obtain ⟨hname, hrec⟩ := lookupOrBegin_name hb hd
      obtain ⟨hn, hp⟩ := prepareOpen_name h
      rw [extend_name] at hn
      refine ⟨.inl (hn.trans hname), ?_⟩
      unfold Recorded
      rw [hp, hn, extend_participant]
      exact hrec
    next => cases h
  next =>
    obtain ⟨hn, hp⟩ := prepareOpen_name h
    refine ⟨.inr ⟨rfl, hn⟩, ?_⟩
    unfold Recorded
    rw [hp, hn]
    exact hd

/-- After an accepted commit nothing is open. -/
theorem commit_txn {d d' : Database τ υ} (h : d.transactionParticipantCommit = .ok d') :
    d'.txn = none ∧ d'.Recorded := by
  unfold transactionParticipantCommit at h
  split at h
  next => cases h
  next x _ =>
    split at h
    next =>
      cases h
      exact ⟨rfl, rfl⟩
    next => cases h

/-- After an abort nothing is open, whosever transaction it was. -/
theorem abort_txn (d : Database τ υ) (hd : d.Recorded) :
    d.transactionParticipantAbort.txn = none ∧ d.transactionParticipantAbort.Recorded := by
  unfold transactionParticipantAbort
  cases hx : d.txn with
  | none => exact ⟨hx, hd⟩
  | some x => exact ⟨rfl, rfl⟩

end Database

end Reboot.Txn
