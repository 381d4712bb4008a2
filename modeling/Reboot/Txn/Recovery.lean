import Reboot.Lib.Run
import Reboot.Txn.Lock

/-!
# A participant that restarts

One transaction at one of its participants, across crashes of the server and of its
database: what the calls acknowledged, what the server keeps in memory, what the database
has open for the state, and which prepares it is still handling. The model follows
`Transaction.from_sidecar`, `__init__`, `Prepare` and `transaction_participant_prepare`
(`reboot/aio/state_managers.py`) and `TransactionParticipantPrepare` and
`RecoverTransactions` (`reboot/server/database.cc`).

With restart detection writes stay in memory until the prepare, which begins the
transaction in the database; without it they go to the database's open transaction as
they are made. Only a prepared transaction survives a crash of the database. For a
participant record without one, recovery begins an empty transaction, "that will later be
aborted", and `from_sidecar` passes `unrecoverable_abort=not transaction.prepared`, which
`__init__` ignores.

`sound_kept`: as long as no `Prepare` reaches a participant that was recovered
unprepared, a prepare that succeeds finds everything that was acknowledged in the
database's prepared transaction, and so does the commit. `empty_prepared` is the run in
which one does reach it.

Mirroring notes:
- The database is asked under the state's lock, so the transactions that have something
  there follow one another; this is the run of one of them.
- Timestamps are the database's clock, which is strictly later at every recovery. The
  transaction's own is in its id.
- A call does not return while a recovered transaction's `acquired_lock` has no result,
  and recovery gives it none: no further call gets through (`recovered`).
- Calls of a transaction are over when its coordinator prepares it (`preparing`), and a
  coordinator only says `read_only` of a participant that reported no effects.
-/

namespace Reboot.Txn.Recovery

open Reboot.Lib

/-! ## What is written -/

/-- What a transaction changes at one state. -/
structure Effects (V : Type) where
  state : Option V
  tasks : List Nat
  idempotentMutations : List Nat
  deriving DecidableEq

namespace Effects

variable {V : Type}

def none : Effects V := ⟨Option.none, [], []⟩

/-- Later effects on top of earlier ones. -/
def andThen (e w : Effects V) : Effects V :=
  ⟨w.state.or e.state, e.tasks ++ w.tasks, e.idempotentMutations ++ w.idempotentMutations⟩

/-- Whether the exclusive lock is needed. -/
def requiresExclusive (e : Effects V) : Bool := e.state.isSome || !e.tasks.isEmpty

/-- Every one of the effects is there. -/
structure Contains (d e : Effects V) : Prop where
  state : e.state.isSome = true → d.state = e.state
  tasks : ∀ u ∈ e.tasks, u ∈ d.tasks
  idempotentMutations : ∀ u ∈ e.idempotentMutations, u ∈ d.idempotentMutations

theorem Contains.refl (e : Effects V) : e.Contains e :=
  ⟨fun _ => rfl, fun _ h => h, fun _ h => h⟩

@[simp] theorem none_andThen (e : Effects V) : none.andThen e = e := by
  simp [andThen, none]

@[simp] theorem andThen_none (e : Effects V) : e.andThen none = e := by
  simp [andThen, none]

end Effects

/-! ## The node -/

/-- A `Transaction` in memory. -/
structure Participant (V : Type) where
  usingRestartDetection : Bool
  mode : Mode
  prepared : Bool
  unrecoverableAbort : Bool
  /-- made by `from_sidecar` -/
  recovered : Bool
  /-- made by `from_sidecar`, and not prepared then -/
  recoveredUnprepared : Bool
  effects : Effects V
  snapshots : List (Effects V × Mode)
  deriving DecidableEq

/-- `Transaction.__init__`. The argument `unrecoverable_abort` is not used: the field is
set to `False`. -/
def Participant.create {V : Type} (usingRestartDetection : Bool) (mode : Mode) (prepared : Bool)
    (_unrecoverableAbort recovered : Bool) (effects : Effects V) : Participant V where
  usingRestartDetection := usingRestartDetection
  mode := mode
  prepared := prepared
  unrecoverableAbort := false
  recovered := recovered
  recoveredUnprepared := recovered && !prepared
  effects := effects
  snapshots := []

/-- `Transaction.from_sidecar`. -/
def Participant.fromSidecar {V : Type} (prepared : Bool) (effects : Effects V) : Participant V :=
  .create false .exclusive prepared (!prepared) true { effects with state := none }

/-- A transaction in the database. -/
structure DatabaseTransaction (V : Type) where
  effects : Effects V
  prepared : Bool
  deriving DecidableEq

/-- A prepare that the database is handling. -/
structure Request (V : Type) where
  /-- the writes that come with it, with restart detection -/
  deferred : Option (Effects V)
  begun : Bool
  /-- the server that sent it is still there -/
  own : Bool
  deriving DecidableEq

/-- What `Prepare` answers. -/
inductive Answer
  | prepared
  | abort
  deriving DecidableEq

/-- The transaction and its participant. -/
structure Config where
  canUseRestartDetection : Bool
  /-- of the transaction's id -/
  timestamp : Nat

structure Node (V : Type) where
  up : Bool
  transaction : Option (Participant V)
  /-- the participant record -/
  record : Bool
  database : Option (DatabaseTransaction V)
  requests : List (Request V)
  clock : Nat
  recoveryTimestamp : Nat
  /-- everything that calls acknowledged and that was not rolled back -/
  acknowledged : Effects V
  /-- some call joined -/
  joined : Bool
  preparing : Bool
  finished : Bool
  committed : Option (Effects V)
  /-- the answer of the last step, if it was one of `Prepare` -/
  answer : Option Answer
  deriving DecidableEq

inductive Action (V : Type)
  | join (mode : Mode)
  /-- a call stores its effects and returns -/
  | write (effects : Effects V)
  /-- a call whose store was handled by the database does not return -/
  | lostWrite (effects : Effects V)
  /-- a call fails for good -/
  | doom
  /-- a nested transaction claims the state -/
  | claim
  /-- and is rolled back -/
  | rollBack
  /-- `Prepare` -/
  | prepare (readOnly readOnlyAware : Bool)
  /-- the database begins the transaction of a prepare -/
  | handleBegin (i : Nat)
  /-- the database prepares -/
  | handlePrepare (i : Nat)
  | commit
  | abort
  /-- the server dies, with or without its database -/
  | crash (database : Bool)
  | recover
  deriving DecidableEq

namespace Node

variable {V : Type}

def initial : Node V where
  up := true
  transaction := none
  record := false
  database := none
  requests := []
  clock := 0
  recoveryTimestamp := 0
  acknowledged := .none
  joined := false
  preparing := false
  finished := false
  committed := none
  answer := none

/-- `LookupOrBeginTransaction`. -/
def lookupOrBegin (s : Node V) : Node V :=
  match s.database with
  | some _ => s
  | none => { s with record := true, database := some ⟨.none, false⟩ }

/-- `_transaction_participant_start`; without restart detection the participant is stored. -/
def join (c : Config) (s : Node V) (mode : Mode) : Option (Node V) :=
  if s.up = false ∨ s.transaction.isSome ∨ s.finished ∨ s.preparing ∨ s.clock < c.timestamp then none
  else if c.canUseRestartDetection then
    -- the server recovered after the transaction started
    if c.timestamp < s.recoveryTimestamp then none
    else some { s with
      transaction := some (.create true mode false false false .none)
      joined := true
      answer := none }
  else
    let s := s.lookupOrBegin
    some { s with
      transaction := some (.create false mode false false false .none)
      joined := true
      answer := none }

/-- The participant, if calls can still use it. -/
def usable (s : Node V) : Option (Participant V) :=
  match s.transaction with
  | none => none
  | some m =>
    if m.recovered ∨ m.prepared ∨ m.unrecoverableAbort ∨ s.preparing then none else some m

/-- Effects go to the transaction in the database. -/
def apply (s : Node V) (w : Effects V) : Node V :=
  let s := s.lookupOrBegin
  { s with database := s.database.map fun d => { d with effects := d.effects.andThen w } }

def write (s : Node V) (w : Effects V) : Option (Node V) :=
  match s.usable with
  | none => none
  | some m =>
    let s := if m.usingRestartDetection then s else s.apply w
    some { s with
      transaction := some { m with
        mode := if w.requiresExclusive then .exclusive else m.mode
        effects := m.effects.andThen w }
      acknowledged := s.acknowledged.andThen w
      answer := none }

def lostWrite (s : Node V) (w : Effects V) : Option (Node V) :=
  match s.usable with
  | none => none
  | some m =>
    if m.usingRestartDetection then none
    else
      let s := s.apply w
      some { s with
        transaction := some { m with unrecoverableAbort := true }
        answer := none }

def doom (s : Node V) : Option (Node V) :=
  match s.usable with
  | none => none
  | some m =>
    some { s with transaction := some { m with unrecoverableAbort := true }, answer := none }

def claim (s : Node V) : Option (Node V) :=
  match s.usable with
  | none => none
  | some m =>
    some { s with
      transaction := some { m with snapshots := (m.effects, m.mode) :: m.snapshots }
      answer := none }

/-- `_rollback`; a participant without restart detection cannot be rolled back. -/
def rollBack (s : Node V) : Option (Node V) :=
  match s.usable with
  | none => none
  | some m =>
    if m.usingRestartDetection = false then none
    else match m.snapshots with
      | [] => none
      | (effects, mode) :: snapshots =>
        some { s with
          transaction := some { m with effects := effects, mode := mode, snapshots := snapshots }
          acknowledged := effects
          answer := none }

/-- What `transaction_participant_prepare` sends: the state only if it was mutated. -/
def deferred (m : Participant V) : Option (Effects V) :=
  if m.usingRestartDetection then
    some { m.effects with state := if m.mode = .exclusive then m.effects.state else none }
  else none

/-- `Prepare`. -/
def prepare (c : Config) (s : Node V) (readOnly readOnlyAware : Bool) : Option (Node V) :=
  if s.up = false ∨ (readOnly ∧ (s.acknowledged.requiresExclusive ∨
      s.acknowledged.idempotentMutations ≠ [])) then none
  else
    let s := { s with preparing := true, answer := none }
    match s.transaction with
    | none =>
      if c.canUseRestartDetection ∧ c.timestamp < s.recoveryTimestamp then
        some { s with answer := some .abort }
      else if readOnly ∧ readOnlyAware ∧ c.canUseRestartDetection then
        some { s with answer := some .prepared }
      else some { s with answer := some .abort }
    | some m =>
      if m.prepared then some { s with answer := some .prepared }
      else if m.unrecoverableAbort then some { s with answer := some .abort }
      else if m.mode = .shared ∧ m.effects.idempotentMutations = [] ∧ m.usingRestartDetection ∧
          readOnlyAware then
        some { s with transaction := none, finished := true, answer := some .prepared }
      else if s.requests.any (·.own) then some s
      else some { s with requests := ⟨deferred m, false, true⟩ :: s.requests }

/-- The database looks up or begins the transaction that came with a prepare. -/
def handleBegin (s : Node V) (i : Nat) : Option (Node V) :=
  match s.requests[i]? with
  | some ⟨some e, false, own⟩ =>
    some { s.lookupOrBegin with requests := s.requests.set i ⟨some e, true, own⟩, answer := none }
  | _ => none

/-- The database applies what came with a prepare, and prepares. -/
def handlePrepare (s : Node V) (i : Nat) : Option (Node V) :=
  match s.requests[i]? with
  | none => none
  | some r =>
    if r.deferred.isSome ∧ r.begun = false then none
    else
      let s := { s with requests := s.requests.eraseIdx i, answer := none }
      match s.database with
      | none => some s
      | some d =>
        if d.prepared then some s
        else
          let s := { s with
            database := some ⟨d.effects.andThen (r.deferred.getD .none), true⟩ }
          match s.transaction with
          | some m =>
            if r.own then
              some { s with
                transaction := some { m with prepared := true }
                answer := some .prepared }
            else some s
          | none => some s

/-- `transaction_participant_commit`. -/
def commit (s : Node V) : Option (Node V) :=
  match s.transaction, s.database with
  | some m, some d =>
    if m.prepared ∧ d.prepared then
      some { s with
        transaction := none
        record := false
        database := none
        finished := true
        committed := some d.effects
        answer := none }
    else none
  | _, _ => none

/-- `transaction_participant_abort`, after the prepare in flight. -/
def abort (s : Node V) : Option (Node V) :=
  if s.transaction.isNone ∨ s.requests.any (·.own) then none
  else
    some { s with
      transaction := none
      record := if s.database.isSome then false else s.record
      database := none
      finished := true
      answer := none }

/-- Memory is gone; without the database, so is all that was not prepared. -/
def crash (s : Node V) (database : Bool) : Option (Node V) :=
  if s.up = false then none
  else some { s with
    up := false
    transaction := none
    requests := if database then [] else s.requests.map fun r => { r with own := false }
    database := if database then s.database.filter (·.prepared) else s.database
    answer := none }

/-- `RecoverTransactions` and `recover`. -/
def recover (s : Node V) : Option (Node V) :=
  if s.up then none
  else
    let s := { s with
      up := true
      clock := s.clock + 1
      recoveryTimestamp := s.clock + 1
      answer := none }
    if s.record = false then some s
    else match s.database with
      | some d => some { s with transaction := some (.fromSidecar d.prepared d.effects) }
      | none => some { s with
          database := some ⟨.none, false⟩
          transaction := some (.fromSidecar false .none) }

def step (c : Config) (s : Node V) : Action V → Option (Node V)
  | .join mode => s.join c mode
  | .write w => s.write w
  | .lostWrite w => s.lostWrite w
  | .doom => s.doom
  | .claim => s.claim
  | .rollBack => s.rollBack
  | .prepare readOnly aware => s.prepare c readOnly aware
  | .handleBegin i => s.handleBegin i
  | .handlePrepare i => s.handlePrepare i
  | .commit => s.commit
  | .abort => s.abort
  | .crash database => s.crash database
  | .recover => s.recover

/-- No prepare reaches a participant that was recovered unprepared. -/
def Sound (s : Node V) : Action V → Prop
  | .prepare _ _ => s.transaction.any (·.recoveredUnprepared) = false
  | _ => True

instance (s : Node V) (a : Action V) : Decidable (s.Sound a) := by
  cases a <;> unfold Sound <;> infer_instance

/-- The effects that the database has prepared. -/
def preparedEffects (s : Node V) : Effects V :=
  match s.database with
  | some d => if d.prepared then d.effects else .none
  | none => .none

end Node

/-! ## The invariant -/

/-- Effects that need the exclusive lock are made with it. -/
def Consistent {V : Type} (e : Effects V) (mode : Mode) : Prop :=
  mode = .shared → e.requiresExclusive = false

/-- Where the acknowledged effects are. -/
structure Inv {V : Type} (c : Config) (s : Node V) : Prop where
  untouched : s.joined = false → s.transaction = none ∧ s.record = false ∧ s.database = none ∧
    s.requests = [] ∧ s.acknowledged = .none ∧ s.committed = none
  clock : s.joined = true → c.timestamp ≤ s.clock
  down : s.up = false → s.transaction = none
  -- a participant that is gone lost its effects only by a restart that will be detected
  restarted : s.up = true → s.joined = true → s.transaction = none → s.finished = false →
    c.canUseRestartDetection = true ∧ c.timestamp < s.recoveryTimestamp
  record : c.canUseRestartDetection = false → s.joined = true → s.finished = false →
    s.record = true
  detection : ∀ m, s.transaction = some m →
    m.usingRestartDetection = (c.canUseRestartDetection && !m.recovered)
  memory : ∀ m, s.transaction = some m → m.recovered = false → c.canUseRestartDetection = true →
    m.effects = s.acknowledged ∧ Consistent m.effects m.mode ∧
      ∀ p ∈ m.snapshots, Consistent p.1 p.2
  written : ∀ m, s.transaction = some m → m.recovered = false →
    c.canUseRestartDetection = false → m.unrecoverableAbort = false →
    ∃ d, s.database = some d ∧ d.effects = s.acknowledged
  marked : ∀ m, s.transaction = some m → m.prepared = true →
    ∃ d, s.database = some d ∧ d.prepared = true
  mark : ∀ m d, s.transaction = some m → m.recovered = false → s.database = some d →
    d.prepared = true → m.prepared = true
  kept : ∀ d, s.database = some d → d.prepared = true → d.effects = s.acknowledged
  empty : ∀ d, s.database = some d → d.prepared = false → c.canUseRestartDetection = true →
    d.effects = .none
  preparing : s.requests ≠ [] → s.preparing = true
  request : ∀ r ∈ s.requests, ∀ e, r.deferred = some e →
    c.canUseRestartDetection = true ∧ e = s.acknowledged
  plain : ∀ r ∈ s.requests, r.deferred = none →
    c.canUseRestartDetection = false ∧ ∀ d, s.database = some d → d.effects = s.acknowledged
  begun : ∀ r ∈ s.requests, r.deferred = none → s.record = true → s.database.isSome = true
  own : ∀ r ∈ s.requests, ∀ m, s.transaction = some m → m.recovered = !r.own
  orphans : s.up = false → ∀ r ∈ s.requests, r.own = false
  unprepared : ∀ m, s.transaction = some m → m.recoveredUnprepared = true →
    m.recovered = true ∧ m.prepared = false
  recovered : ∀ m, s.transaction = some m → m.recovered = true → m.recoveredUnprepared = false →
    m.prepared = true
  finished : s.finished = true → ∀ m, s.transaction = some m → m.recovered = true
  committed : ∀ e, s.committed = some e → e = s.acknowledged ∧ s.finished = true
  answer : s.answer = some .prepared → s.preparedEffects.Contains s.acknowledged

namespace Inv

variable {V : Type} {c : Config} {s s' : Node V}

theorem initial : Inv c (Node.initial : Node V) := by
  constructor <;> simp [Node.initial]

theorem contains_of_nothing {d e : Effects V} (he : e.requiresExclusive = false)
    (hm : e.idempotentMutations = []) : d.Contains e := by
  simp only [Effects.requiresExclusive, Bool.or_eq_false_iff, Bool.not_eq_eq_eq_not,
    Bool.not_false, List.isEmpty_iff] at he
  exact ⟨by simp [he.1], by simp [he.2], by simp [hm]⟩

/-- The database's prepared transaction has everything. -/
theorem preparedEffects_contains (hi : Inv c s) {d : DatabaseTransaction V}
    (hd : s.database = some d) (hp : d.prepared = true) :
    s.preparedEffects.Contains s.acknowledged := by
  rw [← hi.kept d hd hp]
  simp only [Node.preparedEffects, hd, hp, if_true]
  exact Effects.Contains.refl _

theorem join (hi : Inv c s) {mode : Mode} (h : s.join c mode = some s') : Inv c s' := by
  unfold Node.join at h
  split at h
  · cases h
  next hg =>
    push Not at hg
    obtain ⟨hup, htr, hfin, hprep, hts⟩ := hg
    have hup : s.up = true := by simpa using hup
    have htr : s.transaction = none := by simpa using htr
    have hfin : s.finished = false := by simpa using hfin
    -- it is the transaction's first call here, or the restart is noticed
    have hfirst : c.canUseRestartDetection = true → s.recoveryTimestamp ≤ c.timestamp →
        s.joined = false := by
      intro _ hle
      by_contra hj
      have := (hi.restarted hup (by simpa using hj) htr hfin).2
      omega
    split at h
    next hrd =>
      split at h
      · cases h
      next hle =>
        cases h
        obtain ⟨-, hrec, hdb, hreq, hack, hcom⟩ := hi.untouched (hfirst hrd (by omega))
        constructor <;> simp_all [Participant.create, Consistent, Effects.requiresExclusive,
          Effects.none]
    next hrd =>
      cases h
      have hj : s.joined = false := by
        by_contra hj
        exact hrd (hi.restarted hup (by simpa using hj) htr hfin).1
      obtain ⟨-, hrec, hdb, hreq, hack, hcom⟩ := hi.untouched hj
      constructor <;> simp_all [Participant.create, Node.lookupOrBegin]

/-- A participant that calls can use, in a database that has prepared nothing. -/
structure Usable (c : Config) (s : Node V) (m : Participant V) : Prop where
  transaction : s.transaction = some m
  fresh : m.recovered = false
  unprepared : m.prepared = false
  recoverable : m.unrecoverableAbort = false
  calls : s.preparing = false
  up : s.up = true
  joined : s.joined = true
  unfinished : s.finished = false
  uncommitted : s.committed = none
  requests : s.requests = []
  database : ∀ d, s.database = some d → d.prepared = false
  detection : m.usingRestartDetection = c.canUseRestartDetection
  notUnprepared : m.recoveredUnprepared = false

theorem usable (hi : Inv c s) {m : Participant V} (h : s.usable = some m) : Usable c s m := by
  unfold Node.usable at h
  split at h
  · cases h
  next m' hm =>
    split at h
    · cases h
    next hg =>
      cases h
      simp only [not_or, Bool.not_eq_true] at hg
      obtain ⟨hfresh, hprep, hdoom, hcalls⟩ := hg
      have hfin : s.finished = false := by
        by_contra hf
        exact absurd ((hi.finished (by simpa using hf) m hm).symm.trans hfresh) (by simp)
      refine ⟨hm, hfresh, hprep, hdoom, hcalls, ?_, ?_, hfin, ?_, ?_, ?_, ?_, ?_⟩
      · by_contra hup
        have := hi.down (by simpa using hup)
        rw [hm] at this
        cases this
      · by_contra hj
        have := (hi.untouched (by simpa using hj)).1
        rw [hm] at this
        cases this
      · cases hcom : s.committed with
        | none => rfl
        | some e => exact absurd ((hi.committed e hcom).2.symm.trans hfin) (by simp)
      · by_contra hreq
        exact absurd ((hi.preparing hreq).symm.trans hcalls) (by simp)
      · intro d hd
        by_contra hp
        exact absurd ((hi.mark m d hm hfresh hd (by simpa using hp)).symm.trans hprep) (by simp)
      · rw [hi.detection m hm, hfresh]
        simp
      · by_contra hu
        exact absurd ((hi.unprepared m hm (by simpa using hu)).1.symm.trans hfresh) (by simp)

/-- A step of a usable participant: it stays as fresh as it was and nothing gets prepared. -/
theorem set_live (hi : Inv c s) {m m' : Participant V} (hu : Usable c s m)
    (htr : s'.transaction = some m')
    (hm : m'.recovered = false ∧ m'.recoveredUnprepared = false ∧ m'.prepared = false ∧
      m'.usingRestartDetection = m.usingRestartDetection)
    (hs : s'.up = s.up ∧ s'.joined = s.joined ∧ s'.finished = s.finished ∧
      s'.committed = s.committed ∧ s'.requests = s.requests ∧ s'.clock = s.clock ∧
      s'.answer = none)
    (hrecord : s.record = true → s'.record = true)
    (hdb : ∀ d, s'.database = some d →
      d.prepared = false ∧ (c.canUseRestartDetection = true → d.effects = .none))
    (hmem : c.canUseRestartDetection = true → m'.effects = s'.acknowledged ∧
      Consistent m'.effects m'.mode ∧ ∀ p ∈ m'.snapshots, Consistent p.1 p.2)
    (hwritten : c.canUseRestartDetection = false → m'.unrecoverableAbort = false →
      ∃ d, s'.database = some d ∧ d.effects = s'.acknowledged) : Inv c s' := by
  obtain ⟨hfresh, hun, hprep, hrd⟩ := hm
  obtain ⟨hup, hjoined, hfin, hcom, hreq, hclock, hans⟩ := hs
  have hup : s'.up = true := hup.trans hu.up
  have hjoined : s'.joined = true := hjoined.trans hu.joined
  have hfin : s'.finished = false := hfin.trans hu.unfinished
  have hreq : s'.requests = [] := hreq.trans hu.requests
  have heq : ∀ {n}, s'.transaction = some n → n = m' := by
    intro n hn
    rw [htr] at hn
    exact (Option.some.inj hn).symm
  refine ⟨?_, ?_, ?_, ?_, ?_, ?_, ?_, ?_, ?_, ?_, ?_, ?_, ?_, ?_, ?_, ?_, ?_, ?_, ?_, ?_, ?_, ?_, ?_⟩
  · exact fun hj => absurd (hjoined.symm.trans hj) (by simp)
  · intro _
    rw [hclock]
    exact hi.clock hu.joined
  · exact fun h => absurd (hup.symm.trans h) (by simp)
  · intro _ _ h
    rw [htr] at h
    cases h
  · exact fun hc _ _ => hrecord (hi.record hc hu.joined hu.unfinished)
  · rintro n hn
    rw [heq hn, hrd, hu.detection, hfresh]
    simp
  · rintro n hn - hc
    rw [heq hn]
    exact hmem hc
  · rintro n hn - hc hd
    rw [heq hn] at hd
    exact hwritten hc hd
  · intro n hn hp
    rw [heq hn] at hp
    exact absurd (hprep.symm.trans hp) (by simp)
  · intro n d _ _ hd hp
    exact absurd ((hdb d hd).1.symm.trans hp) (by simp)
  · intro d hd hp
    exact absurd ((hdb d hd).1.symm.trans hp) (by simp)
  · exact fun d hd _ hc => (hdb d hd).2 hc
  · exact fun h => absurd hreq h
  · simp [hreq]
  · simp [hreq]
  · simp [hreq]
  · simp [hreq]
  · simp [hreq]
  · intro n hn h
    rw [heq hn] at h
    exact absurd (hun.symm.trans h) (by simp)
  · intro n hn h
    rw [heq hn] at h
    exact absurd (hfresh.symm.trans h) (by simp)
  · exact fun h => absurd (hfin.symm.trans h) (by simp)
  · intro e he
    rw [hcom, hu.uncommitted] at he
    cases he
  · intro h
    rw [hans] at h
    cases h

/-- The database's side of a usable participant. -/
theorem database_live (hi : Inv c s) {m : Participant V} (hu : Usable c s m) :
    ∀ d, s.database = some d →
      d.prepared = false ∧ (c.canUseRestartDetection = true → d.effects = .none) :=
  fun d hd => ⟨hu.database d hd, hi.empty d hd (hu.database d hd)⟩

theorem consistent_andThen {e w : Effects V} {mode : Mode} (h : Consistent e mode) :
    Consistent (e.andThen w) (if w.requiresExclusive then .exclusive else mode) := by
  unfold Consistent at *
  split
  · exact fun h => by cases h
  next hw =>
    intro hm
    have := h hm
    cases hws : w.state <;> simp_all [Effects.requiresExclusive, Effects.andThen]

theorem write (hi : Inv c s) {w : Effects V} (h : s.write w = some s') : Inv c s' := by
  unfold Node.write at h
  split at h
  · cases h
  next m hm =>
    have hu := hi.usable hm
    cases h
    cases hrd : m.usingRestartDetection with
    | true =>
      have hc : c.canUseRestartDetection = true := hu.detection.symm.trans hrd
      refine hi.set_live hu rfl ⟨hu.fresh, hu.notUnprepared, hu.unprepared, hrd.symm⟩
        ⟨rfl, rfl, rfl, rfl, rfl, rfl, rfl⟩ id (hi.database_live hu) (fun _ => ?_)
        fun hc' => absurd (hc.symm.trans hc') (by simp)
      obtain ⟨he, hcons, hsn⟩ := hi.memory m hu.transaction hu.fresh hc
      exact ⟨congrArg (·.andThen w) he, consistent_andThen hcons, hsn⟩
    | false =>
      have hc : c.canUseRestartDetection = false := hu.detection.symm.trans hrd
      obtain ⟨d, hd, he⟩ := hi.written m hu.transaction hu.fresh hc hu.recoverable
      have happly : s.apply w = { s with database := some { d with effects := d.effects.andThen w } } := by
        simp [Node.apply, Node.lookupOrBegin, hd]
      simp only [Bool.false_eq_true, if_false, happly]
      refine hi.set_live hu rfl ⟨hu.fresh, hu.notUnprepared, hu.unprepared, hrd.symm⟩
        ⟨rfl, rfl, rfl, rfl, rfl, rfl, rfl⟩ id ?_ (fun hc' => absurd (hc.symm.trans hc') (by simp))
        fun _ _ => ⟨_, rfl, congrArg (·.andThen w) he⟩
      rintro d' ⟨⟩
      exact ⟨hu.database d hd, fun hc' => absurd (hc.symm.trans hc') (by simp)⟩

theorem lostWrite (hi : Inv c s) {w : Effects V} (h : s.lostWrite w = some s') : Inv c s' := by
  unfold Node.lostWrite at h
  split at h
  · cases h
  next m hm =>
    have hu := hi.usable hm
    split at h
    · cases h
    next hrd =>
      cases h
      have hc : c.canUseRestartDetection = false := by
        rw [← hu.detection]
        simpa using hrd
      obtain ⟨d, hd, he⟩ := hi.written m hu.transaction hu.fresh hc hu.recoverable
      have happly : s.apply w = { s with database := some { d with effects := d.effects.andThen w } } := by
        simp [Node.apply, Node.lookupOrBegin, hd]
      simp only [happly]
      refine hi.set_live hu rfl ⟨hu.fresh, hu.notUnprepared, hu.unprepared, rfl⟩
        ⟨rfl, rfl, rfl, rfl, rfl, rfl, rfl⟩ id ?_ (fun hc' => absurd (hc.symm.trans hc') (by simp))
        fun _ hd => by cases hd
      rintro d' ⟨⟩
      exact ⟨hu.database d hd, fun hc' => absurd (hc.symm.trans hc') (by simp)⟩

theorem doom (hi : Inv c s) (h : s.doom = some s') : Inv c s' := by
  unfold Node.doom at h
  split at h
  · cases h
  next m hm =>
    have hu := hi.usable hm
    cases h
    exact hi.set_live hu rfl ⟨hu.fresh, hu.notUnprepared, hu.unprepared, rfl⟩
      ⟨rfl, rfl, rfl, rfl, rfl, rfl, rfl⟩ id (hi.database_live hu)
      (hi.memory m hu.transaction hu.fresh) fun _ hd => by cases hd

theorem claim (hi : Inv c s) (h : s.claim = some s') : Inv c s' := by
  unfold Node.claim at h
  split at h
  · cases h
  next m hm =>
    have hu := hi.usable hm
    cases h
    refine hi.set_live hu rfl ⟨hu.fresh, hu.notUnprepared, hu.unprepared, rfl⟩
      ⟨rfl, rfl, rfl, rfl, rfl, rfl, rfl⟩ id (hi.database_live hu) (fun hc => ?_)
      fun hc => hi.written m hu.transaction hu.fresh hc
    obtain ⟨he, hcons, hsn⟩ := hi.memory m hu.transaction hu.fresh hc
    refine ⟨he, hcons, fun p hp => ?_⟩
    rcases List.mem_cons.mp hp with rfl | hp
    · exact hcons
    · exact hsn p hp

theorem rollBack (hi : Inv c s) (h : s.rollBack = some s') : Inv c s' := by
  unfold Node.rollBack at h
  split at h
  · cases h
  next m hm =>
    have hu := hi.usable hm
    split at h
    · cases h
    next hrd =>
      have hc : c.canUseRestartDetection = true := by
        rw [← hu.detection]
        simpa using hrd
      split at h
      · cases h
      next effects mode snapshots hsnap =>
        cases h
        obtain ⟨-, -, hsn⟩ := hi.memory m hu.transaction hu.fresh hc
        rw [hsnap] at hsn
        refine hi.set_live hu rfl ⟨hu.fresh, hu.notUnprepared, hu.unprepared, rfl⟩
          ⟨rfl, rfl, rfl, rfl, rfl, rfl, rfl⟩ id (hi.database_live hu) (fun _ => ?_)
          fun hc' => absurd (hc.symm.trans hc') (by simp)
        exact ⟨rfl, hsn _ (List.mem_cons_self ..), fun p hp => hsn p (List.mem_cons_of_mem _ hp)⟩

/-- Only the answer and that a prepare was seen change. -/
theorem set_answer (hi : Inv c s) {a : Option Answer}
    (ha : a = some .prepared → s.preparedEffects.Contains s.acknowledged) :
    Inv c { s with preparing := true, answer := a } :=
  { hi with preparing := fun _ => rfl, answer := ha }

/-- A prepare that is not refused, answered or skipped comes from a fresh participant. -/
theorem deferred_eq (hi : Inv c s) {m : Participant V} (hm : s.transaction = some m)
    (hfresh : m.recovered = false) {e : Effects V} (he : Node.deferred m = some e) :
    c.canUseRestartDetection = true ∧ e = s.acknowledged := by
  unfold Node.deferred at he
  split at he
  next hrd =>
    have hc : c.canUseRestartDetection = true := by
      have := hi.detection m hm
      rw [hrd, hfresh] at this
      simpa using this.symm
    obtain ⟨heff, hcons, -⟩ := hi.memory m hm hfresh hc
    refine ⟨hc, ?_⟩
    cases he
    rw [← heff]
    split
    · rfl
    next hmode =>
      have hshared : m.mode = .shared := by
        cases hmm : m.mode with
        | shared => rfl
        | exclusive => exact absurd hmm hmode
      have hnone : m.effects.state = none := by
        have := hcons hshared
        simp only [Effects.requiresExclusive, Bool.or_eq_false_iff] at this
        simpa using this.1
      rw [← hnone]
  · cases he

theorem prepare (hi : Inv c s) {readOnly aware : Bool}
    (hsound : s.transaction.any (·.recoveredUnprepared) = false)
    (h : s.prepare c readOnly aware = some s') : Inv c s' := by
  unfold Node.prepare at h
  split at h
  · cases h
  next hg =>
    push Not at hg
    obtain ⟨-, hro⟩ := hg
    dsimp only at h
    split at h
    next htr =>
      split at h
      · cases h
        exact hi.set_answer fun h => by cases h
      · split at h
        next hr =>
          cases h
          obtain ⟨hex, hmut⟩ := hro hr.1
          refine hi.set_answer fun _ => contains_of_nothing (by simpa using hex) hmut
        · cases h
          exact hi.set_answer fun h => by cases h
    next m hm =>
      have hun : m.recoveredUnprepared = false := by simpa [hm] using hsound
      split at h
      next hprep =>
        cases h
        obtain ⟨d, hd, hp⟩ := hi.marked m hm hprep
        exact hi.set_answer fun _ => hi.preparedEffects_contains hd hp
      next hprep =>
        -- neither recovered unprepared nor prepared: it was never recovered
        have hfresh : m.recovered = false := by
          by_contra hr
          exact hprep (hi.recovered m hm (by simpa using hr) hun)
        split at h
        · cases h
          exact hi.set_answer fun h => by cases h
        · split at h
          next hshort =>
            cases h
            obtain ⟨hshared, hmut, hrd, -⟩ := hshort
            have hc : c.canUseRestartDetection = true := by
              have := hi.detection m hm
              rw [hrd, hfresh] at this
              simpa using this.symm
            obtain ⟨heff, hcons, -⟩ := hi.memory m hm hfresh hc
            have hnothing : s.preparedEffects.Contains s.acknowledged := by
              rw [← heff]
              exact contains_of_nothing (hcons hshared) hmut
            exact { hi.set_answer (a := some .prepared) fun _ => hnothing with
              untouched := fun hj => absurd (hi.untouched hj).1 (by simp [hm])
              down := fun _ => rfl
              restarted := fun _ _ _ hf => by cases hf
              record := fun _ _ hf => by cases hf
              detection := fun _ hn => by cases hn
              memory := fun _ hn => by cases hn
              written := fun _ hn => by cases hn
              marked := fun _ hn => by cases hn
              mark := fun _ _ hn => by cases hn
              own := fun _ _ _ hn => by cases hn
              unprepared := fun _ hn => by cases hn
              recovered := fun _ hn => by cases hn
              finished := fun _ _ hn => by cases hn
              committed := fun e he => ⟨(hi.committed e he).1, rfl⟩ }
          · split at h
            · cases h
              exact hi.set_answer fun h => by cases h
            next hdoom _ _ =>
              cases h
              have hdoom : m.unrecoverableAbort = false := by simpa using hdoom
              have hi' := hi.set_answer (a := none) (fun h => by cases h)
              exact { hi' with
                untouched := fun hj => absurd (hi.untouched hj).1 (by simp [hm])
                preparing := fun _ => rfl
                request := by
                  intro r hr e he
                  rcases List.mem_cons.mp hr with rfl | hr
                  · exact hi.deferred_eq hm hfresh he
                  · exact hi.request r hr e he
                plain := by
                  intro r hr he
                  rcases List.mem_cons.mp hr with rfl | hr
                  · have hc : c.canUseRestartDetection = false := by
                      by_contra hc
                      have := hi.detection m hm
                      simp [Node.deferred, this, hfresh, hc] at he
                    refine ⟨hc, fun d hd => ?_⟩
                    obtain ⟨d', hd', he'⟩ := hi.written m hm hfresh hc hdoom
                    have hd : s.database = some d := hd
                    rw [hd] at hd'
                    cases hd'
                    exact he'
                  · exact hi.plain r hr he
                begun := by
                  intro r hr he hrec
                  rcases List.mem_cons.mp hr with rfl | hr
                  · have hc : c.canUseRestartDetection = false := by
                      by_contra hc
                      have := hi.detection m hm
                      simp [Node.deferred, this, hfresh, hc] at he
                    obtain ⟨d', hd', -⟩ := hi.written m hm hfresh hc hdoom
                    exact Option.isSome_iff_exists.mpr ⟨d', hd'⟩
                  · exact hi.begun r hr he hrec
                orphans := fun hup => absurd (hi.down hup) (by simp [hm])
                own := by
                  intro r hr n hn
                  rcases List.mem_cons.mp hr with rfl | hr
                  · have hn : s.transaction = some n := hn
                    rw [hm] at hn
                    cases hn
                    simpa using hfresh
                  · exact hi.own r hr n hn }

/-- The database begins an empty transaction for deferred writes. -/
theorem lookupOrBegin (hi : Inv c s) (hj : s.joined = true)
    (hc : c.canUseRestartDetection = true) : Inv c { s.lookupOrBegin with answer := none } := by
  unfold Node.lookupOrBegin
  split
  · exact { hi with answer := fun h => by cases h }
  next hdb =>
    exact { hi with
      untouched := fun h => absurd (hj.symm.trans h) (by simp)
      record := fun _ _ _ => rfl
      written := fun _ _ _ hc' => absurd (hc.symm.trans hc') (by simp)
      marked := by
        intro m hm hp
        obtain ⟨d, hd, -⟩ := hi.marked m hm hp
        rw [hdb] at hd
        cases hd
      mark := by
        rintro m d - - ⟨⟩ hp
        cases hp
      kept := by
        rintro d ⟨⟩ hp
        cases hp
      empty := by
        rintro d ⟨⟩ - -
        rfl
      plain := fun r hr hn => absurd (hc.symm.trans (hi.plain r hr hn).1) (by simp)
      begun := fun _ _ _ _ => rfl
      answer := fun h => by cases h }

theorem handleBegin (hi : Inv c s) {i : Nat} (h : s.handleBegin i = some s') : Inv c s' := by
  unfold Node.handleBegin at h
  split at h
  next e own hr =>
    cases h
    have hmem := List.mem_of_getElem? hr
    obtain ⟨hc, he⟩ := hi.request _ hmem e rfl
    have hj : s.joined = true := by
      by_contra hj
      rw [(hi.untouched (by simpa using hj)).2.2.2.1] at hmem
      cases hmem
    have hi' := hi.lookupOrBegin hj hc
    have hsame : s.lookupOrBegin.requests = s.requests ∧ s.lookupOrBegin.joined = s.joined := by
      unfold Node.lookupOrBegin
      split <;> exact ⟨rfl, rfl⟩
    have hset : ∀ r ∈ s.requests.set i ⟨some e, true, own⟩,
        r ∈ s.lookupOrBegin.requests ∨ r = ⟨some e, true, own⟩ := by
      rw [hsame.1]
      exact fun r hr => List.mem_or_eq_of_mem_set hr
    have hmem' : (⟨some e, false, own⟩ : Request V) ∈ s.lookupOrBegin.requests := by
      rw [hsame.1]
      exact hmem
    exact { hi' with
      untouched := fun h => absurd ((hsame.2.trans hj).symm.trans h) (by simp)
      preparing := fun _ => hi'.preparing (List.ne_nil_of_mem hmem')
      request := by
        intro r hr e' he'
        rcases hset r hr with hr | rfl
        · exact hi'.request r hr e' he'
        · cases he'
          exact hi'.request _ hmem' e rfl
      plain := by
        intro r hr hn
        rcases hset r hr with hr | rfl
        · exact hi'.plain r hr hn
        · cases hn
      begun := by
        intro r hr hn
        rcases hset r hr with hr | rfl
        · exact hi'.begun r hr hn
        · cases hn
      own := by
        intro r hr m hm
        rcases hset r hr with hr | rfl
        · exact hi'.own r hr m hm
        · exact hi'.own _ hmem' m hm
      orphans := by
        intro hup r hr
        rcases hset r hr with hr | rfl
        · exact hi'.orphans hup r hr
        · have := hi'.orphans hup _ hmem'
          exact this }
  · cases h

/-- A request is over. -/
theorem eraseRequest (hi : Inv c s) (rs : List (Request V)) (hsub : ∀ r ∈ rs, r ∈ s.requests) :
    Inv c { s with requests := rs, answer := none } :=
  { hi with
    untouched := by
      intro hj
      obtain ⟨h1, h2, h3, h4, h5, h6⟩ := hi.untouched hj
      refine ⟨h1, h2, h3, ?_, h5, h6⟩
      rw [List.eq_nil_iff_forall_not_mem]
      intro r hr
      have := hsub r hr
      rw [h4] at this
      cases this
    preparing := by
      intro hne
      obtain ⟨r, hr⟩ := List.exists_mem_of_ne_nil _ hne
      exact hi.preparing (List.ne_nil_of_mem (hsub r hr))
    request := fun r hr => hi.request r (hsub r hr)
    plain := fun r hr => hi.plain r (hsub r hr)
    begun := fun r hr => hi.begun r (hsub r hr)
    own := fun r hr => hi.own r (hsub r hr)
    orphans := fun hup r hr => hi.orphans hup r (hsub r hr)
    answer := fun h => by cases h }

/-- The database prepares all that was acknowledged, for a server that is gone. -/
theorem set_prepared (hi : Inv c s) {e : Effects V} (hj : s.joined = true)
    (he : e = s.acknowledged) (hrec : ∀ m, s.transaction = some m → m.recovered = true) :
    Inv c { s with database := some ⟨e, true⟩, answer := none } :=
  { hi with
    untouched := fun h => absurd (hj.symm.trans h) (by simp)
    written := fun _ _ _ _ _ => ⟨_, rfl, he⟩
    marked := fun _ _ _ => ⟨_, rfl, rfl⟩
    mark := fun m _ hm hfresh => absurd ((hrec m hm).symm.trans hfresh) (by simp)
    kept := by
      rintro d ⟨⟩ -
      exact he
    empty := by
      rintro d ⟨⟩ hp
      cases hp
    plain := by
      refine fun r hr hn => ⟨(hi.plain r hr hn).1, ?_⟩
      rintro d ⟨⟩
      exact he
    begun := fun _ _ _ _ => rfl
    answer := fun h => by cases h }

/-- And for the participant that asked. -/
theorem set_prepared_own (hi : Inv c s) {e : Effects V} {m : Participant V} (hj : s.joined = true)
    (he : e = s.acknowledged) (hm : s.transaction = some m) (hfresh : m.recovered = false) :
    Inv c { s with
      transaction := some { m with prepared := true }
      database := some ⟨e, true⟩
      answer := some .prepared } :=
  { hi with
    untouched := fun h => absurd (hj.symm.trans h) (by simp)
    down := fun h => absurd (hi.down h) (by simp [hm])
    restarted := fun _ _ h => by cases h
    detection := by
      rintro n ⟨⟩
      exact hi.detection m hm
    memory := by
      rintro n ⟨⟩
      exact hi.memory m hm
    written := fun _ _ _ _ _ => ⟨_, rfl, he⟩
    marked := fun _ _ _ => ⟨_, rfl, rfl⟩
    mark := by
      rintro n d ⟨⟩ - - -
      rfl
    kept := by
      rintro d ⟨⟩ -
      exact he
    empty := by
      rintro d ⟨⟩ hp
      cases hp
    plain := by
      refine fun r hr hn => ⟨(hi.plain r hr hn).1, ?_⟩
      rintro d ⟨⟩
      exact he
    begun := fun _ _ _ _ => rfl
    own := by
      rintro r hr n ⟨⟩
      exact hi.own r hr m hm
    unprepared := by
      rintro n ⟨⟩ hu
      exact absurd ((hi.unprepared m hm hu).1.symm.trans hfresh) (by simp)
    recovered := by
      rintro n ⟨⟩ - -
      rfl
    finished := by
      rintro hf n ⟨⟩
      exact hi.finished hf m hm
    answer := by
      intro _
      simp only [Node.preparedEffects, if_true]
      rw [he]
      exact Effects.Contains.refl _ }

theorem handlePrepare (hi : Inv c s) {i : Nat} (h : s.handlePrepare i = some s') : Inv c s' := by
  unfold Node.handlePrepare at h
  split at h
  · cases h
  next r hr =>
    have hmem := List.mem_of_getElem? hr
    have hi' := hi.eraseRequest (s.requests.eraseIdx i) fun r hr => List.mem_of_mem_eraseIdx hr
    split at h
    · cases h
    · dsimp only at h
      split at h
      · cases h
        exact hi'
      next d hd =>
        split at h
        · cases h
          exact hi'
        next hp =>
          have hp : d.prepared = false := by simpa using hp
          -- what is prepared is what was acknowledged
          have heff : d.effects.andThen (r.deferred.getD .none) = s.acknowledged := by
            cases hdef : r.deferred with
            | none =>
              rw [Option.getD_none, Effects.andThen_none]
              exact (hi.plain r hmem hdef).2 d hd
            | some e =>
              obtain ⟨hc, he⟩ := hi.request r hmem e hdef
              rw [Option.getD_some, hi.empty d hd hp hc, Effects.none_andThen, he]
          have hjoined : s.joined = true := by
            by_contra hj
            rw [(hi.untouched (by simpa using hj)).2.2.2.1] at hmem
            cases hmem
          split at h
          next m hm =>
            have hm : s.transaction = some m := hm
            have hown := hi.own r hmem m hm
            split at h
            next how =>
              cases h
              exact hi'.set_prepared_own hjoined heff hm (by simpa [how] using hown)
            next how =>
              cases h
              refine hi'.set_prepared hjoined heff fun n hn => ?_
              have hn : s.transaction = some n := hn
              rw [hm] at hn
              cases hn
              simpa [how] using hown
          next hm =>
            cases h
            refine hi'.set_prepared hjoined heff fun n hn => ?_
            rw [hm] at hn
            cases hn

/-- The participant is gone, and so is what the database had for it. -/
theorem gone (hi : Inv c s) {m : Participant V} (hm : s.transaction = some m) {b : Bool}
    {e : Option (Effects V)} (hb : b = true → s.record = true ∧ s.database = none)
    (he : ∀ x, e = some x → x = s.acknowledged) :
    Inv c { s with
      transaction := none
      record := b
      database := none
      finished := true
      committed := e
      answer := none } :=
  { hi with
    untouched := fun hj => absurd (hi.untouched hj).1 (by simp [hm])
    down := fun _ => rfl
    restarted := fun _ _ _ hf => by cases hf
    record := fun _ _ hf => by cases hf
    detection := fun _ hn => by cases hn
    memory := fun _ hn => by cases hn
    written := fun _ hn => by cases hn
    marked := fun _ hn => by cases hn
    mark := fun _ _ hn => by cases hn
    kept := fun _ hd => by cases hd
    empty := fun _ hd => by cases hd
    plain := fun r hr hn => ⟨(hi.plain r hr hn).1, fun _ hd => by cases hd⟩
    begun := by
      intro r hr hn hrec
      obtain ⟨hrec, hdb⟩ := hb hrec
      have := hi.begun r hr hn hrec
      rw [hdb] at this
      cases this
    own := fun _ _ _ hn => by cases hn
    unprepared := fun _ hn => by cases hn
    recovered := fun _ hn => by cases hn
    finished := fun _ _ hn => by cases hn
    committed := fun x hx => ⟨he x hx, rfl⟩
    answer := fun h => by cases h }

theorem commit (hi : Inv c s) (h : s.commit = some s') : Inv c s' := by
  unfold Node.commit at h
  split at h
  next m d hm hd =>
    split at h
    next hp =>
      cases h
      refine hi.gone hm (fun hb => by cases hb) ?_
      rintro x ⟨⟩
      exact hi.kept d hd hp.2
    · cases h
  · cases h

theorem abort (hi : Inv c s) (h : s.abort = some s') : Inv c s' := by
  unfold Node.abort at h
  split at h
  · cases h
  next hg =>
    push Not at hg
    cases h
    cases hm : s.transaction with
    | none => exact absurd hm (by simpa using hg.1)
    | some m =>
      refine hi.gone hm (fun hb => ?_) fun x hx => (hi.committed x hx).1
      split at hb
      · cases hb
      next hdb => exact ⟨hb, by simpa using hdb⟩

theorem crash (hi : Inv c s) {database : Bool} (h : s.crash database = some s') : Inv c s' := by
  unfold Node.crash at h
  split at h
  · cases h
  · cases h
    have hdb : ∀ d, (if database then s.database.filter (·.prepared) else s.database) = some d →
        s.database = some d := by
      intro d hd
      split at hd
      · exact (Option.filter_eq_some_iff.mp hd).1
      · exact hd
    have hreq : ∀ r, r ∈ (if database then [] else s.requests.map fun r => { r with own := false }) →
        database = false ∧ r.own = false ∧ ∃ r' ∈ s.requests, r'.deferred = r.deferred := by
      intro r hr
      split at hr
      · cases hr
      next hdatabase =>
        obtain ⟨r', hr', rfl⟩ := List.mem_map.mp hr
        exact ⟨by simpa using hdatabase, rfl, r', hr', rfl⟩
    exact { hi with
      untouched := by
        intro hj
        obtain ⟨-, h2, h3, h4, h5, h6⟩ := hi.untouched hj
        simp [h2, h3, h4, h5, h6]
      down := fun _ => rfl
      restarted := fun hup => by cases hup
      detection := fun _ hn => by cases hn
      memory := fun _ hn => by cases hn
      written := fun _ hn => by cases hn
      marked := fun _ hn => by cases hn
      mark := fun _ _ hn => by cases hn
      kept := fun d hd => hi.kept d (hdb d hd)
      empty := fun d hd => hi.empty d (hdb d hd)
      preparing := by
        intro hne
        obtain ⟨r, hr⟩ := List.exists_mem_of_ne_nil _ hne
        obtain ⟨-, -, r', hr', -⟩ := hreq r hr
        exact hi.preparing (List.ne_nil_of_mem hr')
      request := by
        intro r hr e he
        obtain ⟨-, -, r', hr', hd⟩ := hreq r hr
        exact hi.request r' hr' e (hd.trans he)
      plain := by
        intro r hr hn
        obtain ⟨-, -, r', hr', hd⟩ := hreq r hr
        obtain ⟨hc, heff⟩ := hi.plain r' hr' (hd.trans hn)
        exact ⟨hc, fun d hd => heff d (hdb d hd)⟩
      begun := by
        intro r hr hn hrec
        obtain ⟨hdatabase, -, r', hr', hd⟩ := hreq r hr
        rw [hdatabase]
        exact hi.begun r' hr' (hd.trans hn) hrec
      own := fun _ _ _ hn => by cases hn
      orphans := fun _ r hr => (hreq r hr).2.1
      unprepared := fun _ hn => by cases hn
      recovered := fun _ hn => by cases hn
      finished := fun _ _ hn => by cases hn
      answer := fun h => by cases h }

/-- A recovered participant, for the transaction that the database has. -/
theorem set_recovered (hi : Inv c s) {d : DatabaseTransaction V} (hj : s.joined = true)
    (hup : s.up = false)
    (hd : s.database = some d ∨ s.database = none ∧ s.record = true ∧ d = ⟨.none, false⟩) :
    Inv c { s with
      up := true
      clock := s.clock + 1
      recoveryTimestamp := s.clock + 1
      answer := none
      database := some d
      transaction := some (.fromSidecar d.prepared d.effects) } := by
  have hkept : d.prepared = true → d.effects = s.acknowledged := by
    intro hp
    rcases hd with hd | ⟨-, -, rfl⟩
    · exact hi.kept d hd hp
    · cases hp
  exact { hi with
    untouched := fun h => absurd (hj.symm.trans h) (by simp)
    clock := fun _ => Nat.le_succ_of_le (hi.clock hj)
    down := fun h => by cases h
    restarted := fun _ _ h => by cases h
    detection := by
      rintro m ⟨⟩
      simp [Participant.fromSidecar, Participant.create]
    memory := by
      rintro m ⟨⟩ h
      cases h
    written := by
      rintro m ⟨⟩ h
      cases h
    marked := by
      rintro m ⟨⟩ hp
      exact ⟨d, rfl, hp⟩
    mark := by
      rintro m d' ⟨⟩ h
      cases h
    kept := by
      rintro d' ⟨⟩
      exact hkept
    empty := by
      rintro d' ⟨⟩ hp hc
      rcases hd with hd | ⟨-, -, rfl⟩
      · exact hi.empty d hd hp hc
      · rfl
    plain := by
      refine fun r hr hn => ⟨(hi.plain r hr hn).1, ?_⟩
      rintro d' ⟨⟩
      rcases hd with hd | ⟨hdb, hrec, -⟩
      · exact (hi.plain r hr hn).2 d hd
      · -- an empty transaction is begun only when nobody is preparing one
        have := hi.begun r hr hn hrec
        rw [hdb] at this
        cases this
    begun := fun _ _ _ _ => rfl
    own := by
      rintro r hr m ⟨⟩
      rw [hi.orphans hup r hr]
      rfl
    orphans := fun h => by cases h
    unprepared := by
      rintro m ⟨⟩ hu
      exact ⟨rfl, by simpa [Participant.fromSidecar, Participant.create] using hu⟩
    recovered := by
      rintro m ⟨⟩ - hu
      simpa [Participant.fromSidecar, Participant.create] using hu
    finished := by
      rintro - m ⟨⟩
      rfl
    answer := fun h => by cases h }

theorem recover (hi : Inv c s) (h : s.recover = some s') : Inv c s' := by
  unfold Node.recover at h
  split at h
  · cases h
  next hup =>
    have hup : s.up = false := by simpa using hup
    dsimp only at h
    split at h
    next hrec =>
      cases h
      have htr := hi.down hup
      exact { hi with
        clock := fun hj => Nat.le_succ_of_le (hi.clock hj)
        down := fun h => by cases h
        restarted := by
          intro _ hj _ hf
          refine ⟨?_, Nat.lt_succ_of_le (hi.clock hj)⟩
          by_contra hc
          exact absurd ((hi.record (by simpa using hc) hj hf).symm.trans hrec) (by simp)
        orphans := fun h => by cases h
        answer := fun h => by cases h }
    next hrec =>
      have hrec : s.record = true := by simpa using hrec
      have hj : s.joined = true := by
        by_contra hj
        exact absurd ((hi.untouched (by simpa using hj)).2.1.symm.trans hrec) (by simp)
      split at h
      next d hd =>
        cases h
        have hi' := hi.set_recovered (d := d) hj hup (.inl hd)
        rw [← hd] at hi'
        exact hi'
      next hd =>
        cases h
        exact hi.set_recovered (d := ⟨.none, false⟩) hj hup (.inr ⟨hd, hrec, rfl⟩)

theorem step {a : Action V} (hi : Inv c s) (hsound : s.Sound a) (h : s.step c a = some s') :
    Inv c s' := by
  cases a with
  | join mode => exact hi.join h
  | write w => exact hi.write h
  | lostWrite w => exact hi.lostWrite h
  | doom => exact hi.doom h
  | claim => exact hi.claim h
  | rollBack => exact hi.rollBack h
  | prepare readOnly aware => exact hi.prepare hsound h
  | handleBegin i => exact hi.handleBegin h
  | handlePrepare i => exact hi.handlePrepare h
  | commit => exact hi.commit h
  | abort => exact hi.abort h
  | crash database => exact hi.crash h
  | recover => exact hi.recover h

end Inv

/-- The invariant holds along every sound run. -/
theorem sound_inv {V : Type} {c : Config} {s : Node V}
    (h : Reach (Node.step c) Node.Sound Node.initial s) : Inv c s :=
  h.invariant (Inv c) Inv.initial fun _ _ _ hi hs hstep => hi.step hs hstep

/-! ## What a prepare and a commit keep -/

/-- Along a sound run, a prepare that succeeded and a commit have all that was acknowledged,
and a participant that was recovered unprepared is neither prepared nor committed. -/
theorem sound_kept {V : Type} {c : Config} {s : Node V}
    (h : Reach (Node.step c) Node.Sound Node.initial s) :
    (s.answer = some .prepared → s.preparedEffects.Contains s.acknowledged) ∧
    (∀ e, s.committed = some e → e.Contains s.acknowledged) ∧
    ∀ m, s.transaction = some m → m.recoveredUnprepared = true →
      m.prepared = false ∧ s.step c .commit = none := by
  have hi := sound_inv h
  refine ⟨hi.answer, fun e he => ?_, fun m hm hu => ?_⟩
  · rw [(hi.committed e he).1]
    exact Effects.Contains.refl _
  · have hp := (hi.unprepared m hm hu).2
    refine ⟨hp, ?_⟩
    simp only [Node.step, Node.commit, hm]
    split
    next m' d hm' hd =>
      cases hm'
      rw [if_neg (by simp [hp])]
    · rfl

/-- A write, a crash after the prepare, and a second prepare of what was recovered. -/
def preparedThenCrashed : List (Action Nat) :=
  [.join .shared, .write ⟨some 7, [1], [2]⟩, .prepare false true, .handleBegin 0, .handlePrepare 0,
    .crash true, .recover, .prepare false true]

/-- Everything is in the prepared transaction. -/
theorem preparedThenCrashed_kept :
    (last (Node.step ⟨true, 0⟩) Node.initial preparedThenCrashed).answer = some .prepared ∧
      (last (Node.step ⟨true, 0⟩) Node.initial preparedThenCrashed).preparedEffects.Contains
        ⟨some 7, [1], [2]⟩ := by
  have hreach : Reach (Node.step ⟨true, 0⟩) Node.Sound Node.initial
      (last (Node.step ⟨true, 0⟩) Node.initial preparedThenCrashed) :=
    reach_last preparedThenCrashed .init (by decide +kernel)
  have hanswer : (last (Node.step ⟨true, 0⟩) Node.initial preparedThenCrashed).answer =
      some .prepared := by decide +kernel
  exact ⟨hanswer, (sound_kept hreach).1 hanswer⟩

/-- A write, a crash before the prepare, and the prepare of what was recovered. Without
restart detection the record is from the join, with it from a prepare that was cut off. -/
def crashedThenPrepared (canUseRestartDetection : Bool) : List (Action Nat) :=
  [.join .shared, .write ⟨some 7, [1], [2]⟩] ++
    (if canUseRestartDetection then [.prepare false true, .handleBegin 0] else []) ++
    [.crash true, .recover, .prepare false true, .handlePrepare 0]

/-- The node after that run, and after a commit. -/
def recoveredEmpty (canUseRestartDetection : Bool) (rest : List (Action Nat)) : Node Nat :=
  last (Node.step ⟨canUseRestartDetection, 0⟩) Node.initial
    (crashedThenPrepared canUseRestartDetection ++ rest)

/-- It succeeds on an empty transaction, which then commits. -/
def LosesWrites (canUseRestartDetection : Bool) : Prop :=
  Reach (Node.step ⟨canUseRestartDetection, 0⟩) (fun _ _ => True) Node.initial
      (recoveredEmpty canUseRestartDetection []) ∧
    (recoveredEmpty canUseRestartDetection []).answer = some .prepared ∧
    (recoveredEmpty canUseRestartDetection []).acknowledged = ⟨some 7, [1], [2]⟩ ∧
    (recoveredEmpty canUseRestartDetection []).preparedEffects = .none ∧
    (recoveredEmpty canUseRestartDetection []).transaction.any (·.recoveredUnprepared) = true ∧
    (recoveredEmpty canUseRestartDetection [.commit]).committed = some .none

theorem empty_prepared : LosesWrites false ∧ LosesWrites true := by
  constructor
  · refine ⟨reach_last _ .init (by decide +kernel), ?_⟩
    decide +kernel
  · refine ⟨reach_last _ .init (by decide +kernel), ?_⟩
    decide +kernel

end Reboot.Txn.Recovery
