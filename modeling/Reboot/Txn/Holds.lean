import Reboot.Txn.Lock

/-!
# Who holds the lock

The abstract lock: a set of parties that hold it shared, or one that holds it
exclusively, a pending upgrader and a queue. A party is a transaction, or one of the
readers and writers outside any transaction, which the source only counts. `Holds` has
neither counts nor flags, so there is nothing in it that could disagree.

`Holds.toLock` forgets the parties and keeps what the fields of a `Lock` say about
them. For every operation, done by a party that may do it, the concrete operation on
`toLock h` is `toLock` of the abstract operation and no assertion fails: these are the
theorems named `.._toLock`.
-/

namespace Reboot.Txn

/-- Who can hold a lock. -/
inductive Party (τ : Type)
  | txn (t : τ)
  | anonymous (n : Nat)
  deriving DecidableEq

/-- How a party identifies itself to the lock. -/
def Party.transaction {τ : Type} : Party τ → Option τ
  | .txn t => some t
  | .anonymous _ => none

/-- The transactions among some parties. -/
def transactions {τ : Type} (ps : List (Party τ)) : List τ := ps.filterMap Party.transaction

@[simp] theorem transactions_txn {τ : Type} (t : τ) (ps : List (Party τ)) :
    transactions (.txn t :: ps) = t :: transactions ps := rfl

@[simp] theorem transactions_anonymous {τ : Type} (n : Nat) (ps : List (Party τ)) :
    transactions (.anonymous n :: ps) = transactions ps := rfl

/-- A queued request. -/
structure Request (τ : Type) where
  id : Nat
  mode : Mode
  party : Party τ
  deriving DecidableEq

/-- The waiter the lock has for a request. -/
def Request.waiter {τ : Type} (r : Request τ) : Waiter τ := ⟨r.id, r.mode, r.party.transaction⟩

/-- The abstract lock. -/
structure Holds (τ : Type) where
  shared : List (Party τ)
  exclusive : Option (Party τ)
  upgrader : Option (Nat × Party τ)
  queue : List (Request τ)
  granted : List Nat
  deriving DecidableEq

namespace Holds

variable {τ : Type}

/-- Nobody holds the lock. -/
def free : Holds τ := ⟨[], none, none, [], []⟩

/-- What the fields of the lock say. -/
def toLock (h : Holds τ) : Lock τ where
  shared := h.shared.length
  exclusive := h.exclusive.isSome
  upgrader := h.upgrader.map fun u => ⟨u.1, .exclusive, u.2.transaction⟩
  exclusiveHolder := h.exclusive.bind Party.transaction
  sharedHolders := transactions h.shared
  waiters := h.queue.map Request.waiter
  done := h.granted

/-- An exclusive holder is alone, an upgrader holds the lock shared, and whoever is
queued holds nothing and is queued once. -/
structure WF (h : Holds τ) : Prop where
  shared_nodup : h.shared.Nodup
  exclusive_alone : ∀ p, h.exclusive = some p → h.shared = [] ∧ h.upgrader = none
  upgrader_shared : ∀ w p, h.upgrader = some (w, p) → p ∈ h.shared
  queue_nodup : (h.queue.map Request.party).Nodup
  queue_not_shared : ∀ r ∈ h.queue, r.party ∉ h.shared
  queue_not_exclusive : ∀ r ∈ h.queue, h.exclusive ≠ some r.party

/-- A pending upgrader is not the last shared holder: it would have been granted. -/
def Settled (h : Holds τ) : Prop := ∀ u, h.upgrader = some u → h.shared.length ≠ 1

/-- The head `r` of the queue is granted its shared hold. -/
def takeShared (r : Request τ) (rs : List (Request τ)) (h : Holds τ) : Holds τ :=
  { h with queue := rs, shared := r.party :: h.shared, granted := r.id :: h.granted }

/-- The head `r` of the queue is granted its exclusive hold. -/
def takeExclusive (r : Request τ) (rs : List (Request τ)) (h : Holds τ) : Holds τ :=
  { h with queue := rs, exclusive := some r.party, granted := r.id :: h.granted }

/-- The upgrader is granted its exclusive hold. -/
def takeUpgrade (w : Nat) (p : Party τ) (h : Holds τ) : Holds τ :=
  { h with upgrader := none, shared := [], exclusive := some p, granted := w :: h.granted }

/-- Grant the queue as far as possible; the first argument is the queue. -/
def grantQueue : List (Request τ) → Holds τ → Holds τ
  | [], h => h
  | r :: rs, h =>
    match r.mode with
    | .exclusive => if h.shared ≠ [] then h else takeExclusive r rs h
    | .shared => grantQueue rs (takeShared r rs h)

/-- What happens when a shared hold was given back. -/
def grantNext (h : Holds τ) : Holds τ :=
  match h.upgrader with
  | some (w, p) =>
    if h.shared.length = 1 then takeUpgrade w p h else h
  | none => if h.shared ≠ [] then h else grantQueue h.queue h

/-- Give back the exclusive hold. -/
def releaseExclusive (h : Holds τ) : Holds τ :=
  grantQueue h.queue { h with exclusive := none }

/-- Keep the exclusive hold as a shared one. -/
def downgrade (p : Party τ) (h : Holds τ) : Holds τ :=
  grantQueue h.queue { h with exclusive := none, shared := [p] }

/-! ## Granting keeps the shape -/

section

variable {h : Holds τ} {r : Request τ} {rs : List (Request τ)}

theorem takeShared_wf (hq : h.queue = r :: rs) (hex : h.exclusive = none) (hwf : h.WF) :
    (takeShared r rs h).WF := by
  have hmem : r ∈ h.queue := by rw [hq]; exact List.mem_cons_self ..
  have hnd := hwf.queue_nodup
  rw [hq, List.map_cons, List.nodup_cons] at hnd
  refine ⟨List.nodup_cons.mpr ⟨hwf.queue_not_shared r hmem, hwf.shared_nodup⟩, ?_, ?_, hnd.2,
    ?_, ?_⟩
  · intro p hp
    simp only [takeShared, hex] at hp
    cases hp
  · intro w p hp
    exact List.mem_cons_of_mem _ (hwf.upgrader_shared w p hp)
  · intro r' hr'
    refine List.mem_cons.not.mpr (not_or.mpr ⟨?_, hwf.queue_not_shared r' ?_⟩)
    · intro he
      exact hnd.1 (he ▸ List.mem_map.mpr ⟨r', hr', rfl⟩)
    · rw [hq]
      exact List.mem_cons_of_mem _ hr'
  · intro r' _
    simp [takeShared, hex]

theorem takeExclusive_wf (hq : h.queue = r :: rs) (hs : h.shared = []) (hu : h.upgrader = none)
    (hwf : h.WF) : (takeExclusive r rs h).WF := by
  have hnd := hwf.queue_nodup
  rw [hq, List.map_cons, List.nodup_cons] at hnd
  refine ⟨hwf.shared_nodup, fun _ _ => ⟨hs, hu⟩, hwf.upgrader_shared, hnd.2, ?_, ?_⟩
  · intro r' hr'
    exact hwf.queue_not_shared r' (hq ▸ List.mem_cons_of_mem _ hr')
  · intro r' hr' he
    have hp : r.party = r'.party := Option.some.inj he
    exact hnd.1 (hp ▸ List.mem_map.mpr ⟨r', hr', rfl⟩)

theorem takeUpgrade_wf {w : Nat} {p : Party τ} (hp : p ∈ h.shared) (hwf : h.WF) :
    (takeUpgrade w p h).WF := by
  refine ⟨List.nodup_nil, fun _ _ => ⟨rfl, rfl⟩, ?_, hwf.queue_nodup, ?_, ?_⟩
  · intro w' p' h'
    cases h'
  · intro r' _
    exact List.not_mem_nil
  · intro r' hr' he
    have hp' : p = r'.party := Option.some.inj he
    exact hwf.queue_not_shared r' hr' (hp' ▸ hp)

end

theorem grantQueue_wf : ∀ {rs : List (Request τ)} {h : Holds τ}, h.queue = rs →
    h.exclusive = none → h.upgrader = none → h.WF → (grantQueue rs h).WF
  | [], _, _, _, _, hwf => hwf
  | r :: rs, h, hq, hex, hu, hwf => by
    simp only [grantQueue]
    split
    · by_cases hs : h.shared = []
      · simp only [hs, ne_eq, not_true_eq_false, if_false]
        exact takeExclusive_wf hq hs hu hwf
      · simpa [hs] using hwf
    · exact grantQueue_wf rfl hex hu (takeShared_wf hq hex hwf)

theorem grantNext_wf {h : Holds τ} (hex : h.exclusive = none) (hwf : h.WF) :
    (grantNext h).WF := by
  unfold grantNext
  split
  next w p hu =>
    split
    · exact takeUpgrade_wf (hwf.upgrader_shared w p hu) hwf
    · exact hwf
  next hu =>
    split
    · exact hwf
    · exact grantQueue_wf rfl hex hu hwf

theorem settled_of_none {h : Holds τ} (hu : h.upgrader = none) : h.Settled := by
  intro u h'
  rw [hu] at h'
  cases h'

theorem grantQueue_upgrader : ∀ (rs : List (Request τ)) (h : Holds τ),
    (grantQueue rs h).upgrader = h.upgrader
  | [], _ => rfl
  | r :: rs, h => by
    simp only [grantQueue]
    split
    · split
      · rfl
      · rfl
    · exact grantQueue_upgrader rs (takeShared r rs h)

theorem grantNext_settled (h : Holds τ) : (grantNext h).Settled := by
  unfold grantNext
  split
  next w p hu =>
    split
    · exact settled_of_none rfl
    next hlen => exact fun _ _ => hlen
  next hu =>
    split
    · exact settled_of_none hu
    · exact settled_of_none ((grantQueue_upgrader _ _).trans hu)

variable [DecidableEq τ]

/-- The mode in which a party holds the lock. -/
def holdOf (h : Holds τ) (p : Party τ) : Option Mode :=
  if h.exclusive = some p then some .exclusive
  else if p ∈ h.shared then some .shared
  else none

/-- Give back a shared hold. -/
def releaseShared (p : Party τ) (h : Holds τ) : Holds τ :=
  grantNext { h with shared := h.shared.erase p }

/-- Give back a hold in the given mode. -/
def release (mode : Mode) (p : Party τ) (h : Holds τ) : Holds τ :=
  match mode with
  | .shared => releaseShared p h
  | .exclusive => releaseExclusive h

/-! ## Transactions among the parties -/

omit [DecidableEq τ] in
theorem mem_transactions {t : τ} {ps : List (Party τ)} :
    t ∈ transactions ps ↔ Party.txn t ∈ ps := by
  rw [transactions, List.mem_filterMap]
  constructor
  · rintro ⟨p, hp, ht⟩
    cases p with
    | txn t' => cases ht; exact hp
    | anonymous n => cases ht
  · intro h
    exact ⟨_, h, rfl⟩

/-- Removing a party without a transaction removes none. -/
theorem transactions_erase_anonymous (n : Nat) : ∀ ps : List (Party τ),
    transactions (ps.erase (.anonymous n)) = transactions ps
  | [] => rfl
  | q :: ps => by
    have ih := transactions_erase_anonymous n ps
    by_cases hq : q = .anonymous n
    · subst hq
      rw [List.erase_cons_head, transactions_anonymous]
    · rw [List.erase_cons_tail (by simpa using hq)]
      cases q with
      | txn t => rw [transactions_txn, transactions_txn, ih]
      | anonymous k => rw [transactions_anonymous, transactions_anonymous, ih]

/-- Removing a party that is a transaction removes the transaction. -/
theorem transactions_erase_txn (t : τ) : ∀ ps : List (Party τ),
    transactions (ps.erase (.txn t)) = (transactions ps).erase t
  | [] => rfl
  | q :: ps => by
    have ih := transactions_erase_txn t ps
    by_cases hq : q = .txn t
    · subst hq
      rw [List.erase_cons_head, transactions_txn, List.erase_cons_head]
    · rw [List.erase_cons_tail (by simpa using hq)]
      cases q with
      | txn t' =>
        have hne : t' ≠ t := fun e => hq (by rw [e])
        rw [transactions_txn, transactions_txn, ih, List.erase_cons_tail (by simpa using hne)]
      | anonymous k => rw [transactions_anonymous, transactions_anonymous, ih]

/-- What the lock knows of the hold of a transaction. -/
theorem toLock_holdOf (h : Holds τ) (t : τ) : h.toLock.holdOf t = h.holdOf (.txn t) := by
  have hex : (h.exclusive.bind Party.transaction = some t) ↔ h.exclusive = some (.txn t) := by
    cases he : h.exclusive with
    | none => simp
    | some p => cases p <;> simp [Party.transaction]
  simp only [Lock.holdOf, holdOf, toLock, hex, mem_transactions]

/-! ## The pieces of the operations -/

theorem addSharedHolder_eq {p : Party τ} {l : Lock τ} (ps : List (Party τ))
    (hl : l.sharedHolders = transactions ps) (hp : p ∉ ps) :
    Lock.addSharedHolder p.transaction l =
      ({ l with sharedHolders := transactions (p :: ps) }, true) := by
  cases p with
  | anonymous n => simp [Lock.addSharedHolder, Party.transaction, ← hl]
  | txn t =>
    have ht : t ∉ l.sharedHolders := by
      rw [hl, mem_transactions]
      exact hp
    simp only [Lock.addSharedHolder, Party.transaction, if_neg ht]
    rw [hl, transactions_txn]

theorem removeSharedHolder_eq {p : Party τ} {l : Lock τ} (ps : List (Party τ))
    (hl : l.sharedHolders = transactions ps) (hp : p ∈ ps) :
    Lock.removeSharedHolder p.transaction l =
      ({ l with sharedHolders := transactions (ps.erase p) }, true) := by
  cases p with
  | anonymous n =>
    simp [Lock.removeSharedHolder, Party.transaction, transactions_erase_anonymous, ← hl]
  | txn t =>
    have ht : t ∈ l.sharedHolders := by
      rw [hl, mem_transactions]
      exact hp
    simp only [Lock.removeSharedHolder, Party.transaction, if_pos ht]
    rw [hl, transactions_erase_txn]

theorem unsetExclusiveHolder_eq {p : Party τ} {l : Lock τ}
    (hl : l.exclusiveHolder = p.transaction) :
    Lock.unsetExclusiveHolder p.transaction l = ({ l with exclusiveHolder := none }, true) := by
  simp [Lock.unsetExclusiveHolder, hl]

omit [DecidableEq τ] in
theorem setExclusiveHolder_eq {p : Party τ} {l : Lock τ} (hl : l.exclusiveHolder = none) :
    Lock.setExclusiveHolder p.transaction l =
      ({ l with exclusiveHolder := p.transaction }, true) := by
  simp [Lock.setExclusiveHolder, hl]

/-! ## The operations refine -/

/-- Granting the queue never fails an assertion. -/
theorem grantWaiters_toLock : ∀ {rs : List (Request τ)} {h : Holds τ}, h.queue = rs →
    h.exclusive = none → h.WF →
    Lock.grantWaiters (rs.map Request.waiter) h.toLock = ((grantQueue rs h).toLock, true)
  | [], h, _, _, _ => rfl
  | r :: rs, h, hq, hex, hwf => by
    have hmem : r ∈ h.queue := by rw [hq]; exact List.mem_cons_self ..
    simp only [List.map_cons, Lock.grantWaiters, grantQueue]
    cases hm : r.mode with
    | exclusive =>
      have hw : r.waiter.mode = .exclusive := hm
      simp only [hw]
      by_cases hs : h.shared = []
      · simp [toLock, hs, hex, Lock.setExclusiveHolder, Lock.resolve, Request.waiter,
          takeExclusive, transactions]
      · have hpos : h.toLock.shared > 0 := List.length_pos_iff.mpr hs
        simp [hs, hpos]
    | shared =>
      have hw : r.waiter.mode = .shared := hm
      have ht : r.waiter.transaction = r.party.transaction := rfl
      have hnot : r.party ∉ h.shared := hwf.queue_not_shared r hmem
      have ih : Lock.grantWaiters (rs.map Request.waiter) (takeShared r rs h).toLock =
          ((grantQueue rs (takeShared r rs h)).toLock, true) :=
        grantWaiters_toLock rfl hex (takeShared_wf hq hex hwf)
      simp only [hw, ht]
      rw [addSharedHolder_eq h.shared rfl hnot, ← ih]
      rfl

/-- Granting the upgrader never fails an assertion. -/
theorem maybeGrantNext_shared_toLock {h : Holds τ} (hex : h.exclusive = none) (hwf : h.WF) :
    Lock.maybeGrantNext .shared h.toLock = ((grantNext h).toLock, true) := by
  have hexl : h.toLock.exclusive = false := by simp [toLock, hex]
  simp only [Lock.maybeGrantNext, grantNext, hexl]
  cases hu : h.upgrader with
  | none =>
    have hul : h.toLock.upgrader = none := by simp [toLock, hu]
    simp only [hul]
    by_cases hs : h.shared = []
    · have hzero : h.toLock.shared = 0 := by simp [toLock, hs]
      have hq : h.toLock.waiters = h.queue.map Request.waiter := rfl
      simp only [hzero, hq, grantWaiters_toLock rfl hex hwf]
      simp [hs]
    · have hpos : h.toLock.shared > 0 := List.length_pos_iff.mpr hs
      simp [hs, hpos]
  | some u =>
    obtain ⟨w, p⟩ := u
    have hul : h.toLock.upgrader = some ⟨w, .exclusive, p.transaction⟩ := by simp [toLock, hu]
    have hlen : h.toLock.shared = h.shared.length := rfl
    simp only [hul, hlen]
    by_cases h1 : h.shared.length = 1
    · have hp : p ∈ h.shared := hwf.upgrader_shared w p hu
      have herase : h.shared.erase p = [] := by
        refine List.eq_nil_of_length_eq_zero ?_
        rw [List.length_erase_of_mem hp, h1]
      simp only [h1, if_true]
      rw [removeSharedHolder_eq h.shared rfl hp, Op.andThen_ok,
        setExclusiveHolder_eq (by simp [toLock, hex])]
      simp [herase, toLock, takeUpgrade, Lock.resolve, transactions]
    · simp [h1]

/-- After the exclusive hold is gone the queue is granted. -/
theorem maybeGrantNext_exclusive_toLock {h : Holds τ} (hex : h.exclusive = none)
    (hu : h.upgrader = none) (hwf : h.WF) :
    Lock.maybeGrantNext .exclusive h.toLock = ((grantQueue h.queue h).toLock, true) := by
  have hexl : h.toLock.exclusive = false := by simp [toLock, hex]
  have hul : h.toLock.upgrader = none := by simp [toLock, hu]
  have hq : h.toLock.waiters = h.queue.map Request.waiter := rfl
  simp only [Lock.maybeGrantNext, hexl, hul, hq, grantWaiters_toLock rfl hex hwf]
  simp

/-! ## Holds -/

theorem holdOf_eq_shared {h : Holds τ} {p : Party τ} (hwf : h.WF) :
    h.holdOf p = some .shared ↔ p ∈ h.shared := by
  unfold holdOf
  by_cases he : h.exclusive = some p
  · simp [he, (hwf.exclusive_alone p he).1]
  · simp [he]

theorem holdOf_eq_exclusive {h : Holds τ} {p : Party τ} :
    h.holdOf p = some .exclusive ↔ h.exclusive = some p := by
  unfold holdOf
  by_cases he : h.exclusive = some p
  · simp [he]
  · simp [he]

theorem holdOf_eq_none {h : Holds τ} {p : Party τ} :
    h.holdOf p = none ↔ h.exclusive ≠ some p ∧ p ∉ h.shared := by
  unfold holdOf
  by_cases he : h.exclusive = some p
  · simp [he]
  · simp [he]

/-- Granting the queue takes nothing away. -/
theorem holdOf_grantQueue {q : Party τ} {m : Mode} : ∀ {rs : List (Request τ)} {h : Holds τ},
    h.exclusive = none → h.holdOf q = some m → (grantQueue rs h).holdOf q = some m
  | [], _, _, hq => hq
  | r :: rs, h, hex, hq => by
    have hmem : q ∈ h.shared := by
      by_contra hn
      rw [holdOf_eq_none.mpr ⟨by simp [hex], hn⟩] at hq
      cases hq
    have hm : m = .shared := by
      simpa [holdOf, hex, hmem] using hq.symm
    simp only [grantQueue]
    split
    · split
      · exact hq
      next hs => exact absurd (not_not.mp hs) (List.ne_nil_of_mem hmem)
    · refine holdOf_grantQueue hex ?_
      simp [holdOf, takeShared, hex, hmem, hm]

/-- When a shared hold was given back, the others keep theirs, or have it upgraded. -/
theorem holdOf_grantNext {h : Holds τ} {q : Party τ} {m : Mode} (hwf : h.WF)
    (hex : h.exclusive = none) (hq : h.holdOf q = some m) :
    (grantNext h).holdOf q = some m ∨
      m = .shared ∧ (∃ w, h.upgrader = some (w, q)) ∧ (grantNext h).holdOf q = some .exclusive := by
  unfold grantNext
  split
  next w p hu =>
    split
    next hlen =>
      have hmem : q ∈ h.shared := by
        by_contra hn
        rw [holdOf_eq_none.mpr ⟨by simp [hex], hn⟩] at hq
        cases hq
      have hm : m = .shared := by
        simpa [holdOf, hex, hmem] using hq.symm
      obtain ⟨p', hp'⟩ := List.length_eq_one_iff.mp hlen
      have hp := hwf.upgrader_shared w p hu
      rw [hp', List.mem_singleton] at hp hmem
      subst hp hmem
      exact Or.inr ⟨hm, ⟨w, hu⟩, by simp [holdOf, takeUpgrade]⟩
    · exact Or.inl hq
  next hu =>
    split
    · exact Or.inl hq
    · exact Or.inl (holdOf_grantQueue hex hq)

/-! ## Whole operations -/

section

variable {h : Holds τ} {p : Party τ}

omit [DecidableEq τ] in
theorem exclusive_none_of_shared (hwf : h.WF) (hp : p ∈ h.shared) : h.exclusive = none := by
  cases he : h.exclusive with
  | none => rfl
  | some q =>
    rw [(hwf.exclusive_alone q he).1] at hp
    exact absurd hp List.not_mem_nil

/-- A shared hold can go unless its owner is upgrading it. -/
theorem erase_wf (hwf : h.WF) (hp : p ∈ h.shared) (hnu : ∀ w, h.upgrader ≠ some (w, p)) :
    WF { h with shared := h.shared.erase p } := by
  have hex := exclusive_none_of_shared hwf hp
  refine ⟨hwf.shared_nodup.erase p, ?_, ?_, hwf.queue_nodup, ?_, hwf.queue_not_exclusive⟩
  · intro q hq
    simp only [hex] at hq
    cases hq
  · intro w q hq
    have hne : q ≠ p := fun e => hnu w (e ▸ hq)
    exact (List.mem_erase_of_ne hne).mpr (hwf.upgrader_shared w q hq)
  · intro r hr hmem
    exact hwf.queue_not_shared r hr (List.mem_of_mem_erase hmem)

theorem releaseShared_toLock (hwf : h.WF) (hp : p ∈ h.shared)
    (hnu : ∀ w, h.upgrader ≠ some (w, p)) :
    Lock.releaseShared p.transaction h.toLock = ((releaseShared p h).toLock, true) := by
  have hne : h.toLock.shared ≠ 0 := by
    have := List.length_pos_of_mem hp
    simp only [toLock]
    omega
  have hlen : h.toLock.shared - 1 = (h.shared.erase p).length := by
    simp [toLock, List.length_erase_of_mem hp]
  have hex : h.exclusive = none := exclusive_none_of_shared hwf hp
  have hgrant := maybeGrantNext_shared_toLock (h := { h with shared := h.shared.erase p }) hex
    (erase_wf hwf hp hnu)
  unfold Lock.releaseShared releaseShared
  rw [if_neg hne, removeSharedHolder_eq h.shared rfl hp, Op.andThen_ok, hlen, ← hgrant]
  rfl

omit [DecidableEq τ] in
theorem drop_exclusive_wf (hwf : h.WF) :
    WF { h with exclusive := none } := by
  refine ⟨hwf.shared_nodup, ?_, hwf.upgrader_shared, hwf.queue_nodup, hwf.queue_not_shared, ?_⟩
  · intro q hq
    cases hq
  · intro r _ hr
    cases hr

theorem releaseExclusive_toLock (hwf : h.WF) (he : h.exclusive = some p) :
    Lock.releaseExclusive p.transaction h.toLock = ((releaseExclusive h).toLock, true) := by
  obtain ⟨hs, hu⟩ := hwf.exclusive_alone p he
  have hex : h.toLock.exclusive = true := by simp [toLock, he]
  have hgrant := maybeGrantNext_exclusive_toLock (h := { h with exclusive := none }) rfl hu
    (drop_exclusive_wf hwf)
  unfold Lock.releaseExclusive releaseExclusive
  rw [if_neg (by simp [hex]), unsetExclusiveHolder_eq (by simp [toLock, he]), Op.andThen_ok,
    ← hgrant]
  rfl

omit [DecidableEq τ] in
theorem share_exclusive_wf (hwf : h.WF) (he : h.exclusive = some p) :
    WF { h with exclusive := none, shared := [p] } := by
  obtain ⟨hs, hu⟩ := hwf.exclusive_alone p he
  refine ⟨List.pairwise_singleton _ p, ?_, ?_, hwf.queue_nodup, ?_, ?_⟩
  · intro q hq
    cases hq
  · intro w q hq
    simp only [hu] at hq
    cases hq
  · intro r hr hmem
    refine hwf.queue_not_exclusive r hr ?_
    rw [he, List.mem_singleton.mp hmem]
  · intro r _ hr
    cases hr

theorem downgrade_toLock (hwf : h.WF) (he : h.exclusive = some p) :
    Lock.downgrade p.transaction h.toLock = ((downgrade p h).toLock, true) := by
  obtain ⟨hs, hu⟩ := hwf.exclusive_alone p he
  have hex : h.toLock.exclusive = true := by simp [toLock, he]
  have hzero : h.toLock.shared = 0 := by simp [toLock, hs]
  have hgrant := maybeGrantNext_exclusive_toLock
    (h := { h with exclusive := none, shared := [p] }) rfl hu (share_exclusive_wf hwf he)
  unfold Lock.downgrade downgrade
  rw [if_neg (by simp [hex]), if_neg (by simp [hzero]),
    unsetExclusiveHolder_eq (by simp [toLock, he]), Op.andThen_ok,
    addSharedHolder_eq [] (by simp [toLock, hs]) List.not_mem_nil, Op.andThen_ok, ← hgrant]
  rfl

/-- A party that holds the lock in a mode can give it back in that mode. -/
theorem release_toLock {m : Mode} (hwf : h.WF) (hm : h.holdOf p = some m)
    (hnu : ∀ w, h.upgrader ≠ some (w, p)) :
    Lock.release m p.transaction h.toLock = ((release m p h).toLock, true) := by
  cases m with
  | shared => exact releaseShared_toLock hwf ((holdOf_eq_shared hwf).mp hm) hnu
  | exclusive => exact releaseExclusive_toLock hwf (holdOf_eq_exclusive.mp hm)

end

end Holds

end Reboot.Txn
