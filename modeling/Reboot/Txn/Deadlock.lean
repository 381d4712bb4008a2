import Mathlib.Data.List.Lex
import Reboot.Lib.Cycle
import Reboot.Txn.LockSystem

/-!
# Every deadlock has a victim

Two kinds of waiting can go round in a circle, and each has its own way out: a waiter
asks once per grace period whether it should give up, and the answer depends only on
ages.

Transactions wait for the locks of states. `_abort_if_presumed_deadlock` looks at the
holders of the lock alone, while a wait may also be behind other waiters. `lock_victim`
turns the one into the other: whoever is queued behind somebody waits for the same
holders, so from the youngest member of a cycle the waits in the queue lead to a holder
that is younger still, unless somebody on the way had an older holder before it.

Nested transactions of one root wait for the owner of a state.
`presumed_deadlocked_nested_transaction` compares two chains of ids where they first
differ. If it names nobody, the waiting chain is before the owner's in the lexicographic
order, and along a cycle the chains would grow for ever (`ownership_victim`).

Mirroring notes:
- An `uuid.UUID` compares as the integer it is; ages are natural numbers and ids are any
  linear order.
- `Lock.holders` lists a set; which of the older holders the error names is not fixed by
  the source, and here it is the first of the list.
- A transaction has one participant on each state and a lock knows it by that object;
  here by the root transaction.
-/

namespace Reboot.Txn

open Reboot.Lib

/-! ## Locks -/

section Locks

variable {τ : Type} [DecidableEq τ]

/-- `Lock.holders`. -/
def Lock.holders (l : Lock τ) : List τ := l.sharedHolders ++ l.exclusiveHolder.toList

/-- `SystemAborted(TransactionShouldRetry(reason=PRESUMED_DEADLOCK, retry_age=..))`, and the
holder its message names. -/
structure PresumedDeadlock (τ : Type) where
  transaction : τ
  holder : τ
  retryAge : Nat
  deriving DecidableEq

/-- `_abort_if_presumed_deadlock`: what it raises, if it raises. -/
def abortIfPresumedDeadlock (age : τ → Nat) (l : Lock τ) (transaction : τ) :
    Option (PresumedDeadlock τ) :=
  (l.holders.find? fun holder =>
      if holder = transaction then false else decide (age holder < age transaction)).map
    fun holder => ⟨transaction, holder, age transaction⟩

omit [DecidableEq τ] in
theorem Lock.mem_holders {l : Lock τ} {t : τ} :
    t ∈ l.holders ↔ t ∈ l.sharedHolders ∨ l.exclusiveHolder = some t := by
  simp [Lock.holders]

/-- It raises exactly if another holder is older. -/
theorem abortIfPresumedDeadlock_isSome {age : τ → Nat} {l : Lock τ} {t : τ} :
    (abortIfPresumedDeadlock age l t).isSome = true ↔
      ∃ holder ∈ l.holders, holder ≠ t ∧ age holder < age t := by
  simp [abortIfPresumedDeadlock]

/-- Those who wait, in the order in which they are served: the upgrader is first. -/
def Lock.line (l : Lock τ) : List (Waiter τ) := l.upgrader.toList ++ l.waiters

/-- A waiter of one of the locks. -/
structure Waiting (κ τ : Type) where
  key : κ
  index : Nat
  waiter : Waiter τ
  txn : τ

variable {κ : Type} {locks : κ → LockState τ}

/-- The transaction waits in the line of the lock. -/
def Waiting.InLine (locks : κ → LockState τ) (w : Waiting κ τ) : Prop :=
  (locks w.key).lock.line[w.index]? = some w.waiter ∧ w.waiter.transaction = some w.txn

/-- Somebody is before it in the line of the same lock. -/
def Waiting.Behind (w w' : Waiting κ τ) : Prop := w'.key = w.key ∧ w'.index < w.index

/-- Another transaction holds the lock in a way that excludes what it waits for. -/
def Waiting.HeldOff (locks : κ → LockState τ) (w : Waiting κ τ) (t : τ) : Prop :=
  t ≠ w.txn ∧ t ∈ (locks w.key).lock.holders ∧
    (w.waiter.mode = .exclusive ∨ (locks w.key).lock.exclusiveHolder = some t)

/-- A wait because of another wait: that one is before it in the line, or its transaction
holds the lock. -/
def Waiting.For (locks : κ → LockState τ) (w w' : Waiting κ τ) : Prop :=
  w.InLine locks ∧ w'.InLine locks ∧ (w.Behind w' ∨ w.HeldOff locks w'.txn)

/-- Only the upgrader holds the lock it waits for. -/
theorem not_holder_of_queued {s : LockState τ} (hs : s.Inv) {w : Waiter τ} {t : τ}
    (hw : w ∈ s.lock.waiters) (ht : w.transaction = some t) : t ∉ s.lock.holders := by
  obtain ⟨h, hlock, hwf, -, -⟩ := hs.agrees
  rw [hlock] at hw ⊢
  obtain ⟨r, hr, rfl⟩ := List.mem_map.mp hw
  have hparty : r.party = .txn t := by
    cases hp : r.party with
    | txn u =>
      simp only [Request.waiter, hp, Party.transaction, Option.some.injEq] at ht
      rw [ht]
    | anonymous n => simp [Request.waiter, hp, Party.transaction] at ht
  have hno : h.holdOf (.txn t) = none := by
    rw [← hparty, Holds.holdOf_eq_none]
    exact ⟨hwf.queue_not_exclusive r hr, hwf.queue_not_shared r hr⟩
  rw [← Holds.toLock_holdOf, Lock.holdOf] at hno
  rw [Lock.mem_holders]
  rintro (hsh | hex)
  · by_cases he : h.toLock.exclusiveHolder = some t
    · simp [he] at hno
    · simp [he, hsh] at hno
  · simp [hex] at hno

/-- Whoever is behind somebody in the line is queued and so holds nothing. -/
theorem Waiting.not_holder (hs : ∀ k, (locks k).Inv) {w w' : Waiting κ τ} (hw : w.InLine locks)
    (hb : w.Behind w') : w.txn ∉ (locks w.key).lock.holders := by
  refine not_holder_of_queued (hs w.key) ?_ hw.2
  have hget := hw.1
  have hpos : 0 < w.index := Nat.lt_of_le_of_lt (Nat.zero_le _) hb.2
  unfold Lock.line at hget
  cases hu : (locks w.key).lock.upgrader with
  | none =>
    rw [hu] at hget
    exact List.mem_of_getElem? hget
  | some u =>
    rw [hu] at hget
    obtain ⟨i, hi⟩ : ∃ i, w.index = i + 1 := ⟨w.index - 1, by omega⟩
    rw [hi] at hget
    exact List.mem_of_getElem? (l := (locks w.key).lock.waiters) hget

variable (c : Cycle (Waiting.For locks))

omit [DecidableEq τ] in
/-- The waits in the line of one lock lead to a holder of that lock. -/
theorem exists_heldOff (m : Nat) : ∃ b, m ≤ b ∧ (c.node b).key = (c.node m).key ∧
    (c.node b).HeldOff locks (c.node (b + 1)).txn ∧
    (b = m ∨ (c.node m).Behind (c.node (m + 1))) := by
  -- the place in the line cannot go down for ever
  have hend : ∃ i, m ≤ i ∧ ¬ (c.node i).Behind (c.node (i + 1)) := by
    obtain ⟨i, hmi, hni⟩ := c.not_ascending (fun w => OrderDual.toDual w.index) m
    exact ⟨i, hmi, fun hb => hni (OrderDual.toDual_lt_toDual.mpr hb.2)⟩
  classical
  let b := Nat.find hend
  obtain ⟨hmb, hnb⟩ : m ≤ b ∧ ¬ (c.node b).Behind (c.node (b + 1)) := Nat.find_spec hend
  have hbefore : ∀ i, m ≤ i → i < b → (c.node i).Behind (c.node (i + 1)) := by
    intro i hmi hib
    by_contra hn
    exact Nat.find_min hend hib ⟨hmi, hn⟩
  have hkey : ∀ d, m + d ≤ b → (c.node (m + d)).key = (c.node m).key := by
    intro d
    induction d with
    | zero => exact fun _ => rfl
    | succ d ih =>
      intro hd
      exact (hbefore (m + d) (by omega) (by omega)).1.trans (ih (by omega))
  refine ⟨b, hmb, ?_, (c.edge b).2.2.resolve_left hnb, ?_⟩
  · have h := hkey (b - m) (by omega)
    rwa [Nat.add_sub_cancel' hmb] at h
  · rcases Nat.eq_or_lt_of_le hmb with he | hlt
    · exact Or.inl he.symm
    · exact Or.inr (hbefore m le_rfl hlt)

/-- **Lock deadlocks.** Whatever the locks went through: in every cycle of waits some
transaction finds an older holder of the lock it waits for and raises; and a transaction
raises only then, so that the oldest of all those that hold a lock never does. -/
theorem lock_victim {age : τ → Nat} (hage : Function.Injective age)
    (hr : ∀ k, Reach LockState.step (fun _ _ => True) LockState.init (locks k)) :
    (∀ c : Cycle (Waiting.For locks), ∃ i,
      (abortIfPresumedDeadlock age (locks (c.node i).key).lock (c.node i).txn).isSome = true ∧
        ∃ holder ∈ (locks (c.node i).key).lock.holders, age holder < age (c.node i).txn) ∧
    (∀ t, (∀ k, ∀ holder ∈ (locks k).lock.holders, age t ≤ age holder) →
      ∀ k, abortIfPresumedDeadlock age (locks k).lock t = none) := by
  have hs := fun k => LockState.reach_inv (hr k)
  refine ⟨fun c => ?_, fun t hold k => ?_⟩
  · by_contra hno
    push Not at hno
    have hquiet : ∀ i, ∀ holder ∈ (locks (c.node i).key).lock.holders,
        holder ≠ (c.node i).txn → age (c.node i).txn < age holder := by
      intro i holder hmem hne
      by_contra hlt
      have holder_lt : age holder < age (c.node i).txn :=
        lt_of_le_of_ne (not_lt.mp hlt) fun e => hne (hage e)
      have hsome := abortIfPresumedDeadlock_isSome.mpr ⟨holder, hmem, hne, holder_lt⟩
      exact absurd holder_lt (not_lt.mpr (hno i hsome holder hmem))
    -- the youngest member of the cycle waits for somebody younger
    obtain ⟨m, hmax⟩ := c.exists_max fun w => age w.txn
    obtain ⟨b, hmb, hkey, ⟨hne, hmem, -⟩, hfirst⟩ := exists_heldOff c m
    rw [hkey] at hmem
    have hne' : (c.node (b + 1)).txn ≠ (c.node m).txn := by
      rcases hfirst with rfl | hbehind
      · exact hne
      · intro e
        exact Waiting.not_holder hs (c.edge m).1 hbehind (e ▸ hmem)
    exact absurd (hquiet m _ hmem hne') (not_lt.mpr (hmax (b + 1)))
  · by_contra hsome
    obtain ⟨holder, hmem, -, hlt⟩ :=
      abortIfPresumedDeadlock_isSome.mp (Option.isSome_iff_ne_none.mpr hsome)
    exact absurd hlt (not_lt.mpr (hold k holder hmem))

/-- The lock of state `false` after transaction 1 took it and 2 came for it, and the lock of
state `true` after 2 took it and 1 came for it. -/
def crossed : Bool → LockState Nat
  | false => last LockState.step .init [.acquire .exclusive (.txn 1), .acquire .exclusive (.txn 2)]
  | true => last LockState.step .init [.acquire .exclusive (.txn 2), .acquire .exclusive (.txn 1)]

/-- Each waits for the state of the other. -/
def crossedCycle : Cycle (Waiting.For crossed) where
  node i :=
    if i % 2 = 0 then ⟨true, 0, ⟨0, .exclusive, some 1⟩, 1⟩
    else ⟨false, 0, ⟨0, .exclusive, some 2⟩, 2⟩
  period := 2
  period_pos := by decide
  comes_back i := by simp
  edge i := by
    have hsucc : (i + 1) % 2 = if i % 2 = 0 then 1 else 0 := by split <;> omega
    by_cases hi : i % 2 = 0
    · simp only [hsucc, hi, if_true]
      exact ⟨⟨rfl, rfl⟩, ⟨rfl, rfl⟩, Or.inr ⟨by decide, by decide, by decide⟩⟩
    · simp only [hsucc, hi, if_false, if_true]
      exact ⟨⟨rfl, rfl⟩, ⟨rfl, rfl⟩, Or.inr ⟨by decide, by decide, by decide⟩⟩

/-- The younger of the two gives up. -/
theorem crossed_victim :
    (∃ i, (abortIfPresumedDeadlock id (crossed (crossedCycle.node i).key).lock
      (crossedCycle.node i).txn).isSome = true) ∧
    ∀ k, abortIfPresumedDeadlock id (crossed k).lock 1 = none := by
  have h := @lock_victim _ _ _ crossed id Function.injective_id fun k => by
    cases k
    · exact reach_last _ .init (by decide)
    · exact reach_last _ .init (by decide)
  obtain ⟨i, hi, -⟩ := h.1 crossedCycle
  exact ⟨⟨i, hi⟩, h.2 1 (by decide)⟩

/-- A transaction waits for another one: it is behind it in a line, or held off by it. -/
def TransactionWaits (locks : κ → LockState τ) (t t' : τ) : Prop :=
  ∃ w : Waiting κ τ, w.InLine locks ∧ w.txn = t ∧
    ((∃ w' : Waiting κ τ, w'.InLine locks ∧ w'.txn = t' ∧ w.Behind w') ∨ w.HeldOff locks t')

/-- Transaction 3 holds state `true` and 1 and 2 are in its line, in this order, while 2
holds state `false` and 1 is in its line: 1 has two calls waiting at once. -/
def twoLines : Bool → LockState Nat
  | false => last LockState.step .init [.acquire .exclusive (.txn 2), .acquire .exclusive (.txn 1)]
  | true => last LockState.step .init
      [.acquire .exclusive (.txn 3), .acquire .exclusive (.txn 1), .acquire .exclusive (.txn 2)]

/-- Transaction 1 holds the state, is not waiting for anything, and 2 came for it. -/
def busy : Unit → LockState Nat
  | () => last LockState.step .init [.acquire .exclusive (.txn 1), .acquire .exclusive (.txn 2)]

/-- Transactions 1 and 2 wait for each other and neither gives up, because the holder that
2 waits for is not in the cycle and is young; and the only transaction that waits at all
gives up, because the holder is older and merely busy. -/
theorem no_victim_and_oldest_waiter :
    ((∀ k, Reach LockState.step (fun _ _ => True) LockState.init (twoLines k)) ∧
      TransactionWaits twoLines 1 2 ∧ TransactionWaits twoLines 2 1 ∧
      ∀ k, abortIfPresumedDeadlock id (twoLines k).lock 1 = none ∧
        abortIfPresumedDeadlock id (twoLines k).lock 2 = none) ∧
    ((∀ k, Reach LockState.step (fun _ _ => True) LockState.init (busy k)) ∧
      (∀ k, ∀ w ∈ (busy k).lock.line, w.transaction = some 2) ∧
      (abortIfPresumedDeadlock id (busy ()).lock 2).isSome = true) := by
  refine ⟨⟨fun k => ?_, ?_, ?_, by decide⟩, fun _ => ?_, by decide, by decide⟩
  · cases k
    · exact reach_last _ .init (by decide)
    · exact reach_last _ .init (by decide)
  · exact ⟨⟨false, 0, ⟨0, .exclusive, some 1⟩, 1⟩, ⟨rfl, rfl⟩, rfl,
      Or.inr ⟨by decide, by decide, by decide⟩⟩
  · exact ⟨⟨true, 1, ⟨1, .exclusive, some 2⟩, 2⟩, ⟨rfl, rfl⟩, rfl,
      Or.inl ⟨⟨true, 0, ⟨0, .exclusive, some 1⟩, 1⟩, ⟨rfl, rfl⟩, rfl, rfl, by decide⟩⟩
  · exact reach_last _ .init (by decide)

end Locks

/-! ## Ownership -/

section Ownership

variable {ι : Type} [LinearOrder ι]

/-- `is_claimable_by`: the owner is the caller or one of its ancestors. -/
def isClaimableBy (ownerIds transactionIds : List ι) : Bool :=
  decide (ownerIds.length ≤ transactionIds.length ∧
    transactionIds.take ownerIds.length = ownerIds)

/-- The loop of `presumed_deadlocked_nested_transaction`. `none` outside: the assertion that
root ids never differ failed. -/
def presumedDeadlockedAt : Nat → List ι → List ι → Option (Option ι)
  | level, transactionId :: transactionIds, ownerId :: ownerIds =>
    if transactionId = ownerId then presumedDeadlockedAt (level + 1) transactionIds ownerIds
    else if level = 0 then none
    else if ownerId < transactionId then some (some transactionId)
    else some none
  | _, _, _ => some none

/-- `presumed_deadlocked_nested_transaction`. -/
def presumedDeadlockedNestedTransaction (transactionIds ownerIds : List ι) : Option (Option ι) :=
  presumedDeadlockedAt 0 transactionIds ownerIds

theorem isClaimableBy_iff {ownerIds transactionIds : List ι} :
    isClaimableBy ownerIds transactionIds = true ↔ ownerIds <+: transactionIds := by
  rw [isClaimableBy, decide_eq_true_iff]
  constructor
  · rintro ⟨-, h⟩
    rw [← h]
    exact List.take_prefix _ _
  · intro h
    exact ⟨h.length_le, (List.prefix_iff_eq_take.mp h).symm⟩

/-- Whoever is named is in the waiting chain, below the part that the two chains share, and
the owner's chain goes on with an older sibling. -/
theorem presumedDeadlockedAt_named {level : Nat} {transactionIds ownerIds : List ι} {x : ι}
    (h : presumedDeadlockedAt level transactionIds ownerIds = some (some x)) :
    ∃ shared own rest owner, transactionIds = shared ++ x :: own ∧
      ownerIds = shared ++ owner :: rest ∧ owner < x ∧ 0 < level + shared.length := by
  induction level, transactionIds, ownerIds using presumedDeadlockedAt.induct with
  | case1 level ts o os ih =>
    simp only [presumedDeadlockedAt, if_true] at h
    obtain ⟨shared, own, rest, owner, rfl, rfl, hlt, hpos⟩ := ih h
    refine ⟨o :: shared, own, rest, owner, rfl, rfl, hlt, ?_⟩
    simp only [List.length_cons]
    omega
  | case2 t ts o os hne => simp [presumedDeadlockedAt, hne] at h
  | case3 level t ts o os hne hl hlt =>
    simp only [presumedDeadlockedAt, if_neg hne, if_neg hl, if_pos hlt] at h
    cases h
    exact ⟨[], ts, os, o, rfl, rfl, hlt, by simp; omega⟩
  | case4 level t ts o os hne hl hlt =>
    simp [presumedDeadlockedAt, hne, hl, hlt] at h
  | case5 ts level os hno =>
    unfold presumedDeadlockedAt at h
    split at h
    · exact (hno _ _ _ _ rfl rfl).elim
    · cases h

/-- If nobody is named and the state cannot be claimed, the waiting chain comes before the
owner's: it is a part of it, or has the older sibling where they differ. -/
theorem lt_of_presumedDeadlockedAt {level : Nat} {transactionIds ownerIds : List ι}
    (h : presumedDeadlockedAt level transactionIds ownerIds = some none)
    (hno : ¬ ownerIds <+: transactionIds) : transactionIds < ownerIds := by
  induction level, transactionIds, ownerIds using presumedDeadlockedAt.induct with
  | case1 level ts o os ih =>
    simp only [presumedDeadlockedAt, if_true] at h
    rw [List.cons_prefix_cons] at hno
    exact List.cons_lt_cons_iff.mpr (Or.inr ⟨rfl, ih h fun hp => hno ⟨rfl, hp⟩⟩)
  | case2 t ts o os hne => simp [presumedDeadlockedAt, hne] at h
  | case3 level t ts o os hne hl hlt =>
    simp [presumedDeadlockedAt, hne, hl, hlt] at h
  | case4 level t ts o os hne hl hlt =>
    exact List.cons_lt_cons_iff.mpr (Or.inl (lt_of_le_of_ne (not_lt.mp hlt) hne))
  | case5 ts level os hno' =>
    cases os with
    | nil => exact absurd List.nil_prefix hno
    | cons o os =>
      cases ts with
      | nil => exact List.nil_lt_cons o os
      | cons t ts => exact (hno' _ _ _ _ rfl rfl).elim

/-- A chain does not come after what extends it. -/
theorem le_of_isPrefix {xs ys : List ι} (h : xs <+: ys) : xs ≤ ys := by
  obtain ⟨zs, rfl⟩ := h
  induction xs with
  | nil =>
    cases zs with
    | nil => exact le_rfl
    | cons z zs => exact (List.nil_lt_cons z zs).le
  | cons x xs ih =>
    rcases ih.lt_or_eq with hlt | heq
    · exact (List.cons_lt_cons_iff.mpr (Or.inr ⟨rfl, hlt⟩)).le
    · rw [List.cons_append, ← heq]

/-- Chains of one root never fail the assertion. -/
theorem presumedDeadlocked_isSome {transactionIds ownerIds : List ι} {root : ι}
    (ht : transactionIds.head? = some root) (ho : ∀ o ∈ ownerIds.head?, o = root) :
    presumedDeadlockedNestedTransaction transactionIds ownerIds ≠ none := by
  have hdeep : ∀ (ts os : List ι) (level : Nat), presumedDeadlockedAt (level + 1) ts os ≠ none := by
    intro ts
    induction ts with
    | nil => simp [presumedDeadlockedAt]
    | cons t ts ih =>
      intro os level
      cases os with
      | nil => simp [presumedDeadlockedAt]
      | cons o os =>
        simp only [presumedDeadlockedAt]
        split
        · exact ih os (level + 1)
        · split
          · omega
          · split
            · simp
            · simp
  cases transactionIds with
  | nil => cases ht
  | cons t ts =>
    cases ownerIds with
    | nil => simp [presumedDeadlockedNestedTransaction, presumedDeadlockedAt]
    | cons o os =>
      have hroot : t = root := Option.some.inj ht
      have heq : o = t := (ho o rfl).trans hroot.symm
      simp only [presumedDeadlockedNestedTransaction, presumedDeadlockedAt, heq, if_true]
      exact hdeep ts os 0

/-- Below a shared part the two siblings decide. -/
theorem presumedDeadlockedAt_siblings {a b : ι} (hne : a ≠ b) (own rest : List ι) :
    ∀ (shared : List ι) (level : Nat), level + shared.length ≠ 0 →
      presumedDeadlockedAt level (shared ++ a :: own) (shared ++ b :: rest) =
        some (if b < a then some a else none)
  | [], level, hl => by
    have hl' : level ≠ 0 := by simpa using hl
    simp only [List.nil_append, presumedDeadlockedAt, if_neg hne, if_neg hl']
    split
    · rfl
    · rfl
  | x :: shared, level, _ => by
    simp only [List.cons_append, presumedDeadlockedAt, if_true]
    exact presumedDeadlockedAt_siblings hne own rest shared (level + 1) (by omega)

/-- A call that waits to claim a state. -/
structure OwnershipWait (ι : Type) where
  transactionIds : List ι
  ownerIds : List ι

/-- The state cannot be claimed, and what owns it is the next call or an ancestor of it. -/
def OwnershipWait.For (w w' : OwnershipWait ι) : Prop :=
  isClaimableBy w.ownerIds w.transactionIds = false ∧ w.ownerIds <+: w'.transactionIds

/-- **Ownership deadlocks.** In every cycle of calls of one root that wait for each other's
states some call is told to give up. Whoever is told is a nested transaction of the
waiting call, younger than the sibling in the owner's chain; of two siblings that wait
for each other's states at most one is told. -/
theorem ownership_victim {root : ι} (c : Cycle (@OwnershipWait.For ι _))
    (hroot : ∀ i, (c.node i).transactionIds.head? = some root) :
    (∃ i x, presumedDeadlockedNestedTransaction (c.node i).transactionIds
      (c.node i).ownerIds = some (some x)) ∧
    (∀ i, presumedDeadlockedNestedTransaction (c.node i).transactionIds
      (c.node i).ownerIds ≠ none) ∧
    (∀ (transactionIds ownerIds : List ι) (x : ι),
      presumedDeadlockedNestedTransaction transactionIds ownerIds = some (some x) →
      ∃ shared own rest owner, transactionIds = shared ++ x :: own ∧
        ownerIds = shared ++ owner :: rest ∧ owner < x ∧ shared ≠ [] ∧
        (transactionIds.Nodup → transactionIds.head? ≠ some x)) ∧
    (∀ (shared own rest own' rest' : List ι) (a b : ι), a ≠ b →
      ¬ ((∃ x, presumedDeadlockedNestedTransaction (shared ++ a :: own) (shared ++ b :: rest) =
            some (some x)) ∧
          ∃ x, presumedDeadlockedNestedTransaction (shared ++ b :: own') (shared ++ a :: rest') =
            some (some x))) := by
  have hquiet : ∀ i, presumedDeadlockedNestedTransaction (c.node i).transactionIds
      (c.node i).ownerIds ≠ none := by
    intro i
    refine presumedDeadlocked_isSome (hroot i) ?_
    obtain ⟨rest, hrest⟩ := (c.edge i).2
    have hnext := hroot (i + 1)
    rw [← hrest] at hnext
    intro o ho
    cases hos : (c.node i).ownerIds with
    | nil =>
      rw [hos] at ho
      cases ho
    | cons o' os =>
      rw [hos] at ho hnext
      cases ho
      exact Option.some.inj hnext
  refine ⟨?_, hquiet, ?_, ?_⟩
  · by_contra hno
    push Not at hno
    -- nobody is told: the chains grow along every edge
    obtain ⟨i, -, hnot⟩ := c.not_ascending OwnershipWait.transactionIds 0
    refine hnot (lt_of_lt_of_le ?_ (le_of_isPrefix (c.edge i).2))
    refine @lt_of_presumedDeadlockedAt _ _ 0 _ _ ?_ fun hp => ?_
    · cases hres : presumedDeadlockedNestedTransaction (c.node i).transactionIds
          (c.node i).ownerIds with
      | none => exact absurd hres (hquiet i)
      | some r =>
        cases r with
        | none => exact hres
        | some x => exact absurd hres (hno i x)
    · rw [← isClaimableBy_iff, (c.edge i).1] at hp
      cases hp
  · intro transactionIds ownerIds x h
    obtain ⟨shared, own, rest, owner, ht, ho, hlt, hpos⟩ := presumedDeadlockedAt_named h
    cases shared with
    | nil => simp at hpos
    | cons r shared =>
      refine ⟨r :: shared, own, rest, owner, ht, ho, hlt, List.cons_ne_nil r shared, ?_⟩
      intro hnd hhead
      rw [ht] at hnd hhead
      have hr : r = x := Option.some.inj hhead
      rw [List.cons_append, List.nodup_cons] at hnd
      exact hnd.1 (hr ▸ List.mem_append_right shared List.mem_cons_self)
  · rintro shared own rest own' rest' a b hne ⟨⟨x, hx⟩, y, hy⟩
    cases shared with
    | nil => simp [presumedDeadlockedNestedTransaction, presumedDeadlockedAt, hne] at hx
    | cons r shared =>
      unfold presumedDeadlockedNestedTransaction at hx hy
      rw [presumedDeadlockedAt_siblings hne _ _ _ _ (by simp)] at hx
      rw [presumedDeadlockedAt_siblings hne.symm _ _ _ _ (by simp)] at hy
      have hba : b < a := by
        by_contra hn
        simp [hn] at hx
      simp [not_lt.mpr hba.le] at hy

/-- Two nested transactions 1 and 2 of root 0, each waiting for a state the other owns. -/
def siblings : Cycle (@OwnershipWait.For Nat _) where
  node i := if i % 2 = 0 then ⟨[0, 1], [0, 2]⟩ else ⟨[0, 2, 5], [0, 1]⟩
  period := 2
  period_pos := by decide
  comes_back i := by simp
  edge i := by
    have hsucc : (i + 1) % 2 = if i % 2 = 0 then 1 else 0 := by split <;> omega
    by_cases hi : i % 2 = 0
    · simp only [hsucc, hi, if_true]
      exact ⟨rfl, by decide⟩
    · simp only [hsucc, hi, if_false, if_true]
      exact ⟨rfl, by decide⟩

theorem siblings_victim : ∃ i x, presumedDeadlockedNestedTransaction
    (siblings.node i).transactionIds (siblings.node i).ownerIds = some (some x) := by
  refine (@ownership_victim _ _ 0 siblings fun i => ?_).1
  by_cases hi : i % 2 = 0
  · simp [siblings, hi]
  · simp [siblings, hi]

end Ownership

end Reboot.Txn
