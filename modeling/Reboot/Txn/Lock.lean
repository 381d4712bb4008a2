import Mathlib.Data.List.Basic

/-!
# The per-state lock

`Lock` (`reboot/aio/state_managers.py`): an asynchronous shared/exclusive lock with
in-place upgrade. Holds are counted; a transaction that identifies itself is also
kept in `_shared_holders` or as `_exclusive_holder`.

Between two `await`s a coroutine runs alone, so each method is a function on the
fields of the lock. Suspending in `_wait` and coming back from it are separate
operations: `enqueue`/`enqueueUpgrade` on the way in, `giveUp` on the way out with
an exception; a waiter that was granted needs nothing more from the lock.

Mirroring notes:
- An assertion that fails raises and leaves the fields as they are at that point, so
  every method returns the lock and whether all assertions held (`Op`), and
  `Op.andThen` runs the rest of a method only if they did.
- A waiter is an object; its identity is `id`. `done` holds the ids of the waiters
  whose future is resolved and whose coroutine has not come back yet.
- `_shared_holders` is a set; it is a list without duplicates here.
- Deadlines, cancellation and `on_grace` only decide *that* a waiter gives up, which
  is the caller's choice here.
-/

namespace Reboot.Txn

/-- `Lock.Mode`. -/
inductive Mode
  | shared
  | exclusive
  deriving DecidableEq

/-- `Lock._Waiter`. -/
structure Waiter (τ : Type) where
  id : Nat
  mode : Mode
  transaction : Option τ
  deriving DecidableEq

/-- The fields of a `Lock`, and the resolved futures of its waiters. -/
structure Lock (τ : Type) where
  shared : Nat
  exclusive : Bool
  upgrader : Option (Waiter τ)
  exclusiveHolder : Option τ
  sharedHolders : List τ
  waiters : List (Waiter τ)
  done : List Nat
  deriving DecidableEq

/-- A lock that nobody holds. -/
def Lock.free {τ : Type} : Lock τ := ⟨0, false, none, none, [], [], []⟩

/-- The lock after a method, and whether all assertions of the method held. -/
abbrev Op (τ : Type) := Lock τ × Bool

/-- The rest of a method, after a part that may have raised. -/
def Op.andThen {τ : Type} (r : Op τ) (f : Lock τ → Op τ) : Op τ :=
  if r.2 then f r.1 else r

@[simp] theorem Op.andThen_ok {τ : Type} (l : Lock τ) (f : Lock τ → Op τ) :
    Op.andThen (l, true) f = f l := rfl

namespace Lock

variable {τ : Type} [DecidableEq τ]

/-- `_add_shared_holder`. -/
def addSharedHolder (transaction : Option τ) (l : Lock τ) : Op τ :=
  match transaction with
  | none => (l, true)
  | some t =>
    if t ∈ l.sharedHolders then (l, false)
    else ({ l with sharedHolders := t :: l.sharedHolders }, true)

/-- `_remove_shared_holder`. -/
def removeSharedHolder (transaction : Option τ) (l : Lock τ) : Op τ :=
  match transaction with
  | none => (l, true)
  | some t =>
    if t ∈ l.sharedHolders then ({ l with sharedHolders := l.sharedHolders.erase t }, true)
    else (l, false)

/-- `_set_exclusive_holder`. -/
def setExclusiveHolder (transaction : Option τ) (l : Lock τ) : Op τ :=
  if l.exclusiveHolder = none then ({ l with exclusiveHolder := transaction }, true)
  else (l, false)

/-- `_unset_exclusive_holder`. -/
def unsetExclusiveHolder (transaction : Option τ) (l : Lock τ) : Op τ :=
  if l.exclusiveHolder = transaction then ({ l with exclusiveHolder := none }, true)
  else (l, false)

/-- `waiter.future.set_result(None)`. -/
def resolve (id : Nat) (l : Lock τ) : Op τ := ({ l with done := id :: l.done }, true)

/-- The loop of `_maybe_grant_next`; the first argument is `_waiters`. -/
def grantWaiters : List (Waiter τ) → Lock τ → Op τ
  | [], l => (l, true)
  | w :: ws, l =>
    match w.mode with
    | .exclusive =>
      if l.shared > 0 then (l, true)
      else
        (setExclusiveHolder w.transaction { l with waiters := ws, exclusive := true }).andThen
          (resolve w.id)
    | .shared =>
      ((addSharedHolder w.transaction { l with waiters := ws, shared := l.shared + 1 }).andThen
        (resolve w.id)).andThen (grantWaiters ws)

/-- `_maybe_grant_next`. -/
def maybeGrantNext (released : Mode) (l : Lock τ) : Op τ :=
  if l.exclusive then (l, false)
  else match l.upgrader with
    | some upgrader =>
      if released ≠ .shared then (l, false)
      else if l.shared = 1 then
        ((removeSharedHolder upgrader.transaction
            { l with upgrader := none, shared := 0, exclusive := true }).andThen
          (setExclusiveHolder upgrader.transaction)).andThen (resolve upgrader.id)
      else (l, true)
    | none =>
      if released = .shared ∧ l.shared > 0 then (l, true)
      else if ¬ (released = .exclusive ∨ l.shared = 0) then (l, false)
      else grantWaiters l.waiters l

/-- `downgrade`. -/
def downgrade (transaction : Option τ) (l : Lock τ) : Op τ :=
  if ¬ l.exclusive then (l, false)
  else if l.shared ≠ 0 then ({ l with exclusive := false }, false)
  else
    ((unsetExclusiveHolder transaction { l with exclusive := false, shared := 1 }).andThen
      (addSharedHolder transaction)).andThen (maybeGrantNext .exclusive)

/-- `release_shared`. -/
def releaseShared (transaction : Option τ) (l : Lock τ) : Op τ :=
  if l.shared = 0 then (l, false)
  else
    (removeSharedHolder transaction { l with shared := l.shared - 1 }).andThen
      (maybeGrantNext .shared)

/-- `release_exclusive`. -/
def releaseExclusive (transaction : Option τ) (l : Lock τ) : Op τ :=
  if ¬ l.exclusive then (l, false)
  else
    (unsetExclusiveHolder transaction { l with exclusive := false }).andThen
      (maybeGrantNext .exclusive)

/-- Release a hold in the given mode. -/
def release (mode : Mode) (transaction : Option τ) (l : Lock τ) : Op τ :=
  match mode with
  | .shared => releaseShared transaction l
  | .exclusive => releaseExclusive transaction l

/-- `try_acquire_shared`; `none` stands for `False`. -/
def tryAcquireShared (transaction : Option τ) (l : Lock τ) : Option (Op τ) :=
  if l.exclusive ∨ l.upgrader ≠ none then none
  else if l.waiters.any (fun w => decide (w.mode = .exclusive)) then none
  else some (addSharedHolder transaction { l with shared := l.shared + 1 })

/-- `try_acquire_exclusive`; `none` stands for `False`. -/
def tryAcquireExclusive (transaction : Option τ) (l : Lock τ) : Option (Op τ) :=
  if l.exclusive ∨ l.shared > 0 ∨ l.upgrader ≠ none then none
  else some (setExclusiveHolder transaction { l with exclusive := true })

/-- The attempt that `acquire_shared` and `acquire_exclusive` make before they wait. -/
def tryAcquire (mode : Mode) (transaction : Option τ) (l : Lock τ) : Option (Op τ) :=
  match mode with
  | .shared => tryAcquireShared transaction l
  | .exclusive => tryAcquireExclusive transaction l

/-- `_wait` up to the first suspension, for an acquire. -/
def enqueue (id : Nat) (mode : Mode) (transaction : Option τ) (l : Lock τ) : Lock τ :=
  { l with waiters := l.waiters ++ [⟨id, mode, transaction⟩] }

/-- How `upgrade` goes up to its first suspension. -/
inductive UpgradeStart (τ : Type)
  /-- the caller holds the lock exclusively -/
  | upgraded (l : Lock τ)
  /-- it waits as the upgrader -/
  | waiting (l : Lock τ)
  /-- it raised: an assertion failed, or another upgrade is pending -/
  | raised (l : Lock τ)

/-- `upgrade`, up to the first suspension. -/
def upgrade (id : Nat) (transaction : Option τ) (l : Lock τ) : UpgradeStart τ :=
  if l.shared = 0 then .raised l
  else if l.shared = 1 ∧ ¬ l.exclusive then
    match (removeSharedHolder transaction { l with shared := 0, exclusive := true }).andThen
        (setExclusiveHolder transaction) with
    | (l', true) => .upgraded l'
    | (l', false) => .raised l'
  else if l.upgrader ≠ none then .raised l
  else .waiting { l with upgrader := some ⟨id, .exclusive, transaction⟩ }

/-- The `except` branch of `_wait`: the waiter gives back what it was granted, or
leaves the queue. -/
def giveUp (id : Nat) (isUpgrade : Bool) (mode : Mode) (transaction : Option τ) (l : Lock τ) :
    Op τ :=
  if id ∈ l.done then
    let l := { l with done := l.done.erase id }
    if isUpgrade then downgrade transaction l else release mode transaction l
  else if isUpgrade then
    match l.upgrader with
    | some u => if u.id = id then ({ l with upgrader := none }, true) else (l, false)
    | none => (l, false)
  else ({ l with waiters := l.waiters.filter (fun w => decide (w.id ≠ id)) }, true)

/-- A granted waiter comes back from `_wait`. -/
def comeBack (id : Nat) (l : Lock τ) : Lock τ := { l with done := l.done.erase id }

/-- The mode in which a transaction holds the lock, as the lock has it. -/
def holdOf (l : Lock τ) (t : τ) : Option Mode :=
  if l.exclusiveHolder = some t then some .exclusive
  else if t ∈ l.sharedHolders then some .shared
  else none

end Lock

end Reboot.Txn
