import Mathlib.Data.Set.Card
import Reboot.Lib.Run
import Reboot.Txn.LockUse

/-!
# A lock under every interleaving of its callers

`LockUse` says what one operation does to a lock that agrees with its callers. Here
the callers are put around it: a state is the lock, the coroutines suspended in
`Lock._wait`, the hold each party was handed when its last call returned, and whether
every assertion passed so far. A step is what happens between two suspensions.

A caller is correct when it asks for a first hold only while it holds nothing and
waits for nothing, upgrades a shared hold it has, and gives back what it has. Nothing
is asked of the order in which the coroutines run, nor of when a waiter gives up: the
deadline, a cancellation and `on_grace` are the same action `giveUp`, and it may hit a
waiter before or after it was granted.

`lock_safety` is what holds in every state reached.

Mirroring notes:
- `next` is the identity of the next waiter object; a waiter is never used again.
- `hold` is the ledger: what a party was handed and has not given back, or what its
  suspended call was granted. It is computed from the callers' side and the resolved
  futures, not from the counts and holder sets it is compared with.
- A transaction may call `upgrade` again while its first upgrade waits: the second
  call raises at once.
-/

namespace Reboot.Txn

open Reboot.Lib

/-- The lock and its callers. -/
structure LockState (τ : Type) where
  lock : Lock τ
  calls : List (Call τ)
  /-- what a party was handed by the calls that returned -/
  held : Party τ → Option Mode
  next : Nat
  /-- no assertion failed so far -/
  ok : Bool

/-- What the callers of a lock can do next. -/
inductive LockAction (τ : Type)
  /-- `acquire_shared` or `acquire_exclusive`, up to the first suspension -/
  | acquire (mode : Mode) (p : Party τ)
  /-- `upgrade`, up to the first suspension -/
  | upgrade (p : Party τ)
  | downgrade (p : Party τ)
  /-- `release_shared` or `release_exclusive`, whichever the party holds -/
  | release (p : Party τ)
  /-- a granted waiter comes back from `_wait` -/
  | resume (id : Nat)
  /-- the deadline, a cancellation or `on_grace` interrupts a waiter -/
  | giveUp (id : Nat)
  deriving DecidableEq

/-- Whether the assertions of `upgrade` hold before its first suspension. -/
def Lock.upgradeAsserts {τ : Type} [DecidableEq τ] (transaction : Option τ) (l : Lock τ) : Bool :=
  decide (l.shared > 0) &&
    if l.shared = 1 ∧ ¬ l.exclusive then
      ((Lock.removeSharedHolder transaction { l with shared := 0, exclusive := true }).andThen
        (Lock.setExclusiveHolder transaction)).2
    else true

namespace LockState

variable {τ : Type} [DecidableEq τ]

/-- Nobody holds the lock and nobody waits. -/
def init : LockState τ := ⟨Lock.free, [], fun _ => none, 0, true⟩

/-- The party has no suspended call. -/
def Idle (s : LockState τ) (p : Party τ) : Prop := ∀ c ∈ s.calls, c.party ≠ p

instance (s : LockState τ) (p : Party τ) : Decidable (s.Idle p) :=
  inferInstanceAs (Decidable (∀ c ∈ s.calls, c.party ≠ p))

/-- What a party was granted and has not given back. -/
def hold (s : LockState τ) (p : Party τ) : Option Mode :=
  match s.calls.find? (fun c => decide (c.party = p ∧ c.id ∈ s.lock.done)) with
  | some c => some c.target
  | none => s.held p

/-- One turn of one caller. -/
def step (s : LockState τ) : LockAction τ → Option (LockState τ)
  | .acquire m p =>
    if s.held p = none ∧ s.Idle p then
      match s.lock.tryAcquire m p.transaction with
      | some r =>
        some { s with lock := r.1, held := Function.update s.held p (some m), ok := s.ok && r.2 }
      | none =>
        some { s with
          lock := s.lock.enqueue s.next m p.transaction
          calls := ⟨s.next, p, m, false⟩ :: s.calls
          next := s.next + 1 }
    else none
  | .upgrade p =>
    if s.held p = some .shared ∧ ∀ c ∈ s.calls, c.party = p → c.id ∉ s.lock.done then
      match s.lock.upgrade s.next p.transaction with
      | .upgraded l =>
        some { s with
          lock := l
          held := Function.update s.held p (some .exclusive)
          ok := s.ok && s.lock.upgradeAsserts p.transaction }
      | .waiting l =>
        some { s with
          lock := l
          calls := ⟨s.next, p, .exclusive, true⟩ :: s.calls
          next := s.next + 1
          ok := s.ok && s.lock.upgradeAsserts p.transaction }
      | .raised l =>
        some { s with lock := l, ok := s.ok && s.lock.upgradeAsserts p.transaction }
    else none
  | .downgrade p =>
    if s.held p = some .exclusive then
      let r := s.lock.downgrade p.transaction
      some { s with
        lock := r.1
        held := Function.update s.held p (some .shared)
        ok := s.ok && r.2 }
    else none
  | .release p =>
    match s.held p with
    | some m =>
      if s.Idle p then
        let r := s.lock.release m p.transaction
        some { s with lock := r.1, held := Function.update s.held p none, ok := s.ok && r.2 }
      else none
    | none => none
  | .resume id =>
    match s.calls.find? (fun c => decide (c.id = id)) with
    | some c =>
      if c.id ∈ s.lock.done then
        some { s with
          lock := s.lock.comeBack c.id
          calls := dropCall c.id s.calls
          held := Function.update s.held c.party (some c.target) }
      else none
    | none => none
  | .giveUp id =>
    match s.calls.find? (fun c => decide (c.id = id)) with
    | some c =>
      let r := s.lock.giveUp c.id c.isUpgrade c.target c.party.transaction
      some { s with lock := r.1, calls := dropCall c.id s.calls, ok := s.ok && r.2 }
    | none => none

/-! ## What a step can do -/

omit [DecidableEq τ] in
theorem find_call {s : LockState τ} {id : Nat} {c : Call τ}
    (h : s.calls.find? (fun c => decide (c.id = id)) = some c) : c ∈ s.calls ∧ c.id = id :=
  ⟨List.mem_of_find?_eq_some h, by simpa using List.find?_some h⟩

/-- The turns of the callers, with what each of them requires. -/
inductive Turn (s : LockState τ) : LockAction τ → LockState τ → Prop
  | acquired {m : Mode} {p : Party τ} {r : Op τ} (hb : s.held p = none) (hi : s.Idle p)
      (hr : s.lock.tryAcquire m p.transaction = some r) :
      Turn s (.acquire m p)
        { s with lock := r.1, held := Function.update s.held p (some m), ok := s.ok && r.2 }
  | queued {m : Mode} {p : Party τ} (hb : s.held p = none) (hi : s.Idle p)
      (hr : s.lock.tryAcquire m p.transaction = none) :
      Turn s (.acquire m p)
        { s with
          lock := s.lock.enqueue s.next m p.transaction
          calls := ⟨s.next, p, m, false⟩ :: s.calls
          next := s.next + 1 }
  | upgraded {p : Party τ} {l : Lock τ} (hb : s.held p = some .shared)
      (hi : ∀ c ∈ s.calls, c.party = p → c.id ∉ s.lock.done)
      (hu : s.lock.upgrade s.next p.transaction = .upgraded l) :
      Turn s (.upgrade p)
        { s with
          lock := l
          held := Function.update s.held p (some .exclusive)
          ok := s.ok && s.lock.upgradeAsserts p.transaction }
  | upgradeWaits {p : Party τ} {l : Lock τ} (hb : s.held p = some .shared)
      (hi : ∀ c ∈ s.calls, c.party = p → c.id ∉ s.lock.done)
      (hu : s.lock.upgrade s.next p.transaction = .waiting l) :
      Turn s (.upgrade p)
        { s with
          lock := l
          calls := ⟨s.next, p, .exclusive, true⟩ :: s.calls
          next := s.next + 1
          ok := s.ok && s.lock.upgradeAsserts p.transaction }
  | upgradeRaises {p : Party τ} {l : Lock τ} (hb : s.held p = some .shared)
      (hi : ∀ c ∈ s.calls, c.party = p → c.id ∉ s.lock.done)
      (hu : s.lock.upgrade s.next p.transaction = .raised l) :
      Turn s (.upgrade p)
        { s with lock := l, ok := s.ok && s.lock.upgradeAsserts p.transaction }
  | downgraded {p : Party τ} (hb : s.held p = some .exclusive) :
      Turn s (.downgrade p)
        { s with
          lock := (s.lock.downgrade p.transaction).1
          held := Function.update s.held p (some .shared)
          ok := s.ok && (s.lock.downgrade p.transaction).2 }
  | released {p : Party τ} {m : Mode} (hb : s.held p = some m) (hi : s.Idle p) :
      Turn s (.release p)
        { s with
          lock := (s.lock.release m p.transaction).1
          held := Function.update s.held p none
          ok := s.ok && (s.lock.release m p.transaction).2 }
  | resumed {c : Call τ} (hc : c ∈ s.calls) (hd : c.id ∈ s.lock.done) :
      Turn s (.resume c.id)
        { s with
          lock := s.lock.comeBack c.id
          calls := dropCall c.id s.calls
          held := Function.update s.held c.party (some c.target) }
  | gaveUp {c : Call τ} (hc : c ∈ s.calls) :
      Turn s (.giveUp c.id)
        { s with
          lock := (s.lock.giveUp c.id c.isUpgrade c.target c.party.transaction).1
          calls := dropCall c.id s.calls
          ok := s.ok && (s.lock.giveUp c.id c.isUpgrade c.target c.party.transaction).2 }

theorem step_turn {s s' : LockState τ} {a : LockAction τ} (h : step s a = some s') :
    Turn s a s' := by
  cases a with
  | acquire m p =>
    unfold step at h
    dsimp only at h
    split at h
    next hg =>
      split at h
      next r hr => cases h; exact .acquired hg.1 hg.2 hr
      next hr => cases h; exact .queued hg.1 hg.2 hr
    · cases h
  | upgrade p =>
    unfold step at h
    dsimp only at h
    split at h
    next hg =>
      split at h
      next l hu => cases h; exact .upgraded hg.1 hg.2 hu
      next l hu => cases h; exact .upgradeWaits hg.1 hg.2 hu
      next l hu => cases h; exact .upgradeRaises hg.1 hg.2 hu
    · cases h
  | downgrade p =>
    unfold step at h
    dsimp only at h
    split at h
    next hg => cases h; exact .downgraded hg
    · cases h
  | release p =>
    unfold step at h
    dsimp only at h
    split at h
    next m hm =>
      split at h
      next hi => cases h; exact .released hm hi
      · cases h
    · cases h
  | resume id =>
    unfold step at h
    dsimp only at h
    split at h
    next c hc =>
      obtain ⟨hmem, rfl⟩ := find_call hc
      split at h
      next hd => cases h; exact .resumed hmem hd
      · cases h
    · cases h
  | giveUp id =>
    unfold step at h
    dsimp only at h
    split at h
    next c hc =>
      obtain ⟨hmem, rfl⟩ := find_call hc
      cases h
      exact .gaveUp hmem
    · cases h

/-! ## The lock agrees with its callers -/

/-- What every run keeps. -/
structure Inv (s : LockState τ) : Prop where
  agrees : Agrees s.lock s.calls s.held
  ids : ∀ c ∈ s.calls, c.id < s.next
  ok : s.ok = true

theorem init_inv : Inv (init : LockState τ) := ⟨Agrees.free, by simp [init], rfl⟩

/-- Whoever holds the lock shared fails no assertion of `upgrade`. -/
theorem upgradeAsserts_of_held {s : LockState τ} (hs : Inv s) {p : Party τ}
    (hb : s.held p = some .shared) (hi : ∀ c ∈ s.calls, c.party = p → c.id ∉ s.lock.done) :
    s.lock.upgradeAsserts p.transaction = true := by
  obtain ⟨h, hlock, hwf, -, hl⟩ := hs.agrees
  have hi' : ∀ c ∈ s.calls, c.party = p → c.id ∉ h.granted := by
    rw [hlock] at hi
    exact hi
  have hp : p ∈ h.shared := (Holds.holdOf_eq_shared hwf).mp ((hl.hold p hi').trans hb)
  have hex := Holds.exclusive_none_of_shared hwf hp
  have hpos : h.toLock.shared > 0 := List.length_pos_of_mem hp
  rw [hlock]
  unfold Lock.upgradeAsserts
  split
  · rw [Holds.removeSharedHolder_eq h.shared rfl hp, Op.andThen_ok,
      Holds.setExclusiveHolder_eq (by simp [Holds.toLock, hex])]
    simp [hpos]
  · simp [hpos]

/-- A second upgrade of the same party waits for nothing and changes nothing. -/
theorem upgrade_spec {s : LockState τ} (hs : Inv s) {p : Party τ}
    (hb : s.held p = some .shared) :
    match s.lock.upgrade s.next p.transaction with
    | .upgraded l' => Agrees l' s.calls (Function.update s.held p (some .exclusive))
    | .waiting l' => Agrees l' (⟨s.next, p, .exclusive, true⟩ :: s.calls) s.held
    | .raised l' => l' = s.lock := by
  by_cases hidle : s.Idle p
  · exact hs.agrees.upgrade hidle hb fun c hc => (hs.ids c hc).ne
  · -- the party waits already, and only an upgrader can hold the lock and wait
    obtain ⟨c, hc, hcp⟩ : ∃ c ∈ s.calls, c.party = p := by
      unfold Idle at hidle
      push Not at hidle
      exact hidle
    have hup : c.isUpgrade = true := by
      have hbefore := hs.agrees.before hc
      rw [hcp, hb] at hbefore
      by_contra hne
      simp [hne] at hbefore
    rw [hs.agrees.upgrade_busy hc hup]

/-- One turn keeps the lock and its callers in agreement. -/
theorem Inv.turn {s s' : LockState τ} {a : LockAction τ} (hs : Inv s) (h : Turn s a s') :
    Inv s' := by
  have hdrop : ∀ {id : Nat}, ∀ c ∈ dropCall id s.calls, c.id < s.next :=
    fun c hc => hs.ids c (mem_dropCall.mp hc).1
  cases h with
  | acquired hb hi hr =>
    obtain ⟨hok, ha⟩ := hs.agrees.tryAcquire hi hb hr
    exact ⟨ha, hs.ids, by simp [hs.ok, hok]⟩
  | queued hb hi hr =>
    refine ⟨hs.agrees.enqueue hi hb fun c hc => (hs.ids c hc).ne, ?_, hs.ok⟩
    intro c hc
    rcases List.mem_cons.mp hc with rfl | hc
    · exact Nat.lt_succ_self _
    · exact Nat.lt_succ_of_lt (hs.ids c hc)
  | upgraded hb hi hu =>
    have hspec := upgrade_spec hs hb
    rw [hu] at hspec
    exact ⟨hspec, hs.ids, by simp [hs.ok, upgradeAsserts_of_held hs hb hi]⟩
  | upgradeWaits hb hi hu =>
    have hspec := upgrade_spec hs hb
    rw [hu] at hspec
    refine ⟨hspec, ?_, by simp [hs.ok, upgradeAsserts_of_held hs hb hi]⟩
    intro c hc
    rcases List.mem_cons.mp hc with rfl | hc
    · exact Nat.lt_succ_self _
    · exact Nat.lt_succ_of_lt (hs.ids c hc)
  | upgradeRaises hb hi hu =>
    have hspec := upgrade_spec hs hb
    rw [hu] at hspec
    subst hspec
    exact ⟨hs.agrees, hs.ids, by simp [hs.ok, upgradeAsserts_of_held hs hb hi]⟩
  | downgraded hb =>
    obtain ⟨hok, ha⟩ := hs.agrees.downgrade hb
    exact ⟨ha, hs.ids, by simp [hs.ok, hok]⟩
  | released hb hi =>
    obtain ⟨hok, ha⟩ := hs.agrees.release hi hb
    exact ⟨ha, hs.ids, by simp [hs.ok, hok]⟩
  | resumed hc hd => exact ⟨hs.agrees.comeBack hc hd, hdrop, hs.ok⟩
  | gaveUp hc =>
    obtain ⟨hok, ha⟩ := hs.agrees.giveUp hc
    exact ⟨ha, hdrop, by simp [hs.ok, hok]⟩

/-- Every state of every run is in agreement. -/
theorem reach_inv {ok : LockState τ → LockAction τ → Prop} {s : LockState τ}
    (hr : Reach step ok init s) : Inv s :=
  hr.invariant Inv init_inv fun _ _ _ hs _ hstep => hs.turn (step_turn hstep)

/-! ## Safety -/

/-- The abstract lock has the ledger of the callers. -/
theorem holdOf_eq_hold {s : LockState τ} {h : Holds τ} (hlock : s.lock = h.toLock)
    (hl : Link h s.calls s.held) (p : Party τ) : h.holdOf p = s.hold p := by
  unfold hold
  rw [hlock]
  split
  next c hc =>
    have hmem := List.mem_of_find?_eq_some hc
    obtain ⟨hcp, hd⟩ : c.party = p ∧ c.id ∈ h.toLock.done := by
      simpa using List.find?_some hc
    rw [← hcp]
    exact hl.granted_hold c hmem hd
  next hnone =>
    refine hl.hold p fun c hc hcp hd => ?_
    have hno := List.find?_eq_none.mp hnone c hc
    exact hno (by simpa using ⟨hcp, hd⟩)

/-- The ledger and the fields of the lock say the same, and no assertion failed. -/
structure Safe (s : LockState τ) : Prop where
  /-- an exclusive holder excludes every other holder -/
  alone : ∀ p q, s.hold p = some .exclusive → s.hold q ≠ none → q = p
  /-- the count of the shared holds -/
  sharedFinite : {p | s.hold p = some .shared}.Finite
  sharedCount : s.lock.shared = {p | s.hold p = some .shared}.ncard
  /-- the flag of the exclusive hold -/
  exclusiveFlag : s.lock.exclusive = true ↔ ∃ p, s.hold p = some .exclusive
  /-- the sets of holders that identified themselves -/
  sharedHolders : ∀ t, t ∈ s.lock.sharedHolders ↔ s.hold (.txn t) = some .shared
  sharedHoldersNodup : s.lock.sharedHolders.Nodup
  exclusiveHolder : ∀ t, s.lock.exclusiveHolder = some t ↔ s.hold (.txn t) = some .exclusive
  assertions : s.ok = true

omit [DecidableEq τ] in
theorem nodup_transactions : ∀ {ps : List (Party τ)}, ps.Nodup → (transactions ps).Nodup
  | [], _ => List.nodup_nil
  | .txn t :: ps, h => by
    rw [transactions_txn, List.nodup_cons, Holds.mem_transactions]
    exact ⟨(List.nodup_cons.mp h).1, nodup_transactions (List.nodup_cons.mp h).2⟩
  | .anonymous n :: ps, h => by
    rw [transactions_anonymous]
    exact nodup_transactions (List.nodup_cons.mp h).2

theorem Inv.safe {s : LockState τ} (hs : Inv s) : Safe s := by
  obtain ⟨h, hlock, hwf, -, hl⟩ := hs.agrees
  have hold := holdOf_eq_hold hlock hl
  have hsh : ∀ p, s.hold p = some .shared ↔ p ∈ h.shared := by
    intro p
    rw [← hold, Holds.holdOf_eq_shared hwf]
  have hex : ∀ p, s.hold p = some .exclusive ↔ h.exclusive = some p := by
    intro p
    rw [← hold, Holds.holdOf_eq_exclusive]
  have hset : {p | s.hold p = some .shared} = (h.shared.toFinset : Set (Party τ)) := by
    ext p
    simp [hsh]
  refine ⟨?_, ?_, ?_, ?_, ?_, ?_, ?_, hs.ok⟩
  · intro p q hp hq
    rw [hex] at hp
    rw [← hold] at hq
    by_contra hne
    refine hq (Holds.holdOf_eq_none.mpr ⟨?_, ?_⟩)
    · rw [hp]
      exact fun e => hne (Option.some.inj e).symm
    · rw [(hwf.exclusive_alone p hp).1]
      exact List.not_mem_nil
  · rw [hset]
    exact Finset.finite_toSet _
  · rw [hset, Set.ncard_coe_finset, List.toFinset_card_of_nodup hwf.shared_nodup, hlock]
    rfl
  · simp only [hex, hlock, Holds.toLock, Option.isSome_iff_exists]
  · intro t
    rw [hsh, hlock]
    exact Holds.mem_transactions
  · rw [hlock]
    exact nodup_transactions hwf.shared_nodup
  · intro t
    rw [hex, hlock]
    simp only [Holds.toLock]
    cases he : h.exclusive with
    | none => simp
    | some p => cases p <;> simp [Party.transaction]

/-! ### Grants stay -/

/-- The method resolves futures and un-resolves none. -/
def Grows (l : Lock τ) (r : Op τ) : Prop := ∀ w ∈ l.done, w ∈ r.1.done

omit [DecidableEq τ] in
theorem Grows.andThen {l : Lock τ} {r : Op τ} {f : Lock τ → Op τ} (hr : Grows l r)
    (hf : ∀ l', Grows l' (f l')) : Grows l (r.andThen f) := by
  intro w hw
  unfold Op.andThen
  split
  · exact hf _ w (hr w hw)
  · exact hr w hw

theorem addSharedHolder_grows (t : Option τ) (l : Lock τ) :
    Grows l (Lock.addSharedHolder t l) := by
  intro w hw
  unfold Lock.addSharedHolder
  split
  · exact hw
  · split
    · exact hw
    · exact hw

theorem removeSharedHolder_grows (t : Option τ) (l : Lock τ) :
    Grows l (Lock.removeSharedHolder t l) := by
  intro w hw
  unfold Lock.removeSharedHolder
  split
  · exact hw
  · split
    · exact hw
    · exact hw

omit [DecidableEq τ] in
theorem setExclusiveHolder_grows (t : Option τ) (l : Lock τ) :
    Grows l (Lock.setExclusiveHolder t l) := by
  intro w hw
  unfold Lock.setExclusiveHolder
  split
  · exact hw
  · exact hw

theorem unsetExclusiveHolder_grows (t : Option τ) (l : Lock τ) :
    Grows l (Lock.unsetExclusiveHolder t l) := by
  intro w hw
  unfold Lock.unsetExclusiveHolder
  split
  · exact hw
  · exact hw

omit [DecidableEq τ] in
theorem resolve_grows (id : Nat) (l : Lock τ) : Grows l (Lock.resolve id l) :=
  fun _ hw => List.mem_cons_of_mem _ hw

theorem grantWaiters_grows : ∀ (ws : List (Waiter τ)) (l : Lock τ),
    Grows l (Lock.grantWaiters ws l)
  | [], _ => fun _ hw => hw
  | w :: ws, l => by
    unfold Lock.grantWaiters
    split
    · split
      · exact fun _ hw => hw
      · exact Grows.andThen (setExclusiveHolder_grows _ { l with waiters := ws, exclusive := true })
          (resolve_grows _)
    · refine Grows.andThen (Grows.andThen ?_ (resolve_grows _)) (grantWaiters_grows ws)
      exact addSharedHolder_grows _ { l with waiters := ws, shared := l.shared + 1 }

theorem maybeGrantNext_grows (m : Mode) (l : Lock τ) : Grows l (Lock.maybeGrantNext m l) := by
  have hrefl : ∀ b, Grows l (l, b) := fun _ _ hw => hw
  unfold Lock.maybeGrantNext
  split
  · exact hrefl _
  · split
    next upgrader _ =>
      split
      · exact hrefl _
      · split
        · refine Grows.andThen (Grows.andThen ?_ (setExclusiveHolder_grows _)) (resolve_grows _)
          exact removeSharedHolder_grows _ { l with upgrader := none, shared := 0, exclusive := true }
        · exact hrefl _
    · split
      · exact hrefl _
      · split
        · exact hrefl _
        · exact grantWaiters_grows _ _

theorem downgrade_grows (t : Option τ) (l : Lock τ) : Grows l (l.downgrade t) := by
  unfold Lock.downgrade
  split
  · exact fun _ hw => hw
  · split
    · exact fun _ hw => hw
    · refine Grows.andThen (Grows.andThen ?_ (addSharedHolder_grows _)) (maybeGrantNext_grows _)
      exact unsetExclusiveHolder_grows _ { l with exclusive := false, shared := 1 }

theorem release_grows (m : Mode) (t : Option τ) (l : Lock τ) : Grows l (l.release m t) := by
  cases m with
  | shared =>
    simp only [Lock.release, Lock.releaseShared]
    split
    · exact fun _ hw => hw
    · refine Grows.andThen ?_ (maybeGrantNext_grows _)
      exact removeSharedHolder_grows _ { l with shared := l.shared - 1 }
  | exclusive =>
    simp only [Lock.release, Lock.releaseExclusive]
    split
    · exact fun _ hw => hw
    · refine Grows.andThen ?_ (maybeGrantNext_grows _)
      exact unsetExclusiveHolder_grows _ { l with exclusive := false }

/-- Giving up leaves the grants of the other waiters alone. -/
theorem giveUp_done {id : Nat} {up : Bool} {m : Mode} {t : Option τ} {l : Lock τ} {w : Nat}
    (hw : w ∈ l.done) (hne : w ≠ id) : w ∈ (l.giveUp id up m t).1.done := by
  unfold Lock.giveUp
  split
  · have hw' : w ∈ ({ l with done := l.done.erase id } : Lock τ).done :=
      (List.mem_erase_of_ne hne).mpr hw
    simp only
    split
    · exact downgrade_grows t _ w hw'
    · exact release_grows m t _ w hw'
  · split
    · split
      · split
        · exact hw
        · exact hw
      · exact hw
    · exact hw

/-! ### The outcome of a wait -/

/-- A suspended call holds its target if it was granted, and what was recorded before
it otherwise. -/
theorem hold_of_call {s : LockState τ} (hs : Inv s) {c : Call τ} (hc : c ∈ s.calls) :
    s.hold c.party = if c.id ∈ s.lock.done then some c.target else s.held c.party := by
  obtain ⟨h, hlock, -, -, hl⟩ := hs.agrees
  rw [← holdOf_eq_hold hlock hl]
  split
  next hd =>
    rw [hlock] at hd
    exact hl.granted_hold c hc hd
  next hd =>
    rw [hlock] at hd
    refine hl.hold _ fun c' hc' he => ?_
    rw [hl.parties c' hc' c hc he]
    exact hd

/-- A party that was granted nothing since holds what it was handed. -/
theorem hold_of_ungranted {s : LockState τ} {p : Party τ}
    (hi : ∀ c ∈ s.calls, c.party = p → c.id ∉ s.lock.done) : s.hold p = s.held p := by
  unfold hold
  split
  next c hc =>
    have hcp : c.party = p ∧ c.id ∈ s.lock.done := by simpa using List.find?_some hc
    exact absurd hcp.2 (hi c (List.mem_of_find?_eq_some hc) hcp.1)
  · rfl

theorem hold_of_idle {s : LockState τ} {p : Party τ} (hi : s.Idle p) : s.hold p = s.held p :=
  hold_of_ungranted fun c hc hcp => absurd hcp (hi c hc)

/-- What is left of the wait of `c` once it gave up: its party is back at the hold it
had before (none, or the shared hold of a failed upgrade), the others keep theirs or
are granted what they waited for, and the waiter never shows up again, so there is no
second time to give the hold back. -/
structure GivenBack (s s' : LockState τ) (c : Call τ) : Prop where
  back : s'.hold c.party = if c.isUpgrade then some .shared else none
  others : ∀ q, q ≠ c.party → s'.hold q = s.hold q ∨
    ∃ c' ∈ s.calls, c'.party = q ∧ c'.id ∉ s.lock.done ∧ s'.hold q = some c'.target
  gone : ∀ s'', Reach step (fun _ _ => True) s' s'' →
    step s'' (.giveUp c.id) = none ∧ step s'' (.resume c.id) = none

/-- A waiter whose identity was used stays gone. -/
theorem stays_gone {s s' : LockState τ} {id : Nat} (hr : Reach step (fun _ _ => True) s s')
    (hid : id < s.next) (hno : ∀ c ∈ s.calls, c.id ≠ id) :
    ∀ c ∈ s'.calls, c.id ≠ id := by
  refine (hr.invariant (fun s => id < s.next ∧ ∀ c ∈ s.calls, c.id ≠ id) ⟨hid, hno⟩ ?_).2
  rintro s a s' ⟨hid, hno⟩ - hstep
  have hcons : ∀ {p m up}, ∀ c ∈ (⟨s.next, p, m, up⟩ :: s.calls : List (Call τ)), c.id ≠ id := by
    intro p m up c hc
    rcases List.mem_cons.mp hc with rfl | hc
    · exact hid.ne'
    · exact hno c hc
  have hdrop : ∀ {w}, ∀ c ∈ dropCall w s.calls, c.id ≠ id :=
    fun c hc => hno c (mem_dropCall.mp hc).1
  cases step_turn hstep with
  | acquired => exact ⟨hid, hno⟩
  | queued => exact ⟨Nat.lt_succ_of_lt hid, hcons⟩
  | upgraded => exact ⟨hid, hno⟩
  | upgradeWaits => exact ⟨Nat.lt_succ_of_lt hid, hcons⟩
  | upgradeRaises => exact ⟨hid, hno⟩
  | downgraded => exact ⟨hid, hno⟩
  | released => exact ⟨hid, hno⟩
  | resumed => exact ⟨hid, hdrop⟩
  | gaveUp => exact ⟨hid, hdrop⟩

/-- No turn is left for a waiter that is gone. -/
theorem no_turn_of_gone {s : LockState τ} {id : Nat} (hno : ∀ c ∈ s.calls, c.id ≠ id) :
    step s (.giveUp id) = none ∧ step s (.resume id) = none := by
  have hfind : s.calls.find? (fun c => decide (c.id = id)) = none :=
    List.find?_eq_none.mpr fun c hc => by simpa using hno c hc
  simp [step, hfind]

theorem Inv.givenBack {s s' : LockState τ} {c : Call τ} (hs : Inv s) (hc : c ∈ s.calls)
    (hstep : step s (.giveUp c.id) = some s') : GivenBack s s' c := by
  have hs' : Inv s' := hs.turn (step_turn hstep)
  generalize hid : c.id = id at hstep
  cases step_turn hstep with
  | @gaveUp d hd =>
    obtain rfl : c = d := by
      obtain ⟨h, -, -, -, hl⟩ := hs.agrees
      exact hl.ids c hc d hd hid
    have hmem := hs.agrees.mem_dropCall_iff hc
    refine ⟨?_, ?_, ?_⟩
    · rw [hold_of_idle fun c' hc' => ((hmem c').mp hc').2]
      exact hs.agrees.before hc
    · intro q hq
      by_cases hi : s.Idle q
      · refine Or.inl ((hold_of_idle fun c' hc' => hi c' ((hmem c').mp hc').1).trans ?_)
        exact (hold_of_idle hi).symm
      · obtain ⟨c', hc', hcq⟩ : ∃ c' ∈ s.calls, c'.party = q := by
          unfold Idle at hi
          push Not at hi
          exact hi
        have hc'' : c' ∈ dropCall c.id s.calls := (hmem c').mpr ⟨hc', hcq ▸ hq⟩
        have hnow := hold_of_call hs' hc''
        have hbefore := hold_of_call hs hc'
        rw [hcq] at hnow hbefore
        by_cases hdone : c'.id ∈ s.lock.done
        · -- granted before, and still granted
          have hne : c'.id ≠ c.id := (mem_dropCall.mp hc'').2
          rw [if_pos (giveUp_done hdone hne)] at hnow
          rw [if_pos hdone] at hbefore
          exact Or.inl (hnow.trans hbefore.symm)
        · rw [if_neg hdone] at hbefore
          split at hnow
          · exact Or.inr ⟨c', hc', hcq, hdone, hnow⟩
          · exact Or.inl (hnow.trans hbefore.symm)
    · intro s'' hr
      refine no_turn_of_gone (stays_gone hr (hs.ids c hc) ?_)
      exact fun c' hc' => (mem_dropCall.mp hc').2

/-- Every resolved future is that of a suspended call. -/
theorem Inv.next_not_done {s : LockState τ} (hs : Inv s) : s.next ∉ s.lock.done := by
  obtain ⟨h, hlock, -, -, hl⟩ := hs.agrees
  intro hd
  rw [hlock] at hd
  obtain ⟨c, hc, hid⟩ := hl.granted _ hd
  exact absurd (hs.ids c hc) (by omega)

theorem upgrade_waiting_done {w : Nat} {t : Option τ} {l l' : Lock τ}
    (h : l.upgrade w t = .waiting l') : l'.done = l.done := by
  unfold Lock.upgrade at h
  split at h
  · cases h
  · split at h
    · split at h
      · cases h
      · cases h
    · split at h
      · cases h
      · cases h
        rfl

/-- `upgrade` up to its first suspension: the caller is upgraded, or it keeps exactly its
shared hold, whether it waits or the call raised. -/
theorem Inv.upgrade_outcome {s s' : LockState τ} {p : Party τ} (hs : Inv s)
    (hstep : step s (.upgrade p) = some s') :
    s'.hold p = some .exclusive ∧ s'.held p = some .exclusive ∨
      s'.hold p = some .shared ∧ s'.held p = some .shared := by
  have hs' : Inv s' := hs.turn (step_turn hstep)
  cases step_turn hstep with
  | upgraded hb hi hu =>
    refine Or.inl ⟨?_, Function.update_self ..⟩
    rw [hold_of_idle]
    · exact Function.update_self ..
    · -- nobody waits while it holds the lock exclusively
      intro c hc hcp
      have hbefore := hs'.agrees.before hc
      rw [hcp] at hbefore
      simp only [Function.update_self] at hbefore
      split at hbefore
      · cases hbefore
      · cases hbefore
  | upgradeWaits hb hi hu =>
    refine Or.inr ⟨?_, hb⟩
    rw [hold_of_ungranted, hb]
    intro c hc hcp
    rw [upgrade_waiting_done hu]
    rcases List.mem_cons.mp hc with rfl | hc
    · exact hs.next_not_done
    · exact hi c hc hcp
  | upgradeRaises hb hi hu =>
    refine Or.inr ⟨?_, hb⟩
    have hspec := upgrade_spec hs hb
    rw [hu] at hspec
    subst hspec
    rw [hold_of_ungranted, hb]
    exact hi

/-- **Safety.** In every state that the callers of a lock reach, in any order and however
their waits end, the lock has what its callers hold and no assertion failed; whoever
gives up a wait is back where it was, once, and a failed upgrade keeps the shared hold. -/
theorem lock_safety {s : LockState τ} (hr : Reach step (fun _ _ => True) init s) :
    Safe s ∧
      (∀ c ∈ s.calls, ∀ s', step s (.giveUp c.id) = some s' → GivenBack s s' c) ∧
      (∀ p s', step s (.upgrade p) = some s' →
        s'.hold p = some .exclusive ∧ s'.held p = some .exclusive ∨
          s'.hold p = some .shared ∧ s'.held p = some .shared) := by
  have hs := reach_inv hr
  exact ⟨hs.safe, fun c hc s' => hs.givenBack hc, fun p s' => hs.upgrade_outcome⟩

/-- Transaction 1 and a reader hold the lock, a writer waits, the transaction waits to
upgrade; the reader leaves, which grants the upgrade, and the transaction is interrupted
before it runs again. -/
def interrupted : List (LockAction Nat) :=
  [.acquire .shared (.txn 1), .acquire .shared (.anonymous 0), .acquire .exclusive (.anonymous 1),
    .upgrade (.txn 1), .release (.anonymous 0), .giveUp 1]

theorem interrupted_safe : Safe (last step init interrupted) ∧
    (last step init interrupted).hold (.txn 1) = some .shared :=
  ⟨(lock_safety (reach_last interrupted .init (by decide))).1, by decide⟩

end LockState

end Reboot.Txn
