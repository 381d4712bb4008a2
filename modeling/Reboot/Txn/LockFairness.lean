import Reboot.Txn.LockPrompt

/-!
# Nobody overtakes a queued writer

"Waiters are FIFO among themselves and a new `shared` request does NOT jump the FIFO queue and join
an active shared cohort if an exclusive waiter is queued, to guard against exclusive-waiter
starvation" (`Lock`, `reboot/aio/state_managers.py`).

`Ahead s id p` says that a party holds the lock or is queued before the waiter. While an exclusive
waiter is in the queue, nobody who was not ahead of it gets there: `writer_not_overtaken`, for every
order of the calls and however the others give up. So a writer waits for those that were there when
it came, each of which can hold the lock in both modes (`upgrade` and `downgrade` are calls of a
holder), and for no others.

Two facts carry it. What a method grants, it grants from the front of the queue or to the upgrader,
who holds the lock already (`InOrder`). And somebody holds the lock while anybody is queued
(`Busy`), so that an acquire cannot find it free.
-/

namespace Reboot.Txn

open Reboot.Lib

/-! ## Grants come from the front -/

/-- The method takes waiters from the front of the queue, and resolves theirs and the upgrader's
futures only. -/
structure InOrder {τ : Type} (l l' : Lock τ) : Prop where
  front : ∃ k, l'.waiters = l.waiters.drop k ∧ ∀ id ∈ l'.done,
    id ∈ l.done ∨ id ∈ (l.waiters.take k).map Waiter.id ∨ ∃ u, l.upgrader = some u ∧ u.id = id
  upgrader : ∀ u, l'.upgrader = some u → l.upgrader = some u

/-- Somebody holds the lock while there is a queue. -/
def Lock.Busy {τ : Type} (l : Lock τ) : Prop :=
  l.waiters ≠ [] → l.exclusive = true ∨ l.shared ≠ 0

/-- The requests before a waiter. -/
def before {τ : Type} (id : Nat) (ws : List (Waiter τ)) : List Nat :=
  (ws.map Waiter.id).takeWhile fun i => decide (i ≠ id)

section

variable {τ : Type} {l l' l'' : Lock τ}

theorem InOrder.refl (l : Lock τ) : InOrder l l :=
  ⟨⟨0, rfl, fun _ hid => .inl hid⟩, fun _ h => h⟩

/-- What two methods grant one after the other comes from the front as well. -/
theorem InOrder.trans (h : InOrder l l') (h' : InOrder l' l'') : InOrder l l'' := by
  obtain ⟨⟨k, hw, hd⟩, hu⟩ := h
  obtain ⟨⟨k', hw', hd'⟩, hu'⟩ := h'
  refine ⟨⟨k + k', by rw [hw', hw, List.drop_drop], fun id hid => ?_⟩, fun u h => hu u (hu' u h)⟩
  have htake : l.waiters.take (k + k') = l.waiters.take k ++ (l.waiters.drop k).take k' :=
    List.take_add
  rw [htake, List.map_append]
  rcases hd' id hid with hid | hid | ⟨u, hup, rfl⟩
  · rcases hd id hid with hid | hid | hid
    · exact .inl hid
    · exact .inr (.inl (List.mem_append_left _ hid))
    · exact .inr (.inr hid)
  · rw [hw] at hid
    exact .inr (.inl (List.mem_append_right _ hid))
  · exact .inr (.inr ⟨u, hu u hup, rfl⟩)

/-- A method that goes on only where the first part did not raise. -/
theorem InOrder.andThen {r : Op τ} {f : Lock τ → Op τ} (h : InOrder l r.1)
    (hf : InOrder r.1 (f r.1).1) : InOrder l (r.andThen f).1 := by
  unfold Op.andThen
  split
  · exact h.trans hf
  · exact h

/-- The queue and the futures are left alone. -/
structure SameQueue (l l' : Lock τ) : Prop where
  waiters : l'.waiters = l.waiters
  done : l'.done = l.done
  upgrader : l'.upgrader = l.upgrader

/-- Whatever leaves the queue alone grants nothing. -/
theorem SameQueue.inOrder (h : SameQueue l l') : InOrder l l' :=
  ⟨⟨0, h.waiters, fun _ hid => .inl (h.done ▸ hid)⟩, fun _ hu => h.upgrader ▸ hu⟩

theorem SameQueue.andThen {r : Op τ} {f : Lock τ → Op τ} (h : SameQueue l r.1)
    (hf : SameQueue r.1 (f r.1).1) : SameQueue l (r.andThen f).1 := by
  unfold Op.andThen
  split
  · exact ⟨hf.waiters.trans h.waiters, hf.done.trans h.done, hf.upgrader.trans h.upgrader⟩
  · exact h

theorem setExclusiveHolder_same (t : Option τ) (l : Lock τ) :
    SameQueue l (Lock.setExclusiveHolder t l).1 := by
  unfold Lock.setExclusiveHolder
  split <;> exact ⟨rfl, rfl, rfl⟩

/-- The head of the queue is taken off and its future resolved. -/
theorem inOrder_head {w : Waiter τ} {ws : List (Waiter τ)} (hw : l.waiters = w :: ws)
    {r : Op τ} (h : SameQueue { l with waiters := ws } r.1) :
    InOrder l (r.andThen (Lock.resolve w.id)).1 := by
  have hup : ∀ u, r.1.upgrader = some u → l.upgrader = some u := fun u hu => h.upgrader ▸ hu
  unfold Op.andThen
  split
  · refine ⟨⟨1, by rw [hw]; exact h.waiters, fun id hid => ?_⟩, hup⟩
    rcases List.mem_cons.mp hid with rfl | hid
    · exact .inr (.inl (by rw [hw]; exact List.mem_singleton.mpr rfl))
    · exact .inl (h.done ▸ hid)
  · exact ⟨⟨1, by rw [hw]; exact h.waiters, fun id hid => .inl (h.done ▸ hid)⟩, hup⟩

/-- The upgrader is taken off and its future resolved. -/
theorem inOrder_upgrader {u : Waiter τ} (hu : l.upgrader = some u) {r : Op τ}
    (h : SameQueue { l with upgrader := none } r.1) :
    InOrder l (r.andThen (Lock.resolve u.id)).1 := by
  have hup : ∀ v, r.1.upgrader = some v → l.upgrader = some v := fun v hv => by
    rw [h.upgrader] at hv
    cases hv
  unfold Op.andThen
  split
  · refine ⟨⟨0, h.waiters, fun id hid => ?_⟩, hup⟩
    rcases List.mem_cons.mp hid with rfl | hid
    · exact .inr (.inr ⟨u, hu, rfl⟩)
    · exact .inl (h.done ▸ hid)
  · exact ⟨⟨0, h.waiters, fun id hid => .inl (h.done ▸ hid)⟩, hup⟩

variable [DecidableEq τ]

theorem addSharedHolder_same (t : Option τ) (l : Lock τ) :
    SameQueue l (Lock.addSharedHolder t l).1 := by
  unfold Lock.addSharedHolder
  split
  · exact ⟨rfl, rfl, rfl⟩
  · split <;> exact ⟨rfl, rfl, rfl⟩

theorem removeSharedHolder_same (t : Option τ) (l : Lock τ) :
    SameQueue l (Lock.removeSharedHolder t l).1 := by
  unfold Lock.removeSharedHolder
  split
  · exact ⟨rfl, rfl, rfl⟩
  · split <;> exact ⟨rfl, rfl, rfl⟩

theorem unsetExclusiveHolder_same (t : Option τ) (l : Lock τ) :
    SameQueue l (Lock.unsetExclusiveHolder t l).1 := by
  unfold Lock.unsetExclusiveHolder
  split <;> exact ⟨rfl, rfl, rfl⟩

/-- `_grant_waiters` takes the head of the queue each time. -/
theorem grantWaiters_inOrder : ∀ {ws : List (Waiter τ)} {l : Lock τ}, l.waiters = ws →
    InOrder l (Lock.grantWaiters ws l).1
  | [], l, _ => .refl l
  | w :: ws, l, hw => by
    unfold Lock.grantWaiters
    split
    · split
      · exact .refl l
      · have hsame := setExclusiveHolder_same w.transaction
          { l with waiters := ws, exclusive := true }
        exact inOrder_head hw ⟨hsame.waiters, hsame.done, hsame.upgrader⟩
    · have hsame := addSharedHolder_same w.transaction
        { l with waiters := ws, shared := l.shared + 1 }
      refine (inOrder_head hw (l := l) ⟨hsame.waiters, hsame.done, hsame.upgrader⟩).andThen
        (grantWaiters_inOrder ?_)
      unfold Op.andThen
      split <;> exact hsame.waiters

/-- `_maybe_grant_next` grants the upgrader or from the front. -/
theorem maybeGrantNext_inOrder (m : Mode) (l : Lock τ) :
    InOrder l (Lock.maybeGrantNext m l).1 := by
  unfold Lock.maybeGrantNext
  split
  · exact .refl l
  · split
    next u hu =>
      split
      · exact .refl l
      · split
        · have hsame := (removeSharedHolder_same u.transaction
            { l with upgrader := none, shared := 0, exclusive := true }).andThen
            (setExclusiveHolder_same u.transaction _)
          exact inOrder_upgrader hu ⟨hsame.waiters, hsame.done, hsame.upgrader⟩
        · exact .refl l
    · split
      · exact .refl l
      · split
        · exact .refl l
        · exact grantWaiters_inOrder rfl

/-- So does `downgrade`. -/
theorem downgrade_inOrder (t : Option τ) (l : Lock τ) : InOrder l (l.downgrade t).1 := by
  unfold Lock.downgrade
  split
  · exact .refl l
  · split
    · exact SameQueue.inOrder ⟨rfl, rfl, rfl⟩
    · have hsame := unsetExclusiveHolder_same t { l with exclusive := false, shared := 1 }
      refine InOrder.andThen (InOrder.andThen ?_ (addSharedHolder_same _ _).inOrder)
        (maybeGrantNext_inOrder _ _)
      exact SameQueue.inOrder ⟨hsame.waiters, hsame.done, hsame.upgrader⟩

/-- So does `release`. -/
theorem release_inOrder (m : Mode) (t : Option τ) (l : Lock τ) :
    InOrder l (l.release m t).1 := by
  cases m with
  | shared =>
    simp only [Lock.release, Lock.releaseShared]
    split
    · exact .refl l
    · have hsame := removeSharedHolder_same t { l with shared := l.shared - 1 }
      exact InOrder.andThen (SameQueue.inOrder ⟨hsame.waiters, hsame.done, hsame.upgrader⟩)
        (maybeGrantNext_inOrder _ _)
  | exclusive =>
    simp only [Lock.release, Lock.releaseExclusive]
    split
    · exact .refl l
    · have hsame := unsetExclusiveHolder_same t { l with exclusive := false }
      exact InOrder.andThen (SameQueue.inOrder ⟨hsame.waiters, hsame.done, hsame.upgrader⟩)
        (maybeGrantNext_inOrder _ _)

end

/-! ## The lock is held while there is a queue -/

section

variable {τ : Type} [DecidableEq τ]

omit [DecidableEq τ] in
/-- What the first part achieves and the second one keeps. -/
theorem andThen_keeps {P : Lock τ → Prop} {r : Op τ} {f : Lock τ → Op τ} (h : P r.1)
    (hf : ∀ l, P l → P (f l).1) : P (r.andThen f).1 := by
  unfold Op.andThen
  split
  · exact hf _ h
  · exact h

omit [DecidableEq τ] in
theorem setExclusiveHolder_shared (t : Option τ) (l : Lock τ) :
    (Lock.setExclusiveHolder t l).1.shared = l.shared := by
  unfold Lock.setExclusiveHolder
  split <;> rfl

theorem unsetExclusiveHolder_shared (t : Option τ) (l : Lock τ) :
    (Lock.unsetExclusiveHolder t l).1.shared = l.shared := by
  unfold Lock.unsetExclusiveHolder
  split <;> rfl

/-- Granting waiters drops no shared holder. -/
theorem grantWaiters_shared : ∀ (ws : List (Waiter τ)) (l : Lock τ), l.shared ≠ 0 →
    (Lock.grantWaiters ws l).1.shared ≠ 0
  | [], _, h => h
  | w :: ws, l, h => by
    unfold Lock.grantWaiters
    split
    · split
      · exact h
      · refine andThen_keeps (P := fun l => l.shared ≠ 0) ?_ fun _ h => h
        rw [setExclusiveHolder_shared]
        exact h
    · refine andThen_keeps (P := fun l => l.shared ≠ 0)
        (andThen_keeps (P := fun l => l.shared ≠ 0) ?_ fun _ h => h) (grantWaiters_shared ws)
      rw [Lock.addSharedHolder_frame.2.2.1]
      exact Nat.succ_ne_zero _

/-- Whoever is at the head of the queue of a free lock gets it. -/
theorem grantWaiters_busy {l : Lock τ} : (Lock.grantWaiters l.waiters l).1.Busy := by
  cases hw : l.waiters with
  | nil => exact fun h => absurd hw h
  | cons w ws =>
    unfold Lock.grantWaiters
    split
    · split
      next hs => exact fun _ => .inr (Nat.pos_iff_ne_zero.mp hs)
      · refine andThen_keeps (P := Lock.Busy) (fun _ => .inl ?_) fun _ h => h
        exact Lock.setExclusiveHolder_exclusive
    · refine fun _ => .inr ?_
      refine andThen_keeps (P := fun l => l.shared ≠ 0)
        (andThen_keeps (P := fun l => l.shared ≠ 0) ?_ fun _ h => h) (grantWaiters_shared ws)
      rw [Lock.addSharedHolder_frame.2.2.1]
      exact Nat.succ_ne_zero _

/-- After `_maybe_grant_next` the lock is free only if nobody is left in the queue. -/
theorem maybeGrantNext_busy {m : Mode} {l : Lock τ} (hup : l.upgrader ≠ none → l.shared ≠ 0) :
    (Lock.maybeGrantNext m l).1.Busy := by
  unfold Lock.maybeGrantNext
  split
  next he => exact fun _ => .inl he
  · split
    next u hu =>
      have hs : l.shared ≠ 0 := hup (by rw [hu]; exact Option.some_ne_none u)
      split
      · exact fun _ => .inr hs
      · split
        · refine andThen_keeps (P := Lock.Busy) (fun _ => .inl ?_) fun _ h => h
          refine andThen_keeps (P := fun l => l.exclusive = true) ?_
            fun l h => Lock.setExclusiveHolder_exclusive.trans h
          exact Lock.removeSharedHolder_frame.1
        · exact fun _ => .inr hs
    · split
      next h => exact fun _ => .inr (Nat.pos_iff_ne_zero.mp h.2)
      · split
        next h => exact fun _ => .inr fun h0 => h (.inr h0)
        · exact grantWaiters_busy

/-- A downgrade leaves a shared holder. -/
theorem downgrade_busy {t : Option τ} {l : Lock τ} (h : l.Busy) : (l.downgrade t).1.Busy := by
  unfold Lock.downgrade
  split
  · exact h
  · split
    next hs => exact fun _ => .inr hs
    · have hgrant : ∀ r : Op τ, r.1.shared ≠ 0 →
          (r.andThen (Lock.maybeGrantNext .exclusive)).1.Busy := by
        intro r hr
        unfold Op.andThen
        split
        · exact maybeGrantNext_busy fun _ => hr
        · exact fun _ => .inr hr
      refine hgrant _ (andThen_keeps (P := fun l => l.shared ≠ 0) ?_ fun l h => ?_)
      · rw [unsetExclusiveHolder_shared]
        exact Nat.one_ne_zero
      · rwa [Lock.addSharedHolder_frame.2.2.1]

/-- A pending upgrader is not alone, and not there under an exclusive hold. -/
def Lock.Pending (l : Lock τ) : Prop :=
  l.upgrader ≠ none → l.exclusive = false ∧ 2 ≤ l.shared

/-- The last holder to release grants the lock on. -/
theorem release_busy {m : Mode} {t : Option τ} {l : Lock τ} (hp : l.Pending)
    (hok : (l.release m t).2 = true) : (l.release m t).1.Busy := by
  cases m with
  | shared =>
    simp only [Lock.release, Lock.releaseShared] at hok ⊢
    split at hok
    · cases hok
    next hs =>
      rw [if_neg hs, (Lock.andThen_true hok).2]
      refine maybeGrantNext_busy fun hu => ?_
      have hframe := Lock.removeSharedHolder_frame (t := t) (l := { l with shared := l.shared - 1 })
      rw [hframe.2.1] at hu
      rw [hframe.2.2.1]
      have := (hp hu).2
      show l.shared - 1 ≠ 0
      omega
  | exclusive =>
    simp only [Lock.release, Lock.releaseExclusive] at hok ⊢
    split at hok
    · cases hok
    next he =>
      rw [if_neg he, (Lock.andThen_true hok).2]
      refine maybeGrantNext_busy fun hu => ?_
      rw [(unsetExclusiveHolder_same t { l with exclusive := false }).upgrader] at hu
      exact absurd (hp hu).1 (by simpa using he)

end

namespace LockState

variable {τ : Type} [DecidableEq τ]

/-- In every state reached, whoever waits to upgrade shares the lock with another holder. -/
theorem Inv.pending {s : LockState τ} (hs : Inv s) : s.lock.Pending := by
  obtain ⟨h, hlock, hwf, hsettled, -⟩ := hs.agrees
  intro hu
  rw [hlock] at hu ⊢
  cases hup : h.upgrader with
  | none => exact absurd (by simp [Holds.toLock, hup]) hu
  | some u =>
    have hmem : u.2 ∈ h.shared := hwf.upgrader_shared u.1 u.2 hup
    have hone : h.shared.length ≠ 1 := hsettled u hup
    have hpos : 0 < h.shared.length := List.length_pos_of_mem hmem
    refine ⟨?_, show 2 ≤ h.shared.length by omega⟩
    cases hex : h.exclusive with
    | none => simp [Holds.toLock, hex]
    | some p => exact absurd hup (by simp [(hwf.exclusive_alone p hex).2])

/-- An acquire that is granted at once makes its caller a holder. -/
theorem tryAcquire_busy {m : Mode} {t : Option τ} {l : Lock τ} {r : Op τ}
    (hr : l.tryAcquire m t = some r) : r.1.Busy := by
  cases m with
  | shared =>
    simp only [Lock.tryAcquire, Lock.tryAcquireShared] at hr
    split at hr
    · cases hr
    · split at hr
      · cases hr
      · cases hr
        refine fun _ => .inr ?_
        rw [Lock.addSharedHolder_frame.2.2.1]
        exact Nat.succ_ne_zero _
  | exclusive =>
    simp only [Lock.tryAcquire, Lock.tryAcquireExclusive] at hr
    split at hr
    · cases hr
    · cases hr
      exact fun _ => .inl Lock.setExclusiveHolder_exclusive

/-- Who has to queue has found the lock held. -/
theorem enqueue_busy {m : Mode} {t : Option τ} {l : Lock τ} {id : Nat} (h : l.Busy)
    (hp : l.Pending) (hr : l.tryAcquire m t = none) : (l.enqueue id m t).Busy := by
  refine fun _ => ?_
  show l.exclusive = true ∨ l.shared ≠ 0
  have hup : l.upgrader ≠ none → l.shared ≠ 0 := fun hu => by have := (hp hu).2; omega
  cases m with
  | shared =>
    simp only [Lock.tryAcquire, Lock.tryAcquireShared] at hr
    split at hr
    next hbusy => exact hbusy.imp_right hup
    · split at hr
      next hany => exact h fun hnil => by simp [hnil] at hany
      · cases hr
  | exclusive =>
    simp only [Lock.tryAcquire, Lock.tryAcquireExclusive] at hr
    split at hr
    next hbusy =>
      rcases hbusy with hex | hs | hu
      · exact .inl hex
      · exact .inr (Nat.pos_iff_ne_zero.mp hs)
      · exact .inr (hup hu)
    · cases hr

/-- A waiter that gives up leaves the queue, or passes on what it was granted. -/
theorem giveUp_busy {id : Nat} {up : Bool} {m : Mode} {t : Option τ} {l : Lock τ} (h : l.Busy)
    (hp : l.Pending) (hok : (l.giveUp id up m t).2 = true) : (l.giveUp id up m t).1.Busy := by
  unfold Lock.giveUp at hok ⊢
  split at hok
  next hd =>
    rw [if_pos hd]
    cases up with
    | true => exact downgrade_busy (l := { l with done := l.done.erase id }) h
    | false => exact release_busy (l := { l with done := l.done.erase id }) hp hok
  next hd =>
    rw [if_neg hd]
    cases up with
    | true =>
      simp only [if_true]
      split
      · split
        · exact h
        · exact h
      · exact h
    | false => exact fun hne => h fun hnil => hne (by simp [hnil])

/-- Somebody holds the lock while there is a queue, after every turn as well. -/
theorem Inv.busy_turn {s s' : LockState τ} {a : LockAction τ} (hs : Inv s) (hs' : Inv s')
    (hb : s.lock.Busy) (h : Turn s a s') : s'.lock.Busy := by
  have hok := hs'.ok
  cases h with
  | acquired _ _ hr => exact tryAcquire_busy hr
  | queued _ _ hr => exact enqueue_busy hb hs.pending hr
  | upgraded _ _ hu => exact fun _ => .inl (Lock.upgraded_exclusive hu)
  | @upgradeWaits p l hheld hi hu =>
    unfold Lock.upgrade at hu
    split at hu
    · cases hu
    next hs0 =>
      split at hu
      · split at hu <;> cases hu
      · split at hu
        · cases hu
        · cases hu
          exact fun _ => .inr hs0
  | @upgradeRaises p l hheld hi hu =>
    have hspec := upgrade_spec hs hheld
    rw [hu] at hspec
    subst hspec
    exact hb
  | downgraded => exact downgrade_busy hb
  | released => exact release_busy hs.pending (Bool.and_eq_true_iff.mp hok).2
  | resumed => exact hb
  | gaveUp => exact giveUp_busy hb hs.pending (Bool.and_eq_true_iff.mp hok).2

/-! ## Who is ahead of a waiter -/

/-- The party holds the lock, or is queued before the waiter. -/
def Ahead (s : LockState τ) (id : Nat) (p : Party τ) : Prop :=
  s.hold p ≠ none ∨ ∃ c ∈ s.calls, c.party = p ∧ c.id ∈ before id s.lock.waiters

/-- A party holds the lock if a call of its own returned with it, or has it resolved. -/
theorem hold_ne_none_iff {s : LockState τ} {p : Party τ} (hs : Inv s) :
    s.hold p ≠ none ↔
      s.held p ≠ none ∨ ∃ c ∈ s.calls, c.party = p ∧ c.id ∈ s.lock.done := by
  by_cases hcall : ∃ c ∈ s.calls, c.party = p ∧ c.id ∈ s.lock.done
  · obtain ⟨c, hc, rfl, hd⟩ := hcall
    rw [hold_of_call hs hc, if_pos hd]
    exact ⟨fun _ => .inr ⟨c, hc, rfl, hd⟩, fun _ => Option.some_ne_none _⟩
  · rw [hold_of_ungranted fun c hc hcp hd => hcall ⟨c, hc, hcp, hd⟩]
    exact ⟨.inl, fun h => h.resolve_right hcall⟩

/-- Nobody who was not ahead is ahead after a turn that hands out holds and places only to those
who were. -/
theorem ahead_of {s s' : LockState τ} {id : Nat} {p : Party τ} (hs' : Inv s')
    (hheld : ∀ p, s'.held p ≠ none → s.hold p ≠ none)
    (hdone : ∀ c ∈ s'.calls, c.id ∈ s'.lock.done → s.Ahead id c.party)
    (hbefore : ∀ c ∈ s'.calls, c.id ∈ before id s'.lock.waiters → s.Ahead id c.party)
    (h : s'.Ahead id p) : s.Ahead id p := by
  rcases h with hhold | ⟨c, hc, rfl, hb⟩
  · rcases (hold_ne_none_iff hs').mp hhold with hp | ⟨c, hc, rfl, hd⟩
    · exact .inl (hheld p hp)
    · exact hdone c hc hd
  · exact hbefore c hc hb

omit [DecidableEq τ] in
theorem before_cons_self {id : Nat} {w : Waiter τ} (ws : List (Waiter τ)) (h : w.id = id) :
    before id (w :: ws) = [] := by
  simp [before, h]

omit [DecidableEq τ] in
theorem before_cons_ne {id : Nat} {w : Waiter τ} (ws : List (Waiter τ)) (h : w.id ≠ id) :
    before id (w :: ws) = w.id :: before id ws := by
  simp [before, h]

omit [DecidableEq τ] in
/-- Who comes behind a waiter is not before it. -/
theorem before_append_of_mem {id : Nat} {ws : List (Waiter τ)} (xs : List (Waiter τ))
    (h : id ∈ ws.map Waiter.id) : before id (ws ++ xs) = before id ws := by
  induction ws with
  | nil => cases h
  | cons w ws ih =>
    rw [List.cons_append]
    by_cases hw : w.id = id
    · rw [before_cons_self _ hw, before_cons_self _ hw]
    · rw [before_cons_ne _ hw, before_cons_ne _ hw,
        ih ((List.mem_cons.mp h).resolve_left (Ne.symm hw))]

omit [DecidableEq τ] in
theorem before_append_of_not_mem {id : Nat} {ws xs : List (Waiter τ)}
    (h : id ∉ ws.map Waiter.id) : before id (ws ++ xs) = ws.map Waiter.id ++ before id xs := by
  unfold before
  rw [List.map_append]
  refine List.takeWhile_append_of_pos fun i hi => ?_
  rw [decide_eq_true_eq]
  rintro rfl
  exact h hi

omit [DecidableEq τ] in
/-- A waiter that leaves puts nobody before another one. -/
theorem before_filter {id j : Nat} {ws : List (Waiter τ)} (hj : id ≠ j) :
    ∀ i ∈ before id (ws.filter fun w => decide (w.id ≠ j)), i ∈ before id ws := by
  induction ws with
  | nil => exact fun _ h => h
  | cons w ws ih =>
    intro i hi
    by_cases hkept : w.id = j
    · rw [List.filter_cons_of_neg (by simp [hkept])] at hi
      rw [before_cons_ne _ (hkept ▸ Ne.symm hj)]
      exact List.mem_cons_of_mem _ (ih i hi)
    · rw [List.filter_cons_of_pos (by simp [hkept])] at hi
      by_cases hw : w.id = id
      · rw [before_cons_self _ hw] at hi
        cases hi
      · rw [before_cons_ne _ hw] at hi ⊢
        rcases List.mem_cons.mp hi with rfl | hi
        · exact List.mem_cons_self
        · exact List.mem_cons_of_mem _ (ih i hi)

/-- What a method grants in order goes to those ahead of a waiter that stays queued. -/
theorem Inv.inOrder_ahead {s : LockState τ} {l l' : Lock τ} {id : Nat} (hs : Inv s)
    (h : InOrder l l') (hw : l.waiters = s.lock.waiters) (hd : ∀ i ∈ l.done, i ∈ s.lock.done)
    (hu : l.upgrader = s.lock.upgrader) (hid : id ∈ l'.waiters.map Waiter.id) :
    ∀ c ∈ s.calls, c.id ∈ l'.done ∨ c.id ∈ before id l'.waiters → s.Ahead id c.party := by
  obtain ⟨⟨k, hdrop, hdone⟩, -⟩ := h
  rw [hw] at hdrop hdone
  -- the waiter is behind those that were granted
  have hsplit : before id s.lock.waiters =
      (s.lock.waiters.take k).map Waiter.id ++ before id l'.waiters := by
    have hnodup := hs.waiters_nodup
    rw [← List.take_append_drop k s.lock.waiters, List.map_append, ← hdrop] at hnodup
    have hnot : id ∉ (s.lock.waiters.take k).map Waiter.id := fun hmem =>
      List.disjoint_of_nodup_append hnodup hmem hid
    rw [← before_append_of_not_mem hnot, hdrop, List.take_append_drop]
  intro c hc hcase
  have hplace : c.id ∈ before id s.lock.waiters → s.Ahead id c.party :=
    fun hb => .inr ⟨c, hc, rfl, hb⟩
  rcases hcase with hcd | hcb
  · rcases hdone _ hcd with hold | htake | ⟨u, hup, huid⟩
    · exact .inl ((hold_ne_none_iff hs).mpr (.inr ⟨c, hc, rfl, hd _ hold⟩))
    · exact hplace (by rw [hsplit]; exact List.mem_append_left _ htake)
    · -- the upgrader holds the lock
      rw [hu] at hup
      obtain ⟨h, hlock, -, -, hl⟩ := hs.agrees
      rw [hlock] at hup
      obtain ⟨⟨w, q⟩, hupq, rfl⟩ := Option.map_eq_some_iff.mp hup
      have hcall := hl.ids c hc _ (hl.upgrader w q hupq) huid.symm
      have hheld := hl.before c hc
      rw [hcall, if_pos rfl] at hheld
      refine .inl ((hold_ne_none_iff hs).mpr (.inl ?_))
      rw [hcall, hheld]
      exact Option.some_ne_none _
  · exact hplace (by rw [hsplit]; exact List.mem_append_right _ hcb)

/-- Nobody acquires the lock at once while a writer is queued. -/
theorem no_acquire {s : LockState τ} (hb : s.lock.Busy) {w : Waiter τ} (hw : w ∈ s.lock.waiters)
    (hm : w.mode = .exclusive) (m : Mode) (t : Option τ) : s.lock.tryAcquire m t = none := by
  have hheld := hb (List.ne_nil_of_mem hw)
  cases m with
  | shared =>
    simp only [Lock.tryAcquire, Lock.tryAcquireShared]
    split
    · rfl
    · rw [if_pos (List.any_eq_true.mpr ⟨w, hw, by simpa using hm⟩)]
  | exclusive =>
    simp only [Lock.tryAcquire, Lock.tryAcquireExclusive]
    rw [if_pos]
    rcases hheld with h | h
    · exact .inl h
    · exact .inr (.inl (Nat.pos_of_ne_zero h))

/-- A place in the queue is that of a call that was made. -/
theorem Inv.id_lt_next {s : LockState τ} (hs : Inv s) {id : Nat}
    (h : id ∈ s.lock.waiters.map Waiter.id) : id < s.next := by
  obtain ⟨h', hlock, -, -, hl⟩ := hs.agrees
  rw [hlock] at h
  simp only [Holds.toLock, List.map_map] at h
  obtain ⟨r, hr, rfl⟩ := List.mem_map.mp h
  exact hs.ids _ (hl.queue r hr)

/-- An upgrade does not touch the queue. -/
theorem upgrade_queue {id : Nat} {t : Option τ} {l l' : Lock τ}
    (h : l.upgrade id t = .upgraded l' ∨ l.upgrade id t = .waiting l' ∨ l.upgrade id t = .raised l') :
    l'.waiters = l.waiters ∧ l'.done = l.done := by
  have hsame : ∀ r : Op τ, r = (Lock.removeSharedHolder t
      { l with shared := 0, exclusive := true }).andThen (Lock.setExclusiveHolder t) →
      r.1.waiters = l.waiters ∧ r.1.done = l.done := by
    rintro r rfl
    have hs := (removeSharedHolder_same t { l with shared := 0, exclusive := true }).andThen
      (setExclusiveHolder_same t _)
    exact ⟨hs.waiters, hs.done⟩
  unfold Lock.upgrade at h
  split at h
  · rcases h with h | h | h <;> cases h
    exact ⟨rfl, rfl⟩
  · split at h
    · split at h
      next l'' heq =>
        rcases h with h | h | h <;> cases h
        exact hsame (l', true) heq.symm
      next l'' heq =>
        rcases h with h | h | h <;> cases h
        exact hsame (l', false) heq.symm
    · split at h <;> rcases h with h | h | h <;> cases h
      · exact ⟨rfl, rfl⟩
      · exact ⟨rfl, rfl⟩

omit [DecidableEq τ] in
/-- Who is before a waiter is in the queue. -/
theorem before_sub {id : Nat} {ws : List (Waiter τ)} {i : Nat} (h : i ∈ before id ws) :
    i ∈ ws.map Waiter.id :=
  List.takeWhile_subset _ h

/-- A turn that leaves the queue and the futures alone, but for a new call that waits elsewhere. -/
theorem Inv.ahead_same {s s' : LockState τ} {id : Nat} (hs : Inv s) (hs' : Inv s')
    (hcalls : ∀ c ∈ s'.calls, c ∈ s.calls ∨ c.id = s.next)
    (hheld : ∀ p, s'.held p ≠ none → s.hold p ≠ none)
    (hd : ∀ i ∈ s'.lock.done, i ∈ s.lock.done)
    (hb : ∀ i ∈ before id s'.lock.waiters, i ∈ before id s.lock.waiters) (p : Party τ)
    (h : s'.Ahead id p) : s.Ahead id p := by
  refine ahead_of hs' hheld (fun c hc hcd => ?_) (fun c hc hcb => ?_) h
  · rcases hcalls c hc with hc | hnew
    · exact .inl ((hold_ne_none_iff hs).mpr (.inr ⟨c, hc, rfl, hd _ hcd⟩))
    · exact absurd (hnew ▸ hd _ hcd) hs.next_not_done
  · rcases hcalls c hc with hc | hnew
    · exact .inr ⟨c, hc, rfl, hb _ hcb⟩
    · have hlt := hs.id_lt_next (before_sub (hb _ hcb))
      omega

/-! ## One turn -/

/-- A holder that changes its mode adds no holder. -/
theorem held_update {s : LockState τ} (hs : Inv s) {q : Party τ} (x : Option Mode)
    (hq : s.hold q ≠ none) : ∀ p, Function.update s.held q x p ≠ none → s.hold p ≠ none := by
  intro p hp
  by_cases hpq : p = q
  · exact hpq ▸ hq
  · rw [Function.update_of_ne hpq] at hp
    exact (hold_ne_none_iff hs).mpr (.inl hp)

/-- In one turn nobody gets ahead of a queued writer. -/
theorem Inv.ahead_turn {s s' : LockState τ} {a : LockAction τ} (hs : Inv s) (hs' : Inv s')
    (hb : s.lock.Busy) (h : Turn s a s') {w : Waiter τ} (hw : w ∈ s.lock.waiters)
    (hm : w.mode = .exclusive) (hid : w.id ∈ s'.lock.waiters.map Waiter.id) (p : Party τ) :
    s'.Ahead w.id p → s.Ahead w.id p := by
  have hheld : ∀ p, s.held p ≠ none → s.hold p ≠ none := fun p hp =>
    (hold_ne_none_iff hs).mpr (.inl hp)
  have hold : ∀ c ∈ s.calls, c ∈ s.calls ∨ c.id = s.next := fun _ hc => .inl hc
  have hnew : ∀ {q m up}, ∀ c ∈ (⟨s.next, q, m, up⟩ :: s.calls : List (Call τ)),
      c ∈ s.calls ∨ c.id = s.next := by
    intro q m up c hc
    rcases List.mem_cons.mp hc with rfl | hc
    · exact .inr rfl
    · exact .inl hc
  have hdrop : ∀ {i}, ∀ c ∈ dropCall i s.calls, c ∈ s.calls ∨ c.id = s.next :=
    fun c hc => .inl (mem_dropCall.mp hc).1
  cases h with
  | acquired _ _ hr =>
    rw [no_acquire hb hw hm] at hr
    cases hr
  | queued =>
    refine hs.ahead_same hs' hnew hheld (fun _ h => h) (fun i hi => ?_) p
    exact before_append_of_mem _ (List.mem_map_of_mem hw) ▸ hi
  | upgraded hq _ hu =>
    obtain ⟨hws, hds⟩ := upgrade_queue (.inl hu)
    exact hs.ahead_same hs' hold (held_update hs _ (hheld _ (by simp [hq]))) (fun i hi => hds ▸ hi)
      (fun i hi => hws ▸ hi) p
  | upgradeWaits _ _ hu =>
    obtain ⟨hws, hds⟩ := upgrade_queue (.inr (.inl hu))
    exact hs.ahead_same hs' hnew hheld (fun i hi => hds ▸ hi) (fun i hi => hws ▸ hi) p
  | upgradeRaises _ _ hu =>
    obtain ⟨hws, hds⟩ := upgrade_queue (.inr (.inr hu))
    exact hs.ahead_same hs' hold hheld (fun i hi => hds ▸ hi) (fun i hi => hws ▸ hi) p
  | downgraded hq =>
    have hgrant := hs.inOrder_ahead (downgrade_inOrder _ _) rfl (fun _ h => h) rfl hid
    exact ahead_of hs' (held_update hs _ (hheld _ (by simp [hq])))
      (fun c hc hd => hgrant c hc (.inl hd)) (fun c hc hb => hgrant c hc (.inr hb))
  | released hq =>
    have hgrant := hs.inOrder_ahead (release_inOrder _ _ _) rfl (fun _ h => h) rfl hid
    exact ahead_of hs' (held_update hs _ (hheld _ (by simp [hq])))
      (fun c hc hd => hgrant c hc (.inl hd)) (fun c hc hb => hgrant c hc (.inr hb))
  | resumed hc hd =>
    refine hs.ahead_same hs' hdrop (held_update hs _ ?_) (fun i hi => List.mem_of_mem_erase hi)
      (fun _ h => h) p
    exact (hold_ne_none_iff hs).mpr (.inr ⟨_, hc, rfl, hd⟩)
  | @gaveUp c hc =>
    have hcalls : ∀ c' ∈ dropCall c.id s.calls, c' ∈ s.calls := fun c' hc' =>
      (mem_dropCall.mp hc').1
    have hback : ∀ l', InOrder { s.lock with done := s.lock.done.erase c.id } l' →
        w.id ∈ l'.waiters.map Waiter.id →
        ∀ c ∈ s.calls, c.id ∈ l'.done ∨ c.id ∈ before w.id l'.waiters → s.Ahead w.id c.party :=
      fun l' hl' => hs.inOrder_ahead hl' rfl (fun _ h => List.mem_of_mem_erase h) rfl
    have hlock : ∀ c' ∈ s.calls,
        c'.id ∈ (s.lock.giveUp c.id c.isUpgrade c.target c.party.transaction).1.done ∨
          c'.id ∈ before w.id
            (s.lock.giveUp c.id c.isUpgrade c.target c.party.transaction).1.waiters →
        s.Ahead w.id c'.party := by
      intro c' hc' hcase
      have hsame : c'.id ∈ s.lock.done ∨ c'.id ∈ before w.id s.lock.waiters →
          s.Ahead w.id c'.party := fun h => h.elim
        (fun hd => .inl ((hold_ne_none_iff hs).mpr (.inr ⟨c', hc', rfl, hd⟩)))
        (fun hb => .inr ⟨c', hc', rfl, hb⟩)
      revert hid hcase
      unfold Lock.giveUp
      split
      · -- it was granted, and gives the hold back
        dsimp only
        split
        · exact fun hid => hback _ (downgrade_inOrder _ _) hid c' hc'
        · exact fun hid => hback _ (release_inOrder _ _ _) hid c' hc'
      · split
        · split
          · split
            · exact fun _ => hsame
            · exact fun _ => hsame
          · exact fun _ => hsame
        · intro hid hcase
          obtain ⟨w', hw', hwid⟩ := List.mem_map.mp hid
          have hne : w.id ≠ c.id := by
            have := (List.mem_filter.mp hw').2
            rw [← hwid]
            simpa using this
          exact hsame (hcase.imp_right fun hb => before_filter hne _ hb)
    exact ahead_of hs' hheld (fun c' hc' hd => hlock c' (hcalls c' hc') (.inl hd))
      (fun c' hc' hb => hlock c' (hcalls c' hc') (.inr hb))

/-- Whoever is in the queue after a turn was in it before, or is the call of the turn. -/
theorem waiters_turn {s s' : LockState τ} {a : LockAction τ} (h : Turn s a s') :
    ∀ w ∈ s'.lock.waiters, w ∈ s.lock.waiters ∨ w.id = s.next := by
  have hinOrder : ∀ {l l' : Lock τ}, InOrder l l' → l.waiters = s.lock.waiters →
      ∀ w ∈ l'.waiters, w ∈ s.lock.waiters ∨ w.id = s.next := by
    rintro l l' ⟨⟨k, hdrop, -⟩, -⟩ hl w hw
    rw [hdrop, hl] at hw
    exact .inl (List.mem_of_mem_drop hw)
  cases h with
  | @acquired m p r _ _ hr =>
    refine fun w hw => .inl ?_
    cases m with
    | shared =>
      simp only [Lock.tryAcquire, Lock.tryAcquireShared] at hr
      split at hr
      · cases hr
      · split at hr
        · cases hr
        · cases hr
          exact (addSharedHolder_same _ { s.lock with shared := s.lock.shared + 1 }).waiters ▸ hw
    | exclusive =>
      simp only [Lock.tryAcquire, Lock.tryAcquireExclusive] at hr
      split at hr
      · cases hr
      · cases hr
        exact (setExclusiveHolder_same _ { s.lock with exclusive := true }).waiters ▸ hw
  | queued =>
    intro w hw
    rcases List.mem_append.mp hw with hw | hw
    · exact .inl hw
    · exact .inr (by rw [List.mem_singleton.mp hw])
  | upgraded _ _ hu => exact fun w hw => .inl ((upgrade_queue (.inl hu)).1 ▸ hw)
  | upgradeWaits _ _ hu => exact fun w hw => .inl ((upgrade_queue (.inr (.inl hu))).1 ▸ hw)
  | upgradeRaises _ _ hu => exact fun w hw => .inl ((upgrade_queue (.inr (.inr hu))).1 ▸ hw)
  | downgraded => exact hinOrder (downgrade_inOrder _ _) rfl
  | released => exact hinOrder (release_inOrder _ _ _) rfl
  | resumed => exact fun w hw => .inl hw
  | gaveUp =>
    unfold Lock.giveUp
    split
    · dsimp only
      split
      · exact hinOrder (l := { s.lock with done := _ }) (downgrade_inOrder _ _) rfl
      · exact hinOrder (l := { s.lock with done := _ }) (release_inOrder _ _ _) rfl
    · split
      · split
        · split <;> exact fun w hw => .inl hw
        · exact fun w hw => .inl hw
      · exact fun w hw => .inl (List.mem_filter.mp hw).1

/-- The ids of requests only grow. -/
theorem next_turn {s s' : LockState τ} {a : LockAction τ} (h : Turn s a s') :
    s.next ≤ s'.next := by
  cases h with
  | queued | upgradeWaits => exact Nat.le_succ _
  | acquired | upgraded | upgradeRaises | downgraded | released | resumed | gaveUp =>
    exact Nat.le_refl _

/-! ## Every run -/

/-- Somebody holds the lock while there is a queue, in every state reached. -/
theorem busy {s : LockState τ} (hr : Reach step (fun _ _ => True) init s) : s.lock.Busy := by
  have hboth : Inv s ∧ s.lock.Busy := by
    refine hr.invariant (fun s => Inv s ∧ s.lock.Busy) ⟨init_inv, fun h => absurd rfl h⟩ ?_
    rintro s a s' ⟨hs, hb⟩ - hstep
    have hturn := step_turn hstep
    exact ⟨hs.turn hturn, hs.busy_turn (hs.turn hturn) hb hturn⟩
  exact hboth.2

/-- While a writer is queued nobody gets ahead of it who was not so when it was queued: whoever
holds the lock in the meantime held it then, or was queued before the writer. -/
theorem writer_not_overtaken {s s' : LockState τ} {w : Waiter τ}
    (hr : Reach step (fun _ _ => True) init s) (hw : w ∈ s.lock.waiters)
    (hm : w.mode = .exclusive) (hr' : Reach step (fun _ _ => True) s s')
    (hw' : w ∈ s'.lock.waiters) (p : Party τ) (hp : s'.Ahead w.id p) : s.Ahead w.id p := by
  have hs := reach_inv hr
  have hrun : (Inv s' ∧ s'.lock.Busy ∧ w.id < s'.next) ∧
      (w ∈ s'.lock.waiters → ∀ p, s'.Ahead w.id p → s.Ahead w.id p) := by
    refine hr'.invariant (fun t => (Inv t ∧ t.lock.Busy ∧ w.id < t.next) ∧
      (w ∈ t.lock.waiters → ∀ p, t.Ahead w.id p → s.Ahead w.id p))
      ⟨⟨hs, busy hr, hs.id_lt_next (List.mem_map_of_mem hw)⟩, fun _ _ h => h⟩ ?_
    rintro t a t' ⟨⟨ht, hb, hlt⟩, hahead⟩ - hstep
    have hturn := step_turn hstep
    have ht' := ht.turn hturn
    refine ⟨⟨ht', ht.busy_turn ht' hb hturn, Nat.lt_of_lt_of_le hlt (next_turn hturn)⟩, ?_⟩
    intro hmem q hq
    -- its place is not that of a new call
    have hbefore : w ∈ t.lock.waiters := (waiters_turn hturn w hmem).resolve_right (by omega)
    exact hahead hbefore q (ht.ahead_turn ht' hb hturn hbefore hm (List.mem_map_of_mem hmem) q hq)
  exact hrun.2 hw' p hp

/-- A reader holds the lock, a writer is queued; another reader asks, the first one upgrades. -/
def writerQueued : List (LockAction Nat) :=
  [.acquire .shared (.txn 1), .acquire .exclusive (.txn 2)]

def readersCome : List (LockAction Nat) :=
  [.acquire .shared (.txn 3), .upgrade (.txn 1), .downgrade (.txn 1)]

theorem writerQueued_not_overtaken :
    (last step (last step init writerQueued) readersCome).Ahead 0 (.txn 1) ∧
      (last step init writerQueued).Ahead 0 (.txn 1) := by
  have hahead : (last step (last step init writerQueued) readersCome).Ahead 0 (.txn 1) :=
    .inl (by decide +kernel)
  exact ⟨hahead, writer_not_overtaken (w := ⟨0, .exclusive, some 2⟩)
    (reach_last writerQueued .init (by decide +kernel)) (by decide +kernel) rfl
    (reach_last readersCome .init (by decide +kernel)) (by decide +kernel) (.txn 1) hahead⟩

end LockState

end Reboot.Txn
