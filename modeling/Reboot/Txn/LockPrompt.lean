import Reboot.Txn.LockSystem

/-!
# Who the lock would admit is not left waiting

`_maybe_grant_next` runs on every release, but not when a waiter leaves: `_remove_waiter`
and the emptying of the upgrade slot only take the waiter away. If the one that leaves
was what kept the shared waiters behind it from being admitted, they stay queued although
nothing stands in their way any more, and a shared request that comes later passes them
(`left_behind`).

`Prompt` is what the docstring of `Lock` promises. It survives every turn except a
waiter leaving in front of a shared one (`Lock.Strands`): `giveUp_prompt_iff` for one
turn, `lock_prompt` for whole runs.
-/

namespace Reboot.Txn

open Reboot.Lib

/-- Nobody is queued whom the lock would admit: nobody at all while it is free, and no
shared waiter at the head while it is held shared and nobody upgrades. -/
def Lock.Prompt {τ : Type} (l : Lock τ) : Prop :=
  l.exclusive = false → l.upgrader = none →
    (l.shared = 0 → l.waiters = []) ∧ ∀ w, l.waiters.head? = some w → w.mode = .exclusive

/-- The waiter under `id` is not granted and is all that keeps a shared waiter queued: it
is the pending upgrader and a shared waiter is the head of the queue, or it is the head of
the queue, nobody holds the lock exclusively or upgrades, and a shared waiter is next. -/
def Lock.Strands {τ : Type} (id : Nat) (l : Lock τ) : Prop :=
  id ∉ l.done ∧
    (l.upgrader.map Waiter.id = some id ∧ l.waiters.head?.map Waiter.mode = some .shared ∨
      l.upgrader = none ∧ l.exclusive = false ∧ l.waiters.head?.map Waiter.id = some id ∧
        l.waiters.tail.head?.map Waiter.mode = some .shared)

instance {τ : Type} (id : Nat) (l : Lock τ) : Decidable (l.Strands id) :=
  inferInstanceAs (Decidable (_ ∧ (_ ∧ _ ∨ _ ∧ _ ∧ _ ∧ _)))

namespace Lock

variable {τ : Type}

/-! ## The ways to be prompt -/

theorem Prompt.of_exclusive {l : Lock τ} (h : l.exclusive = true) : l.Prompt := by
  intro he
  rw [h] at he
  cases he

theorem Prompt.of_upgrader {l : Lock τ} (h : l.upgrader ≠ none) : l.Prompt :=
  fun _ hu => absurd hu h

theorem Prompt.of_empty {l : Lock τ} (h : l.waiters = []) : l.Prompt := by
  intro _ _
  simp [h]

/-- A lock held shared with an exclusive waiter at the head. -/
theorem Prompt.of_head {l : Lock τ} {w : Waiter τ} {ws : List (Waiter τ)} (hs : l.shared ≠ 0)
    (hw : l.waiters = w :: ws) (hm : w.mode = .exclusive) : l.Prompt := by
  intro _ _
  refine ⟨fun h0 => absurd h0 hs, ?_⟩
  intro w' hw'
  rw [hw] at hw'
  cases hw'
  exact hm

/-- Only the queue and who is before it matter. -/
theorem Prompt.congr {l l' : Lock τ} (h : l.Prompt) (he : l'.exclusive = l.exclusive)
    (hu : l'.upgrader = l.upgrader) (hs : l'.shared = l.shared) (hw : l'.waiters = l.waiters) :
    l'.Prompt := by
  intro hex hup
  rw [he] at hex
  rw [hu] at hup
  rw [hs, hw]
  exact h hex hup

variable [DecidableEq τ]

/-! ## Turns that grant -/

omit [DecidableEq τ] in
/-- An operation that came through had no failed part. -/
theorem andThen_true {r : Op τ} {f : Lock τ → Op τ} (h : (r.andThen f).2 = true) :
    r.2 = true ∧ r.andThen f = f r.1 := by
  unfold Op.andThen at h ⊢
  split
  next hr => exact ⟨hr, rfl⟩
  next hr =>
    rw [if_neg hr] at h
    exact absurd h hr

theorem addSharedHolder_frame {t : Option τ} {l : Lock τ} :
    (addSharedHolder t l).1.exclusive = l.exclusive ∧
      (addSharedHolder t l).1.upgrader = l.upgrader ∧
      (addSharedHolder t l).1.shared = l.shared ∧ (addSharedHolder t l).1.waiters = l.waiters := by
  unfold addSharedHolder
  split
  · exact ⟨rfl, rfl, rfl, rfl⟩
  · split
    · exact ⟨rfl, rfl, rfl, rfl⟩
    · exact ⟨rfl, rfl, rfl, rfl⟩

theorem removeSharedHolder_frame {t : Option τ} {l : Lock τ} :
    (removeSharedHolder t l).1.exclusive = l.exclusive ∧
      (removeSharedHolder t l).1.upgrader = l.upgrader ∧
      (removeSharedHolder t l).1.shared = l.shared ∧
      (removeSharedHolder t l).1.waiters = l.waiters := by
  unfold removeSharedHolder
  split
  · exact ⟨rfl, rfl, rfl, rfl⟩
  · split
    · exact ⟨rfl, rfl, rfl, rfl⟩
    · exact ⟨rfl, rfl, rfl, rfl⟩

omit [DecidableEq τ] in
theorem setExclusiveHolder_exclusive {t : Option τ} {l : Lock τ} :
    (setExclusiveHolder t l).1.exclusive = l.exclusive := by
  unfold setExclusiveHolder
  split
  · rfl
  · rfl

/-- The loop of `_maybe_grant_next` goes on until nobody can be admitted. -/
theorem grantWaiters_prompt : ∀ {ws : List (Waiter τ)} {l : Lock τ}, l.waiters = ws →
    (grantWaiters ws l).2 = true → (grantWaiters ws l).1.Prompt
  | [], _, hw => fun _ => Prompt.of_empty hw
  | w :: ws, l, hw => by
    cases hm : w.mode with
    | exclusive =>
      simp only [grantWaiters, hm]
      split
      next hs => exact fun _ => Prompt.of_head (Nat.pos_iff_ne_zero.mp hs) hw hm
      next hs =>
        intro hok
        rw [(andThen_true hok).2]
        exact Prompt.of_exclusive setExclusiveHolder_exclusive
    | shared =>
      simp only [grantWaiters, hm]
      intro hok
      obtain ⟨hok', heq⟩ := andThen_true hok
      rw [heq] at hok ⊢
      refine grantWaiters_prompt ?_ hok
      rw [(andThen_true hok').2]
      exact addSharedHolder_frame.2.2.2

/-- After a release the queue is prompt if it was so before, or was just opened. -/
theorem maybeGrantNext_prompt {m : Mode} {l : Lock τ}
    (hp : m = .shared → l.shared ≠ 0 → l.Prompt) :
    (maybeGrantNext m l).2 = true → (maybeGrantNext m l).1.Prompt := by
  unfold maybeGrantNext
  split
  · simp
  next he =>
    split
    next u hu =>
      split
      · simp
      · split
        · intro hok
          obtain ⟨hok', heq⟩ := andThen_true hok
          rw [heq, (andThen_true hok').2]
          exact Prompt.of_exclusive (setExclusiveHolder_exclusive.trans removeSharedHolder_frame.1)
        · exact fun _ => Prompt.of_upgrader (by simp [hu])
    next hu =>
      split
      next hs => exact fun _ => hp hs.1 (by omega)
      next hs =>
        split
        · simp
        · exact grantWaiters_prompt rfl

theorem downgrade_prompt {t : Option τ} {l : Lock τ} :
    (l.downgrade t).2 = true → (l.downgrade t).1.Prompt := by
  unfold downgrade
  split
  · simp
  · split
    · simp
    · intro hok
      obtain ⟨-, heq⟩ := andThen_true hok
      rw [heq] at hok ⊢
      exact maybeGrantNext_prompt (by simp) hok

theorem release_prompt {m : Mode} {t : Option τ} {l : Lock τ} (hp : l.Prompt) :
    (l.release m t).2 = true → (l.release m t).1.Prompt := by
  cases m with
  | shared =>
    simp only [release, releaseShared]
    split
    · simp
    next hs =>
      intro hok
      obtain ⟨-, heq⟩ := andThen_true hok
      rw [heq] at hok ⊢
      refine maybeGrantNext_prompt ?_ hok
      intro _ hs' he hu
      obtain ⟨hre, hru, -, hrw⟩ :=
        removeSharedHolder_frame (t := t) (l := { l with shared := l.shared - 1 })
      rw [hre] at he
      rw [hru] at hu
      rw [hrw]
      exact ⟨fun h0 => absurd h0 hs', (hp he hu).2⟩
  | exclusive =>
    simp only [release, releaseExclusive]
    split
    · simp
    · intro hok
      obtain ⟨-, heq⟩ := andThen_true hok
      rw [heq] at hok ⊢
      exact maybeGrantNext_prompt (by simp) hok

/-! ## Turns that come in -/

/-- A shared request is admitted at once only if no shared waiter is queued. -/
theorem Prompt.no_overtaking {l : Lock τ} (hp : l.Prompt) {t : Option τ} {r : Op τ}
    (hr : l.tryAcquireShared t = some r) : l.waiters = [] := by
  unfold tryAcquireShared at hr
  split at hr
  · cases hr
  next hg =>
    split at hr
    · cases hr
    next hany =>
      push Not at hg
      obtain ⟨-, hhead⟩ := hp (by simpa using hg.1) hg.2
      cases hw : l.waiters with
      | nil => rfl
      | cons w ws =>
        rw [hw] at hhead hany
        simp [hhead w rfl] at hany

theorem tryAcquire_prompt {m : Mode} {t : Option τ} {l : Lock τ} {r : Op τ} (hp : l.Prompt)
    (hr : l.tryAcquire m t = some r) : r.1.Prompt := by
  cases m with
  | shared =>
    have hempty := hp.no_overtaking hr
    simp only [tryAcquire, tryAcquireShared] at hr
    split at hr
    · cases hr
    · split at hr
      · cases hr
      · cases hr
        refine Prompt.of_empty ?_
        rw [addSharedHolder_frame.2.2.2]
        exact hempty
  | exclusive =>
    simp only [tryAcquire, tryAcquireExclusive] at hr
    split at hr
    · cases hr
    · cases hr
      exact Prompt.of_exclusive setExclusiveHolder_exclusive

/-- Whoever has to queue is behind an exclusive waiter, or is one. -/
theorem enqueue_prompt {m : Mode} {t : Option τ} {l : Lock τ} {id : Nat} (hp : l.Prompt)
    (hr : l.tryAcquire m t = none) : (l.enqueue id m t).Prompt := by
  intro he hu
  have he' : l.exclusive = false := he
  have hu' : l.upgrader = none := hu
  obtain ⟨hfree, hhead⟩ := hp he' hu'
  cases hw : l.waiters with
  | cons w ws =>
    have hs : l.shared ≠ 0 := fun h0 => by rw [hfree h0] at hw; cases hw
    have hwq : (l.enqueue id m t).waiters = w :: (ws ++ [⟨id, m, t⟩]) := by simp [enqueue, hw]
    exact Prompt.of_head hs hwq (hhead w (by rw [hw]; rfl)) he hu
  | nil =>
    have hwq : (l.enqueue id m t).waiters = ⟨id, m, t⟩ :: [] := by simp [enqueue, hw]
    cases m with
    | shared => simp [tryAcquire, tryAcquireShared, he', hu', hw] at hr
    | exclusive =>
      have hs : l.shared ≠ 0 := by
        intro h0
        simp [tryAcquire, tryAcquireExclusive, he', hu', h0] at hr
      exact Prompt.of_head hs hwq rfl he hu

theorem upgraded_exclusive {id : Nat} {t : Option τ} {l l' : Lock τ}
    (h : l.upgrade id t = .upgraded l') : l'.exclusive = true := by
  unfold upgrade at h
  split at h
  · cases h
  · split at h
    · split at h
      next l'' heq =>
        cases h
        have hok : ((removeSharedHolder t { l with shared := 0, exclusive := true }).andThen
          (setExclusiveHolder t)).2 = true := by rw [heq]
        rw [(andThen_true hok).2] at heq
        show ((l', true) : Op τ).1.exclusive = true
        rw [← heq, setExclusiveHolder_exclusive, removeSharedHolder_frame.1]
      · cases h
    · split at h
      · cases h
      · cases h

theorem waiting_upgrader {id : Nat} {t : Option τ} {l l' : Lock τ}
    (h : l.upgrade id t = .waiting l') : l'.upgrader ≠ none := by
  unfold upgrade at h
  split at h
  · cases h
  · split at h
    · split at h
      · cases h
      · cases h
    · split at h
      · cases h
      · cases h
        simp

/-! ## A waiter that leaves -/

omit [DecidableEq τ] in
/-- The upgrade slot is emptied while the lock is held shared. -/
theorem prompt_drop_upgrader_iff {l : Lock τ} (he : l.exclusive = false) (hs : l.shared ≠ 0) :
    ({ l with upgrader := none } : Lock τ).Prompt ↔
      l.waiters.head?.map Waiter.mode ≠ some .shared := by
  cases hw : l.waiters with
  | nil => exact ⟨fun _ => by simp, fun _ => Prompt.of_empty rfl⟩
  | cons w ws =>
    constructor
    · intro hp
      have hm := (hp he rfl).2 w rfl
      simp [hm]
    · intro hm
      refine Prompt.of_head hs rfl ?_
      cases hmode : w.mode with
      | exclusive => rfl
      | shared => simp [hmode] at hm

omit [DecidableEq τ] in
/-- A waiter is taken out of the queue. -/
theorem prompt_remove_iff {l : Lock τ} (id : Nat) (hp : l.Prompt)
    (hids : (l.waiters.map Waiter.id).Nodup) (hu : l.upgrader = none) :
    ({ l with waiters := l.waiters.filter fun w => decide (w.id ≠ id) } : Lock τ).Prompt ↔
      ¬ (l.exclusive = false ∧ l.waiters.head?.map Waiter.id = some id ∧
        l.waiters.tail.head?.map Waiter.mode = some .shared) := by
  by_cases he : l.exclusive = false
  swap
  · have he' : l.exclusive = true := by simpa using he
    exact ⟨fun _ h => he h.1, fun _ => Prompt.of_exclusive he'⟩
  obtain ⟨hfree, hhead⟩ := hp he hu
  cases hw : l.waiters with
  | nil => exact ⟨fun _ => by simp, fun _ => Prompt.of_empty (by simp)⟩
  | cons w ws =>
    have hs : l.shared ≠ 0 := fun h0 => by rw [hfree h0] at hw; cases hw
    have hm : w.mode = .exclusive := hhead w (by rw [hw]; rfl)
    by_cases hid : w.id = id
    · -- the head leaves: what counts is the next waiter
      rw [hw, List.map_cons, List.nodup_cons] at hids
      have hfilter : (w :: ws).filter (fun w => decide (w.id ≠ id)) = ws := by
        rw [List.filter_cons_of_neg (by simp [hid]), List.filter_eq_self]
        intro w' hw'
        have : w'.id ≠ w.id := fun e => hids.1 (e ▸ List.mem_map.mpr ⟨w', hw', rfl⟩)
        simpa [← hid] using this
      rw [hfilter]
      have hiff := prompt_drop_upgrader_iff (l := { l with waiters := ws }) he hs
      have hl : ({ l with waiters := ws } : Lock τ) = { l with upgrader := none, waiters := ws } := by
        rw [← hu]
      rw [hl, hiff]
      simp [he, hid]
    · -- the head stays
      have hfilter : (w :: ws).filter (fun w => decide (w.id ≠ id)) =
          w :: ws.filter fun w => decide (w.id ≠ id) :=
        List.filter_cons_of_pos (by simpa using hid)
      rw [hfilter]
      refine ⟨fun _ => by simp [hid], fun _ => ?_⟩
      exact Prompt.of_head hs rfl hm

end Lock

namespace LockState

variable {τ : Type} [DecidableEq τ]

/-- The queue as the callers have it. -/
theorem Inv.waiters_nodup {s : LockState τ} (hs : Inv s) : (s.lock.waiters.map Waiter.id).Nodup := by
  obtain ⟨h, hlock, hwf, -, hl⟩ := hs.agrees
  have hmap : s.lock.waiters.map Waiter.id = h.queue.map Request.id := by
    simp [hlock, Holds.toLock, Request.waiter, Function.comp_def]
  rw [hmap]
  refine List.Nodup.map_on ?_ (List.Nodup.of_map _ hwf.queue_nodup)
  intro r hr r' hr' he
  have hcall := hl.ids _ (hl.queue r hr) _ (hl.queue r' hr') he
  cases r
  cases r'
  cases hcall
  rfl

/-- One turn in which a waiter leaves keeps the queue prompt exactly if it strands nobody. -/
theorem giveUp_prompt_iff {s : LockState τ} {c : Call τ} (hs : Inv s) (hp : s.lock.Prompt)
    (hc : c ∈ s.calls) :
    (s.lock.giveUp c.id c.isUpgrade c.target c.party.transaction).1.Prompt ↔
      ¬ s.lock.Strands c.id := by
  obtain ⟨hok, -⟩ := hs.agrees.giveUp hc
  have hids := hs.waiters_nodup
  obtain ⟨h, hlock, hwf, -, hl⟩ := hs.agrees
  unfold Lock.Strands
  unfold Lock.giveUp at hok ⊢
  by_cases hd : c.id ∈ s.lock.done
  · -- it was granted and gives the hold back, which grants whoever comes next
    simp only [if_pos hd] at hok ⊢
    refine ⟨fun _ h => h.1 hd, fun _ => ?_⟩
    have hp' : ({ s.lock with done := s.lock.done.erase c.id } : Lock τ).Prompt :=
      hp.congr rfl rfl rfl rfl
    by_cases hup : c.isUpgrade = true
    · rw [if_pos hup] at hok ⊢
      exact Lock.downgrade_prompt hok
    · rw [if_neg hup] at hok ⊢
      exact Lock.release_prompt hp' hok
  · simp only [hd, not_false_eq_true, true_and]
    have hwait : Queued h c := by
      refine (hl.waiting c hc).resolve_right ?_
      rw [hlock] at hd
      exact hd
    by_cases hup : c.isUpgrade = true
    · -- the upgrader leaves
      have hu : h.upgrader = some (c.id, c.party) := by simpa [Queued, hup] using hwait
      have hmem := hwf.upgrader_shared _ _ hu
      have hex : s.lock.exclusive = false := by
        simp [hlock, Holds.toLock, Holds.exclusive_none_of_shared hwf hmem]
      have hsh : s.lock.shared ≠ 0 := by
        rw [hlock]
        exact (List.length_pos_of_mem hmem).ne'
      have hul : s.lock.upgrader = some ⟨c.id, .exclusive, c.party.transaction⟩ := by
        simp [hlock, Holds.toLock, hu]
      simp only [hup, if_true, if_false, hul]
      rw [Lock.prompt_drop_upgrader_iff hex hsh]
      simp
    · -- a queued waiter leaves
      simp only [if_neg hup]
      have hq : ⟨c.id, c.target, c.party⟩ ∈ h.queue := by simpa [Queued, hup] using hwait
      cases hu : s.lock.upgrader with
      | some u =>
        have hne : u.id ≠ c.id := by
          obtain ⟨⟨w, q⟩, huh, hwu⟩ : ∃ v, h.upgrader = some v ∧
              (⟨v.1, .exclusive, v.2.transaction⟩ : Waiter τ) = u := by
            rw [hlock] at hu
            simpa [Holds.toLock] using hu
          intro he
          rw [← hwu] at he
          have := hl.ids _ (hl.upgrader w q huh) c hc he
          exact hup (congrArg Call.isUpgrade this).symm
        refine ⟨fun _ => by simp [hne], fun _ => Lock.Prompt.of_upgrader ?_⟩
        simp
      | none =>
        have hiff := Lock.prompt_remove_iff c.id hp hids hu
        rw [hu] at hiff
        simp only [if_false]
        rw [hiff]
        simp

/-- No waiter leaves in front of a shared waiter that it alone keeps queued. -/
def Orderly (s : LockState τ) : LockAction τ → Prop
  | .giveUp id => ¬ s.lock.Strands id
  | _ => True

instance (s : LockState τ) : (a : LockAction τ) → Decidable (Orderly s a)
  | .giveUp id => inferInstanceAs (Decidable (¬ s.lock.Strands id))
  | .acquire _ _ => isTrue trivial
  | .upgrade _ => isTrue trivial
  | .downgrade _ => isTrue trivial
  | .release _ => isTrue trivial
  | .resume _ => isTrue trivial

/-- One orderly turn keeps the queue prompt. -/
theorem Inv.prompt_turn {s s' : LockState τ} {a : LockAction τ} (hs : Inv s) (hp : s.lock.Prompt)
    (ho : Orderly s a) (h : Turn s a s') : s'.lock.Prompt := by
  cases h with
  | acquired hb hi hr => exact Lock.tryAcquire_prompt hp hr
  | queued hb hi hr => exact Lock.enqueue_prompt hp hr
  | upgraded hb hi hu => exact .of_exclusive (Lock.upgraded_exclusive hu)
  | upgradeWaits hb hi hu => exact .of_upgrader (Lock.waiting_upgrader hu)
  | upgradeRaises hb hi hu =>
    have hspec := upgrade_spec hs hb
    rw [hu] at hspec
    subst hspec
    exact hp
  | downgraded hb => exact Lock.downgrade_prompt (hs.agrees.downgrade hb).1
  | released hb hi => exact Lock.release_prompt hp (hs.agrees.release hi hb).1
  | resumed hc hd => exact hp.congr rfl rfl rfl rfl
  | gaveUp hc => exact (giveUp_prompt_iff hs hp hc).mpr ho

/-- **No missed wake-ups.** As long as nobody leaves in front of a shared waiter that it
alone keeps queued, nobody stays queued whom the lock would admit and no shared request
passes a queued one; and from there on such a leave is the one turn that breaks it. -/
theorem lock_prompt {s : LockState τ} (hr : Reach step Orderly init s) :
    (s.lock.Prompt ∧
        ∀ t r, s.lock.tryAcquireShared t = some r → ∀ w ∈ s.lock.waiters, w.mode ≠ .shared) ∧
      ∀ a s', step s a = some s' → (s'.lock.Prompt ↔ Orderly s a) := by
  have hs := reach_inv hr
  have hp : s.lock.Prompt := by
    refine (hr.invariant (fun s => Inv s ∧ s.lock.Prompt) ⟨init_inv, ?_⟩ ?_).2
    · exact .of_empty rfl
    · rintro s a s' ⟨hs, hp⟩ ho hstep
      exact ⟨hs.turn (step_turn hstep), hs.prompt_turn hp ho (step_turn hstep)⟩
  refine ⟨⟨hp, ?_⟩, ?_⟩
  · intro t r hr' w hw
    rw [hp.no_overtaking hr'] at hw
    cases hw
  · intro a s' hstep
    refine ⟨fun hp' => ?_, fun ho => hs.prompt_turn hp ho (step_turn hstep)⟩
    cases step_turn hstep with
    | gaveUp hc => exact (giveUp_prompt_iff hs hp hc).mp hp'
    | acquired => trivial
    | queued => trivial
    | upgraded => trivial
    | upgradeWaits => trivial
    | upgradeRaises => trivial
    | downgraded => trivial
    | released => trivial
    | resumed => trivial

/-- A reader holds the lock, a writer and a second reader wait, a third one waits behind
them and times out, then the first reader leaves and the writer gets its turn. -/
def patient : List (LockAction Nat) :=
  [.acquire .shared (.anonymous 0), .acquire .exclusive (.anonymous 1),
    .acquire .shared (.anonymous 2), .acquire .shared (.anonymous 3), .giveUp 2,
    .release (.anonymous 0)]

theorem patient_prompt : (last step init patient).lock.Prompt ∧
    (last step init patient).hold (.anonymous 1) = some .exclusive :=
  ⟨(lock_prompt (reach_last patient .init (by decide))).1.1, by decide⟩

/-- A reader holds the lock, a writer waits, a second reader waits behind the writer, and
the writer gives up. -/
def writerLeaves : List (LockAction Nat) :=
  [.acquire .shared (.anonymous 0), .acquire .exclusive (.anonymous 1),
    .acquire .shared (.anonymous 2), .giveUp 0]

/-- The second reader stays queued behind nobody, and a third one passes it. -/
theorem left_behind : ∃ s : LockState Nat, Reach step (fun _ _ => True) init s ∧
    ¬ s.lock.Prompt ∧ s.lock.exclusive = false ∧ s.lock.upgrader = none ∧
    s.lock.waiters.map Waiter.mode = [.shared] ∧
    ∃ s', step s (.acquire .shared (.anonymous 3)) = some s' ∧
      s'.hold (.anonymous 3) = some .shared ∧ s'.hold (.anonymous 2) = none := by
  refine ⟨last step init writerLeaves, reach_last writerLeaves .init (by decide), ?_, by decide,
    by decide, by decide, ?_⟩
  · intro hp
    have hm := (hp (by decide) (by decide)).2 ⟨1, .shared, none⟩ (by decide)
    cases hm
  · exact ⟨last step init (writerLeaves ++ [.acquire .shared (.anonymous 3)]), rfl, by decide,
      by decide⟩

end LockState

end Reboot.Txn
