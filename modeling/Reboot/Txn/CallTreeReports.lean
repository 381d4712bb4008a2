import Reboot.Txn.CallTreeMoves

/-!
# Reports go up the call tree

A transaction goes on, and in the end commits, only if each of its calls has ended and
has answered, none of them in a way that dooms the root. So when the root coordinates,
every call of the tree is over, and what a call has reported as a participant to commit
has reached the root, unless a transaction around it has aborted.

`Tree` is the invariant: each call has a caller with a smaller number, and the caller
still waits for it, is doomed, or has merged its participants.
-/

namespace Reboot.Txn.CallTree

open Reboot.Lib Reboot.Txn.Nested

variable {σ κ V M : Type} [DecidableEq σ] [DecidableEq κ] [DecidableEq V] [DecidableEq M]

/-! ## The calls alone -/

/-- One call goes on by itself. -/
structure CallStep (k k' : Call σ κ V M) : Prop where
  method : k'.method = k.method
  caller : k'.caller = k.caller
  transactionIds : k'.transactionIds = k.transactionIds
  outstandingRpcs : k'.outstandingRpcs = k.outstandingRpcs
  unrecoverableAbort : k'.unrecoverableAbort = k.unrecoverableAbort
  live : k.phase.live = true
  reported : ∀ x ∈ k.participants.shouldCommit,
    x ∈ k'.participants.shouldCommit ∨ k'.aborted = true
  outside : k'.phase.outside = true → k.phase.outside = true
  /-- a method ends well only if its calls have -/
  sound : k'.phase.sound = true → k.phase.entered = true →
    k.outstandingRpcs = [] ∧ k.unrecoverableAbort = false
  coordinating : k'.phase = .coordinating → k.caller = none
  /-- the root does not return before the two phases are over -/
  unreturned : k'.phase = .returned .ok → k.caller = none → k.method.kind.isTransaction = false

namespace System

/-- What a step does to the calls. -/
inductive CallMove (s s' : System σ κ V M) : Prop
  | same (hcall : s'.call = s.call) (hn : s'.nextId = s.nextId)
  | made {p : Nat} {k : Call σ κ V M} {method : Method σ κ} (hp : s.call p = some k)
      (hphase : k.phase = .running) (hs : s' = s.madeCall p k method)
  | went {c : Nat} {k k' : Call σ κ V M} (hc : s.call c = some k) (hk : CallStep k k')
      (hcall : s'.call = Function.update s.call c (some k')) (hn : s'.nextId = s.nextId)
  | heard {c p : Nat} {k kp : Call σ κ V M} {o : Outcome} (hc : s.call c = some k)
      (hcaller : k.caller = some p) (hp : s.call p = some kp)
      (hentered : kp.phase.entered = true) (hphase : k.phase = .returned o)
      (hcall : s'.call = Function.update s.call p (some { kp with
        participants := kp.participants.union k.participants
        unrecoverableAbort := kp.unrecoverableAbort || decide (o = .unrecoverable)
        outstandingRpcs := kp.outstandingRpcs.filter fun d => decide (d ≠ c) }))
      (hn : s'.nextId = s.nextId)
  | lost {c p : Nat} {kp : Call σ κ V M} (hp : s.call p = some kp)
      (hentered : kp.phase.entered = true)
      (hcall : s'.call = Function.update s.call p (some { kp with
        unrecoverableAbort := true
        outstandingRpcs := kp.outstandingRpcs.filter fun d => decide (d ≠ c) }))
      (hn : s'.nextId = s.nextId)

end System

/-! ## Every step is one of these -/

section Steps

variable {k k' : Call σ κ V M}

omit [DecidableEq σ] [DecidableEq κ] [DecidableEq V] [DecidableEq M] in
/-- A call whose method is not over yet, and stays so. -/
theorem CallStep.of_live (hphase : k.phase.live = true) (hphase' : k'.phase.live = true)
    (houtside : k'.phase.outside = true → k.phase.outside = true)
    (hreported : ∀ x ∈ k.participants.shouldCommit, x ∈ k'.participants.shouldCommit)
    (hsame : k' = { k with
      phase := k'.phase, constructor := k'.constructor, initialState := k'.initialState,
      participants := k'.participants }) : CallStep k k' where
  method := by rw [hsame]
  caller := by rw [hsame]
  transactionIds := by rw [hsame]
  outstandingRpcs := by rw [hsame]
  unrecoverableAbort := by rw [hsame]
  live := hphase
  reported x hx := .inl (hreported x hx)
  outside := houtside
  sound h := by
    rw [Phase.not_live_of_sound h] at hphase'
    cases hphase'
  coordinating h := by
    rw [h] at hphase'
    cases hphase'
  unreturned h := by
    rw [h] at hphase'
    cases hphase'

omit [DecidableEq σ] [DecidableEq κ] [DecidableEq V] [DecidableEq M] in
theorem Phase.live_of_entered {p : Phase κ V M} (h : p.entered = true) : p.live = true := by
  simp [Phase.live, h]

omit [DecidableEq σ] [DecidableEq κ] [DecidableEq V] [DecidableEq M] in
theorem Phase.sound_returned {o : Outcome} :
    (Phase.returned o : Phase κ V M).sound = true ↔ o ≠ .unrecoverable := by
  cases o <;> simp [Phase.sound]

end Steps

namespace System

variable {env : Env σ V} {s s' : System σ κ V M} {a : Action σ κ V M}

omit [DecidableEq σ] [DecidableEq κ] [DecidableEq V] [DecidableEq M] in
/-- Only a transaction whose calls have ended well leaves the `try` well. -/
theorem exitOutcome_sound {k : Call σ κ V M} {o : Outcome} (h : (exitOutcome k o).1 ≠ .unrecoverable) :
    k.outstandingRpcs = [] ∧ k.unrecoverableAbort = false := by
  unfold exitOutcome at h
  cases o with
  | ok => grind
  | recoverable => grind
  | unrecoverable => exact absurd rfl h

omit [DecidableEq σ] [DecidableEq κ] [DecidableEq V] [DecidableEq M] in
/-- The method is over. -/
theorem returned_step {k : Call σ κ V M} {o result : Outcome} (hphase : k.phase.entered = true)
    (hresult : result ≠ .unrecoverable → result = (exitOutcome k o).1)
    (hkind : k.caller = none → k.method.kind.isTransaction = false) :
    CallStep k { k with phase := .returned result } where
  method := rfl
  caller := rfl
  transactionIds := rfl
  outstandingRpcs := rfl
  unrecoverableAbort := rfl
  live := Phase.live_of_entered hphase
  reported x hx := .inl hx
  outside := nofun
  sound h _ := by
    have hne := Phase.sound_returned.mp h
    exact exitOutcome_sound (hresult hne ▸ hne)
  coordinating := nofun
  unreturned _ := hkind

omit [DecidableEq σ] [DecidableEq V] [DecidableEq κ] [DecidableEq M] in
theorem rootPhase_step {k : Call σ κ V M} {i : Site κ V M} {o : Outcome}
    (hphase : k.phase.entered = true) (hcaller : k.caller = none) :
    CallStep k { k with phase := rootPhase i (exitOutcome k o).1 } := by
  have hsound : (rootPhase i (exitOutcome k o).1 : Phase κ V M).sound = true →
      (exitOutcome k o).1 ≠ .unrecoverable := by
    intro h hun
    rw [hun] at h
    cases h
  exact
    { method := rfl
      caller := rfl
      transactionIds := rfl
      outstandingRpcs := rfl
      unrecoverableAbort := rfl
      live := Phase.live_of_entered hphase
      reported := fun x hx => .inl hx
      outside := by
        intro h
        unfold rootPhase at h
        split at h
        · split at h <;> cases h
        · cases h
      sound := fun h _ => exitOutcome_sound (hsound h)
      coordinating := fun _ => hcaller
      unreturned := by
        intro h
        unfold rootPhase at h
        split at h
        · split at h <;> cases h
        next hne => exact (hne (Phase.returned.inj h)).elim }

omit [DecidableEq κ] [DecidableEq V] [DecidableEq M] in
/-- What a nested transaction keeps of its participants when it leaves. -/
theorem leftNested_step {k : Call σ κ V M} {o : Outcome} {aborted : Bool}
    (hphase : k.phase.entered = true) (hnested : k.nested = true)
    (haborted : aborted = decide ((exitOutcome k o).1 ≠ .ok)) :
    CallStep k { k with
      phase := .returned (exitOutcome k o).1
      participants := if aborted then k.participants.retainAsReadOnly else k.participants } where
  method := rfl
  caller := rfl
  transactionIds := rfl
  outstandingRpcs := rfl
  unrecoverableAbort := rfl
  live := Phase.live_of_entered hphase
  reported x hx := by
    by_cases hok : (exitOutcome k o).1 = .ok
    · left
      simpa [haborted, hok] using hx
    · right
      have htransaction : k.method.kind.isTransaction = true := by
        simp only [Call.nested, Bool.and_eq_true] at hnested
        exact hnested.1
      cases he : (exitOutcome k o).1 with
      | ok => exact absurd he hok
      | recoverable => simp [Call.aborted, Phase.failed, htransaction]
      | unrecoverable => simp [Call.aborted, Phase.failed, htransaction]
  outside := nofun
  sound h _ := exitOutcome_sound (Phase.sound_returned.mp h)
  coordinating := nofun
  unreturned _ hcaller := by simp [Call.nested, hcaller] at hnested

omit [DecidableEq κ] [DecidableEq V] [DecidableEq M] in
theorem markCommit_reported {k : Call σ κ V M} {x : σ}
    (hx : x ∈ k.participants.shouldCommit) :
    x ∈ (markCommit k).participants.shouldCommit :=
  Participants.mem_add.mpr (.inl hx)

omit [DecidableEq κ] [DecidableEq V] [DecidableEq M] in
/-- Storing effects is a step of the call. -/
theorem stored_step {k k' : Call σ κ V M} (hphase : k.phase.entered = true)
    (hk' : k' = k ∨ k' = markCommit k) : CallStep k { k' with phase := .completed } := by
  refine .of_live (Phase.live_of_entered hphase) rfl nofun ?_ ?_
  · intro x hx
    rcases hk' with rfl | rfl
    · exact hx
    · exact markCommit_reported hx
  · rcases hk' with rfl | rfl <;> rfl

theorem Move.callMove (h : Move env s a s') : CallMove s s' := by
  cases h with
  | call hp hphase => exact .made hp hphase rfl
  | start hc hphase hx => exact .same rfl rfl
  | acquire hx hacquired => exact .same rfl rfl
  | refuse hx hacquired => exact .same rfl rfl
  | join hc hx hphase hacquired =>
    refine .went hc ?_ rfl rfl
    exact .of_live (by rw [hphase]; rfl) rfl (fun _ => by rw [hphase]; rfl)
      (fun x hx => Participants.mem_add.mpr (.inl hx)) rfl
  | claim hc hx hphase ht =>
    refine .went hc ?_ rfl rfl
    refine .of_live (by rw [hphase]; rfl) ?_ (fun _ => by rw [hphase]; rfl) (fun x hx => hx) rfl
    dsimp only
    split
    · rfl
    · exact Phase.live_of_entered (Call.enter_entered _)
  | drain hc hx hnested hphase =>
    refine .went hc ?_ rfl rfl
    exact .of_live (by rw [hphase]; rfl) (Phase.live_of_entered (Call.enter_entered _))
      (fun _ => by rw [hphase]; rfl) (fun x hx => hx) rfl
  | upgrade hc hx hphase =>
    refine .went hc ?_ rfl rfl
    refine .of_live (by rw [hphase]; rfl) rfl nofun ?_ ?_
    · intro x hx
      dsimp only
      split
      · exact markCommit_reported hx
      · exact hx
    · split <;> rfl
  | upgradeStored hc hx hphase hstore =>
    refine .went hc ?_ rfl rfl
    exact stored_step (by rw [hphase]; rfl) (.inr rfl)
  | load hc hx hphase state hstate hk' =>
    refine .went hc ?_ rfl rfl
    rw [hk']
    exact .of_live (by rw [hphase]; rfl) rfl nofun (fun x hx => hx) rfl
  | mutate hc hx hphase => exact .same rfl rfl
  | completeWaits hc hphase hkind =>
    refine .went hc ?_ rfl rfl
    exact .of_live (by rw [hphase]; rfl) rfl nofun (fun x hx => hx) rfl
  | completeStored hc hx hphase hk' hstore =>
    refine .went hc ?_ rfl rfl
    exact stored_step (by rw [hphase]; rfl) (hk'.imp (fun h => h.1) (fun h => h.1))
  | finishOutside hc hphase ho =>
    refine .went hc ?_ rfl rfl
    refine ⟨rfl, rfl, rfl, rfl, rfl, by simp [Phase.live, hphase], fun x hx => .inl hx, nofun,
      ?_, nofun, ?_⟩
    · intro _ hentered
      rw [Phase.outside_entered hentered] at hphase
      cases hphase
    · intro hok
      cases hok
      exact absurd rfl ho
  | finishLeaf hc hx hphase hkind =>
    refine .went hc ?_ rfl rfl
    exact returned_step hphase (fun _ => rfl) fun _ => hkind
  | finishRoot hc hx hphase hkind hcaller =>
    refine .went hc ?_ rfl rfl
    exact rootPhase_step hphase hcaller
  | finishFlagged hc hx hphase hnested hflag =>
    refine .went hc ?_ rfl rfl
    exact returned_step hphase (fun _ => rfl) fun h => by simp [Call.nested, h] at hnested
  | @finishDoomed c k i o hc hx hphase hnested =>
    refine .went hc ?_ rfl rfl
    exact returned_step (o := o) hphase (fun h => absurd rfl h) fun h => by
      simp [Call.nested, h] at hnested
  | finishNested hc hx hphase hnested hflag ht =>
    refine .went hc ?_ rfl rfl
    exact leftNested_step hphase hnested rfl
  | reply hc hcaller hp hrpc hentered hphase => exact .heard hc hcaller hp hentered hphase rfl rfl
  | lose hc hcaller hp hentered => exact .lost hp hentered rfl rfl
  | relinquish hm hx ht => exact .same rfl rfl
  | release hk hx howner hmode => exact .same rfl rfl
  | prepare hk hx howner hd => exact .same rfl rfl
  | commit hk hready => exact .same rfl rfl

/-! ## The tree -/

/-- The caller `kp` still waits for the call `c`, is doomed, or has merged its
participants. -/
def Linked (c : Nat) (k kp : Call σ κ V M) : Prop :=
  c ∈ kp.outstandingRpcs ∨ kp.unrecoverableAbort = true ∨
    (k.phase.sound = true ∧ k.phase ≠ .coordinating ∧
      ((∀ x ∈ k.participants.shouldCommit, x ∈ kp.participants.shouldCommit) ∨
        kp.aborted = true))

/-- Nothing of the calls it made is open. -/
def Settled (k : Call σ κ V M) : Prop := k.outstandingRpcs = [] ∧ k.unrecoverableAbort = false

/-- The calls are a tree, in which a caller waits for its calls and hears from them. -/
structure Tree (s : System σ κ V M) : Prop where
  fresh : ∀ c k, s.call c = some k → c < s.nextId
  root : ∃ k, s.call 0 = some k ∧ k.caller = none ∧ k.transactionIds = [0]
  /-- the root does not return before the two phases are over -/
  unreturned : ∀ k, s.call 0 = some k → k.phase = .returned .ok → k.method.kind.isTransaction = false
  /-- every other call has been made by an earlier one -/
  caller : ∀ c k, s.call c = some k → c ≠ 0 → ∃ p kp, k.caller = some p ∧ p < c ∧
    s.call p = some kp ∧ k.transactionIds =
      if k.method.kind.isTransaction then kp.transactionIds ++ [c] else kp.transactionIds
  link : ∀ c k p kp, s.call c = some k → k.caller = some p → s.call p = some kp →
    Linked c k kp
  quiet : ∀ c k, s.call c = some k → k.phase.outside = true → Settled k
  sound : ∀ c k, s.call c = some k → k.phase.sound = true → Settled k
  coordinating : ∀ c k, s.call c = some k → k.phase = .coordinating → c = 0

omit [DecidableEq σ] [DecidableEq κ] [DecidableEq V] [DecidableEq M] in
theorem initial_call {method : Method σ κ} (c : Nat) (k : Call σ κ V M)
    (hc : (initial method : System σ κ V M).call c = some k) :
    c = 0 ∧ k = Call.new method none [0] := by
  simp only [initial, Function.update_apply] at hc
  split at hc
  next h => exact ⟨h, (Option.some.inj hc).symm⟩
  next => cases hc

omit [DecidableEq σ] [DecidableEq κ] [DecidableEq V] [DecidableEq M] in
theorem initial_tree {method : Method σ κ} :
    Tree (initial method : System σ κ V M) := by
  have honly : ∀ c k, (initial method : System σ κ V M).call c = some k →
      c = 0 ∧ k = Call.new method none [0] := initial_call
  constructor
  · intro c k hc
    rw [(honly c k hc).1]
    exact Nat.one_pos
  · exact ⟨Call.new method none [0], rfl, rfl, rfl⟩
  · intro k hk hphase
    rw [(honly 0 k hk).2] at hphase
    cases hphase
  · intro c k hc hne
    exact absurd (honly c k hc).1 hne
  · intro c k p kp hc hcaller
    rw [(honly c k hc).2] at hcaller
    cases hcaller
  · intro c k hc _
    rw [(honly c k hc).2]
    exact ⟨rfl, rfl⟩
  · intro c k hc _
    rw [(honly c k hc).2]
    exact ⟨rfl, rfl⟩
  · intro c k hc _
    exact (honly c k hc).1

omit [DecidableEq σ] [DecidableEq κ] [DecidableEq V] [DecidableEq M] in
theorem Tree.congr (ht : Tree s) (hcall : s'.call = s.call) (hn : s'.nextId = s.nextId) :
    Tree s' := by
  obtain ⟨hfresh, hroot, hopen, hcaller, hlink, hquiet, hsound, hcoordinating⟩ := ht
  constructor
  · rw [hcall, hn]
    exact hfresh
  all_goals
    rw [hcall]
    assumption

omit [DecidableEq σ] [DecidableEq κ] [DecidableEq V] [DecidableEq M] in
/-- A call in the map after one entry was written. -/
theorem call_put {c c' : Nat} {k k' : Call σ κ V M}
    (hcall : s'.call = Function.update s.call c (some k')) (h : s'.call c' = some k) :
    (c' = c ∧ k = k') ∨ (c' ≠ c ∧ s.call c' = some k) := by
  rw [hcall, Function.update_apply] at h
  split at h
  next heq => exact .inl ⟨heq, (Option.some.inj h).symm⟩
  next hne => exact .inr ⟨hne, h⟩

omit [DecidableEq σ] [DecidableEq κ] [DecidableEq V] [DecidableEq M] in
/-- One call is written back. The tree stays the same; what has to be shown is how the
call stands to its caller and to the calls it made. -/
theorem Tree.put (ht : Tree s) {c : Nat} {k k' : Call σ κ V M} (hc : s.call c = some k)
    (hcall : s'.call = Function.update s.call c (some k')) (hn : s'.nextId = s.nextId)
    (hmethod : k'.method = k.method) (hcaller : k'.caller = k.caller)
    (hids : k'.transactionIds = k.transactionIds)
    (hup : ∀ kp, Linked c k kp → Linked c k' kp)
    (hdown : ∀ d kd, s.call d = some kd → kd.caller = some c → Linked d kd k → Linked d kd k')
    (hquiet : k'.phase.outside = true → Settled k')
    (hsound : k'.phase.sound = true → Settled k')
    (hcoordinating : k'.phase = .coordinating → c = 0)
    (hopen : k'.phase = .returned .ok → k.caller = none → k.method.kind.isTransaction = false) :
    Tree s' := by
  have hself : s'.call c = some k' := by rw [hcall, Function.update_self]
  have hother : ∀ d kd, d ≠ c → s.call d = some kd → s'.call d = some kd := by
    intro d kd hne hd
    rw [hcall, Function.update_of_ne hne]
    exact hd
  -- a caller in the old map, and the same caller in the new one
  have hstays : ∀ p kp, s.call p = some kp → ∃ kp', s'.call p = some kp' ∧
      kp'.transactionIds = kp.transactionIds := by
    intro p kp hp
    by_cases hpc : p = c
    · subst hpc
      rw [hc] at hp
      cases hp
      exact ⟨k', hself, hids⟩
    · exact ⟨kp, hother p kp hpc hp, rfl⟩
  have hcallerOf : ∀ d kd, s.call d = some kd → d ≠ 0 → ∃ p kp, kd.caller = some p ∧ p < d ∧
      s'.call p = some kp ∧ kd.transactionIds =
        if kd.method.kind.isTransaction then kp.transactionIds ++ [d]
        else kp.transactionIds := by
    intro d kd hd hne
    obtain ⟨p, kp, hcp, hlt, hp, hpath⟩ := ht.caller d kd hd hne
    obtain ⟨kp', hp', hsame⟩ := hstays p kp hp
    exact ⟨p, kp', hcp, hlt, hp', by rw [hsame]; exact hpath⟩
  constructor
  · intro d kd hd
    rw [hn]
    rcases call_put hcall hd with ⟨rfl, rfl⟩ | ⟨-, hold⟩
    · exact ht.fresh _ _ hc
    · exact ht.fresh _ _ hold
  · obtain ⟨k0, h0, hnone, hpath⟩ := ht.root
    by_cases hc0 : 0 = c
    · subst hc0
      rw [hc] at h0
      cases h0
      exact ⟨k', hself, hcaller.trans hnone, hids.trans hpath⟩
    · exact ⟨k0, hother 0 k0 hc0 h0, hnone, hpath⟩
  · intro kd hd hok
    rcases call_put hcall hd with ⟨rfl, rfl⟩ | ⟨-, hold⟩
    · rw [hmethod]
      refine hopen hok ?_
      obtain ⟨k0, h0, hnone, -⟩ := ht.root
      rw [hc] at h0
      cases h0
      exact hnone
    · exact ht.unreturned kd hold hok
  · intro d kd hd hne
    rcases call_put hcall hd with ⟨rfl, rfl⟩ | ⟨-, hold⟩
    · rw [hcaller, hids, hmethod]
      exact hcallerOf _ _ hc hne
    · exact hcallerOf _ _ hold hne
  · intro d kd p kp hd hcp hp
    rcases call_put hcall hd with ⟨rfl, rfl⟩ | ⟨hne, hold⟩
    · rw [hcaller] at hcp
      rcases call_put hcall hp with ⟨rfl, rfl⟩ | ⟨-, holdp⟩
      · -- nobody calls itself
        have hne0 : p ≠ 0 := by
          rintro rfl
          obtain ⟨k0, h0, hnone, -⟩ := ht.root
          rw [hc] at h0
          cases h0
          rw [hnone] at hcp
          cases hcp
        obtain ⟨q, kq, hq, hlt, -⟩ := ht.caller _ _ hc hne0
        rw [hcp] at hq
        cases hq
        exact absurd hlt (Nat.lt_irrefl _)
      · exact hup kp (ht.link _ _ _ _ hc hcp holdp)
    · rcases call_put hcall hp with ⟨rfl, rfl⟩ | ⟨-, holdp⟩
      · exact hdown d kd hold hcp (ht.link _ _ _ _ hold hcp hc)
      · exact ht.link _ _ _ _ hold hcp holdp
  · intro d kd hd hout
    rcases call_put hcall hd with ⟨rfl, rfl⟩ | ⟨-, hold⟩
    · exact hquiet hout
    · exact ht.quiet _ _ hold hout
  · intro d kd hd hs
    rcases call_put hcall hd with ⟨rfl, rfl⟩ | ⟨-, hold⟩
    · exact hsound hs
    · exact ht.sound _ _ hold hs
  · intro d kd hd hco
    rcases call_put hcall hd with ⟨rfl, rfl⟩ | ⟨-, hold⟩
    · exact hcoordinating hco
    · exact ht.coordinating _ _ hold hco

omit [DecidableEq σ] [DecidableEq κ] [DecidableEq V] [DecidableEq M] in
/-- Only the root has no caller. -/
theorem Tree.eq_zero (ht : Tree s) {c : Nat} {k : Call σ κ V M} (hc : s.call c = some k)
    (hcaller : k.caller = none) : c = 0 := by
  by_contra hne
  obtain ⟨p, kp, hcp, -⟩ := ht.caller c k hc hne
  rw [hcaller] at hcp
  cases hcp

omit [DecidableEq σ] [DecidableEq κ] [DecidableEq V] [DecidableEq M] in
/-- A call is made. -/
theorem Tree.made (ht : Tree s) {p : Nat} {k : Call σ κ V M} {method : Method σ κ}
    (hp : s.call p = some k) (hphase : k.phase = .running) : Tree (s.madeCall p k method) := by
  -- first the caller counts the call, then the call appears
  have h1 : Tree (s.putCall p { k with outstandingRpcs := s.nextId :: k.outstandingRpcs }) := by
    refine ht.put hp rfl rfl rfl rfl rfl (fun _ h => h) ?_ ?_ ?_ ?_ ?_
    · intro d kd _ _ hlink
      exact hlink.imp (fun h => List.mem_cons_of_mem _ h) id
    all_goals
      intro h
      rw [show ({ k with outstandingRpcs := s.nextId :: k.outstandingRpcs } :
        Call σ κ V M).phase = k.phase from rfl, hphase] at h
      cases h
  have hlt : ∀ c kc, (s.putCall p { k with
      outstandingRpcs := s.nextId :: k.outstandingRpcs }).call c = some kc → c ≠ s.nextId :=
    fun c kc hc => Nat.ne_of_lt (h1.fresh c kc hc)
  have hplt : p < s.nextId := ht.fresh p k hp
  have hself : (s.putCall p { k with
      outstandingRpcs := s.nextId :: k.outstandingRpcs }).call p =
      some { k with outstandingRpcs := s.nextId :: k.outstandingRpcs } := Function.update_self ..
  have hkeep : ∀ c kc, (s.putCall p { k with
      outstandingRpcs := s.nextId :: k.outstandingRpcs }).call c = some kc →
      (s.madeCall p k method).call c = some kc := by
    intro c kc hc
    exact (Function.update_of_ne (hlt c kc hc) _ _).trans hc
  have hcases : ∀ c kc, (s.madeCall p k method).call c = some kc →
      (c = s.nextId ∧ kc = Call.new method (some p) (s.idsFor k method)) ∨
      (c ≠ s.nextId ∧ (s.putCall p { k with
        outstandingRpcs := s.nextId :: k.outstandingRpcs }).call c = some kc) :=
    fun c kc hc => call_put (s := s.putCall p { k with
      outstandingRpcs := s.nextId :: k.outstandingRpcs }) rfl hc
  constructor
  · intro c kc hc
    show c < s.nextId + 1
    rcases hcases c kc hc with ⟨rfl, -⟩ | ⟨-, hold⟩
    · exact Nat.lt_succ_self _
    · exact Nat.lt_succ_of_lt (h1.fresh c kc hold)
  · obtain ⟨k0, h0, hroot⟩ := h1.root
    exact ⟨k0, hkeep 0 k0 h0, hroot⟩
  · intro kc hc hok
    rcases hcases 0 kc hc with ⟨-, rfl⟩ | ⟨-, hold⟩
    · cases hok
    · exact h1.unreturned kc hold hok
  · intro c kc hc hne
    rcases hcases c kc hc with ⟨rfl, rfl⟩ | ⟨-, hold⟩
    · exact ⟨p, _, rfl, hplt, hkeep _ _ hself, rfl⟩
    · obtain ⟨q, kq, hcq, hlq, hq, hpath⟩ := h1.caller c kc hold hne
      exact ⟨q, kq, hcq, hlq, hkeep q kq hq, hpath⟩
  · intro c kc q kq hc hcq hq
    rcases hcases c kc hc with ⟨rfl, rfl⟩ | ⟨-, hold⟩
    · cases hcq
      rw [hkeep _ _ hself] at hq
      cases hq
      exact .inl List.mem_cons_self
    · rcases hcases q kq hq with ⟨rfl, rfl⟩ | ⟨-, holdq⟩
      · -- nobody has been called by a call that was not there
        have hne0 : c ≠ 0 := by
          rintro rfl
          obtain ⟨k0, h0, hnone, -⟩ := h1.root
          rw [hold] at h0
          cases h0
          rw [hnone] at hcq
          cases hcq
        obtain ⟨q', kq', hcq', -, hq', -⟩ := h1.caller c kc hold hne0
        rw [hcq] at hcq'
        cases hcq'
        exact absurd rfl (hlt _ _ hq')
      · exact h1.link c kc q kq hold hcq holdq
  · intro c kc hc hout
    rcases hcases c kc hc with ⟨rfl, rfl⟩ | ⟨-, hold⟩
    · exact ⟨rfl, rfl⟩
    · exact h1.quiet c kc hold hout
  · intro c kc hc hs
    rcases hcases c kc hc with ⟨rfl, rfl⟩ | ⟨-, hold⟩
    · exact ⟨rfl, rfl⟩
    · exact h1.sound c kc hold hs
  · intro c kc hc hco
    rcases hcases c kc hc with ⟨rfl, rfl⟩ | ⟨-, hold⟩
    · cases hco
    · exact h1.coordinating c kc hold hco

omit [DecidableEq κ] [DecidableEq V] [DecidableEq M] in
/-- **The tree is kept.** -/
theorem CallMove.tree (h : CallMove s s') (ht : Tree s) : Tree s' := by
  cases h with
  | same hcall hn => exact ht.congr hcall hn
  | made hp hphase hs =>
    rw [hs]
    exact ht.made hp hphase
  | @went c k k' hc hk hcall hn =>
    have hsettled : k'.phase.sound = true → Settled k' := by
      intro h
      have hold : Settled k := by
        have hlive := hk.live
        simp only [Phase.live, Bool.or_eq_true] at hlive
        rcases hlive with hout | hentered
        · exact ht.quiet c k hc hout
        · exact hk.sound h hentered
      exact ⟨hk.outstandingRpcs ▸ hold.1, hk.unrecoverableAbort ▸ hold.2⟩
    refine ht.put hc hcall hn hk.method hk.caller hk.transactionIds ?_ ?_ ?_ hsettled ?_ hk.unreturned
    · intro kp hlink
      refine hlink.imp id (Or.imp id ?_)
      intro hover
      have hlive := hk.live
      rw [Phase.not_live_of_sound hover.1] at hlive
      cases hlive
    · intro d kd _ _ hlink
      refine hlink.imp ?_ (Or.imp ?_ ?_)
      · intro h
        rw [hk.outstandingRpcs]
        exact h
      · intro h
        rw [hk.unrecoverableAbort]
        exact h
      · rintro ⟨hs, hco, hrep⟩
        refine ⟨hs, hco, ?_⟩
        rcases hrep with hrep | haborted
        · by_cases hab : k'.aborted = true
          · exact .inr hab
          · exact .inl fun x hx => (hk.reported x (hrep x hx)).resolve_right hab
        · -- a call that has aborted does not go on
          have hlive := hk.live
          simp only [Call.aborted, Bool.and_eq_true] at haborted
          rw [Phase.not_live_of_failed haborted.2] at hlive
          cases hlive
    · intro hout
      have hold := ht.quiet c k hc (hk.outside hout)
      exact ⟨hk.outstandingRpcs ▸ hold.1, hk.unrecoverableAbort ▸ hold.2⟩
    · intro hco
      exact ht.eq_zero hc (hk.coordinating hco)
  | @heard c p k kp o hc hcaller hp hentered hphase hcall hn =>
    have hover : ¬ kp.phase.sound = true := by simp [Phase.not_sound_of_entered hentered]
    refine ht.put hp hcall hn rfl rfl rfl ?_ ?_ ?_ ?_ ?_ ?_
    · intro kq hlink
      refine hlink.imp id (Or.imp id ?_)
      intro h
      exact absurd h.1 hover
    · intro d kd hd hcd hlink
      by_cases hdc : d = c
      · subst hdc
        rw [hc] at hd
        cases hd
        by_cases hun : o = .unrecoverable
        · right; left
          simp [hun]
        · right; right
          refine ⟨by rw [hphase]; exact Phase.sound_returned.mpr hun, by rw [hphase]; simp,
            .inl fun x hx => Participants.mem_union.mpr (.inr hx)⟩
      · refine hlink.imp ?_ (Or.imp ?_ ?_)
        · intro h
          simpa [hdc] using h
        · intro h
          simp [h]
        · rintro ⟨hs, hco, hrep⟩
          exact ⟨hs, hco, hrep.imp (fun h x hx => Participants.mem_union.mpr (.inl (h x hx))) id⟩
    · intro h
      rw [show _ = kp.phase.outside from rfl, Phase.outside_entered hentered] at h
      cases h
    · intro h
      exact absurd h hover
    · intro h
      exact absurd (by rw [show kp.phase = .coordinating from h]; rfl) hover
    · intro h
      exact absurd (by rw [show kp.phase = .returned .ok from h]; rfl) hover
  | @lost c p kp hp hentered hcall hn =>
    have hover : ¬ kp.phase.sound = true := by simp [Phase.not_sound_of_entered hentered]
    refine ht.put hp hcall hn rfl rfl rfl ?_ ?_ ?_ ?_ ?_ ?_
    · intro kq hlink
      refine hlink.imp id (Or.imp id ?_)
      intro h
      exact absurd h.1 hover
    · intro d kd _ _ _
      exact .inr (.inl rfl)
    · intro h
      rw [show _ = kp.phase.outside from rfl, Phase.outside_entered hentered] at h
      cases h
    · intro h
      exact absurd h hover
    · intro h
      exact absurd (by rw [show kp.phase = .coordinating from h]; rfl) hover
    · intro h
      exact absurd (by rw [show kp.phase = .returned .ok from h]; rfl) hover

omit [DecidableEq σ] in
theorem coordinator_eq {k : Call σ κ V M} (h : s.coordinator = some k) :
    s.call 0 = some k ∧ k.phase = .coordinating := by
  unfold coordinator at h
  split at h
  next => cases h
  next k0 hk0 =>
    split at h
    next hphase =>
      cases h
      exact ⟨hk0, hphase⟩
    next => cases h

/-! ## What the end of a transaction says about its calls -/

/-- The transaction has returned normally. -/
def hasCommitted (s : System σ κ V M) (t : Nat) : Bool :=
  match s.call t with
  | some k => match k.phase with
    | .returned .ok => true
    | _ => false
  | none => false

/-- The transaction has aborted. -/
def hasAborted (s : System σ κ V M) (t : Nat) : Bool :=
  match s.call t with
  | some k => k.aborted
  | none => false

/-- The call was made within a nested transaction that has aborted. -/
def withinAborted (s : System σ κ V M) (c : Nat) : Prop :=
  ∃ k, s.call c = some k ∧ ∃ t ∈ k.transactionIds, s.hasAborted t = true

section

omit [DecidableEq σ] [DecidableEq κ] [DecidableEq V] [DecidableEq M]

theorem hasCommitted_iff {t : Nat} :
    s.hasCommitted t = true ↔ ∃ k, s.call t = some k ∧ k.phase = .returned .ok := by
  unfold hasCommitted
  constructor
  · intro h
    split at h
    next k hk =>
      split at h
      next hphase => exact ⟨k, hk, hphase⟩
      next => cases h
    next => cases h
  · rintro ⟨k, hk, hphase⟩
    simp only [hk, hphase]

theorem hasAborted_iff {t : Nat} :
    s.hasAborted t = true ↔ ∃ k, s.call t = some k ∧ k.aborted = true := by
  unfold hasAborted
  cases s.call t with
  | none => simp
  | some k => simp

theorem not_aborted_of_committed {t : Nat} (h : s.hasCommitted t = true) :
    s.hasAborted t = false := by
  refine Bool.eq_false_iff.mpr fun haborted => ?_
  obtain ⟨k, hk, hphase⟩ := hasCommitted_iff.mp h
  obtain ⟨k', hk', haborted⟩ := hasAborted_iff.mp haborted
  rw [hk] at hk'
  cases hk'
  simp [Call.aborted, hphase, Phase.failed] at haborted

theorem withinAborted_of {c t : Nat} {ids : List Nat}
    (hids : (s.call c).map (·.transactionIds) = some ids) (ht : t ∈ ids)
    (haborted : s.hasAborted t = true) : s.withinAborted c := by
  obtain ⟨k, hk, rfl⟩ := Option.map_eq_some_iff.mp hids
  exact ⟨k, hk, t, ht, haborted⟩

variable {c : Nat} {k : Call σ κ V M}

/-- A call that has ended well has only calls that have ended well, and has merged what
they reported unless it has aborted. -/
theorem Tree.answered (ht : Tree s) {p : Nat} {kp : Call σ κ V M} (hc : s.call c = some k)
    (hcaller : k.caller = some p) (hp : s.call p = some kp) (hsound : kp.phase.sound = true) :
    k.phase.sound = true ∧ k.phase ≠ .coordinating ∧
      ((∀ x ∈ k.participants.shouldCommit, x ∈ kp.participants.shouldCommit) ∨
        kp.aborted = true) := by
  obtain ⟨hrpcs, hunrecoverable⟩ := ht.sound p kp hp hsound
  rcases ht.link c k p kp hc hcaller hp with h | h | h
  · rw [hrpcs] at h
    cases h
  · rw [hunrecoverable] at h
    cases h
  · exact h

/-- The root's id is in every context. -/
theorem Tree.root_mem (ht : Tree s) : ∀ {c : Nat} {k : Call σ κ V M},
    s.call c = some k → 0 ∈ k.transactionIds := by
  intro c
  induction c using Nat.strong_induction_on with
  | _ c ih =>
    intro k hc
    by_cases h0 : c = 0
    · subst h0
      obtain ⟨k0, hk0, -, hids⟩ := ht.root
      rw [hc] at hk0
      cases hk0
      rw [hids]
      exact List.mem_singleton_self 0
    · obtain ⟨p, kp, -, hlt, hp, hids⟩ := ht.caller c k hc h0
      have hmem := ih p hlt hp
      rw [hids]
      split
      · exact List.mem_append_left _ hmem
      · exact hmem

theorem Tree.root_open (ht : Tree s) (hroot : ∀ k, s.call 0 = some k →
    k.method.kind.isTransaction = true) : s.hasCommitted 0 = false := by
  refine Bool.eq_false_iff.mpr fun h => ?_
  obtain ⟨k, hk, hphase⟩ := hasCommitted_iff.mp h
  have hleaf := ht.unreturned k hk hphase
  rw [hroot k hk] at hleaf
  cases hleaf

/-- Where a transaction has ended well, so have the calls made within it. -/
theorem Tree.sound_within (ht : Tree s) {t : Nat} {kt : Call σ κ V M} (hkt : s.call t = some kt)
    (hsound : kt.phase.sound = true) : ∀ {c : Nat} {k : Call σ κ V M},
    s.call c = some k → t ∈ k.transactionIds → k.phase.sound = true := by
  intro c
  induction c using Nat.strong_induction_on with
  | _ c ih =>
    intro k hc hmem
    by_cases hct : c = t
    · subst hct
      rw [hkt] at hc
      cases hc
      exact hsound
    by_cases h0 : c = 0
    · -- the root is in no transaction but itself
      subst h0
      obtain ⟨k0, hk0, -, hids⟩ := ht.root
      rw [hc] at hk0
      cases hk0
      rw [hids] at hmem
      exact absurd (List.mem_singleton.mp hmem).symm hct
    · obtain ⟨p, kp, hcaller, hlt, hp, hids⟩ := ht.caller c k hc h0
      have hmemp : t ∈ kp.transactionIds := by
        rw [hids] at hmem
        split at hmem
        · rcases List.mem_append.mp hmem with h | h
          · exact h
          · exact absurd (List.mem_singleton.mp h).symm hct
        · exact hmem
      exact (ht.answered hc hcaller hp (ih p hlt hp hmemp)).1

/-- A transaction under way is not within one that has ended well. -/
theorem Tree.not_sound_of_live (ht : Tree s) (hc : s.call c = some k)
    (hlive : k.phase.live = true) {t : Nat} (hmem : t ∈ k.transactionIds)
    {kt : Call σ κ V M} (hkt : s.call t = some kt) : ¬ kt.phase.sound = true := by
  intro hsound
  rw [Phase.not_live_of_sound (ht.sound_within hkt hsound hc hmem)] at hlive
  cases hlive

/-- The own id of a transaction is in its context. -/
theorem Tree.self_mem (ht : Tree s) (hc : s.call c = some k)
    (hkind : k.method.kind.isTransaction = true) : c ∈ k.transactionIds := by
  by_cases h0 : c = 0
  · subst h0
    exact ht.root_mem hc
  · obtain ⟨p, kp, -, -, -, hids⟩ := ht.caller c k hc h0
    rw [hids, if_pos hkind]
    exact List.mem_append_right _ (List.mem_singleton_self c)

/-! ## The root coordinates -/

/-- The root runs the two phases. -/
def Coordinating (s : System σ κ V M) : Prop :=
  ∃ k, s.call 0 = some k ∧ k.phase = .coordinating

/-- Every call is over by then. -/
theorem Tree.all_sound (ht : Tree s) (hco : s.Coordinating) (hc : s.call c = some k) :
    k.phase.sound = true := by
  obtain ⟨k0, hk0, hphase⟩ := hco
  exact ht.sound_within hk0 (by rw [hphase]; rfl) hc (ht.root_mem hc)

/-- **What is reported reaches the root**, from calls that are not within an aborted
transaction. -/
theorem Tree.reported_root (ht : Tree s) {k0 : Call σ κ V M} (hk0 : s.call 0 = some k0)
    (hphase : k0.phase = .coordinating) {x : σ} : ∀ {c : Nat} {k : Call σ κ V M},
    s.call c = some k → x ∈ k.participants.shouldCommit →
    (∀ t ∈ k.transactionIds, s.hasAborted t = false) →
    x ∈ k0.participants.shouldCommit := by
  intro c
  induction c using Nat.strong_induction_on with
  | _ c ih =>
    intro k hc hx hids
    by_cases h0 : c = 0
    · subst h0
      rw [hc] at hk0
      cases hk0
      exact hx
    · obtain ⟨p, kp, hcaller, hlt, hp, hpath⟩ := ht.caller c k hc h0
      have hsub : ∀ t ∈ kp.transactionIds, t ∈ k.transactionIds := by
        intro t hmem
        rw [hpath]
        split
        · exact List.mem_append_left _ hmem
        · exact hmem
      have hanswered := ht.answered hc hcaller hp (ht.all_sound ⟨k0, hk0, hphase⟩ hp)
      have hmerged : ∀ y ∈ k.participants.shouldCommit, y ∈ kp.participants.shouldCommit := by
        refine hanswered.2.2.resolve_right ?_
        intro haborted
        -- the caller would be a transaction around the call
        have hkind : kp.method.kind.isTransaction = true := by
          simp only [Call.aborted, Bool.and_eq_true] at haborted
          exact haborted.1
        have hno := hids p (hsub p (ht.self_mem hp hkind))
        rw [hasAborted_iff.mpr ⟨kp, hp, haborted⟩] at hno
        cases hno
      exact ih p hlt hp (hmerged x hx) fun t hmem => hids t (hsub t hmem)

/-! ## What a call keeps -/

/-- Some call has ended in a way its transaction cannot go on from, or may not go on. -/
def Broken (s : System σ κ V M) : Prop :=
  ∃ c k, s.call c = some k ∧ (k.phase = .returned .unrecoverable ∨ k.unrecoverableAbort = true)

theorem Tree.not_broken (ht : Tree s) (hco : s.Coordinating) : ¬ s.Broken := by
  rintro ⟨c, k, hc, hbroken⟩
  have hsound := ht.all_sound hco hc
  rcases hbroken with h | h
  · rw [h] at hsound
    cases hsound
  · rw [(ht.sound c k hc hsound).2] at h
    cases h

/-- A call under way is in no transaction that has aborted, unless the root is doomed. -/
theorem Tree.not_aborted (ht : Tree s) (hnb : ¬ s.Broken) {c : Nat} {k : Call σ κ V M}
    (hc : s.call c = some k) (hlive : k.phase.live = true) {t : Nat}
    (hmem : t ∈ k.transactionIds) : s.hasAborted t = false := by
  refine Bool.eq_false_iff.mpr fun h => ?_
  obtain ⟨kt, hkt, haborted⟩ := hasAborted_iff.mp h
  refine ht.not_sound_of_live hc hlive hmem hkt ?_
  simp only [Call.aborted, Bool.and_eq_true] at haborted
  cases hphase : kt.phase with
  | returned o =>
    refine Phase.sound_returned.mpr ?_
    rintro rfl
    exact hnb ⟨t, kt, hkt, .inl hphase⟩
  | _ =>
    rw [hphase] at haborted
    cases haborted.2

/-- The same call later on. -/
structure Grown (k k' : Call σ κ V M) : Prop where
  method : k'.method = k.method
  caller : k'.caller = k.caller
  transactionIds : k'.transactionIds = k.transactionIds
  ended : k.phase.live = false → k'.phase = k.phase
  outside : k'.phase.outside = true → k.phase.outside = true
  reported : ∀ x ∈ k.participants.shouldCommit,
    x ∈ k'.participants.shouldCommit ∨ k'.aborted = true
  unrecoverable : k.unrecoverableAbort = true → k'.unrecoverableAbort = true

theorem Grown.refl (k : Call σ κ V M) : Grown k k :=
  ⟨rfl, rfl, rfl, fun _ => rfl, id, fun _ h => .inl h, id⟩

theorem grown_of_step {k' : Call σ κ V M} (h : CallStep k k') : Grown k k' where
  method := h.method
  caller := h.caller
  transactionIds := h.transactionIds
  ended hlive := by
    rw [h.live] at hlive
    cases hlive
  outside := h.outside
  reported := h.reported
  unrecoverable hun := h.unrecoverableAbort.trans hun

end

omit [DecidableEq κ] [DecidableEq V] [DecidableEq M] in
/-- Calls stay, and only move on. -/
theorem CallMove.grown (h : CallMove s s') (ht : Tree s) {c : Nat} {k : Call σ κ V M}
    (hc : s.call c = some k) : ∃ k', s'.call c = some k' ∧ Grown k k' := by
  have hput : ∀ (d : Nat) (kd kd' : Call σ κ V M), s.call d = some kd →
      s'.call = Function.update s.call d (some kd') → Grown kd kd' →
      ∃ k', s'.call c = some k' ∧ Grown k k' := by
    intro d kd kd' hd hcall hgrown
    by_cases hcd : c = d
    · subst hcd
      rw [hc] at hd
      cases hd
      exact ⟨kd', by rw [hcall, Function.update_self], hgrown⟩
    · exact ⟨k, by rw [hcall, Function.update_of_ne hcd]; exact hc, .refl k⟩
  cases h with
  | same hcall hn => exact ⟨k, by rw [hcall]; exact hc, .refl k⟩
  | @made p kp method hp hphase hs =>
    subst hs
    have hne : c ≠ s.nextId := Nat.ne_of_lt (ht.fresh c k hc)
    by_cases hcp : c = p
    · subst hcp
      rw [hc] at hp
      cases hp
      refine ⟨{ k with outstandingRpcs := s.nextId :: k.outstandingRpcs }, ?_,
        ⟨rfl, rfl, rfl, fun _ => rfl, id, fun _ h => .inl h, id⟩⟩
      exact (Function.update_of_ne hne _ _).trans (Function.update_self ..)
    · refine ⟨k, ?_, .refl k⟩
      exact (Function.update_of_ne hne _ _).trans ((Function.update_of_ne hcp _ _).trans hc)
  | went hd hk hcall hn => exact hput _ _ _ hd hcall (grown_of_step hk)
  | @heard d p kd kp o hd hcaller hp hentered hphase hcall hn =>
    refine hput p kp _ hp hcall ⟨rfl, rfl, rfl, fun _ => rfl, id,
      fun x hx => .inl (Participants.mem_union.mpr (.inl hx)), ?_⟩
    intro hun
    simp [hun]
  | lost hp hentered hcall hn =>
    exact hput _ _ _ hp hcall ⟨rfl, rfl, rfl, fun _ => rfl, id, fun x hx => .inl hx, fun _ => rfl⟩

omit [DecidableEq κ] [DecidableEq V] [DecidableEq M] in
/-- The coordinator's own call does not change any more. -/
theorem CallMove.coordinator (h : CallMove s s') {k : Call σ κ V M} (hc : s.call 0 = some k)
    (hphase : k.phase = .coordinating) (ht : Tree s) : s'.call 0 = some k := by
  have hother : ∀ (d : Nat) (kd : Call σ κ V M), s.call d = some kd → kd.phase.live = true →
      0 ≠ d := by
    rintro d kd hd hlive rfl
    rw [hc] at hd
    cases hd
    rw [hphase] at hlive
    cases hlive
  cases h with
  | same hcall hn => rw [hcall, hc]
  | made hp hrunning hs =>
    subst hs
    have hne : 0 ≠ s.nextId := Nat.ne_of_lt (ht.fresh 0 k hc)
    have hnep := hother _ _ hp (by rw [hrunning]; rfl)
    exact (Function.update_of_ne hne _ _).trans ((Function.update_of_ne hnep _ _).trans hc)
  | went hd hk hcall hn => rw [hcall, Function.update_of_ne (hother _ _ hd hk.live), hc]
  | heard hd hcaller hp hentered hphase hcall hn =>
    rw [hcall, Function.update_of_ne (hother _ _ hp (Phase.live_of_entered hentered)), hc]
  | lost hp hentered hcall hn =>
    rw [hcall, Function.update_of_ne (hother _ _ hp (Phase.live_of_entered hentered)), hc]

/-- A later state of the same tree. -/
def Later (s s' : System σ κ V M) : Prop :=
  ∀ c k, s.call c = some k → ∃ k', s'.call c = some k' ∧ Grown k k'

section

omit [DecidableEq σ] [DecidableEq κ] [DecidableEq V] [DecidableEq M]

theorem Later.hasCommitted (hl : Later s s') {t : Nat} (h : s.hasCommitted t = true) :
    s'.hasCommitted t = true := by
  obtain ⟨k, hk, hphase⟩ := hasCommitted_iff.mp h
  obtain ⟨k', hk', hgrown⟩ := hl t k hk
  exact hasCommitted_iff.mpr ⟨k', hk', (hgrown.ended (by rw [hphase]; rfl)).trans hphase⟩

theorem Later.hasAborted (hl : Later s s') {t : Nat} (h : s.hasAborted t = true) :
    s'.hasAborted t = true := by
  obtain ⟨k, hk, haborted⟩ := hasAborted_iff.mp h
  obtain ⟨k', hk', hgrown⟩ := hl t k hk
  refine hasAborted_iff.mpr ⟨k', hk', ?_⟩
  simp only [Call.aborted, Bool.and_eq_true] at haborted ⊢
  rw [hgrown.method, hgrown.ended (Phase.not_live_of_failed haborted.2)]
  exact haborted

theorem Later.broken (hl : Later s s') (h : s.Broken) : s'.Broken := by
  obtain ⟨c, k, hc, hbroken⟩ := h
  obtain ⟨k', hc', hgrown⟩ := hl c k hc
  refine ⟨c, k', hc', hbroken.imp ?_ hgrown.unrecoverable⟩
  intro hphase
  rw [hgrown.ended (by rw [hphase]; rfl), hphase]

theorem Later.withinAborted (hl : Later s s') {c : Nat} (h : s.withinAborted c) :
    s'.withinAborted c := by
  obtain ⟨k, hc, t, hmem, haborted⟩ := h
  obtain ⟨k', hc', hgrown⟩ := hl c k hc
  exact ⟨k', hc', t, hgrown.transactionIds ▸ hmem, hl.hasAborted haborted⟩

end

end System

end Reboot.Txn.CallTree
