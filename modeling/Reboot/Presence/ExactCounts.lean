import Reboot.Presence.Subscriber

/-!
# Presence counts are exact

The invariant of `SubscriberServicer` (see `Subscriber.lean`): an open connection has its event under
its key; who waits, waits for the connection that its `Toggle` saw, under whose key that event still
is; who has passed `not_present` was toggled under a connection that is closed; and of two that wait
on one event neither is told to delete the key before the other one is gone.
-/

namespace Reboot.Presence

open Reboot.Lib

/-! ## Invariant -/

/-- The workflow has found its connection gone. -/
def Task.IsOver (t : Task) : Prop :=
  t.notPresent = true ∨ t.untoggled = true ∨ t.done = true ∨
    t.phase = .returned ∨ t.phase = .passed ∨ t.phase = .wrote

structure TaskInv (s : State) (t : Task) : Prop where
  keyed : ∃ connection, s.connections[t.connection]? = some connection ∧ connection.key = t.key
  waiting : ∀ c, t.phase = .waiting c → c = t.connection ∧ s.disconnectEvents t.key = some c ∧
    ∃ connection, s.connections[c]? = some connection ∧ 0 < connection.event.waiters
  closed : t.IsOver → s.isOpen t.connection = false
  written : t.phase = .wrote ∨ t.done = true → t.untoggled = true

/-- The workflows of a state that are still to be counted off. -/
def State.counted (s : State) (stateId : Str) : Nat :=
  s.tasks.countP fun t => t.stateId = stateId && !t.untoggled

structure Inv (s : State) : Prop where
  opens : ∀ connection ∈ s.connections, connection.event.isSet = !connection.isOpen
  listed : ∀ c connection, s.connections[c]? = some connection → connection.isOpen = true →
    s.disconnectEvents connection.key = some c
  found : ∀ k c, s.disconnectEvents k = some c →
    ∃ connection, s.connections[c]? = some connection ∧ connection.key = k
  toggling : ∀ t ∈ s.toggling,
    ∃ connection, s.connections[t.connection]? = some connection ∧ connection.key = t.key
  tasks : ∀ t ∈ s.tasks, TaskInv s t
  alone : ∀ c, s.isSet c = true → s.waitingOn c ≤ 1
  count : ∀ stateId, s.toggles stateId = s.counted stateId
  failures : s.failures = []
  removals : ∀ p ∈ s.removals, p.1 = p.2

theorem isOpen_eq {s : State} {c : Nat} {connection : Connection}
    (h : s.connections[c]? = some connection) : s.isOpen c = connection.isOpen := by
  unfold State.isOpen
  rw [h, Option.any_some]

theorem isSet_eq {s : State} {c : Nat} {connection : Connection}
    (h : s.connections[c]? = some connection) : s.isSet c = connection.event.isSet := by
  unfold State.isSet
  rw [h, Option.any_some]

namespace Inv

variable {s : State}

/-- An event is set as soon as its connection is closed. -/
theorem isSet_eq_not_isOpen (h : Inv s) {c : Nat} {connection : Connection}
    (hc : s.connections[c]? = some connection) : s.isSet c = !s.isOpen c := by
  rw [isSet_eq hc, isOpen_eq hc]
  exact h.opens connection (List.mem_of_getElem? hc)

/-- While the connection of a workflow is open, its event is what the workflow finds. -/
theorem event_of_open (h : Inv s) {t : Task} (ht : TaskInv s t) (hopen : s.isOpen t.connection = true) :
    s.disconnectEvents t.key = some t.connection := by
  obtain ⟨connection, hc, hkey⟩ := ht.keyed
  rw [isOpen_eq hc] at hopen
  rw [← hkey]
  exact h.listed _ _ hc hopen

/-- What the workflow finds is set, so its connection is closed. -/
theorem closed_of_isSet (h : Inv s) {t : Task} (ht : TaskInv s t)
    (hset : ∀ c, s.disconnectEvents t.key = some c → s.isSet c = true) :
    s.isOpen t.connection = false := by
  by_contra hopen
  have hopen : s.isOpen t.connection = true := by simpa using hopen
  have hisset := hset _ (h.event_of_open ht hopen)
  obtain ⟨connection, hc, -⟩ := ht.keyed
  rw [h.isSet_eq_not_isOpen hc, hopen] at hisset
  cases hisset

end Inv

/-! ## Frames -/

/-- Connections stay; they may close, and more may wait. -/
def Extends (s s' : State) : Prop :=
  ∀ (c : Nat) (connection : Connection), s.connections[c]? = some connection →
    ∃ connection' : Connection, s'.connections[c]? = some connection' ∧ connection'.key = connection.key ∧
      (connection'.isOpen = true → connection.isOpen = true) ∧
      connection.event.waiters ≤ connection'.event.waiters

theorem Extends.of_eq {s s' : State} (h : s'.connections = s.connections) : Extends s s' :=
  fun c connection hc => ⟨connection, by rw [h]; exact hc, rfl, id, Nat.le_refl _⟩

theorem Extends.keyed {s s' : State} (h : Extends s s') {c : Nat} {k : Str}
    (hc : ∃ connection, s.connections[c]? = some connection ∧ connection.key = k) :
    ∃ connection, s'.connections[c]? = some connection ∧ connection.key = k := by
  obtain ⟨connection, hc, rfl⟩ := hc
  obtain ⟨connection', hc', hkey, -, -⟩ := h c connection hc
  exact ⟨connection', hc', hkey⟩

theorem Extends.closed {s s' : State} (h : Extends s s') {c : Nat}
    (hc : ∃ connection, s.connections[c]? = some connection) (hclosed : s.isOpen c = false) :
    s'.isOpen c = false := by
  obtain ⟨connection, hc⟩ := hc
  obtain ⟨connection', hc', -, hopen, -⟩ := h c connection hc
  rw [isOpen_eq hc] at hclosed
  rw [isOpen_eq hc']
  by_contra hopen'
  rw [hopen (by simpa using hopen')] at hclosed
  cases hclosed

/-- A workflow whose key is left alone while it waits keeps its invariant. -/
theorem TaskInv.mono {s s' : State} {t : Task} (h : TaskInv s t) (hext : Extends s s')
    (hkey : ∀ c, t.phase = .waiting c → s.disconnectEvents t.key = some c →
      s'.disconnectEvents t.key = some c) : TaskInv s' t where
  keyed := hext.keyed h.keyed
  waiting := by
    intro c hphase
    obtain ⟨hown, hdict, connection, hc, hwaiters⟩ := h.waiting c hphase
    obtain ⟨connection', hc', -, -, hle⟩ := hext c connection hc
    exact ⟨hown, hkey c hphase hdict, connection', hc', Nat.lt_of_lt_of_le hwaiters hle⟩
  closed := by
    intro hover
    obtain ⟨connection, hc, -⟩ := h.keyed
    exact hext.closed ⟨connection, hc⟩ (h.closed hover)
  written := h.written

/-- The invariant of a workflow after it went on to a phase in which it waits for nothing. -/
theorem TaskInv.setPhase {s : State} {t : Task} (h : TaskInv s t) {phase : Phase}
    (hwaiting : ∀ c, phase ≠ .waiting c)
    (hover : phase ≠ .idle → s.isOpen t.connection = false)
    (hwritten : phase = .wrote → t.untoggled = true) : TaskInv s { t with phase := phase } where
  keyed := h.keyed
  waiting := fun c hphase => absurd hphase (hwaiting c)
  closed := by
    rintro (hmemo | huntoggled | hdone | hphase | hphase | hphase)
    · exact h.closed (.inl hmemo)
    · exact h.closed (.inr (.inl huntoggled))
    · exact h.closed (.inr (.inr (.inl hdone)))
    all_goals
      have hphase : phase = _ := hphase
      exact hover (by rw [hphase]; nofun)
  written := by
    rintro (hphase | hdone)
    · exact hwritten hphase
    · exact h.written (.inr hdone)

theorem countP_set_of_eq {p : Task → Bool} {l : List Task} {i : Nat} {t t' : Task}
    (h : l[i]? = some t) (hp : p t' = p t) : (l.set i t').countP p = l.countP p := by
  obtain ⟨hi, rfl⟩ := List.getElem?_eq_some_iff.mp h
  rw [List.countP_set hi, hp]
  split
  · next hpos =>
    have := List.countP_pos_iff.mpr ⟨_, List.getElem_mem hi, hpos⟩
    omega
  · omega

theorem countP_set_of_imp {p : Task → Bool} {l : List Task} {i : Nat} {t t' : Task}
    (h : l[i]? = some t) (hp : p t' = true → p t = true) :
    (l.set i t').countP p ≤ l.countP p := by
  obtain ⟨hi, rfl⟩ := List.getElem?_eq_some_iff.mp h
  rw [List.countP_set hi]
  by_cases hnew : p t' = true
  · rw [if_pos hnew, if_pos (hp hnew)]
    have := List.countP_pos_iff.mpr ⟨_, List.getElem_mem hi, hp hnew⟩
    omega
  · rw [if_neg hnew]
    omega

theorem countP_set_of_drop {p : Task → Bool} {l : List Task} {i : Nat} {t t' : Task}
    (h : l[i]? = some t) (hold : p t = true) (hnew : p t' = false) :
    (l.set i t').countP p + 1 = l.countP p := by
  obtain ⟨hi, rfl⟩ := List.getElem?_eq_some_iff.mp h
  rw [List.countP_set hi, if_pos hold, hnew]
  have := List.countP_pos_iff.mpr ⟨_, List.getElem_mem hi, hold⟩
  simp only [Bool.false_eq_true, if_false]
  omega

/-- A workflow goes on. -/
theorem Inv.setTask {s : State} (h : Inv s) {i : Nat} {t t' : Task} (ht : s.tasks[i]? = some t)
    (ht' : TaskInv s t') (hid : t'.stateId = t.stateId) (huntoggled : t'.untoggled = t.untoggled)
    (hphase : ∀ c, t'.phase = .waiting c → s.isSet c = false) :
    Inv { s with tasks := s.tasks.set i t' } where
  opens := h.opens
  listed := h.listed
  found := h.found
  toggling := h.toggling
  tasks := by
    intro u hu
    have hu : TaskInv s u := by
      rcases List.mem_or_eq_of_mem_set hu with hold | rfl
      · exact h.tasks u hold
      · exact ht'
    exact hu.mono (.of_eq rfl) fun c _ hdict => hdict
  alone := by
    intro c hset
    refine Nat.le_trans (countP_set_of_imp ht fun hnew => ?_) (h.alone c hset)
    have hset : s.isSet c = true := hset
    rw [hphase c (by simpa using hnew)] at hset
    cases hset
  count := by
    intro stateId
    exact (h.count stateId).trans (countP_set_of_eq ht (by rw [hid, huntoggled])).symm
  failures := h.failures
  removals := h.removals

theorem Inv.setPhase {s : State} (h : Inv s) {i : Nat} {t : Task} (ht : s.tasks[i]? = some t)
    {phase : Phase} (hwaiting : ∀ c, phase ≠ .waiting c)
    (hover : phase ≠ .idle → s.isOpen t.connection = false)
    (hwritten : phase = .wrote → t.untoggled = true) : Inv (s.setPhase i t phase) :=
  h.setTask ht ((h.tasks t (List.mem_of_getElem? ht)).setPhase hwaiting hover hwritten) rfl rfl
    fun c hphase => absurd hphase (hwaiting c)

/-! ## Connections -/

theorem getElem?_set_cases {l : List Connection} {c d : Nat} {new connection : Connection}
    (h : (l.set c new)[d]? = some connection) :
    (d = c ∧ connection = new ∧ c < l.length) ∨ (d ≠ c ∧ l[d]? = some connection) := by
  rw [List.getElem?_set] at h
  by_cases hd : c = d
  · rw [if_pos hd] at h
    split at h
    · next hlt =>
      cases h
      exact .inl ⟨hd.symm, rfl, hlt⟩
    · cases h
  · rw [if_neg hd] at h
    exact .inr ⟨Ne.symm hd, h⟩

/-- A connection is replaced by one that is like it. -/
theorem Extends.set {s : State} {c : Nat} {connection : Connection} (new : Connection)
    (hc : s.connections[c]? = some connection) (hkey : new.key = connection.key)
    (hopen : new.isOpen = true → connection.isOpen = true)
    (hwaiters : connection.event.waiters ≤ new.event.waiters) {s' : State}
    (hs' : s'.connections = s.connections.set c new) : Extends s s' := by
  intro d old hd
  rw [hs']
  by_cases hdc : d = c
  · subst hdc
    rw [hc] at hd
    cases hd
    refine ⟨new, ?_, hkey, hopen, hwaiters⟩
    rw [List.getElem?_set_self (List.getElem?_eq_some_iff.mp hc).1]
  · refine ⟨old, ?_, rfl, id, Nat.le_refl _⟩
    rw [List.getElem?_set_ne (Ne.symm hdc)]
    exact hd

theorem Inv.connect {s : State} (h : Inv s) {k : Str} (hk : s.disconnectEvents k = none) :
    Inv { s with
      connections := s.connections ++ [⟨k, ⟨0, false⟩, true⟩]
      disconnectEvents := Function.update s.disconnectEvents k (some s.connections.length) } := by
  have hold : ∀ {c : Nat} {connection : Connection}, s.connections[c]? = some connection →
      (s.connections ++ [⟨k, ⟨0, false⟩, true⟩])[c]? = some connection := fun hc => by
    rw [List.getElem?_append_left (List.getElem?_eq_some_iff.mp hc).1]
    exact hc
  have hcases : ∀ {c : Nat} {connection : Connection},
      (s.connections ++ [⟨k, ⟨0, false⟩, true⟩])[c]? = some connection →
      s.connections[c]? = some connection ∨
        (c = s.connections.length ∧ connection = ⟨k, ⟨0, false⟩, true⟩) := fun {c connection} hc => by
    rw [List.getElem?_append] at hc
    split at hc
    · exact .inl hc
    · next hlt =>
      have hc := List.getElem?_eq_some_iff.mp hc
      simp only [List.length_singleton, List.getElem_singleton] at hc
      obtain ⟨hzero, rfl⟩ := hc
      exact .inr ⟨by omega, rfl⟩
  have hne : ∀ {k' : Str} {c : Nat}, s.disconnectEvents k' = some c → k' ≠ k := fun hk' heq => by
    rw [heq, hk] at hk'
    cases hk'
  have hext : Extends s { s with
      connections := s.connections ++ [⟨k, ⟨0, false⟩, true⟩]
      disconnectEvents := Function.update s.disconnectEvents k (some s.connections.length) } :=
    fun c connection hc => ⟨connection, hold hc, rfl, id, Nat.le_refl _⟩
  refine
    { opens := ?_, listed := ?_, found := ?_, toggling := fun t ht => hext.keyed (h.toggling t ht),
      tasks := ?_, alone := ?_, count := h.count, failures := h.failures, removals := h.removals }
  · intro connection hmem
    rcases List.mem_append.mp hmem with hmem | hmem
    · exact h.opens connection hmem
    · obtain rfl := List.mem_singleton.mp hmem
      rfl
  · intro c connection hc hopen
    rcases hcases hc with hc | ⟨rfl, rfl⟩
    · have hdict := h.listed c connection hc hopen
      exact (Function.update_of_ne (hne hdict) _ _).trans hdict
    · exact Function.update_self ..
  · intro k' c hk'
    have hk' : Function.update s.disconnectEvents k (some s.connections.length) k' = some c := hk'
    by_cases heq : k' = k
    · subst heq
      rw [Function.update_self] at hk'
      cases hk'
      exact ⟨⟨k', ⟨0, false⟩, true⟩, by simp, rfl⟩
    · rw [Function.update_of_ne heq] at hk'
      exact hext.keyed (h.found k' c hk')
  · intro t ht
    exact (h.tasks t ht).mono hext fun c _ hdict =>
      (Function.update_of_ne (hne hdict) _ _).trans hdict
  · intro c hset
    refine h.alone c ?_
    unfold State.isSet at hset ⊢
    obtain ⟨connection, hc, hisset⟩ := (Option.any_eq_true ..).mp hset
    rcases hcases hc with hc | ⟨rfl, rfl⟩
    · rw [hc]
      exact hisset
    · cases hisset

/-- Another one waits. -/
theorem Inv.addWaiter {s : State} (h : Inv s) {c : Nat} {connection : Connection}
    (hc : s.connections[c]? = some connection) :
    Inv { s with connections := s.connections.set c connection.addWaiter } := by
  have hext : Extends s { s with connections := s.connections.set c connection.addWaiter } :=
    .set connection.addWaiter hc rfl id (Nat.le_succ _) rfl
  refine
    { opens := ?_, listed := ?_, found := fun k d hk => hext.keyed (h.found k d hk),
      toggling := fun t ht => hext.keyed (h.toggling t ht),
      tasks := fun t ht => (h.tasks t ht).mono hext fun d _ hdict => hdict,
      alone := ?_, count := h.count, failures := h.failures, removals := h.removals }
  · intro connection' hmem
    rcases List.mem_or_eq_of_mem_set hmem with hmem | rfl
    · exact h.opens connection' hmem
    · exact h.opens connection (List.mem_of_getElem? hc)
  · intro d connection' hd hopen
    rcases getElem?_set_cases hd with ⟨rfl, rfl, -⟩ | ⟨-, hd⟩
    · exact h.listed d connection hc hopen
    · exact h.listed d connection' hd hopen
  · intro d hset
    refine h.alone d ?_
    unfold State.isSet at hset ⊢
    obtain ⟨connection', hd, hisset⟩ := (Option.any_eq_true ..).mp hset
    rcases getElem?_set_cases hd with ⟨rfl, rfl, -⟩ | ⟨-, hd⟩
    · rw [hc]
      exact hisset
    · rw [hd]
      exact hisset

/-- A connection on which one workflow waits, or none, is closed. -/
theorem Inv.disconnect {s : State} (h : Inv s) {c : Nat} {connection : Connection}
    (hc : s.connections[c]? = some connection) (hopen : connection.isOpen = true)
    (halone : s.waitingOn c ≤ 1) : Inv (s.disconnect c connection) := by
  have hdict := h.listed c connection hc hopen
  have hshape : ∃ events, s.disconnect c connection =
      { s with connections := s.connections.set c connection.close, disconnectEvents := events } ∧
      (∀ k, events k = s.disconnectEvents k ∨
        (k = connection.key ∧ events k = none ∧ connection.event.waiters = 0)) := by
    unfold State.disconnect
    rw [hdict]
    by_cases hwaiters : connection.event.waiters = 0
    · refine ⟨Function.update s.disconnectEvents connection.key none, ?_, fun k => ?_⟩
      · rw [if_pos hwaiters]
      · by_cases hk : k = connection.key
        · subst hk
          exact .inr ⟨rfl, Function.update_self .., hwaiters⟩
        · exact .inl (Function.update_of_ne hk ..)
    · exact ⟨s.disconnectEvents, by rw [if_neg hwaiters], fun _ => .inl rfl⟩
  obtain ⟨events, heq, hevents⟩ := hshape
  rw [heq]
  have hext : Extends s { s with
      connections := s.connections.set c connection.close, disconnectEvents := events } :=
    .set connection.close hc rfl nofun (Nat.le_refl _) rfl
  refine
    { opens := ?_, listed := ?_, found := ?_, toggling := fun t ht => hext.keyed (h.toggling t ht),
      tasks := ?_, alone := ?_, count := h.count, failures := h.failures, removals := h.removals }
  · intro connection' hmem
    rcases List.mem_or_eq_of_mem_set hmem with hmem | rfl
    · exact h.opens connection' hmem
    · rfl
  · intro d connection' hd hopen'
    rcases getElem?_set_cases hd with ⟨-, rfl, -⟩ | ⟨hne, hd⟩
    · cases hopen'
    · have hdict' := h.listed d connection' hd hopen'
      rcases hevents connection'.key with hsame | ⟨hk, -, -⟩
      · exact hsame.trans hdict'
      · rw [hk, hdict] at hdict'
        exact absurd (Option.some.inj hdict').symm hne
  · intro k d hk
    rcases hevents k with hsame | ⟨-, hnone, -⟩
    · exact hext.keyed (h.found k d (hsame ▸ hk))
    · have hk : events k = some d := hk
      rw [hnone] at hk
      cases hk
  · intro t ht
    refine (h.tasks t ht).mono hext fun d hphase hd => ?_
    rcases hevents t.key with hsame | ⟨hk, -, hzero⟩
    · exact hsame.trans hd
    · -- nobody waits on the event
      rw [hk, hdict] at hd
      cases hd
      obtain ⟨-, -, connection', hc', hwaiters⟩ := (h.tasks t ht).waiting c hphase
      rw [hc] at hc'
      cases hc'
      omega
  · intro d hset
    by_cases hd : d = c
    · subst hd
      exact halone
    · refine h.alone d ?_
      unfold State.isSet at hset ⊢
      rwa [List.getElem?_set_ne (Ne.symm hd)] at hset

/-- The process ends. -/
theorem Inv.restart {s : State} (h : Inv s) : Inv { s with
    connections := s.connections.map Connection.close
    disconnectEvents := fun _ => none
    toggling := []
    tasks := s.tasks.map fun t => { t with phase := .idle } } := by
  have hclosed : ∀ connection ∈ s.connections.map Connection.close,
      connection.isOpen = false ∧ connection.event.isSet = true := by
    intro connection hmem
    obtain ⟨connection', -, rfl⟩ := List.mem_map.mp hmem
    exact ⟨rfl, rfl⟩
  have hext : Extends s { s with
      connections := s.connections.map Connection.close, disconnectEvents := fun _ => none,
      toggling := [], tasks := s.tasks.map fun t => { t with phase := .idle } } := by
    intro c connection hc
    refine ⟨connection.close, ?_, rfl, nofun, Nat.le_refl _⟩
    show (s.connections.map Connection.close)[c]? = _
    rw [List.getElem?_map, hc, Option.map_some]
  refine
    { opens := ?_, listed := ?_, found := nofun, toggling := nofun, tasks := ?_, alone := ?_, count := ?_,
      failures := h.failures, removals := h.removals }
  · intro connection hmem
    obtain ⟨hopen, hset⟩ := hclosed connection hmem
    rw [hopen, hset]
    rfl
  · intro c connection hc hopen
    rw [(hclosed connection (List.mem_of_getElem? hc)).1] at hopen
    cases hopen
  · intro t ht
    obtain ⟨t, hmem, rfl⟩ := List.mem_map.mp ht
    have hidle : TaskInv s { t with phase := .idle } :=
      (h.tasks t hmem).setPhase nofun (fun hne => absurd rfl hne) nofun
    exact hidle.mono hext nofun
  · intro c _
    unfold State.waitingOn
    rw [List.countP_map, List.countP_eq_zero.mpr fun t _ => by simp]
    exact Nat.zero_le _
  · intro stateId
    refine (h.count stateId).trans ?_
    unfold State.counted
    rw [List.countP_map]
    rfl

/-! ## Workflows -/

/-- Who was told to delete the key, and nobody else waits on the event. -/
theorem Inv.deleteKey {s : State} (h : Inv s) {k : Str} {c : Nat} (hk : s.disconnectEvents k = some c)
    (hset : s.isSet c = true) (hnone : s.waitingOn c = 0) :
    Inv { s with
      disconnectEvents := Function.update s.disconnectEvents k none
      removals := (c, c) :: s.removals } := by
  have hne : ∀ {k' : Str} {d : Nat}, s.disconnectEvents k' = some d → d ≠ c → k' ≠ k :=
    fun hk' hd heq => by
      rw [heq, hk] at hk'
      exact hd (Option.some.inj hk').symm
  refine
    { opens := h.opens, listed := ?_, found := ?_, toggling := h.toggling, tasks := ?_,
      alone := h.alone, count := h.count, failures := h.failures, removals := ?_ }
  · intro d connection hd hopen
    have hdict := h.listed d connection hd hopen
    refine (Function.update_of_ne (hne hdict fun hdc => ?_) _ _).trans hdict
    -- what is set is closed
    have hd : s.connections[d]? = some connection := hd
    rw [hdc] at hd
    rw [h.isSet_eq_not_isOpen hd, isOpen_eq hd, hopen] at hset
    cases hset
  · intro k' d hk'
    have hk' : Function.update s.disconnectEvents k none k' = some d := hk'
    by_cases heq : k' = k
    · rw [heq, Function.update_self] at hk'
      cases hk'
    · rw [Function.update_of_ne heq] at hk'
      exact h.found k' d hk'
  · intro t ht
    refine (h.tasks t ht).mono (.of_eq rfl) fun d hphase hdict =>
      (Function.update_of_ne (hne hdict fun hdc => ?_) _ _).trans hdict
    have hzero := List.countP_eq_zero.mp hnone t ht
    rw [hphase, hdc] at hzero
    simp at hzero
  · intro p hp
    rcases List.mem_cons.mp hp with rfl | hp
    · rfl
    · exact h.removals p hp

theorem Inv.resume {s : State} (h : Inv s) {i : Nat} {t : Task} (ht : s.tasks[i]? = some t) {c : Nat}
    (hphase : t.phase = .waiting c) (hset : s.isSet c = true) : Inv (s.deleteKey i t) := by
  have htask := h.tasks t (List.mem_of_getElem? ht)
  obtain ⟨rfl, hdict, connection, hc, -⟩ := htask.waiting c hphase
  have hclosed : s.isOpen t.connection = false := by
    rw [h.isSet_eq_not_isOpen hc] at hset
    simpa using hset
  unfold State.deleteKey
  rw [hdict]
  have hset' : Inv (s.setPhase i t .returned) := h.setPhase ht nofun (fun _ => hclosed) nofun
  refine hset'.deleteKey hdict hset ?_
  have hone := h.alone t.connection hset
  have hdrop : (s.tasks.set i { t with phase := .returned }).countP (·.phase = .waiting t.connection) + 1 =
      s.tasks.countP (·.phase = .waiting t.connection) :=
    countP_set_of_drop ht (by simp [hphase]) (by simp)
  unfold State.waitingOn at hone ⊢
  rw [← hdrop] at hone
  exact Nat.le_zero.mp (Nat.le_of_succ_le_succ hone)

/-- The workflow has looked for its key and has not found a connection that another `Connect` opened. -/
theorem Inv.notPresent {s : State} (h : Inv s) {i : Nat} {t : Task} (ht : s.tasks[i]? = some t)
    (hown : s.ownOrSet t = true) : Inv (s.notPresent i t) := by
  have htask := h.tasks t (List.mem_of_getElem? ht)
  have hreturned (hall : ∀ c, s.disconnectEvents t.key = some c → s.isSet c = true) :
      Inv (s.setPhase i t .returned) :=
    h.setPhase ht nofun (fun _ => h.closed_of_isSet htask hall) nofun
  unfold State.notPresent
  unfold State.ownOrSet at hown
  split
  · next hnone =>
    exact hreturned fun c hc => by rw [hnone] at hc; cases hc
  · next c hc =>
    obtain ⟨connection, hconnection, hkey⟩ := h.found _ c hc
    rw [hconnection]
    rw [hc, Option.all_some, isSet_eq hconnection] at hown
    show Inv (if connection.event.isSet = true then _ else _)
    by_cases hset : connection.event.isSet = true
    · rw [if_pos hset]
      refine hreturned fun d hd => ?_
      rw [hc] at hd
      cases hd
      rw [isSet_eq hconnection]
      exact hset
    · rw [if_neg hset]
      have hownc : c = t.connection := by simpa [hset] using hown
      have hmore := h.addWaiter hconnection
      have hsame : ({ s with connections := s.connections.set c connection.addWaiter } : State).connections[c]? =
          some connection.addWaiter :=
        List.getElem?_set_self (List.getElem?_eq_some_iff.mp hconnection).1
      refine hmore.setTask ht ?_ rfl rfl ?_
      · have htask' := hmore.tasks t (List.mem_of_getElem? ht)
        refine ⟨htask'.keyed, ?_, ?_, ?_⟩
        · intro d hphase
          cases hphase
          exact ⟨hownc, hc, _, hsame, Nat.succ_pos _⟩
        · rintro (hmemo | huntoggled | hdone | hphase | hphase | hphase)
          · exact htask'.closed (.inl hmemo)
          · exact htask'.closed (.inr (.inl huntoggled))
          · exact htask'.closed (.inr (.inr (.inl hdone)))
          all_goals cases hphase
        · rintro (hphase | hdone)
          · cases hphase
          · exact htask'.written (.inr hdone)
      · intro d hphase
        cases hphase
        rw [isSet_eq hsame]
        exact (Bool.not_eq_true _).mp hset

/-- The write of `untoggle` finds something to count off. -/
theorem Inv.untoggle {s : State} (h : Inv s) {i : Nat} {t : Task} (ht : s.tasks[i]? = some t)
    (hphase : t.phase = .passed) : Inv (s.untoggle i t) := by
  have hmem := List.mem_of_getElem? ht
  have htask := h.tasks t hmem
  have hclosed := htask.closed (.inr (.inr (.inr (.inr (.inl hphase)))))
  unfold State.untoggle
  by_cases huntoggled : t.untoggled = true
  · rw [if_pos huntoggled]
    exact h.setPhase ht nofun (fun _ => hclosed) fun _ => huntoggled
  · rw [if_neg huntoggled]
    have huntoggled : t.untoggled = false := by simpa using huntoggled
    have hpos : 0 < s.counted t.stateId :=
      List.countP_pos_iff.mpr ⟨t, hmem, by simp [huntoggled]⟩
    rw [if_neg (by rw [h.count]; omega)]
    refine
      { opens := h.opens, listed := h.listed, found := h.found, toggling := h.toggling, tasks := ?_,
        alone := ?_, count := ?_, failures := h.failures, removals := h.removals }
    · intro u hu
      rcases List.mem_or_eq_of_mem_set hu with hold | rfl
      · exact (h.tasks u hold).mono (.of_eq rfl) fun c _ hdict => hdict
      · exact ⟨htask.keyed, nofun, fun _ => hclosed, fun _ => rfl⟩
    · intro c hset
      exact Nat.le_trans (countP_set_of_imp ht fun hnew => by simp at hnew) (h.alone c hset)
    · intro stateId
      unfold State.counted
      by_cases hid : stateId = t.stateId
      · subst hid
        have hdrop : (s.tasks.set i { t with untoggled := true, phase := .wrote }).countP
            (fun u => u.stateId = t.stateId && !u.untoggled) + 1 = s.counted t.stateId :=
          countP_set_of_drop ht (by simp [huntoggled]) (by simp)
        show Function.update _ _ _ _ = _
        rw [Function.update_self, h.count, ← hdrop, Nat.add_sub_cancel]
      · show Function.update _ _ _ _ = _
        rw [Function.update_of_ne hid, h.count]
        exact (countP_set_of_eq ht (by simp [Ne.symm hid])).symm

/-- Other `Toggle`s have found their keys. -/
theorem Inv.setToggling {s : State} (h : Inv s) {toggling : List Toggling}
    (hkeyed : ∀ t ∈ toggling,
      ∃ connection, s.connections[t.connection]? = some connection ∧ connection.key = t.key) :
    Inv { s with toggling := toggling } where
  opens := h.opens
  listed := h.listed
  found := h.found
  toggling := hkeyed
  tasks := fun t ht => (h.tasks t ht).mono (.of_eq rfl) fun _ _ hdict => hdict
  alone := h.alone
  count := h.count
  failures := h.failures
  removals := h.removals

theorem Inv.eraseToggling {s : State} (h : Inv s) (i : Nat) :
    Inv { s with toggling := s.toggling.eraseIdx i } :=
  h.setToggling fun t ht => h.toggling t (List.mem_of_mem_eraseIdx ht)

/-- A `Toggle` commits. -/
theorem Inv.commitToggle {s : State} (h : Inv s) {i : Nat} {t : Toggling}
    (ht : s.toggling[i]? = some t) :
    Inv { s with
      toggling := s.toggling.eraseIdx i
      toggles := Function.update s.toggles t.stateId (s.toggles t.stateId + 1)
      tasks := s.tasks ++ [⟨t.stateId, t.nonce, t.connection, false, false, false, .idle⟩] } := by
  refine
    { opens := h.opens, listed := h.listed, found := h.found,
      toggling := fun u hu => h.toggling u (List.mem_of_mem_eraseIdx hu), tasks := ?_, alone := ?_,
      count := ?_, failures := h.failures, removals := h.removals }
  · intro u hu
    rcases List.mem_append.mp hu with hold | hnew
    · exact (h.tasks u hold).mono (.of_eq rfl) fun c _ hdict => hdict
    · obtain rfl := List.mem_singleton.mp hnew
      refine ⟨h.toggling t (List.mem_of_getElem? ht), nofun, ?_, by simp⟩
      intro hover
      simp [Task.IsOver] at hover
  · intro c hset
    have hone := h.alone c hset
    unfold State.waitingOn at hone ⊢
    rw [List.countP_append]
    simpa using hone
  · intro stateId
    unfold State.counted
    rw [List.countP_append]
    show Function.update _ _ _ _ = _
    by_cases hid : stateId = t.stateId
    · subst hid
      rw [Function.update_self, h.count]
      simp [State.counted]
    · rw [Function.update_of_ne hid, h.count]
      simp [State.counted, Ne.symm hid]

/-! ## Runs -/

theorem Inv.init : Inv State.init where
  opens := nofun
  listed := nofun
  found := nofun
  toggling := nofun
  tasks := nofun
  alone := fun _ _ => Nat.zero_le _
  count := fun _ => rfl
  failures := rfl
  removals := nofun

theorem Inv.step {s s' : State} {a : Action} (h : Inv s) (hok : StepOk s a)
    (hs : step s a = some s') : Inv s' := by
  cases a with
  | connect stateId nonce =>
    unfold Presence.step at hs
    dsimp only at hs
    split at hs
    · cases hs
      exact h
    · next hk =>
      cases hs
      exact h.connect hk
  | disconnect c =>
    unfold Presence.step at hs
    dsimp only at hs
    split at hs
    · next connection hc =>
      split at hs
      · next hopen =>
        cases hs
        exact h.disconnect hc hopen (by simpa [StepOk, stepOk] using hok)
      · cases hs
    · cases hs
  | toggle stateId nonce =>
    unfold Presence.step at hs
    dsimp only at hs
    split at hs
    · cases hs
      exact h
    · next c hc =>
      cases hs
      refine h.setToggling fun t ht => ?_
      rcases List.mem_append.mp ht with hold | hnew
      · exact h.toggling t hold
      · obtain rfl := List.mem_singleton.mp hnew
        exact h.found _ c hc
  | commitToggle i =>
    unfold Presence.step at hs
    dsimp only at hs
    split at hs
    · cases hs
    · next t ht =>
      split at hs
      · cases hs
        exact h.eraseToggling i
      · cases hs
        exact h.commitToggle ht
  | abortToggle i =>
    unfold Presence.step at hs
    dsimp only at hs
    split at hs
    · cases hs
      exact h.eraseToggling i
    · cases hs
  | start i =>
    unfold Presence.step at hs
    dsimp only at hs
    split at hs
    · next t ht =>
      split at hs
      · split at hs
        · next hmemo =>
          cases hs
          have hclosed := (h.tasks t (List.mem_of_getElem? ht)).closed (.inl hmemo)
          exact h.setPhase ht nofun (fun _ => hclosed) nofun
        · next hmemo =>
          cases hs
          have hok : s.tasks[i]?.all (fun t => t.notPresent || s.ownOrSet t) = true := hok
          rw [ht, Option.all_some] at hok
          exact h.notPresent ht (by simpa [hmemo] using hok)
      · cases hs
    · cases hs
  | resume i =>
    unfold Presence.step at hs
    dsimp only at hs
    split at hs
    · next t ht =>
      split at hs
      · next c hphase =>
        split at hs
        · next hset =>
          cases hs
          exact h.resume ht hphase hset
        · cases hs
      · cases hs
    · cases hs
  | memoize i =>
    unfold Presence.step at hs
    dsimp only at hs
    split at hs
    · next t ht =>
      split at hs
      · next hphase =>
        cases hs
        have htask := h.tasks t (List.mem_of_getElem? ht)
        have hclosed := htask.closed (.inr (.inr (.inr (.inl hphase))))
        refine h.setTask ht ⟨htask.keyed, nofun, fun _ => hclosed, ?_⟩ rfl rfl nofun
        rintro (hphase | hdone)
        · cases hphase
        · exact htask.written (.inr hdone)
      · cases hs
    · cases hs
  | untoggle i =>
    unfold Presence.step at hs
    dsimp only at hs
    split at hs
    · next t ht =>
      split at hs
      · next hphase =>
        cases hs
        exact h.untoggle ht hphase
      · cases hs
    · cases hs
  | finish i =>
    unfold Presence.step at hs
    dsimp only at hs
    split at hs
    · next t ht =>
      split at hs
      · next hphase =>
        cases hs
        have htask := h.tasks t (List.mem_of_getElem? ht)
        have hclosed := htask.closed (.inr (.inr (.inr (.inr (.inr hphase)))))
        exact h.setTask ht ⟨htask.keyed, nofun, fun _ => hclosed, fun _ => htask.written (.inl hphase)⟩
          rfl rfl nofun
      · cases hs
    · cases hs
  | retry i =>
    unfold Presence.step at hs
    dsimp only at hs
    split at hs
    · next t ht =>
      cases hs
      exact h.setPhase ht nofun (fun hne => absurd rfl hne) nofun
    · cases hs
  | restart =>
    cases hs
    exact h.restart

theorem countP_split {l : List Task} {p q : Task → Bool} :
    l.countP p = l.countP (fun t => p t && !q t) + l.countP fun t => p t && q t := by
  induction l with
  | nil => rfl
  | cons t l ih =>
    simp only [List.countP_cons, ih]
    cases p t <;> cases q t <;> simp <;> omega

theorem Inv.exact {s : State} (h : Inv s) : s.Exact where
  count := by
    intro stateId
    rw [h.count]
    exact countP_split.symm
  raisesNothing := h.failures
  ownEvent := by
    intro p hp
    rw [h.removals p hp]
    exact Nat.lt_irrefl _
  status := by
    intro hsettled stateId
    unfold State.present
    rw [decide_eq_true_eq, h.count, State.counted, List.countP_pos_iff]
    constructor
    · rintro ⟨t, ht, hcounted⟩
      obtain ⟨hid, huntoggled⟩ := (Bool.and_eq_true _ _).mp hcounted
      refine ⟨t, ht, by simpa using hid, ?_⟩
      rcases hsettled t ht with hdone | ⟨c, hphase, hset⟩
      · rw [(h.tasks t ht).written (.inr hdone)] at huntoggled
        cases huntoggled
      · obtain ⟨rfl, -, connection, hc, -⟩ := (h.tasks t ht).waiting c hphase
        rw [h.isSet_eq_not_isOpen hc] at hset
        simpa using hset
    · rintro ⟨t, ht, rfl, hopen⟩
      refine ⟨t, ht, ?_⟩
      have huntoggled : t.untoggled = false := by
        by_contra hover
        rw [(h.tasks t ht).closed (.inr (.inl (by simpa using hover)))] at hopen
        cases hopen
      simp [huntoggled]

/-- In a run in which no connection ends on which two workflows wait, and no workflow comes to look for
its key while it is that of another connection that is open, the counts are exact in every state. -/
theorem presence_exact {s : State} (h : Reach step StepOk State.init s) : s.Exact :=
  (h.invariant Inv Inv.init fun _ _ _ hinv hok hs => hinv.step hok hs).exact

/-- A connection that is toggled, waited for and closed. -/
def oneVisit : List Action :=
  [.connect ['a'] ['n'], .toggle ['a'] ['n'], .commitToggle 0, .start 0, .disconnect 0, .resume 0,
    .memoize 0, .untoggle 0, .finish 0]

theorem presence_exact_oneVisit : (last step State.init oneVisit).Exact := by
  have hreach : Reach step StepOk State.init (last step State.init oneVisit) :=
    reach_last oneVisit .init (by decide)
  exact presence_exact hreach

/-- A connection that is toggled twice. -/
def twoToggles : List Action :=
  [.connect ['a'] ['n'], .toggle ['a'] ['n'], .commitToggle 0, .toggle ['a'] ['n'], .commitToggle 0,
    .start 0, .start 1, .disconnect 0, .resume 0, .resume 1]

/-- A connection that ends with the process, and is opened again before the workflow is run again. -/
def reconnected : List Action :=
  [.connect ['a'] ['n'], .toggle ['a'] ['n'], .commitToggle 0, .start 0, .restart,
    .connect ['a'] ['n'], .start 0]

/-- The second waiter raises a `KeyError`; and a subscriber is present whose toggled connection is
closed. -/
theorem presence_inexact :
    (¬ ∀ s, Reach step (fun _ _ => True) State.init s → s.failures = []) ∧
      ¬ ∀ s, Reach step (fun _ _ => True) State.init s → s.Exact := by
  constructor
  · intro h
    have hreach : Reach step (fun _ _ => True) State.init (last step State.init twoToggles) :=
      reach_last twoToggles .init (by decide)
    have hnone := h _ hreach
    revert hnone
    decide
  · intro h
    have hreach : Reach step (fun _ _ => True) State.init (last step State.init reconnected) :=
      reach_last reconnected .init (by decide)
    have hsettled : (last step State.init reconnected).Settled := by
      intro t ht
      have htasks : (last step State.init reconnected).tasks =
          [⟨['a'], ['n'], 0, false, false, false, .waiting 1⟩] := by decide
      rw [htasks] at ht
      obtain rfl := List.mem_singleton.mp ht
      exact .inr ⟨1, rfl, by decide⟩
    obtain ⟨t, ht, -, hopen⟩ := ((h _ hreach).status hsettled ['a']).mp (by decide)
    have hclosed : ∀ t ∈ (last step State.init reconnected).tasks,
        (last step State.init reconnected).isOpen t.connection = false := by decide
    rw [hclosed t ht] at hopen
    cases hopen

end Reboot.Presence
