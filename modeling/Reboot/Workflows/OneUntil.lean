import Mathlib.Data.List.Basic
import Reboot.Workflows.Reactively

/-!
# One `until` at a time

As long as no `until` is called while another one is open, `context.react` is the `React` of the one
that is open, and everything that would wake it reaches it.

> `missesNothing`: in every run whose steps meet `StepOk`, every state is `MissesNothing`.

`Live` is what makes waiting safe: what the condition has read from a query is its last response,
and the query is ready for the next one, unless the event is set already.
-/

namespace Reboot.Workflows

open Reboot.Lib

/-! ## A stream in order -/

/-- What a query has last received, and then what it will receive. -/
def Query.chain (q : Query) : List Nat := q.response.toList ++ q.pipe

/-- The stream of a reader whose version is `server`, after `delivered` was received. -/
structure QueryOk (server delivered : Nat) (q : Query) : Prop where
  sorted : q.chain.Pairwise (· ≤ ·)
  last : q.chain.getLast? = some server
  upper : ∀ x ∈ q.chain, x ≤ server
  lower : ∀ x ∈ q.chain, delivered ≤ x

variable {server delivered : Nat} {q : Query}

/-- A new query is sent the version of the reader at once. -/
theorem QueryOk.start (h : delivered ≤ server) (used invalidated : Bool) :
    QueryOk server delivered ⟨[server], none, used, invalidated⟩ := by
  constructor <;> simp [Query.chain, h]

/-- The reader changes, and the server has one more response to send. -/
theorem QueryOk.push (h : QueryOk server delivered q) (hd : delivered ≤ server) :
    QueryOk (server + 1) delivered { q with pipe := q.pipe ++ [server + 1] } := by
  have hchain : ({ q with pipe := q.pipe ++ [server + 1] } : Query).chain =
      q.chain ++ [server + 1] := (List.append_assoc ..).symm
  constructor <;> rw [hchain]
  · refine List.pairwise_append.mpr ⟨h.sorted, List.pairwise_singleton .., fun a ha b hb => ?_⟩
    have := h.upper a ha
    rw [List.mem_singleton.mp hb]
    omega
  · simp
  · intro x hx
    rcases List.mem_append.mp hx with hx' | hx'
    · have := h.upper x hx'
      omega
    · exact Nat.le_of_eq (List.mem_singleton.mp hx')
  · intro x hx
    rcases List.mem_append.mp hx with hx' | hx'
    · exact h.lower x hx'
    · rw [List.mem_singleton.mp hx']
      omega

/-- That a response was used, or is outdated, says nothing about what was sent. -/
theorem QueryOk.use (h : QueryOk server delivered q) (used invalidated : Bool) :
    QueryOk server delivered { q with used := used, invalidated := invalidated } :=
  ⟨h.sorted, h.last, h.upper, h.lower⟩

/-- After a reconnect the server starts over from its version; what was sent and not received is
lost. -/
theorem QueryOk.reconnect (h : QueryOk server delivered q) (hd : delivered ≤ server) :
    QueryOk server delivered { q with pipe := [server] } := by
  have hresponse : ∀ x ∈ q.response.toList, x ∈ q.chain := fun x hx => List.mem_append_left _ hx
  constructor
  · refine List.pairwise_append.mpr ⟨?_, List.pairwise_singleton .., fun a ha b hb => ?_⟩
    · cases q.response <;> simp
    · rw [List.mem_singleton.mp hb]
      exact h.upper a (hresponse a ha)
  · simp [Query.chain]
  · intro x hx
    rcases List.mem_append.mp hx with hx' | hx'
    · exact h.upper x (hresponse x hx')
    · exact Nat.le_of_eq (List.mem_singleton.mp hx')
  · intro x hx
    rcases List.mem_append.mp hx with hx' | hx'
    · exact h.lower x (hresponse x hx')
    · rw [List.mem_singleton.mp hx']
      exact hd

/-- The next response is received. -/
theorem QueryOk.receive (h : QueryOk server delivered q) {v : Nat} {rest : List Nat}
    (hpipe : q.pipe = v :: rest) :
    v ≤ server ∧ delivered ≤ v ∧
      QueryOk server v { q with pipe := rest, response := some v, used := false } := by
  have hsuffix : q.chain = q.response.toList ++ v :: rest := by rw [Query.chain, hpipe]
  have hmem : ∀ x ∈ v :: rest, x ∈ q.chain := fun x hx => by
    rw [hsuffix]
    exact List.mem_append_right _ hx
  have hsorted := h.sorted
  have hlast := h.last
  rw [hsuffix] at hsorted hlast
  have hvrest := (List.pairwise_append.mp hsorted).2.1
  refine ⟨h.upper v (hmem v (by simp)), h.lower v (hmem v (by simp)), hvrest, ?_,
    fun x hx => h.upper x (hmem x hx), fun x hx => ?_⟩
  · show (v :: rest).getLast? = some server
    rwa [List.getLast?_append_of_ne_nil _ (List.cons_ne_nil v rest)] at hlast
  · rcases List.mem_cons.mp hx with rfl | hx'
    · exact Nat.le_refl _
    · exact (List.pairwise_cons.mp hvrest).1 x hx'

/-- What was read is the last response, and everything was received. -/
theorem QueryOk.eq_of_received (h : QueryOk server delivered q) {v : Nat}
    (hv : q.response = some v) (hpipe : q.pipe = []) : v = server := by
  have hlast := h.last
  rw [Query.chain, hv, hpipe] at hlast
  exact Option.some.inj hlast

namespace Workflow

/-! ## The invariant -/

/-- What holds of all streams. -/
structure Streams (s : Workflow) : Prop where
  delivered : ∀ a, s.delivered a ≤ s.server a
  idle : ∀ (r : Nat) (R : React), s.reacts[r]? = some R → s.current ≠ some r → ∀ a, R.queries a = none
  query : ∀ (r : Nat) (R : React), s.reacts[r]? = some R → ∀ a q, R.queries a = some q →
    QueryOk (s.server a) (s.delivered a) q
  newest : s.stale = []

/-- It has returned or raised, and no longer watches the state. -/
def Closed (u : Until) : Prop :=
  (u.phase = .done .returned ∨ u.phase = .done .raised) ∧ u.watcher = .stopped

/-- An `until` and its `React`, while the reader `pending` is being called. -/
structure Live (s : Workflow) (u : Until) (R : React) (pending : Option Reader) : Prop where
  cancelled : R.cancelled = false
  iteration : R.iteration = u.iteration
  watcher : u.watcher = .created ∨ ∃ p, u.watcher = .watching p
  reads : ∀ a v, pending ≠ some a → u.reads.lookup a = some v →
    R.event = true ∨ ∃ q, R.queries a = some q ∧ q.response = some v ∧ q.used = true
  own : ∀ v, u.readOwn = some v →
    R.event = true ∨ v = s.own ∨ u.watcher = .created ∨ ∃ p, u.watcher = .watching (p + 1)
  answered : ∀ a q, pending ≠ some a → R.queries a = some q → q.response ≠ none

/-- What holds of the open `until` where it stands. -/
def PhaseInv (s : Workflow) (u : Until) (r : Nat) (R : React) : Prop :=
  match u.phase with
  | .evaluating => s.Live u R none ∧ s.within u.asyncTask = true
  | .calling a r' => r' = r ∧ s.Live u R (some a) ∧ s.within u.asyncTask = true
  | .parked r' => r' = r ∧ s.Live u R none
  | .leaving o => (o = .returned ∨ o = .raised) ∧ u.watcher = .stopped
  | .closing o => (o = .returned ∨ o = .raised) ∧ u.watcher = .stopped ∧ ∀ a, R.queries a = none
  | .locking _ | .done _ => False

/-- The one `until` that is open, after the closed ones. -/
structure Open (s : Workflow) (pre : List Until) (u : Until) (r : Nat) (R : React) : Prop where
  untils : s.untils = pre ++ [u]
  current : s.current = some r
  react : s.reacts[r]? = some R
  phase : s.PhaseInv u r R

/-- All untils are closed, or the last one is open and `context.react` is its own. -/
structure Inv (s : Workflow) : Prop where
  streams : s.Streams
  untils : (s.current = none ∧ ∀ u ∈ s.untils, Closed u) ∨
    ∃ pre u r R, (∀ v ∈ pre, Closed v) ∧ s.Open pre u r R

theorem init_inv : Inv init where
  streams := by constructor <;> simp [init]
  untils := .inl (by simp [init])

variable {s s' : Workflow} {pre : List Until} {u u' : Until} {i r : Nat} {R R' : React}

theorem phaseInv_evaluating (h : u.phase = .evaluating) :
    s.PhaseInv u r R ↔ s.Live u R none ∧ s.within u.asyncTask = true := by
  unfold PhaseInv
  rw [h]

theorem phaseInv_calling {a : Reader} {r' : Nat} (h : u.phase = .calling a r') :
    s.PhaseInv u r R ↔ r' = r ∧ s.Live u R (some a) ∧ s.within u.asyncTask = true := by
  unfold PhaseInv
  rw [h]

theorem phaseInv_parked {r' : Nat} (h : u.phase = .parked r') :
    s.PhaseInv u r R ↔ r' = r ∧ s.Live u R none := by
  unfold PhaseInv
  rw [h]

theorem phaseInv_leaving {o : Outcome} (h : u.phase = .leaving o) :
    s.PhaseInv u r R ↔ (o = .returned ∨ o = .raised) ∧ u.watcher = .stopped := by
  unfold PhaseInv
  rw [h]

theorem phaseInv_closing {o : Outcome} (h : u.phase = .closing o) :
    s.PhaseInv u r R ↔
      (o = .returned ∨ o = .raised) ∧ u.watcher = .stopped ∧ ∀ a, R.queries a = none := by
  unfold PhaseInv
  rw [h]

/-- The open `until` keeps its phase. -/
theorem PhaseInv.map (h : s.PhaseInv u r R) (hphase : u'.phase = u.phase)
    (hlive : ∀ pending, s.Live u R pending → s'.Live u' R' pending)
    (hwithin : s'.within u'.asyncTask = s.within u.asyncTask)
    (hw : u.watcher = .stopped → u'.watcher = .stopped)
    (hq : (∀ a, R.queries a = none) → ∀ a, R'.queries a = none) : s'.PhaseInv u' r R' := by
  unfold PhaseInv at h ⊢
  rw [hphase, hwithin]
  cases hu : u.phase <;> rw [hu] at h
  case evaluating => exact ⟨hlive none h.1, h.2⟩
  case calling => exact ⟨h.1, hlive _ h.2.1, h.2.2⟩
  case locking => exact h
  case parked => exact ⟨h.1, hlive none h.2⟩
  case leaving => exact ⟨h.1, hw h.2⟩
  case closing => exact ⟨h.1, hw h.2.1, hq h.2.2⟩
  case done => exact h

/-- A closed `until` takes no step. -/
theorem Closed.stuck (h : Closed u) (a : Action) : s.onUntil i u a = none := by
  obtain ⟨hphase, hwatcher⟩ := h
  unfold onUntil
  rcases hphase with hphase | hphase <;> rw [hphase, hwatcher] <;> cases a <;> rfl

/-- Only the open `until` can take a step. -/
theorem Inv.open_of_step (h : Inv s) {w : Until} (hi : s.untils[i]? = some w) {a : Action}
    (hs : s.onUntil i w a = some s') :
    ∃ pre r R, (∀ v ∈ pre, Closed v) ∧ s.Open pre w r R ∧ i = pre.length := by
  have hclosed : ¬ Closed w := fun hc => by
    rw [hc.stuck a] at hs
    cases hs
  rcases h.untils with ⟨-, hall⟩ | ⟨pre, u, r, R, hpre, hopen⟩
  · exact absurd (hall w (List.mem_of_getElem? hi)) hclosed
  · rw [hopen.untils] at hi
    rcases Nat.lt_or_ge i pre.length with hlt | hge
    · rw [List.getElem?_append_left hlt] at hi
      exact absurd (hpre w (List.mem_of_getElem? hi)) hclosed
    · rw [List.getElem?_append_right hge] at hi
      obtain ⟨hlt, rfl⟩ := List.getElem?_eq_some_iff.mp hi
      have heq : i = pre.length := by
        simp only [List.length_singleton] at hlt
        omega
      exact ⟨pre, r, R, hpre, by simpa using hopen, heq⟩

/-- The open `until` and its `React` change. -/
theorem Inv.of_open (hpre : ∀ v ∈ pre, Closed v) (hstreams : s.Streams)
    (huntils : s.untils = pre ++ [u]) (hcurrent : s.current = some r)
    (hreact : s.reacts[r]? = some R) (hphase : s.PhaseInv u r R) : Inv s :=
  ⟨hstreams, .inr ⟨pre, u, r, R, hpre, huntils, hcurrent, hreact, hphase⟩⟩

theorem set_last (h : s.untils = pre ++ [u]) (u' : Until) :
    s.untils.set pre.length u' = pre ++ [u'] := by
  rw [h]
  simp

theorem Open.set (h : s.Open pre u r R) (u' : Until) :
    s.untils.set pre.length u' = pre ++ [u'] := set_last h.untils u'

/-- The current `React` changes, and its queries stay in order. -/
theorem Streams.setReact (h : s.Streams) (hc : s.current = some r)
    (hq : ∀ a q, R'.queries a = some q → QueryOk (s.server a) (s.delivered a) q) :
    (s.setReact r R').Streams where
  delivered := h.delivered
  idle r₂ R₂ hr₂ hne := by
    have hne' : r ≠ r₂ := fun heq => hne (hc.trans (congrArg some heq))
    have hr₂' : (s.reacts.set r R')[r₂]? = some R₂ := hr₂
    rw [List.getElem?_set_ne hne'] at hr₂'
    exact h.idle r₂ R₂ hr₂' hne
  query r₂ R₂ hr₂ a q hqa := by
    have hr₂' : (s.reacts.set r R')[r₂]? = some R₂ := hr₂
    rcases List.mem_or_eq_of_mem_set (List.mem_of_getElem? hr₂') with hmem | rfl
    · obtain ⟨r₃, hr₃⟩ := List.mem_iff_getElem?.mp hmem
      exact h.query r₃ R₂ hr₃ a q hqa
    · exact hq a q hqa
  newest := h.newest

theorem getElem?_setReact (h : s.reacts[r]? = some R) (R' : React) :
    (s.setReact r R').reacts[r]? = some R' := by
  obtain ⟨hlt, -⟩ := List.getElem?_eq_some_iff.mp h
  exact List.getElem?_set_self hlt

theorem setReact_self (h : s.reacts[r]? = some R) : s.setReact r R = s := by
  obtain ⟨hlt, rfl⟩ := List.getElem?_eq_some_iff.mp h
  simp [setReact]

theorem setQuery_self (R : React) (a : Reader) (q : Query) :
    (R.setQuery a q).queries a = some q := Function.update_self ..

theorem setQuery_ne (R : React) {a b : Reader} (q : Query) (h : b ≠ a) :
    (R.setQuery a q).queries b = R.queries b := Function.update_of_ne h ..

/-- One query of the open `until` changes. -/
theorem Streams.setQuery (h : s.Streams) (hc : s.current = some r)
    (hr : s.reacts[r]? = some R) {a : Reader} {q : Query}
    (hq : QueryOk (s.server a) (s.delivered a) q) :
    (s.setReact r (R.setQuery a q)).Streams := by
  refine h.setReact hc fun b q' hb => ?_
  by_cases hba : b = a
  · subst hba
    rw [setQuery_self] at hb
    cases hb
    exact hq
  · rw [setQuery_ne R q hba] at hb
    exact h.query r R hr b q' hb

/-! ## The condition -/

/-- The open until's queries are in order. -/
theorem Open.query (h : s.Open pre u r R) (hs : s.Streams) {a : Reader} {q : Query}
    (hq : R.queries a = some q) : QueryOk (s.server a) (s.delivered a) q :=
  hs.query r R h.react a q hq

/-- The condition is evaluated, with nothing read yet. -/
theorem inv_evaluate (hpre : ∀ v ∈ pre, Closed v) (hs : s.Streams)
    (hu : s.untils = pre ++ [u]) (hc : s.current = some r) (hr : s.reacts[r]? = some R)
    (hcancelled : R.cancelled = false)
    (hw : u.watcher = .created ∨ ∃ p, u.watcher = .watching p)
    (hanswered : ∀ a q, R.queries a = some q → q.response ≠ none) :
    Inv (s.evaluate pre.length u R.iteration) := by
  refine Inv.of_open hpre { hs with } (set_last hu _) hc hr ?_
  refine ⟨⟨hcancelled, rfl, hw, fun a v _ hv => ?_, fun v hv => ?_,
    fun a q _ => hanswered a q⟩, Function.update_self ..⟩
  · exact absurd hv (by simp)
  · exact absurd hv (by simp)

/-- It leaves, and its watcher is stopped. -/
theorem inv_leave (hpre : ∀ v ∈ pre, Closed v) (hs : s.Streams) (h : s.Open pre u r R)
    {o : Outcome} (ho : o = .returned ∨ o = .raised) : Inv (s.leave pre.length u o) :=
  Inv.of_open hpre { hs with } (h.set _) h.current h.react ⟨ho, rfl⟩

/-- A query has a response, and the condition is given it. -/
theorem inv_record (hpre : ∀ v ∈ pre, Closed v) (hs : s.Streams) (h : s.Open pre u r R)
    {pending : Option Reader} (hlive : s.Live u R pending)
    (hwithin : s.within u.asyncTask = true) {a : Reader} {q : Query} {v : Nat}
    (hpending : ∀ b, b ≠ a → pending ≠ some b) (hq : R.queries a = some q)
    (hv : q.response = some v) :
    Inv ((s.setReact r (R.setQuery a { q with used := true })).record pre.length u a v) := by
  have hok := h.query hs hq
  have hchain : q.chain = v :: q.pipe := by rw [Query.chain, hv]; rfl
  have hmem : v ∈ q.chain := by rw [hchain]; exact List.mem_cons_self
  have hle : s.delivered a ≤ v := hok.lower v hmem
  have hsorted := hok.sorted
  rw [hchain] at hsorted
  have hset : (s.setReact r (R.setQuery a { q with used := true })).Streams :=
    hs.setQuery h.current h.react (hok.use true q.invalidated)
  have hmax : max (s.delivered a) v = v := Nat.max_eq_right hle
  have hnew : Function.update s.delivered a (max (s.delivered a) v) a = v :=
    (Function.update_self ..).trans hmax
  have hold : ∀ b, b ≠ a →
      Function.update s.delivered a (max (s.delivered a) v) b = s.delivered b :=
    fun b hb => Function.update_of_ne hb ..
  refine Inv.of_open (R := R.setQuery a { q with used := true }) hpre ?_ (h.set _) h.current
    (getElem?_setReact h.react _) ?_
  · refine ⟨fun b => ?_, hset.idle, fun r₂ R₂ hr₂ b q₂ hq₂ => ?_, ?_⟩
    · show Function.update s.delivered a (max (s.delivered a) v) b ≤ s.server b
      by_cases hb : b = a
      · rw [hb, hnew]
        exact hok.upper v hmem
      · rw [hold b hb]
        exact hs.delivered b
    · show QueryOk (s.server b) (Function.update s.delivered a (max (s.delivered a) v) b) q₂
      have hq₂' := hset.query r₂ R₂ hr₂ b q₂ hq₂
      by_cases hb : b = a
      · -- the query is the one that was read: its responses come after this one
        have hr₂eq : r₂ = r := by
          by_contra hne
          have hidle := hset.idle r₂ R₂ hr₂ (fun hc => hne (Option.some.inj (h.current ▸ hc).symm)) b
          rw [hidle] at hq₂
          cases hq₂
        subst hr₂eq
        obtain rfl := Option.some.inj ((getElem?_setReact h.react _).symm.trans hr₂)
        subst hb
        rw [setQuery_self] at hq₂
        cases hq₂
        rw [hnew]
        refine ⟨hok.sorted, hok.last, hok.upper, fun x hx => ?_⟩
        have hx' : x ∈ v :: q.pipe := hchain ▸ hx
        rcases List.mem_cons.mp hx' with rfl | hx''
        · exact Nat.le_refl _
        · exact (List.pairwise_cons.mp hsorted).1 x hx''
      · rw [hold b hb]
        exact hq₂'
    · show (if v < s.delivered a then _ else s.stale) = []
      rw [if_neg (by omega)]
      exact hs.newest
  · refine ⟨⟨hlive.cancelled, hlive.iteration, hlive.watcher, fun b w _ hw => ?_, hlive.own,
      fun b q₂ _ hq₂ => ?_⟩, hwithin⟩
    swap
    · by_cases hb : b = a
      · subst hb
        rw [setQuery_self] at hq₂
        cases hq₂
        show q.response ≠ none
        rw [hv]
        exact (nomatch ·)
      · rw [setQuery_ne R _ hb] at hq₂
        exact hlive.answered b q₂ (hpending b hb) hq₂
    by_cases hb : b = a
    · subst hb
      have hvw : w = v := by simpa using hw.symm
      exact .inr ⟨_, setQuery_self .., by rw [hvw]; exact hv, rfl⟩
    · have hw' : u.reads.lookup b = some w := by
        have hne : (b == a) = false := by simpa using hb
        simpa [List.lookup_cons, hne] using hw
      rcases hlive.reads b w (hpending b hb) hw' with hevent | ⟨q', hq', hrest⟩
      · exact .inl hevent
      · exact .inr ⟨q', (setQuery_ne R _ hb).trans hq', hrest⟩

/-- The condition calls a reader for the first time: a query is started, with no response yet. -/
theorem inv_startQuery (hpre : ∀ v ∈ pre, Closed v) (hs : s.Streams) (h : s.Open pre u r R)
    (hlive : s.Live u R none) (hwithin : s.within u.asyncTask = true) (a : Reader) :
    Inv (s.startQuery pre.length u r R a) := by
  refine Inv.of_open (R := R.setQuery a ⟨[s.server a], none, false, false⟩) hpre ?_ (h.set _)
    h.current (getElem?_setReact h.react _) ?_
  · have hset := hs.setQuery h.current h.react
      (QueryOk.start (hs.delivered a) false false)
    exact { hset with }
  · refine ⟨rfl, ⟨hlive.cancelled, hlive.iteration, hlive.watcher, fun b v hb hv => ?_,
      hlive.own, fun b q hb hq => ?_⟩, hwithin⟩
    swap
    · have hba : b ≠ a := fun heq => hb (congrArg some heq.symm)
      rw [setQuery_ne R _ hba] at hq
      exact hlive.answered b q (by simp) hq
    have hba : b ≠ a := fun heq => hb (congrArg some heq.symm)
    rcases hlive.reads b v (by simp) hv with hevent | ⟨q, hq, hrest⟩
    · exact .inl hevent
    · exact .inr ⟨q, (setQuery_ne R _ hba).trans hq, hrest⟩

/-- The condition calls a reader. -/
theorem Inv.call (hpre : ∀ v ∈ pre, Closed v) (hs : s.Streams) (h : s.Open pre u r R)
    (hph : u.phase = .evaluating) {a : Reader} (hcall : s.call pre.length u a = some s') :
    Inv s' := by
  obtain ⟨hlive, hwithin⟩ := (phaseInv_evaluating hph).mp h.phase
  unfold Workflow.call at hcall
  rw [if_pos hwithin] at hcall
  dsimp only at hcall
  rw [h.current] at hcall
  dsimp only at hcall
  rw [h.react] at hcall
  cases hcall
  unfold callReact
  rw [hlive.cancelled, if_neg (by simp)]
  split
  · exact inv_startQuery hpre hs h hlive hwithin a
  · next q hq =>
    split
    · exact inv_startQuery hpre hs h hlive hwithin a
    · split
      · next hnone => exact absurd hnone (hlive.answered a q (by simp) hq)
      · next v hv =>
        exact inv_record hpre hs h hlive hwithin (by simp) hq hv

/-- The call of a reader returns with the last response of its query. -/
theorem Inv.called (hpre : ∀ v ∈ pre, Closed v) (hs : s.Streams) (h : s.Open pre u r R)
    {a : Reader} {r' : Nat} (hph : u.phase = .calling a r')
    {q : Query} {v : Nat} (hr' : s.reacts[r']? = some R') (hq : R'.queries a = some q)
    (hv : q.response = some v) :
    Inv ((s.setReact r' (R'.setQuery a { q with used := true })).record pre.length u a v) := by
  obtain ⟨rfl, hlive, hwithin⟩ := (phaseInv_calling hph).mp h.phase
  obtain rfl := Option.some.inj (h.react.symm.trans hr')
  refine inv_record hpre hs h hlive hwithin (fun b hb heq => ?_) hq hv
  exact hb (Option.some.inj heq).symm

/-- The condition reads the workflow's own state. -/
theorem Inv.readOwn (hpre : ∀ v ∈ pre, Closed v) (hs : s.Streams) (h : s.Open pre u r R)
    (hph : u.phase = .evaluating) : Inv (s.readOwn pre.length u) := by
  obtain ⟨hlive, hwithin⟩ := (phaseInv_evaluating hph).mp h.phase
  unfold Workflow.readOwn
  simp only [hwithin, if_true, Nat.lt_irrefl, if_false]
  refine Inv.of_open hpre { hs with } (h.set _) h.current h.react
    ((phaseInv_evaluating (u := { u with readOwn := some s.own }) hph).mpr ?_)
  refine ⟨⟨hlive.cancelled, hlive.iteration, hlive.watcher, hlive.reads, fun v hv => ?_,
    hlive.answered⟩, hwithin⟩
  exact .inr (.inl (Option.some.inj hv).symm)

/-- A mutation outdates the response of a query. -/
theorem Inv.mutate (hpre : ∀ v ∈ pre, Closed v) (hs : s.Streams) (h : s.Open pre u r R)
    (hph : u.phase = .evaluating) {a : Reader} {q : Query} (hq : R.queries a = some q) :
    Inv (s.setReact r (R.setQuery a { q with invalidated := true })) := by
  obtain ⟨hlive, hwithin⟩ := (phaseInv_evaluating hph).mp h.phase
  have hset := hs.setQuery h.current h.react ((h.query hs hq).use q.used true)
  refine Inv.of_open hpre hset h.untils h.current (getElem?_setReact h.react _)
    ((phaseInv_evaluating hph).mpr ⟨⟨hlive.cancelled, hlive.iteration, hlive.watcher,
      fun b v _ hv => ?_, hlive.own, fun b q₂ _ hq₂ => ?_⟩, hwithin⟩)
  · rcases hlive.reads b v (by simp) hv with hevent | ⟨q', hq', hrest⟩
    · exact .inl hevent
    · by_cases hb : b = a
      · subst hb
        obtain rfl := Option.some.inj (hq.symm.trans hq')
        exact .inr ⟨_, setQuery_self .., hrest⟩
      · exact .inr ⟨q', (setQuery_ne R _ hb).trans hq', hrest⟩
  · by_cases hb : b = a
    · subst hb
      rw [setQuery_self] at hq₂
      cases hq₂
      exact hlive.answered b q (by simp) hq
    · rw [setQuery_ne R _ hb] at hq₂
      exact hlive.answered b q₂ (by simp) hq₂

/-! ## Waiting -/

/-- The lock of the `React` is free: every other `until` is done. -/
theorem lockFree_of_open (hpre : ∀ v ∈ pre, Closed v) (hu : s.untils = pre ++ [u])
    (hph : u.phase ≠ .parked r) : s.lockFree r := by
  intro v hv
  rw [hu] at hv
  rcases List.mem_append.mp hv with hv' | hv'
  · rcases (hpre v hv').1 with hdone | hdone <;> rw [hdone] <;> exact (nomatch ·)
  · rwa [List.mem_singleton.mp hv']

/-- The condition does not hold, and it parks: nobody else has moved the iteration on. -/
theorem Inv.unsatisfied (hpre : ∀ v ∈ pre, Closed v) (hs : s.Streams) (h : s.Open pre u r R)
    (hph : u.phase = .evaluating) (hun : s.unsatisfied pre.length u = some s') : Inv s' := by
  obtain ⟨hlive, -⟩ := (phaseInv_evaluating hph).mp h.phase
  have hfree : s.lockFree r :=
    lockFree_of_open hpre h.untils (by rw [hph]; exact (nomatch ·))
  unfold Workflow.unsatisfied at hun
  dsimp only at hun
  split at hun
  · next hnone => exact nomatch h.current.symm.trans hnone
  · next r' hr' =>
    obtain rfl := Option.some.inj (h.current.symm.trans hr')
    rw [h.react] at hun
    cases hun
    unfold Workflow.iterate
    rw [if_pos hlive.iteration]
    split
    · exact Inv.of_open hpre { hs with } (h.set _) h.current h.react
        ((phaseInv_parked rfl).mpr ⟨rfl, { hlive with }⟩)
    · next hlocked => exact absurd hfree hlocked

/-- It wakes up and evaluates the condition again. -/
theorem Inv.wake (hpre : ∀ v ∈ pre, Closed v) (hs : s.Streams) (h : s.Open pre u r R)
    {r' : Nat} (hph : u.phase = .parked r') (hr' : s.reacts[r']? = some R') :
    Inv (s.wake pre.length u r' R') := by
  obtain ⟨rfl, hlive⟩ := (phaseInv_parked hph).mp h.phase
  obtain rfl := Option.some.inj (h.react.symm.trans hr')
  have hset : (s.setReact r' { R with event := false, iteration := R.iteration + 1 }).Streams :=
    hs.setReact h.current fun a q hq => hs.query r' R h.react a q hq
  exact inv_evaluate hpre hset h.untils h.current (getElem?_setReact h.react _) hlive.cancelled
    hlive.watcher fun a q hq => hlive.answered a q (by simp) hq

/-- `watch_state` sets the event of the open `until`. -/
theorem Inv.setWatcher (hpre : ∀ v ∈ pre, Closed v) (hs : s.Streams) (h : s.Open pre u r R)
    {w : Watcher} (event : Bool) (hevent : R.event = true → event = true)
    (hold : u.watcher = .created ∨ ∃ p, u.watcher = .watching p)
    (hw : ∃ p, w = .watching p ∧ (event = true ∨ p ≠ 0)) :
    Inv ((s.setReact r { R with event := event }).setUntil pre.length { u with watcher := w }) := by
  have hset : (s.setReact r { R with event := event }).Streams :=
    hs.setReact h.current fun a q hq => hs.query r R h.react a q hq
  obtain ⟨p, rfl, hp⟩ := hw
  have hlive : ∀ pending, s.Live u R pending →
      ((s.setReact r { R with event := event }).setUntil pre.length
        { u with watcher := .watching p }).Live { u with watcher := .watching p }
        { R with event := event } pending := fun pending hlive =>
    { cancelled := hlive.cancelled
      iteration := hlive.iteration
      watcher := .inr ⟨p, rfl⟩
      reads := fun a v hne hv => (hlive.reads a v hne hv).imp_left hevent
      own := fun v _ => by
        rcases hp with hp | hp
        · exact .inl hp
        · obtain ⟨k, rfl⟩ := Nat.exists_eq_succ_of_ne_zero hp
          exact .inr (.inr (.inr ⟨k, rfl⟩))
      answered := hlive.answered }
  refine Inv.of_open hpre { hset with } (h.set _) h.current (getElem?_setReact h.react _)
    (h.phase.map rfl hlive rfl (fun hstopped => ?_) id)
  rcases hold with hold | ⟨k, hold⟩ <;> exact nomatch hstopped.symm.trans hold

/-! ## Leaving -/

/-- On leaving, the queries of its `React` are cancelled. -/
theorem Inv.cancelReact (hpre : ∀ v ∈ pre, Closed v) (hs : s.Streams) (h : s.Open pre u r R)
    {o : Outcome} (hph : u.phase = .leaving o)
    (hcancel : s.cancelReact pre.length u o = some s') : Inv s' := by
  obtain ⟨ho, hw⟩ := (phaseInv_leaving hph).mp h.phase
  unfold Workflow.cancelReact at hcancel
  rw [h.current] at hcancel
  dsimp only at hcancel
  rw [h.react] at hcancel
  cases hcancel
  have hset : (s.setReact r R.cancel).Streams :=
    hs.setReact h.current fun a q hq => absurd hq (by simp [React.cancel])
  exact Inv.of_open hpre { hset with } (h.set _) h.current (getElem?_setReact h.react _)
    ((phaseInv_closing rfl).mpr ⟨ho, hw, fun _ => rfl⟩)

/-- `context.react` is cleared, and the `until` is closed. -/
theorem Inv.close (hpre : ∀ v ∈ pre, Closed v) (hs : s.Streams) (h : s.Open pre u r R)
    {o : Outcome} (hph : u.phase = .closing o) :
    Inv ({ s with current := none }.setUntil pre.length { u with phase := .done o }) := by
  obtain ⟨ho, hw, hqueries⟩ := (phaseInv_closing hph).mp h.phase
  constructor
  · refine ⟨hs.delivered, fun r₂ R₂ hr₂ _ => ?_, hs.query, hs.newest⟩
    have hr₂' : s.reacts[r₂]? = some R₂ := hr₂
    by_cases hr : r₂ = r
    · subst hr
      obtain rfl := Option.some.inj (h.react.symm.trans hr₂')
      exact hqueries
    · exact hs.idle r₂ R₂ hr₂' fun hc => hr (Option.some.inj (h.current.symm.trans hc)).symm
  · refine .inl ⟨rfl, fun v hv => ?_⟩
    have hv' : v ∈ s.untils.set pre.length { u with phase := .done o } := hv
    rw [h.set] at hv'
    rcases List.mem_append.mp hv' with hv' | hv'
    · exact hpre v hv'
    · rw [List.mem_singleton.mp hv']
      exact ⟨ho.imp (congrArg Phase.done) (congrArg Phase.done), hw⟩

/-- A step of the open `until`. -/
theorem Inv.onUntil (hpre : ∀ v ∈ pre, Closed v) (hs : s.Streams) (h : s.Open pre u r R)
    {a : Action} (hstep : s.onUntil pre.length u a = some s') : Inv s' := by
  unfold Workflow.onUntil at hstep
  split at hstep
  · split at hstep
    · next hph => exact Inv.call hpre hs h hph hstep
    · cases hstep
  · split at hstep
    · next b r' hph =>
      obtain ⟨R', hr', hstep⟩ := Option.bind_eq_some_iff.mp hstep
      obtain ⟨q, hq, hstep⟩ := Option.bind_eq_some_iff.mp hstep
      obtain ⟨v, hv, hstep⟩ := Option.bind_eq_some_iff.mp hstep
      cases hstep
      exact Inv.called hpre hs h hph hr' hq hv
    · cases hstep
  · split at hstep
    · next hph =>
      cases hstep
      exact Inv.readOwn hpre hs h hph
    · cases hstep
  · split at hstep
    · next hph =>
      rw [h.current] at hstep
      dsimp only at hstep
      rw [h.react, Option.bind_eq_bind, Option.bind_some] at hstep
      split at hstep
      · cases hstep
        exact ⟨hs, .inr ⟨pre, u, r, R, hpre, h⟩⟩
      · next q hq =>
        cases hstep
        exact Inv.mutate hpre hs h hph hq
    · cases hstep
  · split at hstep
    · next hph => exact Inv.unsatisfied hpre hs h hph hstep
    · cases hstep
  · split at hstep
    · cases hstep
      refine inv_leave hpre hs h ?_
      split
      · exact .inr rfl
      · exact .inl rfl
    · cases hstep
  · split at hstep
    · next r' hph =>
      have hfalse := h.phase
      unfold PhaseInv at hfalse
      rw [hph] at hfalse
      exact hfalse.elim
    · cases hstep
  · split at hstep
    · next r' hph =>
      obtain ⟨R', hr', hstep⟩ := Option.bind_eq_some_iff.mp hstep
      split at hstep
      · cases hstep
        exact Inv.wake hpre hs h hph hr'
      · cases hstep
    · cases hstep
  · split at hstep
    · next o hph => exact Inv.cancelReact hpre hs h hph hstep
    · cases hstep
  · split at hstep
    · next o hph =>
      cases hstep
      exact Inv.close hpre hs h hph
    · cases hstep
  · split at hstep
    · next hw =>
      cases hstep
      have hset := Inv.setWatcher hpre hs h R.event id (.inl hw)
        ⟨1, rfl, .inr (by omega)⟩
      rwa [setReact_self h.react] at hset
    · cases hstep
  · split at hstep
    · next pending hw =>
      unfold Workflow.watch at hstep
      rw [h.current] at hstep
      dsimp only at hstep
      rw [h.react] at hstep
      cases hstep
      exact Inv.setWatcher hpre hs h true (fun _ => rfl) (.inr ⟨_, hw⟩) ⟨pending, rfl, .inl rfl⟩
    · cases hstep
  · cases hstep

/-! ## Changes and responses -/

theorem push_queries (R : React) (a : Reader) (v : Nat) (b : Reader) :
    (R.push a v).queries b =
      if b = a then (R.queries a).map fun q => { q with pipe := q.pipe ++ [v] }
      else R.queries b := by
  unfold React.push
  split
  · next hq =>
    split
    · next hb => rw [hb, hq]; rfl
    · rfl
  · next q hq =>
    split
    · next hb => rw [hb, setQuery_self, hq]; rfl
    · next hb => rw [setQuery_ne R _ hb]

theorem push_event (R : React) (a : Reader) (v : Nat) : (R.push a v).event = R.event := by
  unfold React.push
  split <;> rfl

theorem push_iteration (R : React) (a : Reader) (v : Nat) :
    (R.push a v).iteration = R.iteration := by
  unfold React.push
  split <;> rfl

theorem push_cancelled (R : React) (a : Reader) (v : Nat) :
    (R.push a v).cancelled = R.cancelled := by
  unfold React.push
  split <;> rfl

/-- A query after a new response is sent: only its stream is longer. -/
theorem of_push_queries {a b : Reader} {v : Nat} {q : Query}
    (h : (R.push a v).queries b = some q) :
    ∃ q', R.queries b = some q' ∧ q.response = q'.response ∧ q.used = q'.used ∧
      q = if b = a then { q' with pipe := q'.pipe ++ [v] } else q' := by
  rw [push_queries] at h
  split at h
  · next hb =>
    obtain ⟨q', hq', rfl⟩ := Option.map_eq_some_iff.mp h
    exact ⟨q', hb ▸ hq', rfl, rfl, by rw [if_pos hb]⟩
  · next hb => exact ⟨q, h, rfl, rfl, by rw [if_neg hb]⟩

theorem Live.push {pending : Option Reader} (h : s.Live u R pending) (a : Reader) (v : Nat) :
    s.Live u (R.push a v) pending where
  cancelled := (push_cancelled R a v).trans h.cancelled
  iteration := (push_iteration R a v).trans h.iteration
  watcher := h.watcher
  reads b w hb hw := by
    rw [push_event, push_queries]
    rcases h.reads b w hb hw with hevent | ⟨q, hq, hrest⟩
    · exact .inl hevent
    · right
      split
      · next heq =>
        rw [← heq, hq]
        exact ⟨_, rfl, hrest⟩
      · exact ⟨q, hq, hrest⟩
  own v hv := by
    rw [push_event]
    exact h.own v hv
  answered b q hb hq := by
    obtain ⟨q', hq', hresponse, -⟩ := of_push_queries hq
    rw [hresponse]
    exact h.answered b q' hb hq'

/-- A reader changes: whoever queries it is sent the new version. -/
theorem Inv.change (h : Inv s) (a : Reader) :
    Inv { s with
      server := Function.update s.server a (s.server a + 1)
      reacts := s.reacts.map fun R => R.push a (s.server a + 1) } := by
  have hserver : ∀ b, s.server b ≤ Function.update s.server a (s.server a + 1) b := fun b => by
    by_cases hb : b = a
    · rw [hb, Function.update_self]
      omega
    · exact Nat.le_of_eq (Function.update_of_ne hb ..).symm
  have hreact : ∀ (r : Nat) (R' : React), (s.reacts.map fun R => R.push a (s.server a + 1))[r]? = some R' →
      ∃ R, s.reacts[r]? = some R ∧ R' = R.push a (s.server a + 1) := fun r R' hr => by
    rw [List.getElem?_map] at hr
    obtain ⟨R, hR, rfl⟩ := Option.map_eq_some_iff.mp hr
    exact ⟨R, hR, rfl⟩
  have hs := h.streams
  constructor
  · refine ⟨fun b => Nat.le_trans (hs.delivered b) (hserver b), fun r R' hr hc b => ?_,
      fun r R' hr b q hq => ?_, hs.newest⟩
    · obtain ⟨R, hR, rfl⟩ := hreact r R' hr
      rw [push_queries, hs.idle r R hR hc, hs.idle r R hR hc]
      simp
    · obtain ⟨R, hR, rfl⟩ := hreact r R' hr
      obtain ⟨q', hq', -, -, hqeq⟩ := of_push_queries hq
      have hok := hs.query r R hR b q' hq'
      show QueryOk (Function.update s.server a (s.server a + 1) b) (s.delivered b) q
      by_cases hb : b = a
      · subst hb
        rw [if_pos rfl] at hqeq
        rw [hqeq, Function.update_self]
        exact hok.push (hs.delivered b)
      · rw [if_neg hb] at hqeq
        rw [hqeq, Function.update_of_ne hb]
        exact hok
  · rcases h.untils with ⟨hc, hall⟩ | ⟨pre, u, r, R, hpre, hopen⟩
    · exact .inl ⟨hc, hall⟩
    · refine .inr ⟨pre, u, r, R.push a (s.server a + 1), hpre, hopen.untils, hopen.current, ?_, ?_⟩
      · show (s.reacts.map fun R => R.push a (s.server a + 1))[r]? = _
        rw [List.getElem?_map, hopen.react]
        rfl
      · refine hopen.phase.map rfl (fun pending hlive => { hlive.push a _ with }) rfl id
          fun hnone b => ?_
        rw [push_queries, hnone, hnone]
        simp

/-- A stopped watcher is not signalled. -/
theorem Closed.push (h : Closed u) : { u with watcher := u.watcher.push } = u := by
  obtain ⟨-, hw⟩ := h
  cases u
  cases hw
  rfl

/-- The workflow's own state changes: whoever watches is signalled. -/
theorem Inv.changeOwn (h : Inv s) :
    Inv { s with
      own := s.own + 1
      untils := s.untils.map fun u => { u with watcher := u.watcher.push } } := by
  have hclosed : ∀ l : List Until, (∀ u ∈ l, Closed u) →
      (l.map fun u => { u with watcher := u.watcher.push }) = l := fun l hl => by
    refine (List.map_congr_left fun u hu => (hl u hu).push).trans (List.map_id _)
  refine ⟨{ h.streams with }, ?_⟩
  rcases h.untils with ⟨hc, hall⟩ | ⟨pre, u, r, R, hpre, hopen⟩
  · refine .inl ⟨hc, fun u hu => ?_⟩
    have hu' : u ∈ s.untils.map fun u => { u with watcher := u.watcher.push } := hu
    rw [hclosed s.untils hall] at hu'
    exact hall u hu'
  · refine .inr ⟨pre, { u with watcher := u.watcher.push }, r, R, hpre, ?_, hopen.current,
      hopen.react, hopen.phase.map rfl (fun pending hlive => ?_) rfl (fun hw => ?_) id⟩
    · show s.untils.map _ = _
      rw [hopen.untils, List.map_append, hclosed pre hpre]
      rfl
    · refine ⟨hlive.cancelled, hlive.iteration, ?_, hlive.reads, fun v _ => ?_, hlive.answered⟩
      · rcases hlive.watcher with hw | ⟨p, hw⟩
        · exact .inl (by rw [hw]; rfl)
        · exact .inr ⟨p + 1, by rw [hw]; rfl⟩
      · rcases hlive.watcher with hw | ⟨p, hw⟩
        · exact .inr (.inr (.inl (by rw [hw]; rfl)))
        · exact .inr (.inr (.inr ⟨p, by rw [hw]; rfl⟩))
    · show u.watcher.push = .stopped
      rw [hw]
      rfl

/-- Only the open `until` has queries. -/
theorem Inv.open_of_query (h : Inv s) (hr : s.reacts[r]? = some R) {a : Reader} {q : Query}
    (hq : R.queries a = some q) : ∃ pre u, (∀ v ∈ pre, Closed v) ∧ s.Open pre u r R := by
  have hcurrent : s.current = some r := by
    by_contra hne
    rw [h.streams.idle r R hr hne a] at hq
    cases hq
  rcases h.untils with ⟨hc, -⟩ | ⟨pre, u, r', R', hpre, hopen⟩
  · exact nomatch hcurrent.symm.trans hc
  · obtain rfl := Option.some.inj (hcurrent.symm.trans hopen.current)
    obtain rfl := Option.some.inj (hr.symm.trans hopen.react)
    exact ⟨pre, u, hpre, hopen⟩

/-- A response that replaces another one is an event, so nothing read goes stale unseen. -/
theorem Live.receive {pending : Option Reader} (h : s.Live u R pending) {a : Reader} {q : Query}
    (hq : R.queries a = some q) {v : Nat} {rest : List Nat} :
    s.Live u
      { R.setQuery a { q with pipe := rest, response := some v, used := false } with
        event := R.event || q.response.isSome } pending where
  cancelled := h.cancelled
  iteration := h.iteration
  watcher := h.watcher
  reads b w hb hw := by
    rcases h.reads b w hb hw with hevent | ⟨q', hq', hresponse, hused⟩
    · exact .inl (by simp [hevent])
    · by_cases hba : b = a
      · -- what was read is no longer the last response, and that is an event
        subst hba
        obtain rfl := Option.some.inj (hq.symm.trans hq')
        exact .inl (by simp [hresponse])
      · exact .inr ⟨q', (setQuery_ne R _ hba).trans hq', hresponse, hused⟩
  own w hw := (h.own w hw).imp_left fun hevent => by simp [hevent]
  answered b q' hb hq' := by
    by_cases hba : b = a
    · subst hba
      have hself := (setQuery_self R b _).symm.trans hq'
      cases hself
      exact (nomatch ·)
    · exact h.answered b q' hb ((setQuery_ne R _ hba).symm.trans hq')

/-- A query of the open `until` receives its next response. -/
theorem Inv.receive (h : Inv s) (hr : s.reacts[r]? = some R) {a : Reader} {q : Query}
    (hq : R.queries a = some q) (hstep : s.receive r R a q = some s') : Inv s' := by
  obtain ⟨pre, u, hpre, hopen⟩ := h.open_of_query hr hq
  have hs := h.streams
  have hok := hopen.query hs hq
  unfold Workflow.receive at hstep
  split at hstep
  · cases hstep
  · next v rest hpipe =>
    split at hstep
    · cases hstep
      obtain ⟨hupper, hlower, hok'⟩ := hok.receive hpipe
      have hmax : max (s.delivered a) v = v := Nat.max_eq_right hlower
      have hnew : Function.update s.delivered a (max (s.delivered a) v) a = v :=
        (Function.update_self ..).trans hmax
      have hold : ∀ b, b ≠ a →
          Function.update s.delivered a (max (s.delivered a) v) b = s.delivered b :=
        fun b hb => Function.update_of_ne hb ..
      refine Inv.of_open hpre ⟨fun b => ?_, fun r₂ R₂ hr₂ hne b => ?_, fun r₂ R₂ hr₂ b q₂ hq₂ => ?_,
        hs.newest⟩ hopen.untils hopen.current (getElem?_setReact (s := s) hr _)
        (hopen.phase.map rfl (fun pending hlive => { hlive.receive hq with }) rfl id fun hnone => ?_)
      · show Function.update s.delivered a (max (s.delivered a) v) b ≤ s.server b
        by_cases hb : b = a
        · rw [hb, hnew]
          exact hupper
        · rw [hold b hb]
          exact hs.delivered b
      · have hne' : r ≠ r₂ := fun heq => hne (hopen.current.trans (congrArg some heq))
        have hr₂' : (s.reacts.set r _)[r₂]? = some R₂ := hr₂
        rw [List.getElem?_set_ne hne'] at hr₂'
        exact hs.idle r₂ R₂ hr₂' hne b
      · show QueryOk (s.server b) (Function.update s.delivered a (max (s.delivered a) v) b) q₂
        by_cases hrr : r₂ = r
        · subst hrr
          obtain rfl := Option.some.inj ((getElem?_setReact (s := s) hr _).symm.trans hr₂)
          by_cases hb : b = a
          · subst hb
            have hself := (setQuery_self R b _).symm.trans hq₂
            cases hself
            rw [hnew]
            exact hok'
          · rw [hold b hb]
            exact hs.query r₂ R hr b q₂ ((setQuery_ne R _ hb).symm.trans hq₂)
        · have hr₂' : (s.reacts.set r _)[r₂]? = some R₂ := hr₂
          rw [List.getElem?_set_ne (fun heq => hrr heq.symm)] at hr₂'
          have hidle := hs.idle r₂ R₂ hr₂'
            (fun hc => hrr (Option.some.inj (hopen.current.symm.trans hc)).symm) b
          rw [hidle] at hq₂
          cases hq₂
      · exact nomatch hq.symm.trans (hnone a)
    · cases hstep

/-- A query of the open `until` reconnects. -/
theorem Inv.reconnect (h : Inv s) (hr : s.reacts[r]? = some R) {a : Reader} {q : Query}
    (hq : R.queries a = some q) :
    Inv (s.setReact r (R.setQuery a { q with pipe := [s.server a] })) := by
  obtain ⟨pre, u, hpre, hopen⟩ := h.open_of_query hr hq
  have hs := h.streams
  have hok := (hopen.query hs hq).reconnect (hs.delivered a)
  refine Inv.of_open hpre (hs.setQuery hopen.current hr hok) hopen.untils hopen.current
    (getElem?_setReact hr _)
    (hopen.phase.map rfl (fun pending hlive => ?_) rfl id fun hnone => ?_)
  · refine ⟨hlive.cancelled, hlive.iteration, hlive.watcher, fun b v hb hv => ?_, hlive.own,
      fun b q' hb hq' => ?_⟩
    · rcases hlive.reads b v hb hv with hevent | ⟨q', hq', hrest⟩
      · exact .inl hevent
      · by_cases hba : b = a
        · subst hba
          obtain rfl := Option.some.inj (hq.symm.trans hq')
          exact .inr ⟨_, setQuery_self .., hrest⟩
        · exact .inr ⟨q', (setQuery_ne R _ hba).trans hq', hrest⟩
    · by_cases hba : b = a
      · subst hba
        rw [setQuery_self] at hq'
        cases hq'
        exact hlive.answered b q hb hq
      · rw [setQuery_ne R _ hba] at hq'
        exact hlive.answered b q' hb hq'
  · exact nomatch hq.symm.trans (hnone a)

/-- An `until` is called while no other one is open. -/
theorem Inv.enter (h : Inv s) (hok : ∀ u ∈ s.untils, u.phase.isDone = true) (t : AsyncTask) :
    Inv (s.enter t) := by
  have hs := h.streams
  obtain ⟨hc, hall⟩ : s.current = none ∧ ∀ u ∈ s.untils, Closed u := by
    rcases h.untils with hclosed | ⟨pre, u, r, R, -, hopen⟩
    · exact hclosed
    · have hdone := hok u (by rw [hopen.untils]; simp)
      have hphase := hopen.phase
      unfold PhaseInv at hphase
      cases hph : u.phase with
      | done o =>
        rw [hph] at hphase
        exact hphase.elim
      | _ =>
        rw [hph] at hdone
        cases hdone
  have hidle : ∀ (r : Nat) (R : React), (s.reacts ++ [React.fresh])[r]? = some R →
      ∀ a, R.queries a = none := fun r R hr a => by
    rcases List.mem_append.mp (List.mem_of_getElem? hr) with hold | hnew
    · obtain ⟨r', hr'⟩ := List.mem_iff_getElem?.mp hold
      exact hs.idle r' R hr' (by rw [hc]; exact (nomatch ·)) a
    · rw [List.mem_singleton.mp hnew]
      rfl
  refine Inv.of_open (R := .fresh) hall
    ⟨hs.delivered, fun r R hr _ => hidle r R hr, fun r R hr a q hq => ?_, hs.newest⟩ rfl rfl
    (by simp [Workflow.enter]) ((phaseInv_evaluating rfl).mpr
      ⟨⟨rfl, rfl, .inl rfl, fun a v _ hv => ?_, fun v hv => ?_, fun a q _ hq => ?_⟩,
        Function.update_self ..⟩)
  · exact nomatch (hidle r R hr a).symm.trans hq
  · exact absurd hv (by simp)
  · exact absurd hv (by simp)
  · exact absurd hq (by simp [React.fresh])

/-! ## Every run -/

/-- Every step that is `StepOk` keeps the invariant. -/
theorem step_inv {a : Action} (h : Inv s) (hok : StepOk s a) (hstep : s.step a = some s') :
    Inv s' := by
  cases a with
  | enter t =>
    cases hstep
    exact h.enter hok t
  | call i a | called i | readOwn i | mutate i a | unsatisfied i | finish i raises | lock i
  | wake i | cancelReact i | close i | watchStart i | watch i =>
    obtain ⟨u, hi, hstep⟩ := Option.bind_eq_some_iff.mp hstep
    obtain ⟨pre, r, R, hpre, hopen, rfl⟩ := h.open_of_step hi hstep
    exact Inv.onUntil hpre h.streams hopen hstep
  | change a =>
    cases hstep
    exact h.change a
  | changeOwn =>
    cases hstep
    exact h.changeOwn
  | receive r a =>
    obtain ⟨R, hr, hstep⟩ := Option.bind_eq_some_iff.mp hstep
    obtain ⟨q, hq, hstep⟩ := Option.bind_eq_some_iff.mp hstep
    exact h.receive hr hq hstep
  | reconnect r a =>
    obtain ⟨R, hr, hstep⟩ := Option.bind_eq_some_iff.mp hstep
    obtain ⟨q, hq, hstep⟩ := Option.bind_eq_some_iff.mp hstep
    split at hstep
    · cases hstep
      exact h.reconnect hr hq
    · cases hstep

/-- The invariant says that nothing is missed. -/
theorem Inv.toMissesNothing (h : Inv s) : s.MissesNothing where
  succeeds u hu o ho := by
    have hclosed : Closed u → o = .returned ∨ o = .raised := fun hc => by
      rcases hc.1 with hph | hph <;> rw [hph] at ho <;> cases ho
      · exact .inl rfl
      · exact .inr rfl
    rcases h.untils with ⟨-, hall⟩ | ⟨pre, v, r, R, hpre, hopen⟩
    · exact hclosed (hall u hu)
    · rw [hopen.untils] at hu
      rcases List.mem_append.mp hu with hu' | hu'
      · exact hclosed (hpre u hu')
      · obtain rfl := List.mem_singleton.mp hu'
        have hphase := hopen.phase
        unfold PhaseInv at hphase
        cases hph : u.phase with
        | leaving o' | closing o' =>
          rw [hph] at hphase ho
          cases ho
          exact hphase.1
        | done o' =>
          rw [hph] at hphase
          exact hphase.elim
        | evaluating | calling a r' | locking r' | parked r' =>
          rw [hph] at ho
          cases ho
  newest := h.streams.newest
  evaluated hquiet u hu hwaits := by
    have hclosed : ¬ Closed u := fun hc => by
      unfold Waits at hwaits
      rcases hc.1 with hph | hph <;> rw [hph] at hwaits <;> exact hwaits
    rcases h.untils with ⟨-, hall⟩ | ⟨pre, v, r, R, hpre, hopen⟩
    · exact absurd (hall u hu) hclosed
    · rw [hopen.untils] at hu
      obtain rfl : u = v := by
        rcases List.mem_append.mp hu with hu' | hu'
        · exact absurd (hpre u hu') hclosed
        · exact List.mem_singleton.mp hu'
      have hphase := hopen.phase
      unfold PhaseInv at hphase
      unfold Waits at hwaits
      cases hph : u.phase <;> rw [hph] at hphase hwaits
      case parked r' =>
        obtain ⟨rfl, hlive⟩ := hphase
        have hevent : R.event = false := hwaits R hopen.react
        obtain ⟨hcreated, hpending⟩ := hquiet.2 u (by rw [hopen.untils]; simp)
        constructor
        · intro a v hv
          rcases hlive.reads a v (by simp) hv with htrue | ⟨q, hq, hresponse, hused⟩
          · exact nomatch hevent.symm.trans htrue
          · have hreceives : q.receives = true := by simp [Query.receives, hused]
            have hpipe := hquiet.1 R (List.mem_of_getElem? hopen.react) a q hq hreceives
            exact (hopen.query h.streams hq).eq_of_received hresponse hpipe
        · intro v hv
          rcases hlive.own v hv with htrue | hown | hw | ⟨p, hw⟩
          · exact nomatch hevent.symm.trans htrue
          · exact hown
          · exact absurd hw hcreated
          · exact absurd hw (hpending p)
      all_goals first | exact hwaits.elim | exact hphase.elim

/-- In every run in which no `until` is called while another one of the workflow is open, none
fails on the machinery they share, and none misses a change. -/
theorem missesNothing {s : Workflow} (h : Reach step StepOk init s) : s.MissesNothing :=
  (h.invariant Inv init_inv fun _ _ _ hinv hok hs => step_inv hinv hok hs).toMissesNothing

/-- One `until` after another: the first one is woken by its reader, the second one by the
workflow's own state. -/
def oneAfterAnother : List Action :=
  [.enter 0, .watchStart 0, .call 0 5, .receive 0 5, .called 0, .unsatisfied 0, .watch 0, .wake 0,
    .call 0 5, .unsatisfied 0, .change 5, .receive 0 5, .wake 0, .call 0 5, .finish 0 false,
    .cancelReact 0, .close 0, .enter 0, .readOwn 1, .unsatisfied 1, .watchStart 1, .changeOwn,
    .watch 1, .wake 1, .readOwn 1, .watch 1, .unsatisfied 1]

theorem oneAfterAnother_missesNothing :
    (last step init oneAfterAnother).untils.map Until.phase =
        [.done .returned, .parked 1] ∧
      (last step init oneAfterAnother).MissesNothing :=
  ⟨by decide +kernel, missesNothing (reach_last oneAfterAnother .init (by decide +kernel))⟩

/-- Two at once: the second one to leave finds `context.react` cleared. -/
def leftLast : List Action :=
  [.enter 0, .enter 1, .finish 1 false, .cancelReact 1, .close 1, .finish 0 false, .cancelReact 0]

/-- One inside the condition of another. -/
def nested : List Action :=
  [.enter 0, .enter 0, .finish 1 false, .cancelReact 1, .close 1, .unsatisfied 0]

/-- The first one is woken by a response, and calls the reader through the second one's `React`. -/
def throughAnother : List Action :=
  [.enter 0, .call 0 5, .receive 0 5, .called 0, .unsatisfied 0, .enter 1, .call 1 5, .receive 1 5,
    .called 1, .unsatisfied 1, .change 5, .receive 0 5, .wake 0, .call 0 5]

/-- A change of the own state is signalled twice to the second one and not to the first one. -/
def signalledToAnother : List Action :=
  [.enter 0, .readOwn 0, .unsatisfied 0, .watchStart 0, .watch 0, .wake 0, .readOwn 0,
    .unsatisfied 0, .enter 1, .watchStart 1, .watch 1, .unsatisfied 1, .wake 1, .unsatisfied 1,
    .changeOwn, .watch 0, .watch 1]

/-- No reader was called in it. -/
theorem signalledToAnother_quiet : (last step init signalledToAnother).Quiet := by
  refine ⟨fun R hR a q hq => ?_, fun u hu => ?_⟩
  swap
  · have hwatchers : (last step init signalledToAnother).untils.map Until.watcher =
        [.watching 0, .watching 0] := by decide +kernel
    have hwatcher : u.watcher = .watching 0 := by
      have hmem : u.watcher ∈ _ := List.mem_map_of_mem hu
      rw [hwatchers] at hmem
      simpa using hmem
    rw [hwatcher]
    exact ⟨(nomatch ·), fun _ => (nomatch ·)⟩
  have hreacts : (last step init signalledToAnother).reacts =
      [⟨false, 1, false, fun _ => none⟩, ⟨true, 1, false, fun _ => none⟩] := rfl
  rw [hreacts] at hR
  rcases List.mem_cons.mp hR with rfl | hR'
  · cases hq
  · rw [List.mem_singleton.mp hR'] at hq
    cases hq

/-- With two `until`s that are open at once, every part of it fails. -/
theorem overlapping_misses :
    (∃ s, exec step init leftLast = some s ∧
        s.untils.map Until.phase = [.done .attributeError, .done .returned] ∧
        ¬ s.MissesNothing) ∧
      (∃ s, exec step init nested = some s ∧
        s.untils.map Until.phase = [.leaving .attributeError, .done .returned] ∧
        ¬ s.MissesNothing) ∧
      (∃ s, exec step init throughAnother = some s ∧ s.stale = [0] ∧ ¬ s.MissesNothing) ∧
      ∃ s, exec step init signalledToAnother = some s ∧ s.Quiet ∧
        s.untils.map (fun u => (u.phase, u.readOwn)) =
          [(.parked 0, some 0), (.parked 1, none)] ∧
        s.own = 1 ∧ ¬ s.MissesNothing := by
  refine ⟨⟨_, exec_eq_last (by decide +kernel), by decide +kernel, fun h => ?_⟩,
    ⟨_, exec_eq_last (by decide +kernel), by decide +kernel, fun h => ?_⟩,
    ⟨_, exec_eq_last (by decide +kernel), by decide +kernel, fun h => ?_⟩,
    ⟨_, exec_eq_last (by decide +kernel), ?_, by decide +kernel, by decide +kernel, fun h => ?_⟩⟩
  · have hfailed := h.succeeds (last step init leftLast).untils[0] (by decide +kernel)
      .attributeError (by decide +kernel)
    exact absurd hfailed (by decide)
  · have hfailed := h.succeeds (last step init nested).untils[0] (by decide +kernel)
      .attributeError (by decide +kernel)
    exact absurd hfailed (by decide)
  · exact absurd h.newest (by decide +kernel)
  · exact signalledToAnother_quiet
  · have hread := (h.evaluated signalledToAnother_quiet
      (last step init signalledToAnother).untils[0] (by decide +kernel)
      (fun R hR => by cases hR; rfl)).2 0 (by decide +kernel)
    exact absurd hread (by decide +kernel)

end Workflow

end Reboot.Workflows
