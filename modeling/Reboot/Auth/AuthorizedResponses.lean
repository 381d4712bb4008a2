import Reboot.Auth.Authorization

/-!
# Which responses the authorizer has allowed

`Cleared` says that a call is internal or that the authorizer has allowed its auth for its
method, its request and the state it started from. `Inv` says so of every method that runs or
has run, and of every idempotent mutation about the call that produced it.

> `responses_authorized`: in every run in which a stored response is found only by its own
> caller or an internal one, and in which no call stores into a transaction's state between
> another call's authorization on that state and its start (`StepOk`), every response returned
> is `Cleared`.

`response_not_authorized` shows two runs without the condition: someone else presents a used
key, and a writer of the same transaction stores while a reader is being authorized.
-/

namespace Reboot.Auth.Calls

open Reboot.Lib

variable {A R P S : Type}

/-! ## The promise -/

/-- The authorizer allowed this call on the state `basis`, or the call is internal. -/
def Cleared (allowed : List (A × Str × R × Option S)) (c : Call A R) (basis : Option S) : Prop :=
  c.internal = true ∨ (c.auth, c.method, c.request, basis) ∈ allowed

instance [DecidableEq A] [DecidableEq R] [DecidableEq S]
    (allowed : List (A × Str × R × Option S)) (c : Call A R) (basis : Option S) :
    Decidable (Cleared allowed c basis) :=
  inferInstanceAs (Decidable (_ ∨ _))

/-- Every response was returned to a caller who was allowed to have it. -/
def Authorized (s : State A R P S) : Prop :=
  ∀ r ∈ s.returned, Cleared s.allowed r.call r.basis

instance [DecidableEq A] [DecidableEq R] [DecidableEq S] (s : State A R P S) :
    Decidable (Authorized s) :=
  inferInstanceAs (Decidable (∀ r ∈ s.returned, Cleared s.allowed r.call r.basis))

/-! ## The condition -/

/-- What the call `c` may find under its key: everything, if it is internal, and otherwise what
the same auth got for the same method and request. -/
def SameCaller (first c : Call A R) : Prop :=
  c.internal = true ∨
    first.internal = false ∧ first.auth = c.auth ∧ first.method = c.method ∧
      first.request = c.request

instance [DecidableEq A] [DecidableEq R] (first c : Call A R) : Decidable (SameCaller first c) :=
  inferInstanceAs (Decidable (_ ∨ _))

/-- What `transaction.state` contains for a call that was given it by reference and has not
started yet. -/
def Phase.held : Phase P S → Option (Option S)
  | .authorizing .shared _ live => some live
  | .opened .shared live => some live
  | _ => none

/-- Copying `v` into the state of the transaction changes nothing for a call that is about to
start on it. -/
def Undisturbed (s : State A R P S) (root : Nat) (v : S) : Prop :=
  ∀ x ∈ s.calls, x.1.transactionRootId = some root → ∀ live ∈ x.2.held, live = some v

instance [DecidableEq S] (s : State A R P S) (root : Nat) (v : S) :
    Decidable (Undisturbed s root v) :=
  inferInstanceAs (Decidable (∀ x ∈ s.calls, x.1.transactionRootId = some root →
    ∀ live ∈ x.2.held, live = some v))

def StepOk (s : State A R P S) : Action A R P S → Prop
  | .check i => ∀ x ∈ s.calls[i]?, ∀ m ∈ replayed s x.1, SameCaller m.call x.1
  | .complete i _ v =>
    ∀ x ∈ s.calls[i]?, x.1.kind.mutates = true →
      ∀ root ∈ x.1.transactionRootId, Undisturbed s root v
  | .rollback root snapshot _ => ∀ v ∈ snapshot, Undisturbed s root v
  | _ => True

instance [DecidableEq A] [DecidableEq R] [DecidableEq S] (s : State A R P S) :
    ∀ a, Decidable (StepOk s a)
  | .check i =>
    inferInstanceAs (Decidable (∀ x ∈ s.calls[i]?, ∀ m ∈ replayed s x.1, SameCaller m.call x.1))
  | .complete i _ v =>
    inferInstanceAs (Decidable (∀ x ∈ s.calls[i]?, x.1.kind.mutates = true →
      ∀ root ∈ x.1.transactionRootId, Undisturbed s root v))
  | .rollback root snapshot _ =>
    inferInstanceAs (Decidable (∀ v ∈ snapshot, Undisturbed s root v))
  | .call _ | .join _ | .load _ | .answered _ _ | .allow _ | .deny _ | .start _ | .item _ _
  | .emit _ _ | .deliver _ | .fail _ | .commit _ | .abort _ | .restart _ =>
    inferInstanceAs (Decidable True)

/-! ## The invariant -/

def PhaseOk (allowed : List (A × Str × R × Option S)) (c : Call A R) : Phase P S → Prop
  | .authorizing _ asked live => asked = live
  | .opened _ live => Cleared allowed c live
  | .executing basis => Cleared allowed c basis
  | .completed _ basis => Cleared allowed c basis
  | _ => True

/-- What is said of stored responses, committed or not. -/
def AllCleared (allowed : List (A × Str × R × Option S))
    (mutations : List (IdempotentMutation A R P S)) : Prop :=
  ∀ m ∈ mutations, Cleared allowed m.call m.basis

structure Inv (s : State A R P S) : Prop where
  calls : ∀ x ∈ s.calls, PhaseOk s.allowed x.1 x.2
  committed : AllCleared s.allowed s.idempotentMutations
  uncommitted : ∀ root t, s.transactions root = some t →
    AllCleared s.allowed t.idempotentMutations
  returned : Authorized s

theorem Cleared.mono {allowed allowed' : List (A × Str × R × Option S)} {c : Call A R}
    {basis : Option S} (hsub : allowed ⊆ allowed') (h : Cleared allowed c basis) :
    Cleared allowed' c basis := by
  obtain hi | hm := h
  · exact .inl hi
  · exact .inr (hsub hm)

theorem PhaseOk.mono {allowed allowed' : List (A × Str × R × Option S)} {c : Call A R}
    {phase : Phase P S} (hsub : allowed ⊆ allowed') (h : PhaseOk allowed c phase) :
    PhaseOk allowed' c phase := by
  cases phase with
  | authorizing => exact h
  | opened => exact Cleared.mono hsub h
  | executing => exact Cleared.mono hsub h
  | completed => exact Cleared.mono hsub h
  | entered | checked | waiting | loading | ended => trivial

/-- A response found by its own caller, or by an internal one, is cleared for who found it. -/
theorem Cleared.of_sameCaller {allowed : List (A × Str × R × Option S)} {first c : Call A R}
    {basis : Option S} (hs : SameCaller first c) (h : Cleared allowed first basis) :
    Cleared allowed c basis := by
  obtain hi | ⟨hext, ha, hm, hr⟩ := hs
  · exact .inl hi
  · obtain hi | hmem := h
    · rw [hext] at hi
      exact absurd hi (by decide)
    · right
      rw [← ha, ← hm, ← hr]
      exact hmem

theorem checkForIdempotentMutation_cleared {s : State A R P S} (h : Inv s) {c : Call A R}
    {m : IdempotentMutation A R P S} (hm : checkForIdempotentMutation s c = some m) :
    Cleared s.allowed m.call m.basis := by
  unfold checkForIdempotentMutation at hm
  split at hm
  next => exact absurd hm (by simp)
  next key _ =>
    split at hm
    next m' hfind =>
      cases hm
      exact h.committed _ (List.mem_of_find?_eq_some hfind)
    next =>
      obtain ⟨t, ht, hfind⟩ := Option.bind_eq_some_iff.mp hm
      obtain ⟨root, -, hroot⟩ := Option.bind_eq_some_iff.mp ht
      exact h.uncommitted root t hroot _ (List.mem_of_find?_eq_some hfind)

theorem record_cleared {allowed : List (A × Str × R × Option S)} {c : Call A R}
    {basis : Option S} {response : P} (h : Cleared allowed c basis) :
    AllCleared allowed (record c response basis) := by
  intro m hm
  unfold record at hm
  split at hm
  next => exact absurd hm (by simp)
  next key _ =>
    rw [List.mem_singleton.mp hm]
    exact h

theorem AllCleared.append {allowed : List (A × Str × R × Option S)}
    {ms ms' : List (IdempotentMutation A R P S)} (h : AllCleared allowed ms)
    (h' : AllCleared allowed ms') : AllCleared allowed (ms ++ ms') := by
  intro m hm
  obtain hm | hm := List.mem_append.mp hm
  · exact h m hm
  · exact h' m hm

namespace Inv

variable {s : State A R P S}

theorem init : Inv (State.init : State A R P S) where
  calls := by simp [State.init]
  committed := by simp [AllCleared, State.init]
  uncommitted := by simp [State.init]
  returned := by simp [Authorized, State.init]

/-- The cached value and the `load` event play no part. -/
theorem withLoad (h : Inv s) (cached : Option S) (load : Option Nat) :
    Inv { s with cached := cached, load := load } :=
  ⟨h.calls, h.committed, h.uncommitted, h.returned⟩

theorem setPhase (h : Inv s) {i : Nat} {c : Call A R} {phase : Phase P S}
    (hp : PhaseOk s.allowed c phase) : Inv (s.setPhase i c phase) where
  calls := by
    intro x hx
    obtain hx | rfl := List.mem_or_eq_of_mem_set hx
    · exact h.calls x hx
    · exact hp
  committed := h.committed
  uncommitted := h.uncommitted
  returned := h.returned

theorem respond (h : Inv s) {c : Call A R} {response : P} {basis : Option S}
    (hc : Cleared s.allowed c basis) : Inv (s.respond c response basis) where
  calls := h.calls
  committed := h.committed
  uncommitted := h.uncommitted
  returned := by
    intro r hr
    obtain rfl | hr := List.mem_cons.mp hr
    · exact hc
    · exact h.returned r hr

theorem allow (h : Inv s) (x : A × Str × R × Option S) :
    Inv { s with allowed := x :: s.allowed } where
  calls := fun y hy => (h.calls y hy).mono (List.subset_cons_self x _)
  committed := fun m hm => (h.committed m hm).mono (List.subset_cons_self x _)
  uncommitted := fun root t ht m hm =>
    (h.uncommitted root t ht m hm).mono (List.subset_cons_self x _)
  returned := fun r hr => (h.returned r hr).mono (List.subset_cons_self x _)

theorem setTransaction (h : Inv s) (root : Nat) {t : Transaction A R P S}
    (ht : AllCleared s.allowed t.idempotentMutations) : Inv (s.setTransaction root t) where
  calls := h.calls
  committed := h.committed
  uncommitted := by
    intro root' t' ht'
    by_cases hr : root' = root
    · subst hr
      simp only [State.setTransaction, Function.update_self, Option.some.injEq] at ht'
      rw [← ht']
      exact ht
    · simp only [State.setTransaction, Function.update_of_ne hr] at ht'
      exact h.uncommitted root' t' ht'
  returned := h.returned

theorem dropTransaction (h : Inv s) (root : Nat) : Inv (s.dropTransaction root) where
  calls := h.calls
  committed := h.committed
  uncommitted := by
    intro root' t' ht'
    by_cases hr : root' = root
    · subst hr
      simp [State.dropTransaction] at ht'
    · simp only [State.dropTransaction, Function.update_of_ne hr] at ht'
      exact h.uncommitted root' t' ht'
  returned := h.returned

/-- What is done to the phases of a transaction's calls keeps the invariant if it keeps
`PhaseOk` of each. -/
theorem mapCalls (h : Inv s) {root : Nat} {f : Phase P S → Phase P S}
    (hf : ∀ x ∈ s.calls, x.1.transactionRootId = some root → PhaseOk s.allowed x.1 (f x.2)) :
    Inv { s with calls := s.calls.map (onTransaction root f) } where
  calls := by
    intro y hy
    obtain ⟨x, hx, rfl⟩ := List.mem_map.mp hy
    unfold onTransaction
    split
    next hroot => exact hf x hx hroot
    next => exact h.calls x hx
  committed := h.committed
  uncommitted := h.uncommitted
  returned := h.returned

theorem copyFrom (h : Inv s) {root : Nat} {t : Transaction A R P S} {v : S}
    (ht : AllCleared s.allowed t.idempotentMutations) (hu : Undisturbed s root v) :
    Inv (s.copyFrom root t v) := by
  refine (h.setTransaction root (t := { t with state := some v }) ht).mapCalls ?_
  rintro ⟨c, phase⟩ hx hroot
  have hok : PhaseOk s.allowed c phase := h.calls _ hx
  have hheld : ∀ live ∈ phase.held, live = some v := hu _ hx hroot
  show PhaseOk s.allowed c (phase.copyFrom v)
  unfold Phase.copyFrom
  split
  next asked live =>
    show asked = some v
    rw [← hheld live rfl]
    exact hok
  next live =>
    show Cleared s.allowed c (some v)
    rw [← hheld live rfl]
    exact hok
  next => exact hok

theorem assign (h : Inv s) {root : Nat} {t : Transaction A R P S} {v : Option S}
    (ht : AllCleared s.allowed t.idempotentMutations) : Inv (s.assign root t v) := by
  refine (h.setTransaction root (t := { t with state := v }) ht).mapCalls ?_
  rintro ⟨c, phase⟩ hx -
  have hok : PhaseOk s.allowed c phase := h.calls _ hx
  show PhaseOk s.allowed c phase.detach
  unfold Phase.detach
  split
  next => exact hok
  next => exact hok
  next => exact hok

/-! ## The parts of a step -/

theorem loaded (h : Inv s) {i : Nat} {c : Call A R} {source : Source} {live : Option S}
    (hc : Cleared s.allowed c live) : Inv (loaded s i c source live) := by
  unfold Calls.loaded
  split
  next => exact h.setPhase hc
  next => exact h.setPhase hc

theorem finishCached (h : Inv s) {i : Nat} {c : Call A R} {source : Source} {live : Option S}
    (hc : Cleared s.allowed c live) : Inv (finishCached s i c source live) := by
  unfold Calls.finishCached
  split
  next => exact h.setPhase trivial
  next => exact h.loaded hc

theorem assignLoaded (h : Inv s) {c : Call A R} {v : S} {s' : State A R P S} {source : Source}
    (ha : assignLoaded s c v = some (s', source)) : Inv s' ∧ s'.allowed = s.allowed := by
  unfold Calls.assignLoaded at ha
  split at ha
  next =>
    cases ha
    exact ⟨h, rfl⟩
  next root _ =>
    obtain ⟨t, ht, he⟩ := Option.map_eq_some_iff.mp ha
    cases he
    exact ⟨h.assign (h.uncommitted root t ht), rfl⟩

theorem finishLoaded (h : Inv s) {default : S} {i : Nat} {c : Call A R} {data : Option S}
    (hc : Cleared s.allowed c data) {s' : State A R P S}
    (hs : finishLoaded default s i c data = some s') : Inv s' := by
  have hend : ∀ {s : State A R P S}, Inv s → Inv s.endLoad := fun h => h.withLoad _ none
  unfold Calls.finishLoaded at hs
  split at hs
  next v =>
    split at hs
    next =>
      cases hs
      exact (hend h).setPhase trivial
    next =>
      obtain ⟨⟨s1, source⟩, ha, he⟩ := Option.map_eq_some_iff.mp hs
      cases he
      obtain ⟨h1, hallowed⟩ := assignLoaded (h.withLoad (some v) s.load) ha
      refine (hend h1).loaded ?_
      show Cleared s1.allowed c (some v)
      rw [hallowed]
      exact hc
  next =>
    split at hs
    next =>
      cases hs
      exact (hend h).setPhase trivial
    next =>
      obtain ⟨⟨s1, source⟩, ha, he⟩ := Option.map_eq_some_iff.mp hs
      cases he
      obtain ⟨h1, hallowed⟩ := assignLoaded h ha
      refine (hend h1).setPhase ?_
      show Cleared s1.allowed c none
      rw [hallowed]
      exact hc

theorem authorizeCached (h : Inv s) (i : Nat) (c : Call A R) (source : Source) (v : S) :
    Inv (authorizeCached s i c source v) := by
  unfold Calls.authorizeCached
  split
  next hint => exact h.finishCached (.inl hint)
  next => exact h.setPhase rfl

theorem awaitLoad (h : Inv s) (i : Nat) (c : Call A R) : Inv (awaitLoad s i c) := by
  unfold Calls.awaitLoad
  split
  next => exact (h.withLoad s.cached (some i)).setPhase trivial
  next => exact h.setPhase trivial

theorem loadState (h : Inv s) {i : Nat} {c : Call A R} {s' : State A R P S}
    (hs : loadState s i c = some s') : Inv s' := by
  unfold Calls.loadState at hs
  split at hs
  next =>
    split at hs
    next v _ =>
      cases hs
      exact h.authorizeCached i c .own v
    next =>
      cases hs
      exact h.awaitLoad i c
  next root _ =>
    split at hs
    next => exact absurd hs (by simp)
    next t ht =>
      split at hs
      next =>
        cases hs
        exact h.authorizeCached i c .shared _
      next =>
        cases hs
        exact (h.assign (h.uncommitted root t ht)).authorizeCached i c .shared _
      next =>
        cases hs
        exact h.awaitLoad i c

theorem store (h : Inv s) {c : Call A R} {response : P} {basis : Option S} {v : S}
    (hc : Cleared s.allowed c basis)
    (hu : ∀ root ∈ c.transactionRootId, Undisturbed s root v) {s' : State A R P S}
    (hs : store s c response basis v = some s') : Inv s' ∧ s'.allowed = s.allowed := by
  unfold Calls.store at hs
  split at hs
  next =>
    cases hs
    exact ⟨⟨h.calls, (record_cleared hc).append h.committed, h.uncommitted, h.returned⟩, rfl⟩
  next root hroot =>
    split at hs
    next => exact absurd hs (by simp)
    next t ht =>
      split at hs
      next =>
        cases hs
        refine ⟨h.copyFrom ?_ (hu root hroot), rfl⟩
        exact (record_cleared hc).append (h.uncommitted root t ht)
      next => exact absurd hs (by simp)

theorem failCall (h : Inv s) (i : Nat) (c : Call A R) : Inv (failCall s i c) := by
  unfold Calls.failCall
  split
  next => exact (h.withLoad s.cached none).setPhase trivial
  next => exact h.setPhase trivial

theorem allowCall (h : Inv s) {default : S} {i : Nat} {c : Call A R} {source : Source}
    {asked live : Option S} (hlive : asked = live) {s' : State A R P S}
    (hs : allowCall default s i c source asked live = some s') : Inv s' := by
  have hc : Cleared ((c.auth, c.method, c.request, asked) :: s.allowed) c asked :=
    .inr List.mem_cons_self
  unfold Calls.allowCall at hs
  subst hlive
  split at hs
  next => exact (h.allow _).finishLoaded hc hs
  next =>
    cases hs
    exact (h.allow _).finishCached hc

theorem completeCall (h : Inv s) {i : Nat} {c : Call A R} {basis : Option S} {response : P}
    {v : S} (hc : Cleared s.allowed c basis)
    (hu : c.kind.mutates = true → ∀ root ∈ c.transactionRootId, Undisturbed s root v)
    {s' : State A R P S} (hs : completeCall s i c basis response v = some s') : Inv s' := by
  unfold Calls.completeCall at hs
  split at hs
  next hmut =>
    obtain ⟨s1, hstore, he⟩ := Option.map_eq_some_iff.mp hs
    cases he
    obtain ⟨h1, hallowed⟩ := h.store hc (hu hmut) hstore
    refine h1.setPhase ?_
    show Cleared s1.allowed c basis
    rw [hallowed]
    exact hc
  next =>
    cases hs
    exact h.setPhase hc

theorem rollback (h : Inv s) {root : Nat} {snapshot : Option S} {keys : List Nat}
    (hu : ∀ v ∈ snapshot, Undisturbed s root v) {s' : State A R P S}
    (hs : rollback s root snapshot keys = some s') : Inv s' := by
  obtain ⟨t, ht, he⟩ := Option.map_eq_some_iff.mp hs
  have hcl := h.uncommitted root t ht
  dsimp only at he
  split at he
  next =>
    cases he
    exact h.assign fun m hm => hcl m (List.mem_of_mem_filter hm)
  next v =>
    cases he
    exact h.copyFrom (fun m hm => hcl m (List.mem_of_mem_filter hm)) (hu v rfl)

end Inv

/-! ## One step and every run -/

theorem call_inv {default : S} {s s' : State A R P S} {c : Call A R} (h : Inv s)
    (hs : step default s (.call c) = some s') : Inv s' := by
  cases hs
  refine ⟨fun x hx => ?_, h.committed, h.uncommitted, h.returned⟩
  obtain hx | hx := List.mem_append.mp hx
  · exact h.calls x hx
  · rw [List.mem_singleton.mp hx]
    trivial

theorem join_inv {default : S} {s s' : State A R P S} {root : Nat} (h : Inv s)
    (hs : step default s (.join root) = some s') : Inv s' := by
  unfold step at hs
  dsimp only at hs
  split at hs
  next =>
    cases hs
    exact h.setTransaction _ (by simp [AllCleared])
  next => exact absurd hs (by simp)

theorem check_inv {default : S} {s s' : State A R P S} {i : Nat} (h : Inv s)
    (hok : StepOk s (.check i)) (hs : step default s (.check i) = some s') : Inv s' := by
  unfold step at hs
  dsimp only at hs
  split at hs
  next c hi =>
    split at hs
    next =>
      cases hs
      exact h.setPhase trivial
    next m hm =>
      cases hs
      have hended : PhaseOk s.allowed c (.ended : Phase P S) := trivial
      refine (h.setPhase hended).respond ?_
      have hcheck : checkForIdempotentMutation s c = some m := by
        unfold replayed at hm
        split at hm
        next => exact hm
        next => exact absurd hm (by simp)
      exact (checkForIdempotentMutation_cleared h hcheck).of_sameCaller (hok _ hi m hm)
  next => exact absurd hs (by simp)

theorem load_inv {default : S} {s s' : State A R P S} {i : Nat} (h : Inv s)
    (hs : step default s (.load i) = some s') : Inv s' := by
  unfold step at hs
  dsimp only at hs
  split at hs
  next => exact h.loadState hs
  next => exact h.loadState hs
  next => exact absurd hs (by simp)

theorem answered_inv {default : S} {s s' : State A R P S} {i : Nat} {data : Option S} (h : Inv s)
    (hs : step default s (.answered i data) = some s') : Inv s' := by
  unfold step at hs
  dsimp only at hs
  split at hs
  next =>
    split at hs
    next hint => exact h.finishLoaded (.inl hint) hs
    next =>
      cases hs
      exact h.setPhase rfl
  next => exact absurd hs (by simp)

theorem allow_inv {default : S} {s s' : State A R P S} {i : Nat} (h : Inv s)
    (hs : step default s (.allow i) = some s') : Inv s' := by
  unfold step at hs
  dsimp only at hs
  split at hs
  next hi => exact h.allowCall (h.calls _ (List.mem_of_getElem? hi)) hs
  next => exact absurd hs (by simp)

theorem deny_inv {default : S} {s s' : State A R P S} {i : Nat} (h : Inv s)
    (hs : step default s (.deny i) = some s') : Inv s' := by
  unfold step at hs
  dsimp only at hs
  split at hs
  next =>
    cases hs
    exact h.failCall i _
  next => exact absurd hs (by simp)

theorem start_inv {default : S} {s s' : State A R P S} {i : Nat} (h : Inv s)
    (hs : step default s (.start i) = some s') : Inv s' := by
  unfold step at hs
  dsimp only at hs
  split at hs
  next hi =>
    cases hs
    exact h.setPhase (h.calls _ (List.mem_of_getElem? hi))
  next => exact absurd hs (by simp)

theorem item_inv {default : S} {s s' : State A R P S} {i : Nat} {v : S} (h : Inv s)
    (hs : step default s (.item i v) = some s') : Inv s' := by
  unfold step at hs
  dsimp only at hs
  split at hs
  next =>
    cases hs
    exact h.authorizeCached i _ .own v
  next =>
    split at hs
    next =>
      cases hs
      exact h.authorizeCached i _ .own v
    next => exact absurd hs (by simp)
  next => exact absurd hs (by simp)

theorem emit_inv {default : S} {s s' : State A R P S} {i : Nat} {response : P} (h : Inv s)
    (hs : step default s (.emit i response) = some s') : Inv s' := by
  unfold step at hs
  dsimp only at hs
  split at hs
  next hi =>
    split at hs
    next =>
      cases hs
      exact h.respond (h.calls _ (List.mem_of_getElem? hi))
    next => exact absurd hs (by simp)
  next => exact absurd hs (by simp)

theorem complete_inv {default : S} {s s' : State A R P S} {i : Nat} {response : P} {v : S}
    (h : Inv s) (hok : StepOk s (.complete i response v))
    (hs : step default s (.complete i response v) = some s') : Inv s' := by
  unfold step at hs
  dsimp only at hs
  split at hs
  next hi => exact h.completeCall (h.calls _ (List.mem_of_getElem? hi)) (hok _ hi) hs
  next => exact absurd hs (by simp)

theorem deliver_inv {default : S} {s s' : State A R P S} {i : Nat} (h : Inv s)
    (hs : step default s (.deliver i) = some s') : Inv s' := by
  unfold step at hs
  dsimp only at hs
  split at hs
  next c _ _ hi =>
    cases hs
    have hended : PhaseOk s.allowed c (.ended : Phase P S) := trivial
    exact (h.setPhase hended).respond (h.calls _ (List.mem_of_getElem? hi))
  next => exact absurd hs (by simp)

theorem fail_inv {default : S} {s s' : State A R P S} {i : Nat} (h : Inv s)
    (hs : step default s (.fail i) = some s') : Inv s' := by
  unfold step at hs
  dsimp only at hs
  split at hs
  next =>
    cases hs
    exact h.failCall i _
  next => exact absurd hs (by simp)

theorem commit_inv {default : S} {s s' : State A R P S} {root : Nat} (h : Inv s)
    (hs : step default s (.commit root) = some s') : Inv s' := by
  obtain ⟨t, ht, he⟩ := Option.map_eq_some_iff.mp hs
  cases he
  have hdrop := h.dropTransaction root
  exact ⟨hdrop.calls, (h.uncommitted root t ht).append h.committed, hdrop.uncommitted,
    hdrop.returned⟩

theorem restart_inv {default : S} {s s' : State A R P S} {prepared : List Nat} (h : Inv s)
    (hs : step default s (.restart prepared) = some s') : Inv s' := by
  cases hs
  refine ⟨by simp, h.committed, fun root t' ht' => ?_, h.returned⟩
  dsimp only at ht'
  split at ht'
  next =>
    obtain ⟨t, ht, rfl⟩ := Option.map_eq_some_iff.mp ht'
    exact h.uncommitted root t ht
  next => exact absurd ht' (by simp)

/-- A step that meets the condition keeps the invariant. -/
theorem step_inv {default : S} {s s' : State A R P S} {a : Action A R P S} (h : Inv s)
    (hok : StepOk s a) (hs : step default s a = some s') : Inv s' := by
  cases a with
  | call c => exact call_inv h hs
  | join root => exact join_inv h hs
  | check i => exact check_inv h hok hs
  | load i => exact load_inv h hs
  | answered i data => exact answered_inv h hs
  | allow i => exact allow_inv h hs
  | deny i => exact deny_inv h hs
  | start i => exact start_inv h hs
  | item i v => exact item_inv h hs
  | emit i response => exact emit_inv h hs
  | complete i response v => exact complete_inv h hok hs
  | deliver i => exact deliver_inv h hs
  | fail i => exact fail_inv h hs
  | commit root => exact commit_inv h hs
  | abort root =>
    obtain ⟨t, ht, he⟩ := Option.map_eq_some_iff.mp hs
    cases he
    exact h.dropTransaction root
  | rollback root snapshot keys => exact h.rollback hok hs
  | restart prepared => exact restart_inv h hs

/-- In every run that meets the condition, whatever the methods, the database and the
authorizer answer, a response is returned only where the authorizer allowed the caller's auth
for the method, the request and the state the response was computed from. -/
theorem responses_authorized {default : S} {s : State A R P S}
    (h : Reach (step default) StepOk .init s) : Authorized s :=
  (h.invariant Inv .init fun _ _ _ hi hok hs => step_inv hi hok hs).returned

/-- A writer as the member `0` calls it, with the key `7`. -/
def exampleWriter (auth : Nat) (idempotencyKey root : Option Nat) : Call Nat Nat :=
  { kind := .writer, auth, internal := false, method := ['a', 'd', 'd'], request := 5,
    idempotencyKey, transactionRootId := root, fromConstructor := false,
    requiresConstructor := false }

def exampleReader (root : Option Nat) : Call Nat Nat :=
  { kind := .reader, auth := 0, internal := false, method := ['g', 'e', 't'], request := 0,
    idempotencyKey := none, transactionRootId := root, fromConstructor := false,
    requiresConstructor := false }

/-- A caller whose response got lost repeats its call and is given the stored response. -/
def repeatedRun : List (Action Nat Nat Nat Nat) :=
  [.call (exampleWriter 0 (some 7) none), .check 0, .load 0, .answered 0 (some 1), .allow 0,
   .complete 0 6 6, .deliver 0, .call (exampleWriter 0 (some 7) none), .check 1]

theorem responses_authorized_repeated :
    (last (step 0) .init repeatedRun).returned.length = 2 ∧
      Authorized (last (step 0) .init repeatedRun) :=
  ⟨by decide +kernel,
   responses_authorized (reach_last repeatedRun .init (by decide +kernel))⟩

/-- The writer's key, presented by someone the authorizer was never asked about. -/
def someoneElsesKey : List (Action Nat Nat Nat Nat) :=
  [.call (exampleWriter 0 (some 7) none), .check 0, .load 0, .answered 0 (some 1), .allow 0,
   .complete 0 6 6, .deliver 0, .call (exampleWriter 1 (some 7) none), .check 1]

/-- A transaction gathers a writer and a reader: the reader's authorizer is asked about the
state `1`, the writer stores `6`, and the reader starts on that. -/
def gathered : List (Action Nat Nat Nat Nat) :=
  [.join 3, .call (exampleWriter 0 none (some 3)), .check 0, .load 0, .answered 0 (some 1),
   .allow 0, .call (exampleReader (some 3)), .check 1, .load 1, .complete 0 6 6, .allow 1,
   .complete 1 6 0, .deliver 1]

/-- A response is returned to someone whom the authorizer did not allow, and one that was
computed from a state that the authorizer did not allow. -/
theorem response_not_authorized :
    (∃ s : State Nat Nat Nat Nat, exec (step 0) .init someoneElsesKey = some s ∧
      (⟨exampleWriter 1 (some 7) none, 6, some 1⟩ : Returned Nat Nat Nat Nat) ∈ s.returned ∧
      (∀ x ∈ s.allowed, x.1 = 0) ∧ ¬ Authorized s) ∧
    ∃ s : State Nat Nat Nat Nat, exec (step 0) .init gathered = some s ∧
      (⟨exampleReader (some 3), 6, some 6⟩ : Returned Nat Nat Nat Nat) ∈ s.returned ∧
      ¬ Authorized s := by
  constructor
  · exact ⟨_, exec_eq_last (by decide +kernel), by decide +kernel, by decide +kernel,
      by decide +kernel⟩
  · exact ⟨_, exec_eq_last (by decide +kernel), by decide +kernel, by decide +kernel⟩

end Reboot.Auth.Calls
