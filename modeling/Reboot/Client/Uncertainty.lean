import Reboot.Client.DerivedKeys
import Reboot.Lib.Run

/-!
# Uncertain mutations

The calls of `idempotently` on one manager, any number of them under way at once, and what becomes
of the ones that were handed to their callers. A mutation that fails without an answer from the
backend may have been made; once that is so the manager refuses mutations, if among those attempted
was one without idempotency, which somebody might now repeat.

> `exactly`: a mutation is refused exactly if a failure of that kind came after a mutation without
> idempotency, and was not acknowledged since.

Mirroring notes:

* `.always()` opts out: such a call passes the manager by, and so does its failure.
* Whether there was a mutation without idempotency is looked at when a mutation fails.
* The `except` of `idempotently` is around the manager's own check of the key as well: a mutation
  that is refused there counts as one that failed. `KeyAccepted` leaves these calls out.
-/

namespace Reboot.Client

open Reboot.Lib

variable {R : Type}

/-- A call that was handed to its caller. -/
structure Sent (R : Type) where
  rpc : Rpc R
  always : Bool
deriving DecidableEq

/-- What happened, as far as it matters for refusing mutations. -/
inductive Event where
  /-- a mutation without idempotency was attempted -/
  | attempted
  /-- a mutation that was handed to its caller failed, without an answer from the backend -/
  | failed (always : Bool)
  | acknowledged
deriving DecidableEq

inductive Ending where
  | returned
  /-- the backend raised -/
  | fromBackend
  | unanswered
deriving DecidableEq

structure Calls (R : Type) where
  manager : Manager R
  sent : List (Sent R)
  events : List Event

inductive Action (R : Type) where
  | call (c : Made R)
  | finish (k : Nat) (ending : Ending)
  | acknowledge

def Made.always (c : Made R) : Bool :=
  match c.idempotency with
  | none => false
  | some i => i.always

namespace Calls

def init (R : Type) (seed : Option Uuid) (requiredReason : Option Str) : Calls R :=
  ⟨.fresh R seed requiredReason, [], []⟩

section

variable [DecidableEq R] (uuid5 : Uuid → Str → Uuid)

/-- What `idempotently` does up to its `yield`. -/
def idempotently (s : Calls R) (c : Made R) :
    Manager R × Except (IdempotencyError R) (Option Uuid) :=
  s.manager.idempotently (Manager.env uuid5 c.seeds c.expiring) c.rpc c.idempotency

def call (s : Calls R) (c : Made R) : Calls R :=
  let events :=
    if c.idempotency = none ∧ s.manager.required = false ∧ c.rpc.mutation = true then
      s.events ++ [.attempted]
    else s.events
  match s.idempotently uuid5 c with
  | (m, .ok _) => ⟨m, s.sent ++ [⟨c.rpc, c.always⟩], events⟩
  | (m, .error _) => ⟨m, s.sent, events⟩

end

/-- The caller is done with a call. -/
def finish (s : Calls R) (k : Nat) (x : Sent R) (ending : Ending) : Calls R :=
  let s := { s with sent := s.sent.eraseIdx k }
  match ending with
  | .returned => s
  | .fromBackend => { s with manager := if x.always then s.manager else s.manager.failed x.rpc true }
  | .unanswered =>
    { s with
      manager := if x.always then s.manager else s.manager.failed x.rpc false
      events := if x.rpc.mutation then s.events ++ [.failed x.always] else s.events }

/-- `acknowledge_idempotency_uncertainty`, which asserts that there is something to acknowledge -/
def acknowledge (s : Calls R) : Option (Calls R) :=
  if s.manager.uncertainMutation.isSome then
    some { s with
      manager := { s.manager with uncertainMutation := none }
      events := s.events ++ [.acknowledged] }
  else none

def step [DecidableEq R] (uuid5 : Uuid → Str → Uuid) (s : Calls R) : Action R → Option (Calls R)
  | .call c => some (s.call uuid5 c)
  | .finish k ending => do return s.finish k (← s.sent[k]?) ending
  | .acknowledge => s.acknowledge

/-! ## What is refused -/

/-- Since it was last acknowledged, a mutation failed after one without idempotency. -/
def Uncertain (events : List Event) : Prop :=
  ∃ before since, events = before ++ .failed false :: since ∧ .attempted ∈ before ∧
    .acknowledged ∉ since

/-- The same, whatever failed and in whatever order. -/
def UncertainInAnyOrder (events : List Event) : Prop :=
  .attempted ∈ events ∧ ∃ before since always, events = before ++ .failed always :: since ∧
    .acknowledged ∉ since

variable [DecidableEq R] (uuid5 : Uuid → Str → Uuid)

def Refused (s : Calls R) (c : Made R) : Prop :=
  ∃ first, (s.idempotently uuid5 c).2 = .error (.uncertain first c.rpc)

/-- The manager does not refuse the key of a mutation it could be uncertain about. -/
def KeyAccepted (s : Calls R) : Action R → Prop
  | .call c => c.rpc.mutation = true → s.manager.mutationsWithoutIdempotency = true →
      s.manager.uncertainMutation = none → ∀ i, c.idempotency = some i → i.always = false →
        ∃ key, (s.manager.idempotencyKeyFrom (Manager.env uuid5 c.seeds c.expiring) c.rpc i).2 =
          .ok key
  | .finish _ _ | .acknowledge => True

/-- What later refusals depend on. -/
def decisive (m : Manager R) : Bool × Bool × Option (Rpc R) :=
  (m.required, m.mutationsWithoutIdempotency, m.uncertainMutation)

structure Exactly (s : Calls R) : Prop where
  refused : ∀ c : Made R, c.rpc.mutation = true → c.always = false →
    (s.Refused uuid5 c ↔ Uncertain s.events)
  /-- a mutation that is refused, because it has no idempotency or because of the uncertainty,
  changes nothing -/
  unchanged : ∀ (c : Made R) (e : IdempotencyError R), (s.idempotently uuid5 c).2 = .error e →
    (∃ reason, e = .required reason) ∨ (∃ first second, e = .uncertain first second) →
    decisive (s.idempotently uuid5 c).1 = decisive s.manager

/-! ## The history -/

variable {events : List Event} {uuid5}

omit [DecidableEq R] in
theorem uncertain_append_iff {e : Event} :
    Uncertain (events ++ [e]) ↔
      (Uncertain events ∧ e ≠ .acknowledged) ∨ (e = .failed false ∧ .attempted ∈ events) := by
  constructor
  · rintro ⟨before, since, heq, hattempted, hsince⟩
    rcases List.eq_nil_or_concat since with rfl | ⟨since, x, rfl⟩
    · obtain ⟨rfl, hlast⟩ := List.append_inj' heq rfl
      exact .inr ⟨(List.cons.inj hlast).1, hattempted⟩
    · rw [List.concat_eq_append, ← List.cons_append, ← List.append_assoc] at heq
      obtain ⟨rfl, hlast⟩ := List.append_inj' heq rfl
      obtain rfl := (List.cons.inj hlast).1
      rw [List.concat_eq_append] at hsince
      refine .inl ⟨⟨before, since, rfl, hattempted, fun h => hsince (List.mem_append_left _ h)⟩, ?_⟩
      intro h
      exact hsince (List.mem_append_right _ (by rw [h]; exact List.mem_singleton_self _))
  · rintro (⟨⟨before, since, rfl, hattempted, hsince⟩, hne⟩ | ⟨rfl, hattempted⟩)
    · refine ⟨before, since ++ [e], by simp, hattempted, fun h => ?_⟩
      rcases List.mem_append.mp h with h | h
      · exact hsince h
      · exact hne (List.mem_singleton.mp h).symm
    · exact ⟨events, [], rfl, hattempted, List.not_mem_nil⟩

/-- The two flags say what has happened. -/
structure Inv (s : Calls R) : Prop where
  attempted : s.manager.mutationsWithoutIdempotency = true ↔ .attempted ∈ s.events
  uncertain : s.manager.uncertainMutation ≠ none ↔ Uncertain s.events
  required : s.manager.required = true → s.manager.mutationsWithoutIdempotency = false

omit [DecidableEq R] in
theorem Inv.uncertain_attempted {s : Calls R} (h : Inv s)
    (hu : s.manager.uncertainMutation ≠ none) : s.manager.mutationsWithoutIdempotency = true := by
  obtain ⟨before, since, heq, hattempted, -⟩ := h.uncertain.mp hu
  rw [h.attempted, heq]
  exact List.mem_append_left _ hattempted

/-! ## One call -/

section

variable {m : Manager R} {env : Env} {rpc : Rpc R} {i : Idempotency}

omit [DecidableEq R] in
theorem getOrCreate_decisive (m : Manager R) (env : Env) (rpc : Rpc R) (i : Idempotency) :
    decisive (m.getOrCreateIdempotencyKey env rpc i).1 = decisive m := by
  unfold Manager.getOrCreateIdempotencyKey
  split
  next => rfl
  next =>
    dsimp only
    split <;> rfl

theorem idempotencyKeyFrom_decisive (m : Manager R) (env : Env) (rpc : Rpc R) (i : Idempotency) :
    decisive (m.idempotencyKeyFrom env rpc i).1 = decisive m := by
  rw [← getOrCreate_decisive m env rpc i]
  unfold Manager.idempotencyKeyFrom
  dsimp only
  split
  next => rfl
  next =>
    split
    next => rfl
    next => split <;> rfl

/-- Which errors the check of a key can end with. -/
theorem idempotencyKeyFrom_error {e : IdempotencyError R}
    (h : (m.idempotencyKeyFrom env rpc i).2 = .error e) :
    e = .moreThanOnce rpc ∨ ∃ first, e = .reusedUnsafely first := by
  unfold Manager.idempotencyKeyFrom at h
  dsimp only at h
  split at h
  next => cases h
  next =>
    split at h
    next =>
      cases h
      exact .inl rfl
    next =>
      split at h
      next =>
        cases h
        exact .inr ⟨_, rfl⟩
      next => cases h

omit [DecidableEq R] in
/-- A failure only counts for a mutation, after one without idempotency, and only the first. -/
theorem failed_decisive {fromBackend : Bool} (h : rpc.mutation = false ∨ fromBackend = true ∨
    m.mutationsWithoutIdempotency = false ∨ m.uncertainMutation ≠ none) :
    m.failed rpc fromBackend = m := by
  unfold Manager.failed
  rw [if_neg]
  rcases h with h | h | h | h
  · simp [h]
  · simp [h]
  · simp [h]
  · obtain ⟨first, hfirst⟩ := Option.ne_none_iff_exists'.mp h
    simp [hfirst]

end

variable {s s' : Calls R}

/-- What a call does to the flags. -/
theorem idempotently_decisive {c : Made R} (hok : s.KeyAccepted uuid5 (.call c)) :
    decisive (s.idempotently uuid5 c).1 =
      (s.manager.required,
        s.manager.mutationsWithoutIdempotency ||
          decide (c.idempotency = none ∧ s.manager.required = false ∧ c.rpc.mutation = true),
        s.manager.uncertainMutation) := by
  unfold idempotently Manager.idempotently
  cases hi : c.idempotency with
  | none =>
    dsimp only
    split
    next hreq => simp [hreq, decisive]
    next hreq =>
      by_cases hmut : c.rpc.mutation = true
      · rw [if_pos hmut]
        split <;> simp [hmut, hreq, decisive]
      · rw [if_neg hmut]
        split <;> simp [hmut, decisive]
  | some i =>
    dsimp only
    have hsame : ∀ m : Manager R, decisive m = decisive s.manager → decisive m =
        (s.manager.required, s.manager.mutationsWithoutIdempotency ||
          decide (some i = none ∧ s.manager.required = false ∧ c.rpc.mutation = true),
          s.manager.uncertainMutation) := by
      intro m hm
      rw [hm]
      simp [decisive]
    split
    next => exact hsame _ rfl
    next halways =>
      split
      next => exact hsame _ rfl
      next hnot =>
        split
        next m key heq =>
          refine hsame m ?_
          have hd := idempotencyKeyFrom_decisive s.manager (Manager.env uuid5 c.seeds c.expiring)
            c.rpc i
          rw [heq] at hd
          exact hd
        next m e heq =>
          have hd := idempotencyKeyFrom_decisive s.manager (Manager.env uuid5 c.seeds c.expiring)
            c.rpc i
          rw [heq] at hd
          have hflags : decisive m = decisive s.manager := hd
          have hfailed : m.failed c.rpc false = m := by
            -- a key is refused here only if the failure does not count
            apply failed_decisive
            simp only [decisive, Prod.mk.injEq] at hflags
            rw [hflags.2.1, hflags.2.2]
            by_cases hmut : c.rpc.mutation = true
            · by_cases hmwi : s.manager.mutationsWithoutIdempotency = true
              · by_cases hu : s.manager.uncertainMutation = none
                · obtain ⟨key, hkey⟩ := hok hmut hmwi hu i hi (by simpa using halways)
                  rw [heq] at hkey
                  cases hkey
                · exact .inr (.inr (.inr hu))
              · exact .inr (.inr (.inl (by simpa using hmwi)))
            · exact .inl (by simpa using hmut)
          rw [hfailed]
          exact hsame m hflags

/-- When a mutation is refused. -/
theorem refused_iff {c : Made R} (hmut : c.rpc.mutation = true) (halways : c.always = false) :
    s.Refused uuid5 c ↔ s.manager.uncertainMutation ≠ none ∧
      ¬ (c.idempotency = none ∧ s.manager.required = true) := by
  unfold Refused idempotently Manager.idempotently
  cases hi : c.idempotency with
  | none =>
    dsimp only
    by_cases hreq : s.manager.required = true
    · rw [if_pos hreq]
      simp [hreq]
    · rw [if_neg hreq, if_pos hmut]
      cases hu : s.manager.uncertainMutation with
      | none => simp
      | some first => simp [hmut, hreq]
  | some i =>
    have hi' : ¬ i.always = true := by
      unfold Made.always at halways
      rw [hi] at halways
      simpa using halways
    dsimp only
    rw [if_neg hi']
    cases hu : s.manager.uncertainMutation with
    | some first => simp [hmut]
    | none =>
      dsimp only
      refine iff_of_false ?_ (by simp)
      rintro ⟨first, hfirst⟩
      split at hfirst
      next => cases hfirst
      next e heq =>
        cases hfirst
        rcases idempotencyKeyFrom_error (congrArg Prod.snd heq) with h | ⟨_, h⟩ <;> cases h

/-- A call that is refused before its key is looked at. -/
theorem rejected_decisive (h : Inv s) {c : Made R} {e : IdempotencyError R}
    (he : (s.idempotently uuid5 c).2 = .error e)
    (hkind : (∃ reason, e = .required reason) ∨ ∃ first second, e = .uncertain first second) :
    decisive (s.idempotently uuid5 c).1 = decisive s.manager := by
  unfold idempotently Manager.idempotently at he ⊢
  cases hi : c.idempotency with
  | none =>
    rw [hi] at he
    dsimp only at he ⊢
    split
    next => rfl
    next hreq =>
      rw [if_neg hreq] at he
      by_cases hmut : c.rpc.mutation = true
      · rw [if_pos hmut] at he ⊢
        cases hu : s.manager.uncertainMutation with
        | none =>
          rw [hu] at he
          cases he
        | some first =>
          -- there was a mutation without idempotency before
          have hmwi := h.uncertain_attempted (by rw [hu]; exact (nomatch ·))
          simp [decisive, hmut, hmwi, hu]
      · rw [if_neg hmut]
        split <;> simp [hmut]
  | some i =>
    rw [hi] at he
    dsimp only at he ⊢
    split
    next => rfl
    next halways =>
      rw [if_neg halways] at he
      split
      next => rfl
      next hnot =>
        split at he
        next h₁ h₂ => exact (hnot _ h₁ h₂).elim
        next =>
          split at he
          next => cases he
          next e' heq =>
            cases he
            have herror := idempotencyKeyFrom_error (congrArg Prod.snd heq)
            rcases hkind with ⟨_, rfl⟩ | ⟨_, _, rfl⟩ <;> rcases herror with herr | ⟨_, herr⟩ <;>
              cases herr

/-! ## Every run -/

omit [DecidableEq R] in
theorem inv_init (seed : Option Uuid) (requiredReason : Option Str) :
    Inv (init R seed requiredReason) where
  attempted := by simp [init, Manager.fresh]
  uncertain := by
    refine iff_of_false (by simp [init, Manager.fresh]) ?_
    rintro ⟨before, since, heq, -⟩
    exact absurd heq (by simp [init])
  required _ := rfl

theorem Inv.call (h : Inv s) {c : Made R} (hok : s.KeyAccepted uuid5 (.call c)) :
    Inv (s.call uuid5 c) := by
  have hflags := idempotently_decisive hok
  -- the events of the call and its flags, whatever the answer is
  have hgoal : ∀ (m : Manager R) (sent : List (Sent R)), m = (s.idempotently uuid5 c).1 →
      Inv ⟨m, sent, if c.idempotency = none ∧ s.manager.required = false ∧ c.rpc.mutation = true
        then s.events ++ [.attempted] else s.events⟩ := by
    rintro m sent rfl
    simp only [decisive, Prod.mk.injEq] at hflags
    obtain ⟨hrequired, hmwi, hu⟩ := hflags
    by_cases hc : c.idempotency = none ∧ s.manager.required = false ∧ c.rpc.mutation = true
    · rw [decide_eq_true hc, Bool.or_true] at hmwi
      rw [if_pos hc]
      refine ⟨iff_of_true hmwi (by simp), ?_, fun hr => ?_⟩
      · show (s.idempotently uuid5 c).1.uncertainMutation ≠ none ↔ _
        rw [hu, h.uncertain, uncertain_append_iff]
        simp
      · exact absurd (hrequired.symm.trans hr) (by simp [hc.2.1])
    · rw [decide_eq_false hc, Bool.or_false] at hmwi
      rw [if_neg hc]
      refine ⟨?_, ?_, fun hr => ?_⟩
      · show (s.idempotently uuid5 c).1.mutationsWithoutIdempotency = true ↔ _
        rw [hmwi]
        exact h.attempted
      · show (s.idempotently uuid5 c).1.uncertainMutation ≠ none ↔ _
        rw [hu]
        exact h.uncertain
      · exact hmwi.trans (h.required (hrequired.symm.trans hr))
  unfold Calls.call
  dsimp only
  split
  next m key heq => exact hgoal m _ (by rw [heq])
  next m e heq => exact hgoal m _ (by rw [heq])

omit [DecidableEq R] in
theorem Inv.finish (h : Inv s) {k : Nat} {x : Sent R} (ending : Ending) :
    Inv (s.finish k x ending) := by
  unfold Calls.finish
  dsimp only
  split
  next => exact ⟨h.attempted, h.uncertain, h.required⟩
  next =>
    have hsame : (if x.always then s.manager else s.manager.failed x.rpc true) = s.manager := by
      split
      · rfl
      · exact failed_decisive (.inr (.inl rfl))
    rw [hsame]
    exact ⟨h.attempted, h.uncertain, h.required⟩
  next =>
    by_cases hmut : x.rpc.mutation = true
    · rw [if_pos hmut]
      by_cases halways : x.always = true
      · rw [if_pos halways, halways]
        refine ⟨?_, ?_, h.required⟩
        · simpa using h.attempted
        · show s.manager.uncertainMutation ≠ none ↔ _
          rw [h.uncertain, uncertain_append_iff]
          simp
      · rw [if_neg halways, show x.always = false by simpa using halways]
        by_cases hcounts : s.manager.mutationsWithoutIdempotency = true
        · have hattempted := h.attempted.mp hcounts
          have hflags : (s.manager.failed x.rpc false).mutationsWithoutIdempotency =
              s.manager.mutationsWithoutIdempotency ∧
              (s.manager.failed x.rpc false).required = s.manager.required ∧
              (s.manager.failed x.rpc false).uncertainMutation ≠ none := by
            unfold Manager.failed
            by_cases hu : s.manager.uncertainMutation = none
            · rw [if_pos (by simp [hmut, hcounts, hu])]
              exact ⟨rfl, rfl, by simp⟩
            · rw [if_neg (by
                obtain ⟨first, hfirst⟩ := Option.ne_none_iff_exists'.mp hu
                simp [hfirst])]
              exact ⟨rfl, rfl, hu⟩
          refine ⟨?_, ?_, fun hr => ?_⟩
          · show (s.manager.failed x.rpc false).mutationsWithoutIdempotency = true ↔ _
            rw [hflags.1]
            simpa using h.attempted
          · exact iff_of_true hflags.2.2
              (uncertain_append_iff.mpr (.inr ⟨rfl, hattempted⟩))
          · exact hflags.1.trans (h.required (hflags.2.1.symm.trans hr))
        · have hnot : .attempted ∉ s.events := fun hmem => hcounts (h.attempted.mpr hmem)
          rw [failed_decisive (.inr (.inr (.inl (by simpa using hcounts))))]
          refine ⟨?_, ?_, h.required⟩
          · simpa using h.attempted
          · show s.manager.uncertainMutation ≠ none ↔ _
            rw [h.uncertain, uncertain_append_iff]
            simp [hnot]
    · rw [if_neg hmut]
      have hsame : (if x.always then s.manager else s.manager.failed x.rpc false) = s.manager := by
        split
        · rfl
        · exact failed_decisive (.inl (by simpa using hmut))
      rw [hsame]
      exact ⟨h.attempted, h.uncertain, h.required⟩

theorem step_inv {a : Action R} (h : Inv s) (hok : s.KeyAccepted uuid5 a)
    (hs : step uuid5 s a = some s') : Inv s' := by
  unfold step at hs
  split at hs
  next c =>
    cases hs
    exact h.call hok
  next k ending =>
    obtain ⟨x, -, hx⟩ := Option.bind_eq_some_iff.mp hs
    cases hx
    exact h.finish ending
  next =>
    unfold acknowledge at hs
    split at hs
    next =>
      cases hs
      refine ⟨by simpa using h.attempted, ?_, h.required⟩
      refine iff_of_false (by simp) fun hu => ?_
      rcases uncertain_append_iff.mp hu with ⟨-, hne⟩ | ⟨heq, -⟩
      · exact hne rfl
      · cases heq
    next => cases hs

theorem Inv.toExactly (h : Inv s) : s.Exactly uuid5 where
  refused c hmut halways := by
    rw [refused_iff hmut halways, ← h.uncertain]
    refine and_iff_left_of_imp fun hu hreq => ?_
    have hmwi := h.uncertain_attempted hu
    rw [h.required hreq.2] at hmwi
    cases hmwi
  unchanged c e he hkind := rejected_decisive h he hkind

/-- In every run in which the manager refuses no key of a mutation that it could be uncertain
about. -/
theorem exactly {seed : Option Uuid} {requiredReason : Option Str}
    (h : Reach (step uuid5) (KeyAccepted uuid5) (init R seed requiredReason) s) :
    s.Exactly uuid5 :=
  (h.invariant Inv (inv_init seed requiredReason) fun _ _ _ hi hok hs =>
    step_inv hi hok hs).toExactly

/-- A `uuid5` for runs that do not depend on it. -/
def lengthUuid5 (_ : Uuid) (name : Str) : Uuid := name.length

def unkeyedCall : Made Nat := ⟨none, 0, Manager.chargeOf "AAEBAQEBAQEBAQ:1", none⟩

def keyedCall (name : String) : Made Nat :=
  ⟨none, 0, Manager.chargeOf "AAEBAQEBAQEBAQ:1", some (Manager.withAlias name)⟩

def alwaysCall : Made Nat :=
  ⟨none, 0, Manager.chargeOf "AAEBAQEBAQEBAQ:1",
    some ⟨none, none, some .always, none, Idempotency.one_none⟩⟩

/-- A mutation without idempotency fails without an answer. -/
theorem exactly_failed : ∃ s : Calls Nat,
    exec (step lengthUuid5) (init Nat (some 7) none) [.call unkeyedCall, .finish 0 .unanswered] =
        some s ∧
      s.Exactly lengthUuid5 ∧ Uncertain s.events ∧ s.Refused lengthUuid5 (keyedCall "again") := by
  refine ⟨_, exec_eq_last (by decide +kernel), ?_, ⟨[.attempted], [], by decide +kernel, by simp,
    by simp⟩, (refused_iff rfl rfl).mpr ⟨by decide +kernel, by decide +kernel⟩⟩
  have hcall : Reach (step lengthUuid5) (KeyAccepted lengthUuid5) (init Nat (some 7) none)
      ((init Nat (some 7) none).call lengthUuid5 unkeyedCall) :=
    Reach.init.step (a := .call unkeyedCall) (fun _ hmwi => absurd hmwi (by decide)) rfl
  exact exactly (hcall.step (a := .finish 0 .unanswered) trivial rfl)

/-- Two runs after which a mutation is not refused: a mutation with an alias fails without an
answer before there is one without idempotency, and one that is `.always()` fails after it. -/
theorem unrefused :
    (∃ s : Calls Nat, exec (step lengthUuid5) (init Nat (some 7) none)
        [.call (keyedCall "first"), .finish 0 .unanswered, .call unkeyedCall,
          .finish 0 .returned] = some s ∧
      UncertainInAnyOrder s.events ∧ ¬ s.Refused lengthUuid5 (keyedCall "next")) ∧
    ∃ s : Calls Nat, exec (step lengthUuid5) (init Nat (some 7) none)
        [.call unkeyedCall, .finish 0 .returned, .call alwaysCall, .finish 0 .unanswered] = some s ∧
      UncertainInAnyOrder s.events ∧ ¬ s.Refused lengthUuid5 (keyedCall "next") := by
  refine ⟨⟨_, exec_eq_last (by decide +kernel),
      ⟨by decide +kernel, [], [.attempted], false, by decide +kernel, by simp⟩, fun h => ?_⟩,
    _, exec_eq_last (by decide +kernel),
      ⟨by decide +kernel, [.attempted], [], true, by decide +kernel, by simp⟩, fun h => ?_⟩
  · exact ((refused_iff rfl rfl).mp h).1 (by decide +kernel)
  · exact ((refused_iff rfl rfl).mp h).1 (by decide +kernel)

end Calls

end Reboot.Client
