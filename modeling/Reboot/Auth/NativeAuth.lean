import Reboot.Lib.Run

/-!
# Signing out of a native app

`nativeAuth` of `reboot/react/native/index.ts` keeps a refresh token in the storage of the device, and
`RebootClientProvider` of `reboot/react/index.tsx` keeps the session that it hands out. Every call reads
the stored token, waits for the network, and later writes or deletes the same key; the provider then sets
its own state from the answer. Nothing ties the write to the read: a refresh that is under way when the
user signs out stores the token it was rotated to, and sets the bearer again, and a refresh that is
rejected deletes the token of a sign-in that came between.

`native_sign_out` says that in every run in which no such thing comes between, a sign-out ends the session,
and no refresh or restore touches a token that a later sign-in stored.

Mirroring notes:
- A call is a place in its code: what stands between two awaits is one step, and steps of different calls
  come in any order. Storage and network may fail at each.
- `setup`, the browser and the token request of a call are one answer from outside.
- The provider asks for one refresh at a time: a second asks for nothing.
- The `/whoami` probe lands as long as the token it was started with is the provider's, since the change of
  the token cancels it. React runs the clean-up that cancels it when it commits the change, so a probe may
  still land between the change and the commit; here it does not.
- Two fields are history, which the code does not keep: `out`, that a sign-out has completed with no sign-in
  since, and `signedIn`, how many calls had begun when a sign-in stored the token.
-/

namespace Reboot.Auth.Native

open Reboot.Lib

variable {τ : Type}

/-! ## Model -/

inductive Kind where
  | restore
  | refresh
  | signIn
  | signOut
  deriving DecidableEq

/-- What a call of the driver comes back with; `failed` is a promise that rejects. -/
inductive Result (τ : Type) where
  | session (accessToken : τ)
  | unauthenticated
  | nothing
  | failed
  deriving DecidableEq

/-- A sign-out that could delete the token comes back as a refresh does that has none. -/
def Result.endsSession : Result τ → Bool
  | .unauthenticated => true
  | _ => false

/-- Where a call is: at `restore`'s own look at the storage, at `refresh`'s, behind the browser and the
token request, behind the refresh request, at the store of `adopt`, at a deletion, or back in the
provider. -/
inductive Phase (τ : Type) where
  | checking
  | reading
  | asking
  | posting (refreshToken : τ)
  | storing (accessToken refreshToken : τ)
  | deleting
  | returned (result : Result τ)
  | done
  deriving DecidableEq

structure Call (τ : Type) where
  kind : Kind
  phase : Phase τ
  deriving DecidableEq

/-- The stored token, and, if a sign-in stored it, how many calls had begun by then. -/
structure Stored (τ : Type) where
  token : τ
  signedIn : Option Nat
  deriving DecidableEq

inductive Status where
  | loading
  | unauthenticated
  | authenticated
  | error
  deriving DecidableEq

/-- The state of `RebootClientProvider`. -/
structure Provider (τ : Type) where
  bearerToken : Option τ
  sessionToken : Option τ
  status : Status
  deriving DecidableEq

structure State (τ : Type) where
  storage : Option (Stored τ)
  provider : Provider τ
  calls : List (Call τ)
  out : Bool
  deriving DecidableEq

/-- A token that an earlier run of the app left behind. -/
def State.initial (stored : Option τ) : State τ :=
  ⟨stored.map (⟨·, none⟩), ⟨none, none, .loading⟩, [], false⟩

/-- What the browser and the token endpoint answer. -/
inductive Answer (τ : Type) where
  | tokens (accessToken : τ) (refreshToken : Option τ)
  | rejected
  | declined
  | failed

inductive Whoami (τ : Type) where
  | authenticated (accessToken : τ)
  | unauthenticated
  | retry

inductive Action (τ : Type) where
  | start (kind : Kind)
  | read (call : Nat) (ok : Bool)
  | answer (call : Nat) (answer : Answer τ)
  | store (call : Nat) (ok : Bool)
  | delete (call : Nat) (ok : Bool)
  | settle (call : Nat)
  | whoami (answer : Whoami τ)

def Kind.first : Kind → Phase τ
  | .restore => .checking
  | .refresh => .reading
  | .signIn => .asking
  | .signOut => .deleting

/-- What a look at the storage leads to. -/
def readNext (storage : Option (Stored τ)) (ok : Bool) : Phase τ → Option (Phase τ)
  | .checking =>
    if ok then some (if storage.isSome then .reading else .returned .nothing) else some (.returned .failed)
  | .reading =>
    if ok then
      match storage with
      | none => some (.returned .unauthenticated)
      | some stored => some (.posting stored.token)
    else some (.returned .failed)
  | _ => none

/-- `adopt`, as far as its store. -/
def adopt (accessToken : τ) : Option τ → Phase τ
  | none => .returned (.session accessToken)
  | some refreshToken => .storing accessToken refreshToken

/-- What an answer leads to. A refresh that fails is worth another attempt, a sign-in that fails is not. -/
def answerNext : Phase τ → Answer τ → Option (Phase τ)
  | .posting _, .tokens accessToken refreshToken => some (adopt accessToken refreshToken)
  | .posting _, .rejected => some .deleting
  | .posting _, .failed => some (.returned .nothing)
  | .asking, .tokens accessToken refreshToken => some (adopt accessToken refreshToken)
  | .asking, .rejected => some (.returned .failed)
  | .asking, .failed => some (.returned .failed)
  | .asking, .declined => some (.returned .nothing)
  | _, _ => none

/-- What the provider makes of a result. -/
def Provider.settle (provider : Provider τ) : Kind → Result τ → Provider τ
  | .signOut, .unauthenticated => ⟨none, none, .unauthenticated⟩
  | .signOut, _ => provider
  | _, .session accessToken =>
    { provider with bearerToken := some accessToken, sessionToken := some accessToken }
  | .refresh, .unauthenticated => ⟨none, none, .unauthenticated⟩
  | .restore, _ => { provider with status := .unauthenticated }
  | _, _ => provider

def Provider.whoami (provider : Provider τ) : Whoami τ → Provider τ
  | .authenticated accessToken =>
    { provider with bearerToken := some accessToken, status := .authenticated }
  | .unauthenticated => { provider with status := .unauthenticated }
  | .retry => { provider with status := .error }

/-- A refresh of the provider is under way. -/
def State.refreshing (s : State τ) : Bool :=
  s.calls.any fun c => match c.kind, c.phase with
    | .refresh, .done => false
    | .refresh, _ => true
    | _, _ => false

def State.setPhase (s : State τ) (i : Nat) (c : Call τ) (phase : Phase τ) : State τ :=
  { s with calls := s.calls.set i ⟨c.kind, phase⟩ }

/-- What has no session may not be stored: `failed` where it is thrown out of the call. -/
def Kind.storeFailed : Kind → Result τ
  | .signIn => .failed
  | _ => .nothing

def step (s : State τ) : Action τ → Option (State τ)
  | .start kind =>
    if kind = .refresh ∧ s.refreshing = true then some s
    else some { s with calls := s.calls ++ [⟨kind, kind.first⟩], out := s.out && kind != .signIn }
  | .read i ok => do
    let c ← s.calls[i]?
    let phase ← readNext s.storage ok c.phase
    return s.setPhase i c phase
  | .answer i answer => do
    let c ← s.calls[i]?
    let phase ← answerNext c.phase answer
    return s.setPhase i c phase
  | .store i ok => do
    let c ← s.calls[i]?
    match c.phase with
    | .storing accessToken refreshToken =>
      if ok then
        let signedIn := if c.kind = .signIn then some s.calls.length else none
        return { s.setPhase i c (.returned (.session accessToken)) with
          storage := some ⟨refreshToken, signedIn⟩ }
      else return s.setPhase i c (.returned c.kind.storeFailed)
    | _ => none
  | .delete i ok => do
    let c ← s.calls[i]?
    match c.phase with
    | .deleting =>
      if ok then return { s.setPhase i c (.returned .unauthenticated) with storage := none }
      else return s.setPhase i c (.returned .failed)
    | _ => none
  | .settle i => do
    let c ← s.calls[i]?
    match c.phase with
    | .returned result =>
      return { s.setPhase i c .done with
        provider := s.provider.settle c.kind result
        out := s.out || (c.kind == .signOut && result.endsSession) }
    | _ => none
  | .whoami answer =>
    if s.provider.sessionToken.isSome then some { s with provider := s.provider.whoami answer } else none

/-! ## What is promised -/

/-- Once a sign-out has completed, no sign-in has been called since and every call has finished, nothing is
left of the session. -/
def SignedOut (s : State τ) : Prop :=
  s.out = true → (∀ c ∈ s.calls, c.phase = .done) →
    s.storage = none ∧ s.provider.bearerToken = none ∧ s.provider.status ≠ .authenticated

/-- The step is a store or a deletion, by a refresh or restore, of a token that a sign-in stored after the
call had begun. -/
def Clobbers (s : State τ) (a : Action τ) : Prop :=
  ∃ i c stored n, (a = .store i true ∨ a = .delete i true) ∧ s.calls[i]? = some c ∧
    (c.kind = .refresh ∨ c.kind = .restore) ∧ s.storage = some stored ∧ stored.signedIn = some n ∧ i < n

/-- The call may still bring a session home. -/
def Phase.Brings : Phase τ → Prop
  | .asking | .posting _ | .storing _ _ | .returned (.session _) => True
  | _ => False

/-- The call has not come back from the storage for good. -/
def Phase.AtStorage : Phase τ → Prop
  | .returned _ | .done => False
  | _ => True

/-- No call comes between another's look at the storage and what it does then: the token is not deleted by
a sign-out while a call may still bring a session home, no sign-in begins between that deletion and the end
of the sign-out, and no sign-in stores its token while a refresh or restore is under way. -/
def Calm (s : State τ) : Action τ → Prop
  | .delete i true => ∀ c, s.calls[i]? = some c → c.kind = .signOut → ∀ d ∈ s.calls, ¬ d.phase.Brings
  | .start .signIn => ∀ c ∈ s.calls, c.kind = .signOut → c.phase ≠ .returned .unauthenticated
  | .store i true => ∀ c, s.calls[i]? = some c → c.kind = .signIn →
      ∀ d ∈ s.calls, d.kind = .refresh ∨ d.kind = .restore → ¬ d.phase.AtStorage
  | _ => True

/-! ## What holds in every state -/

/-- The places of a sign-out. -/
def Phase.OfSignOut : Phase τ → Prop
  | .deleting | .returned _ | .done => True
  | _ => False

/-- A sign-out has deleted the token, and no sign-in has begun since. -/
def Quiet (s : State τ) : Prop :=
  s.out = true ∨ ∃ c ∈ s.calls, c.kind = .signOut ∧ c.phase = .returned .unauthenticated

structure Inv (s : State τ) : Prop where
  signOuts : ∀ c ∈ s.calls, c.kind = .signOut → c.phase.OfSignOut
  clean : Quiet s → s.storage = none ∧ ∀ c ∈ s.calls, ¬ c.phase.Brings
  empty : s.out = true → s.provider.bearerToken = none ∧ s.provider.sessionToken = none ∧
    s.provider.status ≠ .authenticated
  bounded : ∀ stored n, s.storage = some stored → stored.signedIn = some n → n ≤ s.calls.length
  later : ∀ i c stored n, s.calls[i]? = some c → (c.kind = .refresh ∨ c.kind = .restore) →
    c.phase.AtStorage → s.storage = some stored → stored.signedIn = some n → n ≤ i

theorem inv_initial (stored : Option τ) : Inv (State.initial stored) := by
  refine ⟨fun c hc => absurd hc List.not_mem_nil, ?_, fun h => Bool.noConfusion h, ?_, ?_⟩
  · rintro (h | ⟨c, hc, -⟩)
    · exact Bool.noConfusion h
    · exact absurd hc List.not_mem_nil
  · intro x n hx hn
    cases stored with
    | none => cases hx
    | some token =>
      cases hx
      cases hn
  · intro i c x n hc
    cases hc

theorem mem_setPhase {s : State τ} {i : Nat} {c d : Call τ} {phase : Phase τ}
    (h : d ∈ (s.setPhase i c phase).calls) : d ∈ s.calls ∨ d = ⟨c.kind, phase⟩ :=
  List.mem_or_eq_of_mem_set h

theorem getElem?_setPhase {s : State τ} {i j : Nat} {c d : Call τ} {phase : Phase τ}
    (h : (s.setPhase i c phase).calls[j]? = some d) :
    (i = j ∧ d = ⟨c.kind, phase⟩) ∨ (i ≠ j ∧ s.calls[j]? = some d) := by
  unfold State.setPhase at h
  rw [List.getElem?_set] at h
  split at h
  next hij =>
    split at h
    next => exact .inl ⟨hij, (Option.some.inj h).symm⟩
    next => cases h
  next hij => exact .inr ⟨hij, h⟩

/-- A step that touches neither storage nor provider, and is no sign-out's deletion. -/
theorem Inv.setPhase {s : State τ} {i : Nat} {c : Call τ} {phase : Phase τ} (h : Inv s)
    (hc : s.calls[i]? = some c) (hsignOut : c.kind = .signOut → phase.OfSignOut)
    (hdeleted : c.kind = .signOut → phase ≠ .returned .unauthenticated)
    (hbrings : Quiet s → ¬ phase.Brings) (hat : phase.AtStorage → c.phase.AtStorage) :
    Inv (s.setPhase i c phase) := by
  have hquiet : Quiet (s.setPhase i c phase) → Quiet s := by
    rintro (hout | ⟨d, hd, hkind, hphase⟩)
    · exact .inl hout
    · rcases mem_setPhase hd with hd | rfl
      · exact .inr ⟨d, hd, hkind, hphase⟩
      · exact absurd hphase (hdeleted hkind)
  refine ⟨?_, ?_, h.empty, ?_, ?_⟩
  · intro d hd hkind
    rcases mem_setPhase hd with hd | rfl
    · exact h.signOuts d hd hkind
    · exact hsignOut hkind
  · intro hq
    refine ⟨(h.clean (hquiet hq)).1, fun d hd => ?_⟩
    rcases mem_setPhase hd with hd | rfl
    · exact (h.clean (hquiet hq)).2 d hd
    · exact hbrings (hquiet hq)
  · intro stored n hstored hn
    have hle := h.bounded stored n hstored hn
    simpa [State.setPhase] using hle
  · intro j d stored n hd hkind hphase hstored hn
    rcases getElem?_setPhase hd with ⟨rfl, rfl⟩ | ⟨-, hd⟩
    · exact h.later i c stored n hc hkind (hat hphase) hstored hn
    · exact h.later j d stored n hd hkind hphase hstored hn

theorem inv_start {s s' : State τ} {kind : Kind} (h : Inv s) (hcalm : Calm s (.start kind))
    (hs : step s (.start kind) = some s') : Inv s' := by
  simp only [step] at hs
  split at hs
  next =>
    cases hs
    exact h
  next =>
    cases hs
    have hmem : ∀ {d : Call τ}, d ∈ s.calls ++ [⟨kind, kind.first⟩] →
        d ∈ s.calls ∨ d = ⟨kind, kind.first⟩ := fun hd => by simpa using hd
    have hquiet : Quiet { s with calls := s.calls ++ [⟨kind, kind.first⟩], out := s.out && kind != .signIn } →
        Quiet s ∧ kind ≠ .signIn := by
      rintro (hout | ⟨d, hd, hkind, hphase⟩)
      · simp only [Bool.and_eq_true, bne_iff_ne, ne_eq] at hout
        exact ⟨.inl hout.1, hout.2⟩
      · rcases hmem hd with hold | rfl
        · refine ⟨.inr ⟨d, hold, hkind, hphase⟩, ?_⟩
          rintro rfl
          exact hcalm d hold hkind hphase
        · cases kind <;> cases hphase
    refine ⟨?_, ?_, ?_, ?_, ?_⟩
    · intro d hd hkind
      rcases hmem hd with hd | rfl
      · exact h.signOuts d hd hkind
      · obtain rfl : kind = .signOut := hkind
        trivial
    · intro hq
      obtain ⟨hq, hne⟩ := hquiet hq
      refine ⟨(h.clean hq).1, fun d hd => ?_⟩
      rcases hmem hd with hd | rfl
      · exact (h.clean hq).2 d hd
      · cases kind with
        | signIn => exact absurd rfl hne
        | _ => exact id
    · intro hout
      simp only [Bool.and_eq_true] at hout
      exact h.empty hout.1
    · intro stored n hstored hn
      have hle := h.bounded stored n hstored hn
      simp only [List.length_append, List.length_singleton]
      omega
    · intro j d stored n hd hkind hphase hstored hn
      rw [List.getElem?_append] at hd
      split at hd
      next => exact h.later j d stored n hd hkind hphase hstored hn
      next hj =>
        have hle := h.bounded stored n hstored hn
        omega

theorem inv_read {s s' : State τ} {i : Nat} {ok : Bool} (h : Inv s)
    (hs : step s (.read i ok) = some s') : Inv s' := by
  simp only [step, Option.bind_eq_bind, Option.bind_eq_some_iff] at hs
  obtain ⟨c, hc, phase, hphase, hs⟩ := hs
  cases hs
  have hsignOut : c.kind ≠ .signOut := by
    intro hkind
    have hplace := h.signOuts c (List.mem_of_getElem? hc) hkind
    revert hphase hplace
    cases c.phase <;> simp [readNext, Phase.OfSignOut]
  refine h.setPhase hc (fun hkind => absurd hkind hsignOut) (fun hkind => absurd hkind hsignOut) ?_ ?_
  · intro hq
    rw [(h.clean hq).1] at hphase
    revert hphase
    cases c.phase <;> cases ok <;> simp [readNext] <;> rintro rfl <;> simp [Phase.Brings]
  · intro _
    revert hphase
    cases c.phase <;> simp [readNext, Phase.AtStorage]

theorem inv_answer {s s' : State τ} {i : Nat} {answer : Answer τ} (h : Inv s)
    (hs : step s (.answer i answer) = some s') : Inv s' := by
  simp only [step, Option.bind_eq_bind, Option.bind_eq_some_iff] at hs
  obtain ⟨c, hc, phase, hphase, hs⟩ := hs
  cases hs
  have hbrings : c.phase.Brings := by
    revert hphase
    cases c.phase <;> simp [answerNext, Phase.Brings]
  have hsignOut : c.kind ≠ .signOut := by
    intro hkind
    have hplace := h.signOuts c (List.mem_of_getElem? hc) hkind
    revert hphase hplace
    cases c.phase <;> simp [answerNext, Phase.OfSignOut]
  refine h.setPhase hc (fun hkind => absurd hkind hsignOut) (fun hkind => absurd hkind hsignOut) ?_ ?_
  · intro hq
    exact absurd hbrings ((h.clean hq).2 c (List.mem_of_getElem? hc))
  · intro _
    revert hphase
    cases c.phase <;> simp [answerNext, Phase.AtStorage]

theorem inv_store {s s' : State τ} {i : Nat} {ok : Bool} (h : Inv s) (hcalm : Calm s (.store i ok))
    (hs : step s (.store i ok) = some s') : Inv s' := by
  simp only [step, Option.bind_eq_bind, Option.bind_eq_some_iff] at hs
  obtain ⟨c, hc, hs⟩ := hs
  have hmem := List.mem_of_getElem? hc
  split at hs
  next accessToken refreshToken hphase =>
    have hsignOut : c.kind ≠ .signOut := by
      intro hkind
      have hplace := h.signOuts c hmem hkind
      rw [hphase] at hplace
      exact hplace
    have hloud : ¬ Quiet s := fun hq => (h.clean hq).2 c hmem (by rw [hphase]; trivial)
    split at hs
    next hok =>
      cases hs
      subst hok
      -- nothing of the invariant speaks of the old token
      have hbase : Inv (s.setPhase i c (.returned (.session accessToken))) :=
        h.setPhase hc (fun hkind => absurd hkind hsignOut) (fun _ => by simp)
          (fun hq => absurd hq hloud) (fun hat => absurd hat (by simp [Phase.AtStorage]))
      have hquiet : ¬ Quiet (s.setPhase i c (.returned (.session accessToken))) := by
        rintro (hout | ⟨d, hd, hkind, hreturned⟩)
        · exact hloud (.inl hout)
        · rcases mem_setPhase hd with hd | rfl
          · exact hloud (.inr ⟨d, hd, hkind, hreturned⟩)
          · cases hreturned
      refine ⟨hbase.signOuts, fun hq => absurd hq hquiet, hbase.empty, ?_, ?_⟩
      · intro stored n hstored hn
        cases hstored
        dsimp only at hn
        split at hn
        next =>
          cases hn
          simp [State.setPhase]
        next => cases hn
      · intro j d stored n hd hkind hat hstored hn
        cases hstored
        dsimp only at hn
        split at hn
        next hsignIn =>
          -- a sign-in stores while no refresh or restore is under way
          rcases getElem?_setPhase hd with ⟨-, rfl⟩ | ⟨-, hd⟩
          · exact hat.elim
          · exact absurd hat (hcalm c hc hsignIn d (List.mem_of_getElem? hd) hkind)
        next => cases hn
    next =>
      cases hs
      exact h.setPhase hc (fun hkind => absurd hkind hsignOut) (fun hkind => absurd hkind hsignOut)
        (fun hq => absurd hq hloud) (fun hat => absurd hat (by simp [Phase.AtStorage]))
  next => cases hs

theorem inv_delete {s s' : State τ} {i : Nat} {ok : Bool} (h : Inv s) (hcalm : Calm s (.delete i ok))
    (hs : step s (.delete i ok) = some s') : Inv s' := by
  simp only [step, Option.bind_eq_bind, Option.bind_eq_some_iff] at hs
  obtain ⟨c, hc, hs⟩ := hs
  split at hs
  next hphase =>
    split at hs
    next hok =>
      cases hs
      subst hok
      refine ⟨?_, ?_, h.empty, (fun _ _ hstored => by cases hstored),
        (fun _ _ _ _ _ _ _ hstored => by cases hstored)⟩
      · intro d hd hkind
        rcases mem_setPhase hd with hd | rfl
        · exact h.signOuts d hd hkind
        · trivial
      · intro hq
        have hclean : ∀ d ∈ s.calls, ¬ d.phase.Brings := by
          by_cases hkind : c.kind = .signOut
          · exact hcalm c hc hkind
          · refine (h.clean ?_).2
            rcases hq with hout | ⟨d, hd, hsignOut, hreturned⟩
            · exact .inl hout
            · rcases mem_setPhase hd with hd | rfl
              · exact .inr ⟨d, hd, hsignOut, hreturned⟩
              · exact absurd hsignOut hkind
        refine ⟨rfl, fun d hd => ?_⟩
        rcases mem_setPhase hd with hd | rfl
        · exact hclean d hd
        · exact id
    next =>
      cases hs
      exact h.setPhase hc (fun _ => trivial) (fun _ => by simp) (fun _ => id)
        (fun hat => absurd hat (by simp [Phase.AtStorage]))
  next => cases hs

/-- What has no session leaves an empty provider empty. -/
theorem settle_empty {provider : Provider τ} {kind : Kind} {result : Result τ}
    (hresult : ∀ accessToken, result ≠ .session accessToken)
    (h : provider.bearerToken = none ∧ provider.sessionToken = none ∧ provider.status ≠ .authenticated) :
    (provider.settle kind result).bearerToken = none ∧
      (provider.settle kind result).sessionToken = none ∧
      (provider.settle kind result).status ≠ .authenticated := by
  cases kind <;> cases result <;> simp_all [Provider.settle]

theorem inv_settle {s s' : State τ} {i : Nat} (h : Inv s) (hs : step s (.settle i) = some s') :
    Inv s' := by
  simp only [step, Option.bind_eq_bind, Option.bind_eq_some_iff] at hs
  obtain ⟨c, hc, hs⟩ := hs
  have hmem := List.mem_of_getElem? hc
  split at hs
  next result hphase =>
    cases hs
    have hbase : Inv (s.setPhase i c .done) :=
      h.setPhase hc (fun _ => trivial) (fun _ => by simp) (fun _ => id) (fun hat => hat.elim)
    -- a sign-out that completes has deleted the token before
    have hends : result.endsSession = true → result = .unauthenticated := by
      cases result <;> simp [Result.endsSession]
    have hquiet : (s.out || (c.kind == .signOut && result.endsSession)) = true → Quiet s := by
      intro hout
      rw [Bool.or_eq_true, Bool.and_eq_true, beq_iff_eq] at hout
      rcases hout with hout | ⟨hkind, hresult⟩
      · exact .inl hout
      · exact .inr ⟨c, hmem, hkind, by rw [hphase, hends hresult]⟩
    refine ⟨hbase.signOuts, ?_, ?_, hbase.bounded, hbase.later⟩
    · rintro (hout | ⟨d, hd, hkind, hreturned⟩)
      · refine ⟨(h.clean (hquiet hout)).1, fun d hd => ?_⟩
        rcases mem_setPhase hd with hd | rfl
        · exact (h.clean (hquiet hout)).2 d hd
        · exact id
      · exact hbase.clean (.inr ⟨d, hd, hkind, hreturned⟩)
    · intro hout
      have hresult : ∀ accessToken, result ≠ .session accessToken := by
        rintro accessToken rfl
        exact (h.clean (hquiet hout)).2 c hmem (by rw [hphase]; trivial)
      rw [Bool.or_eq_true, Bool.and_eq_true, beq_iff_eq] at hout
      rcases hout with hout | ⟨hkind, hunauthenticated⟩
      · exact settle_empty hresult (h.empty hout)
      · simp [hkind, hends hunauthenticated, Provider.settle]
  next => cases hs

theorem inv_whoami {s s' : State τ} {answer : Whoami τ} (h : Inv s)
    (hs : step s (.whoami answer) = some s') : Inv s' := by
  simp only [step] at hs
  split at hs
  next hsession =>
    cases hs
    refine ⟨h.signOuts, h.clean, fun hout => ?_, h.bounded, h.later⟩
    rw [(h.empty hout).2.1] at hsession
    cases hsession
  next => cases hs

theorem inv_step {s : State τ} {a : Action τ} {s' : State τ} (h : Inv s) (hcalm : Calm s a)
    (hs : step s a = some s') : Inv s' := by
  cases a with
  | start kind => exact inv_start h hcalm hs
  | read i ok => exact inv_read h hs
  | answer i answer => exact inv_answer h hs
  | store i ok => exact inv_store h hcalm hs
  | delete i ok => exact inv_delete h hcalm hs
  | settle i => exact inv_settle h hs
  | whoami answer => exact inv_whoami h hs

theorem inv_reach {stored : Option τ} {s : State τ} (h : Reach step Calm (State.initial stored) s) :
    Inv s :=
  h.invariant Inv (inv_initial stored) fun _ _ _ hinv hcalm hs => inv_step hinv hcalm hs

/-- A store or a deletion is enabled only while the call is at the storage. -/
theorem atStorage_of_step {s s' : State τ} {i : Nat} {c : Call τ} {a : Action τ}
    (ha : a = .store i true ∨ a = .delete i true) (hc : s.calls[i]? = some c)
    (hs : step s a = some s') : c.phase.AtStorage := by
  rcases ha with rfl | rfl <;>
    · simp only [step, hc, Option.bind_eq_bind, Option.bind_some] at hs
      split at hs
      next hphase => rw [hphase]; trivial
      next => cases hs

/-! ## The result -/

/-- In every run in which no call comes between another's look at the storage and what it does then, a
sign-out ends the session, and no refresh or restore stores over or deletes the token of a sign-in that
came after its start. -/
theorem native_sign_out (stored : Option τ) (s : State τ)
    (h : Reach step Calm (State.initial stored) s) :
    SignedOut s ∧ ∀ a s', step s a = some s' → ¬ Clobbers s a := by
  have hinv := inv_reach h
  constructor
  · intro hout _
    obtain ⟨hbearer, -, hstatus⟩ := hinv.empty hout
    exact ⟨(hinv.clean (.inl hout)).1, hbearer, hstatus⟩
  · rintro a s' hs ⟨i, c, x, n, ha, hc, hkind, hx, hn, hlt⟩
    have hle := hinv.later i c x n hc hkind (atStorage_of_step ha hc hs) hx hn
    omega

/-! ## A refresh that is under way -/

/-- The app restores its session. -/
def restored : List (Action Nat) :=
  [.start .restore, .read 0 true, .read 0 true, .answer 0 (.tokens 10 (some 1)), .store 0 true, .settle 0]

/-- A scheduled refresh has read the token when the user signs out. -/
def signedOutDuringRefresh : List (Action Nat) :=
  restored ++ [.start .refresh, .read 1 true, .start .signOut, .delete 2 true, .settle 2,
    .answer 1 (.tokens 11 (some 2)), .store 1 true, .settle 1]

/-- A refresh has read the token when the user signs in again, and is rejected. -/
def signedInDuringRefresh : List (Action Nat) :=
  restored ++ [.start .refresh, .read 1 true, .start .signIn, .answer 2 (.tokens 12 (some 3)),
    .store 2 true, .settle 2, .answer 1 .rejected]

/-- The refresh brings the session back, and the rejected one deletes the token of the new session. -/
theorem native_sign_out_undone :
    (∃ s, Reach step (fun _ _ => True) (State.initial (some 0)) s ∧ ¬ SignedOut s) ∧
    ∃ s a s', Reach step (fun _ _ => True) (State.initial (some 0)) s ∧ step s a = some s' ∧
      Clobbers s a := by
  constructor
  · obtain ⟨s, hs⟩ : ∃ s, exec step (State.initial (some 0)) signedOutDuringRefresh = some s := ⟨_, rfl⟩
    refine ⟨s, reach_of_exec _ .init hs, fun hsignedOut => ?_⟩
    cases hs
    have hdone := hsignedOut rfl (by decide)
    cases hdone.1
  · obtain ⟨s, hs⟩ : ∃ s, exec step (State.initial (some 0)) signedInDuringRefresh = some s := ⟨_, rfl⟩
    refine ⟨s, .delete 1 true, ?_⟩
    have hreach := reach_of_exec _ .init hs
    cases hs
    exact ⟨_, hreach, rfl, 1, _, _, 3, .inr rfl, rfl, .inl rfl, rfl, rfl, by decide⟩

/-- A run in which the restore is over when the user signs out. -/
theorem native_sign_out_restored : ∃ s, Reach step Calm (State.initial (some 0)) s ∧ s.out = true ∧
    SignedOut s ∧ ∀ a s', step s a = some s' → ¬ Clobbers s a := by
  have hover : ∀ d ∈ [(⟨.restore, .done⟩ : Call Nat), ⟨.signOut, .deleting⟩], ¬ d.phase.Brings := by
    intro d hd
    rcases List.mem_cons.mp hd with rfl | hd
    · exact id
    · obtain rfl := List.mem_singleton.mp hd
      exact id
  have hreach : Reach step Calm (State.initial (some 0)) _ :=
    ((((((((Reach.init.step (a := .start .restore) trivial rfl).step (a := .read 0 true) trivial rfl).step
      (a := .read 0 true) trivial rfl).step (a := .answer 0 (.tokens 10 (some 1))) trivial rfl).step
      (a := .store 0 true) (fun c hc hkind => by cases hc; cases hkind) rfl).step
      (a := .settle 0) trivial rfl).step (a := .start .signOut) trivial rfl).step
      (a := .delete 1 true) (fun _ _ _ => hover) rfl).step (a := .settle 1) trivial rfl
  exact ⟨_, hreach, rfl, native_sign_out (some 0) _ hreach⟩

end Reboot.Auth.Native
