import Mathlib.Data.List.Count
import Reboot.Client.Stub

/-!
# Requests that are sent more than once

Whether a mutation has a key and whether it is sent again are decided in different places, from
different things: `callKey` and `idempotently` on one side, `shouldCallRetryUnavailable` and
the loops on the other. `Kept` is what has to come of them together: all sends carry one key, or
all but the last belonged to nested transactions that were rolled back, and if every key is
executed once then at most one send has an effect that lasts.

> `resends_kept_iff`: for every context, manager, option and unary method, all runs of the call
> keep this, unless the context is an `InitializeContext` and the call got no key
> (`Unprotected`).

An `InitializeContext` gets no key of the stub's own, since "retryable errors will still be
properly handled by the outer `initialize` retry handler"; but it has no `_context` either, and
so its calls are sent again like those of every external context. `always_sent_twice` is the
smallest such run.

`raises_mem` is what carries the nested case: whoever raises `NestedTransactionShouldRetry`
names one of its own ids, so a caller that is not within the named transaction has started it.
-/

namespace Reboot.Client

open Reboot.Lib

variable {P : Type}

/-! ## The promise -/

def Send.key (s : Send P) : Option Uuid := s.metadata.idempotencyKey

/-- A request that is sent more than once carries one key, or everything but the last send was
undone. -/
def ResentSafely (sends : List (Send P)) : Prop :=
  2 ≤ sends.length →
    (∃ key, ∀ s ∈ sends, s.key = some key) ∨ ∀ s ∈ sends.dropLast, s.rolledBack = true

/-- A server executes every key once. -/
def OncePerKey (sends : List (Send P)) : Prop :=
  ∀ key, sends.countP (fun s => s.key = some key && s.answer.effect) ≤ 1

def AtMostOnce (sends : List (Send P)) : Prop := sends.countP Send.lasting ≤ 1

/-- The promise about the sends of one awaited call. -/
def Kept (sends : List (Send P)) : Prop :=
  ResentSafely sends ∧ (OncePerKey sends → AtMostOnce sends)

theorem AtMostOnce.of_key {sends : List (Send P)} {key : Uuid}
    (hkey : ∀ s ∈ sends, s.key = some key) (honce : OncePerKey sends) : AtMostOnce sends := by
  have hle : sends.countP Send.lasting ≤
      sends.countP (fun s => s.key = some key && s.answer.effect) := by
    apply List.countP_mono_left
    intro s hs hlasting
    have heffect : s.answer.effect = true := by
      unfold Send.lasting at hlasting
      exact (Bool.and_eq_true_iff.mp hlasting).1
    simp [hkey s hs, heffect]
  have := honce key
  unfold AtMostOnce
  omega

theorem AtMostOnce.of_rolledBack {sends : List (Send P)}
    (hback : ∀ s ∈ sends.dropLast, s.rolledBack = true) : AtMostOnce sends := by
  unfold AtMostOnce
  by_cases hnil : sends = []
  · simp [hnil]
  · have hnone : sends.dropLast.countP Send.lasting = 0 := by
      rw [List.countP_eq_zero]
      intro s hs
      simp [Send.lasting, hback s hs]
    rw [← List.dropLast_append_getLast hnil, List.countP_append, hnone]
    have hlen := List.countP_le_length (p := Send.lasting) (l := [sends.getLast hnil])
    simp only [List.length_singleton] at hlen
    omega

/-- One send alone is no resend. -/
theorem Kept.of_single {sends : List (Send P)} (h : sends.length ≤ 1) : Kept sends := by
  refine ⟨fun h2 => by omega, fun _ => ?_⟩
  have hcount := List.countP_le_length (p := Send.lasting) (l := sends)
  unfold AtMostOnce
  omega

theorem Kept.of_key {sends : List (Send P)} (key : Uuid)
    (hkey : ∀ s ∈ sends, s.key = some key) : Kept sends :=
  ⟨fun _ => .inl ⟨key, hkey⟩, AtMostOnce.of_key hkey⟩

theorem Kept.of_rolledBack {sends : List (Send P)}
    (hback : ∀ s ∈ sends.dropLast, s.rolledBack = true) : Kept sends :=
  ⟨fun _ => .inr hback, fun _ => AtMostOnce.of_rolledBack hback⟩

/-! ## The loops -/

theorem plainCall_length (metadata : Metadata) (answers : List (Answer P)) :
    (plainCall metadata answers).sends.length ≤ 1 := by
  cases answers with
  | nil => simp [plainCall]
  | cons a answers => simp [plainCall]

@[simp] theorem Metadata.withRetryAge_key (m : Metadata) (retryAge : Option Uuid) :
    (m.withRetryAge retryAge).idempotencyKey = m.idempotencyKey := by
  unfold Metadata.withRetryAge
  split
  next => rfl
  next => rfl

/-- A retry changes nothing about the key. -/
theorem unaryRetriedCall_key : ∀ (answers : List (Answer P)) (metadata : Metadata)
    (retryAge : Option Uuid), ∀ s ∈ (unaryRetriedCall metadata retryAge answers).sends,
      s.key = metadata.idempotencyKey
  | [], _, _, s, hs => by simp [unaryRetriedCall] at hs
  | a :: answers, metadata, retryAge, s, hs => by
    have hone : s ∈ [(⟨metadata, a⟩ : Send P)] → s.key = metadata.idempotencyKey := by
      intro hmem
      rw [List.mem_singleton.mp hmem]
      rfl
    unfold unaryRetriedCall at hs
    split at hs
    next => exact hone hs
    next f _ =>
      split at hs
      next =>
        obtain hs | hs := List.mem_cons.mp hs
        · exact hone (List.mem_singleton.mpr hs)
        · have ih := unaryRetriedCall_key answers _ _ s hs
          rwa [Metadata.withRetryAge_key] at ih
      next => exact hone hs

/-- Whoever ends with `NestedTransactionShouldRetry` names a transaction it is within. -/
theorem raises_mem {transactionIds : List Uuid} {id : Uuid} (h : Raises transactionIds id) :
    id ∈ transactionIds := by
  cases h with
  | waiting h =>
    obtain ⟨shared, own, -, -, rfl, -⟩ := Txn.presumedDeadlockedAt_named h
    simp
  | nested _ hmem => exact hmem

/-- If a caller is told to start over a transaction it is not within, then its call started that
transaction, and it has been rolled back. -/
theorem Served.rolledBack {transactionIds : List Uuid} {method : Method} {a : Answer P}
    (h : Served transactionIds method a) {id : Uuid} (hn : a.Names id)
    (hid : id ∉ transactionIds) (metadata : Metadata) :
    (⟨metadata, a⟩ : Send P).rolledBack = true ∧ a.started = some id := by
  have hserved := h id hn
  split at hserved
  next =>
    obtain ⟨n, hstarted, hserved⟩ := hserved
    have hraises : Raises (transactionIds ++ [n]) id := by
      rcases hserved with ⟨-, -, ownerIds, hwaits⟩ | ⟨_, _, _, hraises, -⟩
      · exact .waiting hwaits
      · exact hraises
    have hmem := raises_mem hraises
    rw [List.mem_append, List.mem_singleton] at hmem
    have hidn : id = n := hmem.resolve_left hid
    have hback : a.relinquished = some true ∨ a.ran = false := by
      rcases hserved with ⟨hran, -⟩ | ⟨unrecoverable, restart, raised, -, hleave⟩
      · exact .inr hran
      · refine .inl ?_
        unfold leaveNested at hleave
        simp only at hleave
        split at hleave
        next => simp at hleave
        next =>
          split at hleave
          next => simp at hleave
          next => exact (Prod.mk.inj hleave).2.symm
    rw [hidn]
    refine ⟨?_, hstarted⟩
    rcases hback with hback | hback <;> simp [Send.rolledBack, hstarted, hback]
  next => exact absurd (raises_mem hserved) hid

/-- Every send but the last was undone before the next one. -/
theorem nestedRetriedCall_rolledBack {transactionIds : List Uuid} {method : Method}
    (metadata : Metadata) : ∀ (answers : List (Answer P)),
      (∀ a ∈ answers, Served transactionIds method a) →
      ∀ s ∈ (nestedTransactionUnaryRetriedCall transactionIds metadata answers).sends.dropLast,
        s.rolledBack = true
  | [], _, s, hs => by simp [nestedTransactionUnaryRetriedCall] at hs
  | a :: answers, hserved, s, hs => by
    unfold nestedTransactionUnaryRetriedCall at hs
    split at hs
    next => simp at hs
    next f hf =>
      split at hs
      next id hdetail =>
        split at hs
        next => simp at hs
        next hid =>
          have hrest := nestedRetriedCall_rolledBack metadata answers
            fun b hb => hserved b (List.mem_cons_of_mem a hb)
          have hfirst := (hserved a List.mem_cons_self).rolledBack ⟨f, hf, hdetail⟩ hid metadata
          simp only [Awaited.after] at hs
          by_cases hnil : (nestedTransactionUnaryRetriedCall transactionIds metadata
              answers).sends = []
          · rw [hnil] at hs
            simp at hs
          · rw [List.dropLast_cons_of_ne_nil hnil] at hs
            obtain rfl | hs := List.mem_cons.mp hs
            · exact hfirst.1
            · exact hrest s hs
      next => simp at hs

/-! ## A call -/

/-- A mutation of an external context has a key, unless the context is an `InitializeContext`
and nobody else gave it one. -/
theorem callKey_isSome {c : Context} {method : Method} {key : Option Uuid} (expiring : Uuid)
    (hmut : method.reader = false) (hext : c.isExternal = true)
    (hkey : ¬ (c.kind = .initializeContext ∧ key = none)) :
    ∃ k, callKey c method expiring key = some k := by
  unfold callKey
  cases key with
  | some k => exact ⟨k, by simp⟩
  | none =>
    have hkind : c.kind ≠ .initializeContext := fun h => hkey ⟨h, rfl⟩
    exact ⟨expiring, by simp [hmut, hext, hkind]⟩

/-- What is sent by a call that is not an unkeyed one of an `InitializeContext`. -/
theorem call_kept {c : Context} {method : Method} {expiring : Uuid} {custom : List (Str × Str)}
    {key : Option Uuid} {perIteration always : Bool} {answers : List (Answer P)}
    (hmut : method.reader = false) (hpossible : Possible c method answers)
    (hkey : ¬ (c.kind = .initializeContext ∧ key = none)) {awaited : Awaited P}
    (h : call c method expiring custom key perIteration always answers = .ok awaited) :
    Kept awaited.sends := by
  unfold call at h
  split at h
  next => cases h
  next =>
    split at h
    next => cases h
    next =>
      dsimp only at h
      split at h
      next => cases h
      next =>
        split at h
        next =>
          cases h
          exact Kept.of_single (by simp)
        next =>
          split at h
          next transactionIds htxn =>
            split at h
            next =>
              cases h
              exact Kept.of_rolledBack
                (nestedRetriedCall_rolledBack _ answers (hpossible transactionIds htxn))
            next =>
              cases h
              exact Kept.of_single (plainCall_length _ answers)
          next =>
            split at h
            next hretry =>
              cases h
              have hext : c.isExternal = true := by
                unfold shouldCallRetryUnavailable at hretry
                split at hretry
                next => exact absurd hretry (by decide)
                next =>
                  split at hretry
                  next => exact absurd hretry (by decide)
                  next => exact hretry
              obtain ⟨k, hk⟩ := callKey_isSome expiring hmut hext hkey
              refine Kept.of_key k fun s hs => ?_
              rw [unaryRetriedCall_key answers _ _ s hs]
              exact hk
            next =>
              cases h
              exact Kept.of_single (plainCall_length _ answers)

/-! ## A mutation -/

variable {R : Type} [DecidableEq R]

/-- The call goes out without a key and is nevertheless sent again: a unary call of an
`InitializeContext` that is made with `.always()`, or with no option by a context that does not
require one. -/
def Unprotected (c : Context) (m : Manager R) (rpc : Rpc R) (method : Method)
    (idempotency : Option Idempotency) : Prop :=
  c.kind = .initializeContext ∧ method.unary = true ∧ m.Unkeyed idempotency ∧
    ∀ header ∈ rpc.metadata, header.1 ≠ idempotencyKeyHeader

instance (c : Context) (m : Manager R) (rpc : Rpc R) (method : Method)
    (idempotency : Option Idempotency) : Decidable (Unprotected c m rpc method idempotency) :=
  inferInstanceAs (Decidable (c.kind = .initializeContext ∧ method.unary = true ∧
    m.Unkeyed idempotency ∧ ∀ header ∈ rpc.metadata, header.1 ≠ idempotencyKeyHeader))

/-- The sends of a mutation are those of its call, if it gets that far. -/
theorem mutate_sends (c : Context) (m : Manager R) (env : Env) (rpc : Rpc R) (method : Method)
    (idempotency : Option Idempotency) (answers : List (Answer P)) :
    (mutate c m env rpc method idempotency answers).sends = [] ∨
      ∃ key perIteration always awaited,
        (m.idempotently env rpc idempotency).2 = .ok key ∧
        call c method env.expiring rpc.metadata key perIteration always answers = .ok awaited ∧
        (mutate c m env rpc method idempotency answers).sends = awaited.sends := by
  unfold mutate
  split
  next => exact .inl rfl
  next m' key hkey =>
    dsimp only
    split
    next => exact .inl rfl
    next awaited hcall =>
      right
      refine ⟨key, _, _, awaited, by rw [hkey], hcall, ?_⟩
      split
      next => rfl
      next => rfl

/-- The answers to an unkeyed call that show what a lost response leads to. -/
def lostThenAnswered (response : P) : List (Answer P) :=
  [⟨.error ⟨true, .none⟩, true, true, fun _ => rfl, none, none⟩,
    ⟨.ok response, true, true, fun _ => rfl, none, none⟩]

/-- The unkeyed call of an `InitializeContext` is sent a second time, with no key. -/
theorem mutate_unprotected {c : Context} {m : Manager R} (env : Env) {rpc : Rpc R}
    {method : Method} {idempotency : Option Idempotency} (hmut : rpc.mutation = true)
    (hreader : method.reader = false) (h : Unprotected c m rpc method idempotency)
    (response : P) :
    ∃ metadata : Metadata, metadata.idempotencyKey = none ∧
      (mutate c m env rpc method idempotency (lostThenAnswered response)).sends =
        (lostThenAnswered response).map fun a => ⟨metadata, a⟩ := by
  obtain ⟨hkind, hunary, hunkeyed, hcustom⟩ := h
  have hkey : (m.idempotently env rpc idempotency).2 = .ok none :=
    (Manager.idempotently_none_iff hmut).mpr hunkeyed
  have hext : c.isExternal = true := by simp [Context.isExternal, hkind]
  have htxn : c.transaction = none := by simp [Context.transaction, hext]
  have hany : rpc.metadata.any (fun header => header.1 = idempotencyKeyHeader) = false := by
    rw [List.any_eq_false]
    intro header hheader
    simpa using hcustom header hheader
  have hretry : shouldCallRetryUnavailable c method = true := by
    simp only [Method.unary, Bool.and_eq_true, Bool.not_eq_true'] at hunary
    simp [shouldCallRetryUnavailable, hunary.1, hunary.2, hext]
  have hcallKey : callKey c method env.expiring none = none := by
    simp [callKey, hreader, hext, hkind]
  have hcall : ∀ perIteration always,
      call c method env.expiring rpc.metadata none perIteration always
          (lostThenAnswered response) =
        .ok ⟨(lostThenAnswered response).map fun a => ⟨⟨rpc.metadata, none, none, none⟩, a⟩,
          some (.ok response)⟩ := by
    intro perIteration always
    simp [call, hkind, htxn, hany, hext, hretry, hcallKey, lostThenAnswered, unaryRetriedCall,
      learnRetryAge, Metadata.withRetryAge, Awaited.after]
  refine ⟨⟨rpc.metadata, none, none, none⟩, rfl, ?_⟩
  unfold mutate
  split
  next he =>
    rw [he] at hkey
    cases hkey
  next m' key hok =>
    rw [hok] at hkey
    obtain rfl : key = none := by
      injection hkey
    simp only [hcall]

/-- For every context, manager, option and method that mutates: whatever the answers, a resent
request carries one key or its earlier sends were undone, and takes effect at most once if every
key does, exactly unless the call is an unprotected one. -/
theorem resends_kept_iff {c : Context} {m : Manager R} {env : Env} {rpc : Rpc R}
    {method : Method} {idempotency : Option Idempotency} (response : P)
    (hmut : rpc.mutation = true) (hreader : method.reader = false) :
    (∀ answers : List (Answer P), Possible c method answers →
        Kept (mutate c m env rpc method idempotency answers).sends) ↔
      ¬ Unprotected c m rpc method idempotency := by
  constructor
  · intro hall hun
    obtain ⟨metadata, hnone, hsends⟩ := mutate_unprotected env hmut hreader hun response
    have hext : c.isExternal = true := by simp [Context.isExternal, hun.1]
    have htxn : c.transaction = none := by simp [Context.transaction, hext]
    have hpossible : Possible c method (lostThenAnswered response) := by
      intro ids hids
      rw [htxn] at hids
      cases hids
    have hkept := (hall _ hpossible).1
    rw [hsends] at hkept
    obtain ⟨key, hkey⟩ | hback := hkept (by simp [lostThenAnswered])
    · have := hkey _ List.mem_cons_self
      simp [Send.key, hnone] at this
    · have := hback _ List.mem_cons_self
      simp [Send.rolledBack] at this
  · intro hun answers hpossible
    obtain hnil | ⟨key, perIteration, always, awaited, hkey, hcall, hsends⟩ :=
      mutate_sends c m env rpc method idempotency answers
    · rw [hnil]
      exact Kept.of_single (by simp)
    · rw [hsends]
      by_cases hinit : c.kind = .initializeContext ∧ key = none
      · -- an unkeyed call of an `InitializeContext`, but not one that is sent again
        obtain ⟨hkind, rfl⟩ := hinit
        have hunkeyed := (Manager.idempotently_none_iff hmut).mp hkey
        unfold call at hcall
        split at hcall
        next => cases hcall
        next =>
          split at hcall
          next => cases hcall
          next hany =>
            have hcustom : ∀ header ∈ rpc.metadata, header.1 ≠ idempotencyKeyHeader := by
              intro header hheader heq
              exact hany (List.any_eq_true.mpr ⟨header, hheader, by simp [heq]⟩)
            have hunary : method.unary = false := by
              by_contra hne
              exact hun ⟨hkind, by simpa using hne, hunkeyed, hcustom⟩
            have hretry : shouldCallRetryUnavailable c method = false := by
              unfold shouldCallRetryUnavailable
              cases hs : method.serverStreaming with
              | true => rfl
              | false =>
                cases hc : method.clientStreaming with
                | true => rfl
                | false => simp [Method.unary, hs, hc] at hunary
            have hext : c.isExternal = true := by simp [Context.isExternal, hkind]
            have htxn : c.transaction = none := by simp [Context.transaction, hext]
            simp only [hkind, htxn, hext, hretry, Bool.not_true, Bool.false_and,
              Bool.false_eq_true, if_false, reduceCtorEq, decide_false] at hcall
            cases hcall
            exact Kept.of_single (plainCall_length _ answers)
      · exact call_kept hreader hpossible hinit hcall

def exampleEnv : Env := { uuid5 := fun seed _ => seed, stateId := id, seeds := none, expiring := 9 }

def exampleRpc : Rpc Nat :=
  { stateTypeName := ['A'], stateRef := ['a'], serviceName := some ['S'], method := some ['m']
    mutation := true, request := some 0, metadata := [] }

def exampleMethod : Method := { kind := .writer, clientStreaming := false, serverStreaming := false }

def exampleContext (kind : ContextKind) : Context :=
  { kind, transactionIds := none, react := false, unrecoverableAbort := false
    workflowIteration := none }

/-- The manager of an `InitializeContext`, which requires idempotency. -/
def exampleManager : Manager Nat :=
  { seed := some 1, required := true, requiredReason := some ['!'], aliases := [], rpcs := []
    mutationsWithoutIdempotency := false, uncertainMutation := none }

def alwaysOption : Idempotency :=
  { aliasBase := none, key := none, how := some .always, iteration := none, one := Idempotency.one_none }

/-- An external context calls with `.always()` and the first response is lost. -/
theorem resends_kept_external :
    (mutate (exampleContext .external) exampleManager exampleEnv exampleRpc exampleMethod
        (some alwaysOption) (lostThenAnswered 0)).sends.length = 2 ∧
      Kept (mutate (exampleContext .external) exampleManager exampleEnv exampleRpc exampleMethod
        (some alwaysOption) (lostThenAnswered 0)).sends :=
  ⟨by decide +kernel,
   (resends_kept_iff 0 rfl rfl).mpr (by decide +kernel) _ fun _ h => (nomatch h)⟩

/-- An initializer calls with `.always()` and the first response is lost: the request goes out
again without a key, and both sends take effect. -/
theorem always_sent_twice :
    Possible (exampleContext .initializeContext) exampleMethod (lostThenAnswered 0) ∧
      ¬ Kept (mutate (exampleContext .initializeContext) exampleManager exampleEnv exampleRpc
        exampleMethod (some alwaysOption) (lostThenAnswered 0)).sends ∧
      (mutate (exampleContext .initializeContext) exampleManager exampleEnv exampleRpc exampleMethod
        (some alwaysOption) (lostThenAnswered 0)).sends.countP Send.lasting = 2 := by
  refine ⟨fun _ h => (nomatch h), fun hkept => ?_, by decide +kernel⟩
  have honce : OncePerKey (mutate (exampleContext .initializeContext) exampleManager exampleEnv
      exampleRpc exampleMethod (some alwaysOption) (lostThenAnswered 0)).sends := by
    intro key
    have hnone : ∀ s ∈ (mutate (exampleContext .initializeContext) exampleManager exampleEnv
        exampleRpc exampleMethod (some alwaysOption) (lostThenAnswered 0)).sends,
        s.key = none := by
      decide +kernel
    rw [List.countP_eq_zero.mpr]
    · exact Nat.zero_le 1
    · intro s hs
      simp [hnone s hs]
  have hat : (mutate (exampleContext .initializeContext) exampleManager exampleEnv exampleRpc
      exampleMethod (some alwaysOption) (lostThenAnswered 0)).sends.countP Send.lasting ≤ 1 :=
    hkept.2 honce
  revert hat
  decide +kernel

end Reboot.Client
