import Mathlib.Logic.Function.Basic
import Reboot.Client.Uncertainty

/-!
# Checkpoints of an idempotency manager

`IdempotencyManager.checkpoint` and `restore`. A checkpoint has copies of the two maps of the
manager; `restore` makes these copies the manager's own, so what is called after it is recorded in
the checkpoint as well. Before each iteration of its loop a workflow restores one checkpoint.

> `values`: restoring a checkpoint gives what the manager had when it was taken, as long as no call
> records anything while the maps of the manager are those of a checkpoint.

Mirroring notes:

* `_aliases` and `_rpcs` are only ever replaced together, and one reference stands for both.
* The `RPC` objects are shared as well; what changes in one of them is only `serialized_request`,
  the request written out for later comparisons.
-/

namespace Reboot.Client

open Reboot.Lib

variable {R : Type}

structure Maps (R : Type) where
  aliases : List ((Str × Str × Option Uuid) × Uuid)
  rpcs : List (Uuid × Rpc R)
deriving DecidableEq

/-- The fields that `restore` assigns; `maps` is a reference. -/
structure Fields (R : Type) where
  maps : Nat
  mutationsWithoutIdempotency : Bool
  uncertainMutation : Option (Rpc R)

/-- What these fields amount to. -/
structure Contents (R : Type) where
  maps : Maps R
  mutationsWithoutIdempotency : Bool
  uncertainMutation : Option (Rpc R)
deriving DecidableEq

structure Checkpoint (R : Type) where
  fields : Fields R
  /-- what the fields of the manager amounted to when it was taken -/
  taken : Contents R

structure Checkpointed (R : Type) where
  seed : Option Uuid
  requiredReason : Option Str
  objects : Nat → Maps R
  /-- how many objects were created -/
  created : Nat
  fields : Fields R
  checkpoints : List (Checkpoint R)

namespace Manager

/-- The key of a call without making one up. -/
def knownKey (m : Manager R) (env : Env) (rpc : Rpc R) (i : Idempotency) : Option Uuid :=
  match i.key with
  | some key => some key
  | none => m.aliases.lookup (rpc.stateRef, fullAlias env.stateId rpc i, env.seeds)

/-- Whether the call is one that the manager has not met and that it does not refuse before. -/
def Records (m : Manager R) (env : Env) (rpc : Rpc R) : Option Idempotency → Prop
  | none => False
  | some i => i.always = false ∧ ¬ (m.uncertainMutation ≠ none ∧ rpc.mutation = true) ∧
      ∀ key, m.knownKey env rpc i = some key → m.rpcs.lookup key = none

/-- A call that is not recorded leaves the maps as they are. -/
theorem maps_idempotently [DecidableEq R] {m : Manager R} {env : Env} {rpc : Rpc R}
    {idempotency : Option Idempotency} (h : ¬ m.Records env rpc idempotency) :
    (m.idempotently env rpc idempotency).1.aliases = m.aliases ∧
      (m.idempotently env rpc idempotency).1.rpcs = m.rpcs := by
  unfold idempotently
  cases idempotency with
  | none =>
    dsimp only
    split
    next => exact ⟨rfl, rfl⟩
    next =>
      split
      next => split <;> exact ⟨rfl, rfl⟩
      next => split <;> exact ⟨rfl, rfl⟩
  | some i =>
    dsimp only
    split
    next => exact ⟨rfl, rfl⟩
    next halways =>
      split
      next => exact ⟨rfl, rfl⟩
      next hnot =>
        -- the call has a key already, and there is an RPC under it
        obtain ⟨key, hknown, hlookup⟩ : ∃ key, m.knownKey env rpc i = some key ∧
            m.rpcs.lookup key ≠ none := by
          by_contra hnone
          refine h ⟨by simpa using halways, fun hu => ?_, fun key hknown => ?_⟩
          · obtain ⟨first, hfirst⟩ := Option.ne_none_iff_exists'.mp hu.1
            exact hnot first hfirst hu.2
          · by_contra hne
            exact hnone ⟨key, hknown, hne⟩
        have hcreate : m.getOrCreateIdempotencyKey env rpc i = (m, key) := by
          unfold knownKey at hknown
          unfold getOrCreateIdempotencyKey
          cases hkey : i.key with
          | some k =>
            rw [hkey] at hknown
            rw [Option.some.inj hknown]
          | none =>
            rw [hkey] at hknown
            dsimp only at hknown ⊢
            rw [hknown]
        obtain ⟨first, hfirst⟩ := Option.ne_none_iff_exists'.mp hlookup
        have hfrom : (m.idempotencyKeyFrom env rpc i).1 = m := by
          unfold idempotencyKeyFrom
          rw [hcreate]
          dsimp only
          rw [hfirst]
          dsimp only
          split
          next => rfl
          next => split <;> rfl
        split
        next m' key' heq =>
          rw [heq] at hfrom
          have hm : m' = m := hfrom
          rw [hm]
          exact ⟨rfl, rfl⟩
        next m' e heq =>
          rw [heq] at hfrom
          have hm : m' = m := hfrom
          rw [hm]
          unfold failed
          split <;> exact ⟨rfl, rfl⟩

end Manager

namespace Checkpointed

def init (R : Type) (seed : Option Uuid) (requiredReason : Option Str) : Checkpointed R :=
  { seed, requiredReason, objects := fun _ => ⟨[], []⟩, created := 1
    fields := ⟨0, false, none⟩, checkpoints := [] }

def contents (s : Checkpointed R) (fields : Fields R) : Contents R :=
  ⟨s.objects fields.maps, fields.mutationsWithoutIdempotency, fields.uncertainMutation⟩

def manager (s : Checkpointed R) : Manager R :=
  { seed := s.seed, required := s.requiredReason.isSome, requiredReason := s.requiredReason
    aliases := (s.objects s.fields.maps).aliases, rpcs := (s.objects s.fields.maps).rpcs
    mutationsWithoutIdempotency := s.fields.mutationsWithoutIdempotency
    uncertainMutation := s.fields.uncertainMutation }

/-- The manager has changed: its maps in place. -/
def setManager (s : Checkpointed R) (m : Manager R) : Checkpointed R :=
  { s with
    objects := Function.update s.objects s.fields.maps ⟨m.aliases, m.rpcs⟩
    fields := ⟨s.fields.maps, m.mutationsWithoutIdempotency, m.uncertainMutation⟩ }

/-- `checkpoint`: `_aliases.copy()` and `_rpcs.copy()` -/
def checkpoint (s : Checkpointed R) : Checkpointed R :=
  { s with
    objects := Function.update s.objects s.created (s.objects s.fields.maps)
    created := s.created + 1
    checkpoints := s.checkpoints ++ [⟨{ s.fields with maps := s.created }, s.contents s.fields⟩] }

def restore (s : Checkpointed R) (c : Checkpoint R) : Checkpointed R :=
  { s with fields := c.fields }

def reset (s : Checkpointed R) : Checkpointed R :=
  { s with
    objects := Function.update s.objects s.created ⟨[], []⟩
    created := s.created + 1
    fields := ⟨s.created, false, none⟩ }

inductive Action (R : Type) where
  | idempotently (c : Made R)
  /-- a mutation that was handed to its caller failed -/
  | failed (rpc : Rpc R) (fromBackend : Bool)
  | acknowledge
  | checkpoint
  | restore (k : Nat)
  | reset

variable [DecidableEq R] (uuid5 : Uuid → Str → Uuid)

def step (s : Checkpointed R) : Action R → Option (Checkpointed R)
  | .idempotently c =>
    some (s.setManager
      (s.manager.idempotently (Manager.env uuid5 c.seeds c.expiring) c.rpc c.idempotency).1)
  | .failed rpc fromBackend => some (s.setManager (s.manager.failed rpc fromBackend))
  | .acknowledge =>
    if s.fields.uncertainMutation.isSome then
      some { s with fields := { s.fields with uncertainMutation := none } }
    else none
  | .checkpoint => some s.checkpoint
  | .restore k => do return s.restore (← s.checkpoints[k]?)
  | .reset => some s.reset

/-- Immediately after a checkpoint is restored, everything is as it was when it was taken. -/
def Values (s : Checkpointed R) : Prop :=
  ∀ k c s', s.checkpoints[k]? = some c → step uuid5 s (.restore k) = some s' →
    s'.contents s'.fields = c.taken

/-- No call is recorded while the maps of the manager are those of a checkpoint. -/
def Unshared (s : Checkpointed R) : Action R → Prop
  | .idempotently c => (∀ p ∈ s.checkpoints, p.fields.maps ≠ s.fields.maps) ∨
      ¬ s.manager.Records (Manager.env uuid5 c.seeds c.expiring) c.rpc c.idempotency
  | .failed _ _ | .acknowledge | .checkpoint | .restore _ | .reset => True

/-! ## What a checkpoint has -/

variable {uuid5} {s s' : Checkpointed R}

structure Inv (s : Checkpointed R) : Prop where
  taken : ∀ c ∈ s.checkpoints, s.contents c.fields = c.taken
  checkpoints : ∀ c ∈ s.checkpoints, c.fields.maps < s.created
  fields : s.fields.maps < s.created

omit [DecidableEq R] in
/-- The maps are written in place, and no checkpoint sees it. -/
theorem Inv.setManager (h : Inv s) {m : Manager R}
    (hm : (∀ c ∈ s.checkpoints, c.fields.maps ≠ s.fields.maps) ∨
      m.aliases = s.manager.aliases ∧ m.rpcs = s.manager.rpcs) : Inv (s.setManager m) where
  taken c hc := by
    rw [← h.taken c hc]
    have hmaps : Function.update s.objects s.fields.maps ⟨m.aliases, m.rpcs⟩ c.fields.maps =
        s.objects c.fields.maps := by
      rcases hm with hne | ⟨haliases, hrpcs⟩
      · exact Function.update_of_ne (hne c hc) ..
      · rw [haliases, hrpcs]
        show Function.update s.objects s.fields.maps (s.objects s.fields.maps) c.fields.maps = _
        rw [Function.update_eq_self]
    show Contents.mk (Function.update s.objects s.fields.maps _ c.fields.maps) _ _ = _
    rw [hmaps]
    rfl
  checkpoints := h.checkpoints
  fields := h.fields

omit [DecidableEq R] in
/-- A new object is seen by nobody that was there before. -/
theorem Inv.create (h : Inv s) (maps : Maps R) {c : Checkpoint R} (hc : c ∈ s.checkpoints) :
    Contents.mk (Function.update s.objects s.created maps c.fields.maps)
      c.fields.mutationsWithoutIdempotency c.fields.uncertainMutation = c.taken := by
  have hlt := h.checkpoints c hc
  rw [Function.update_of_ne (by omega)]
  exact h.taken c hc

omit [DecidableEq R] in
theorem inv_init (seed : Option Uuid) (requiredReason : Option Str) :
    Inv (init R seed requiredReason) :=
  ⟨fun _ hc => (nomatch hc), fun _ hc => (nomatch hc), Nat.zero_lt_one⟩

theorem step_inv {a : Action R} (h : Inv s) (hok : s.Unshared uuid5 a)
    (hs : step uuid5 s a = some s') : Inv s' := by
  unfold step at hs
  split at hs
  next c =>
    cases hs
    refine h.setManager ?_
    rcases hok with hne | hrecords
    · exact .inl hne
    · exact .inr (Manager.maps_idempotently hrecords)
  next rpc fromBackend =>
    cases hs
    refine h.setManager (.inr ?_)
    unfold Manager.failed
    split <;> exact ⟨rfl, rfl⟩
  next =>
    split at hs
    next =>
      cases hs
      exact ⟨h.taken, h.checkpoints, h.fields⟩
    next => cases hs
  next =>
    cases hs
    refine ⟨fun c hc => ?_, fun c hc => ?_, Nat.lt_succ_of_lt h.fields⟩
    · rcases List.mem_append.mp hc with hc | hc
      · exact h.create _ hc
      · rw [List.mem_singleton] at hc
        subst hc
        show Contents.mk (Function.update s.objects s.created (s.objects s.fields.maps) s.created)
          _ _ = _
        rw [Function.update_self]
        rfl
    · rcases List.mem_append.mp hc with hc | hc
      · exact Nat.lt_succ_of_lt (h.checkpoints c hc)
      · rw [List.mem_singleton] at hc
        subst hc
        exact Nat.lt_succ_self _
  next k =>
    obtain ⟨c, hc, hs⟩ := Option.bind_eq_some_iff.mp hs
    cases hs
    exact ⟨h.taken, h.checkpoints, h.checkpoints c (List.mem_of_getElem? hc)⟩
  next =>
    cases hs
    exact ⟨fun c hc => h.create _ hc, fun c hc => Nat.lt_succ_of_lt (h.checkpoints c hc),
      Nat.lt_succ_self _⟩

theorem Inv.toValues (h : Inv s) : s.Values uuid5 := by
  intro k c s' hk hs
  obtain ⟨c', hc', hs⟩ := Option.bind_eq_some_iff.mp hs
  cases hs
  obtain rfl := Option.some.inj (hk.symm.trans hc')
  exact h.taken c (List.mem_of_getElem? hk)

/-- In every run in which nothing is recorded in the maps of a checkpoint. -/
theorem values {seed : Option Uuid} {requiredReason : Option Str}
    (h : Reach (step uuid5) (Unshared uuid5) (init R seed requiredReason) s) : s.Values uuid5 :=
  (h.invariant Inv (inv_init seed requiredReason) fun _ _ _ hi hok hs =>
    step_inv hi hok hs).toValues

/-- An iteration that calls nothing but what was called before the checkpoint. -/
theorem values_quietLoop : ∃ s, exec (step Calls.lengthUuid5) (init Nat (some 7) none)
      [.idempotently (Calls.keyedCall "pay"), .checkpoint, .restore 0,
        .idempotently (Calls.keyedCall "pay")] = some s ∧ s.Values Calls.lengthUuid5 := by
  have hcall : Reach (step Calls.lengthUuid5) (Unshared Calls.lengthUuid5)
      (init Nat (some 7) none) _ :=
    Reach.init.step (a := .idempotently (Calls.keyedCall "pay"))
      (.inl fun _ hp => (nomatch hp)) rfl
  have hcheckpoint := hcall.step (a := Action.checkpoint) trivial rfl
  have hrestore := hcheckpoint.step (a := Action.restore 0) trivial rfl
  have hagain := hrestore.step (a := Action.idempotently (Calls.keyedCall "pay"))
    (Or.inr fun hrecords => absurd (hrecords.2.2 _ rfl) (by decide +kernel)) rfl
  exact ⟨_, rfl, values hagain⟩

/-- The second restore, after an iteration that followed the first one. -/
theorem secondRestore_differs : ∃ s c s', exec (step Calls.lengthUuid5) (init Nat (some 7) none)
      [.checkpoint, .idempotently (Calls.keyedCall "pay"), .restore 0,
        .idempotently (Calls.keyedCall "pay")] = some s ∧
    s.checkpoints[0]? = some c ∧ step Calls.lengthUuid5 s (.restore 0) = some s' ∧
    s'.contents s'.fields ≠ c.taken := by
  refine ⟨_, _, _, exec_eq_last (by decide +kernel), rfl, rfl, ?_⟩
  intro h
  exact absurd (congrArg (fun c => c.maps.rpcs.length) h) (by decide +kernel)

end Checkpointed

end Reboot.Client
