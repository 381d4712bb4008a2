import Reboot.Lib.Dict
import Reboot.Lib.Run
import Reboot.Txn.BloomFilter

/-!
# Lookups past the filter

`IdempotentMutations` (`reboot/aio/state_managers.py`), for one state: a lookup asks the database
only for what the filter reports. The filter has the mutations that were in the database when it was
made, those of a workflow or of an iteration once these have been recovered, and what was stored
since. All of it happens between the lookups of other coroutines.

`lookup_finds`: a mutation that is in the database and that no store has still to tell the filter of
is found by every lookup that begins after that, until it is dropped or expires. A lookup for a
workflow that does not have a mutation of its own finds the one outside of workflows.

Mirroring notes:
- One state. The database answers with what it holds for the state, the scope and the key: for when
  it does, see `Reboot.Persist.MutationKeys` and `Reboot.Persist.BulkRecovery`. It reads at some
  moment (`read`), and the coroutine goes on later (`resume`).
- A store writes to the database (`write`) and tells the filter later (`learn`). One that is
  cancelled or fails in between never does, and stays in `storing`.
- `recovered` is both sets, `_recovered_workflow_ids` and `_recovered_workflow_iterations`.
- When a key expires is a parameter: a bulk recovery leaves out what has expired, except where the
  scope is an iteration.
- The filter is made of what was read from the database before any store: a store comes after a
  check, which loads the mutations (`Reboot.Persist.MutationLoads`).
-/

namespace Reboot.Txn.Lookups

open Reboot.Lib Reboot.Txn.Filter

/-! ## Model -/

/-- A workflow, or one iteration of it. -/
structure Workflow where
  id : List Byte
  iteration : Option (Fin (2 ^ 64))
  deriving DecidableEq

structure MutationId where
  key : List Byte
  workflow : Option Workflow
  deriving DecidableEq

/-- The key outside of workflows. -/
def MutationId.plain (id : MutationId) : MutationId := ⟨id.key, none⟩

/-- `_make_bloom_key` -/
def makeBloomKey (id : MutationId) : List Byte :=
  match id.workflow with
  | none => id.key
  | some ⟨workflowId, none⟩ => workflowId ++ id.key
  | some ⟨workflowId, some iteration⟩ => toBytesBig 8 iteration ++ (workflowId ++ id.key)

/-- Where a coroutine is in `get`; `none` as long as the database has not read. -/
inductive Phase (R : Type)
  | recovering (answer : Option (List MutationId))
  | reading (id : MutationId) (answer : Option (Option R))
  | returned (result : Option R)
  | raised
  deriving DecidableEq

structure Lookup (R : Type) where
  request : MutationId
  phase : Phase R
  deriving DecidableEq

structure State (F R : Type) where
  database : Dict MutationId R
  now : Nat
  filter : ScalableBloomFilter F
  recovered : List Workflow
  /-- written to the database, and not yet in the filter -/
  storing : List MutationId
  lookups : List (Lookup R)

inductive Action (R : Type)
  | get (request : MutationId)
  | read (i : Nat)
  | resume (i : Nat)
  | write (id : MutationId) (response : R)
  | learn (id : MutationId)
  | drop (id : MutationId)
  /-- `complete_workflow` and `complete_workflow_iteration` -/
  | complete (workflow : Workflow)
  | tick (ms : Nat)

variable {F R : Type} (floats : Floats F) (hashlib : Hashlib) (expires : List Byte → Option Nat)

def unexpired (now : Nat) (id : MutationId) : Bool :=
  if (id.workflow.bind Workflow.iteration).isSome then true
  else match expires id.key with
    | none => true
    | some time => decide (now ≤ time)

/-- What a bulk recovery answers. -/
def recoverable (database : Dict MutationId R) (now : Nat) (workflow : Option Workflow) :
    List MutationId :=
  (database.items.map Prod.fst).filter fun id =>
    decide (id.workflow = workflow) && unexpired expires now id

/-- `_add_to_bloom_filter` for each; an addition that fails is the last. -/
def addMany : ScalableBloomFilter F → List MutationId → ScalableBloomFilter F × Bool
  | filter, [] => (filter, true)
  | filter, id :: ids =>
    match filter.add floats hashlib (makeBloomKey id) with
    | .error _ => (filter, false)
    | .ok (filter, _) => addMany filter ids

/-- There is no mutation in the scope: a workflow falls back to the key outside of workflows. -/
def afterMiss (filter : ScalableBloomFilter F) (id : MutationId) : Phase R :=
  if id.workflow = none then .returned none
  else match filter.contains hashlib (makeBloomKey id.plain) with
    | .error _ => .raised
    | .ok true => .reading id.plain none
    | .ok false => .returned none

/-- `get`, once the scope is recovered. -/
def probe (filter : ScalableBloomFilter F) (id : MutationId) : Phase R :=
  match filter.contains hashlib (makeBloomKey id) with
  | .error _ => .raised
  | .ok true => .reading id none
  | .ok false => afterMiss hashlib filter id

namespace State

/-- `recover` -/
def load (database : Dict MutationId R) (now : Nat) : Option (State F R) :=
  match ScalableBloomFilter.init floats with
  | .error _ => none
  | .ok filter =>
    match addMany floats hashlib filter (recoverable expires database now none) with
    | (_, false) => none
    | (filter, true) => some ⟨database, now, filter, [], [], []⟩

/-- `get` up to where it awaits the database. -/
def begins (s : State F R) (request : MutationId) : Phase R :=
  match request.workflow with
  | none => probe hashlib s.filter request
  | some workflow =>
    if workflow ∈ s.recovered then probe hashlib s.filter request else .recovering none

def setPhase (s : State F R) (i : Nat) (phase : Phase R) : State F R :=
  { s with lookups := s.lookups.modify i fun lookup => { lookup with phase := phase } }

/-- The database reads for a coroutine. -/
def answered (s : State F R) (lookup : Lookup R) : Option (Phase R) :=
  match lookup.phase with
  | .recovering none =>
    some (.recovering (some (recoverable expires s.database s.now lookup.request.workflow)))
  | .reading id none => some (.reading id (some (s.database.find? id)))
  | _ => none

/-- A coroutine goes on with the answer of the database. -/
def resumed (s : State F R) (i : Nat) (lookup : Lookup R) : Option (State F R) :=
  match lookup.phase with
  | .recovering (some ids) =>
    match addMany floats hashlib s.filter ids with
    | (filter, false) => some ({ s with filter := filter }.setPhase i .raised)
    | (filter, true) =>
      some ({ s with filter := filter, recovered := lookup.request.workflow.toList ++ s.recovered
        }.setPhase i (probe hashlib filter lookup.request))
  | .reading _ (some (some response)) => some (s.setPhase i (.returned (some response)))
  | .reading id (some none) =>
    some (s.setPhase i (if id = lookup.request then afterMiss hashlib s.filter id else .returned none))
  | _ => none

end State

def step (s : State F R) : Action R → Option (State F R)
  | .get request => some { s with lookups := s.lookups ++ [⟨request, s.begins hashlib request⟩] }
  | .read i =>
    match s.lookups[i]? with
    | none => none
    | some lookup => (s.answered expires lookup).map (s.setPhase i)
  | .resume i =>
    match s.lookups[i]? with
    | none => none
    | some lookup => s.resumed floats hashlib i lookup
  | .write id response =>
    some { s with database := s.database.set id response, storing := id :: s.storing }
  | .learn id =>
    if id ∈ s.storing then
      match s.filter.add floats hashlib (makeBloomKey id) with
      | .error _ => none
      | .ok (filter, _) => some { s with filter := filter, storing := s.storing.erase id }
    else none
  | .drop id =>
    some { s with database := s.database.comprehend fun id' response =>
      if id' = id then none else some response }
  | .complete workflow => some { s with recovered := s.recovered.filter (· ≠ workflow) }
  | .tick ms => some { s with now := s.now + ms }

/-! ## What the filter has -/

namespace State

/-- The filter reports the mutation. -/
def Filed (s : State F R) (id : MutationId) : Prop := s.filter.Has hashlib (makeBloomKey id)

/-- The mutation is in the database, has not expired, and no store has still to tell the filter. -/
structure Live (s : State F R) (id : MutationId) : Prop where
  stored : (s.database.find? id).isSome
  unexpired : unexpired expires s.now id = true
  learned : id ∉ s.storing

/-- Nothing that a lookup may ask for is missing in the filter. -/
structure Inv (s : State F R) : Prop where
  filled : s.filter.Filled
  /-- outside of workflows, and in those that were recovered -/
  covered : ∀ id, s.Live expires id → (∀ w ∈ id.workflow, w ∈ s.recovered) → s.Filed hashlib id
  /-- what a recovery has read is complete but for what was stored meanwhile -/
  answers : ∀ lookup ∈ s.lookups, ∀ ids, lookup.phase = .recovering (some ids) →
    ∀ id, s.Live expires id → id.workflow = lookup.request.workflow → id ∈ ids ∨ s.Filed hashlib id

end State

variable {floats} {hashlib} {expires} {s s' : State F R} {id : MutationId} {response : R}

theorem unexpired_of_le {now now' : Nat} (hle : now ≤ now') (h : unexpired expires now' id = true) :
    unexpired expires now id = true := by
  unfold unexpired at h ⊢
  split at h
  next hiter => rw [if_pos hiter]
  next hiter =>
    rw [if_neg hiter]
    split at h
    next => rfl
    next => exact decide_eq_true (Nat.le_trans hle (of_decide_eq_true h))

theorem mem_recoverable {database : Dict MutationId R} {now : Nat} {workflow : Option Workflow}
    (hstored : (database.find? id).isSome) (hunexpired : unexpired expires now id = true)
    (hworkflow : id.workflow = workflow) : id ∈ recoverable expires database now workflow := by
  obtain ⟨response, hresponse⟩ := Option.isSome_iff_exists.mp hstored
  refine List.mem_filter.mpr ⟨List.mem_map_of_mem (Dict.find?_eq_some_iff.mp hresponse), ?_⟩
  simp [hworkflow, hunexpired]

/-- Additions keep what the filter has, and if none fails, all of them are in it. -/
theorem addMany_spec : ∀ {ids : List MutationId} {filter filter' : ScalableBloomFilter F} {b : Bool},
    filter.Filled → addMany floats hashlib filter ids = (filter', b) → filter'.Filled ∧
      (∀ key, filter.Has hashlib key → filter'.Has hashlib key) ∧
        (b = true → ∀ id ∈ ids, filter'.Has hashlib (makeBloomKey id))
  | [], _, _, _, hfilled, h => by
    cases h
    exact ⟨hfilled, fun _ hkey => hkey, fun _ _ hid => absurd hid List.not_mem_nil⟩
  | id :: ids, filter, _, _, hfilled, h => by
    unfold addMany at h
    rcases ScalableBloomFilter.add_cases floats hashlib hfilled (makeBloomKey id) with
      hadd | ⟨filter₁, b₁, hadd, hfilled₁, -, hkey, hkept⟩
    · rw [hadd] at h
      cases h
      exact ⟨hfilled, fun _ hkey => hkey, fun hb => by cases hb⟩
    · rw [hadd] at h
      obtain ⟨hfilled', hkept', hall⟩ := addMany_spec hfilled₁ h
      refine ⟨hfilled', fun key hk => hkept' key (hkept key hk), fun hb id' hid' => ?_⟩
      rcases List.mem_cons.mp hid' with rfl | hid'
      · exact hkept' _ hkey
      · exact hall hb id' hid'

theorem mem_setPhase {i : Nat} {phase : Phase R} {lookup : Lookup R}
    (h : lookup ∈ (s.setPhase i phase).lookups) : lookup ∈ s.lookups ∨ lookup.phase = phase := by
  obtain ⟨j, hj⟩ := List.mem_iff_getElem?.mp h
  rw [State.setPhase, List.getElem?_modify] at hj
  cases hold : s.lookups[j]? with
  | none => simp [hold] at hj
  | some old =>
    rw [hold, Option.map_eq_map, Option.map_some, Option.some.injEq] at hj
    split at hj
    · exact .inr (by rw [← hj])
    · exact .inl (hj ▸ List.mem_of_getElem? hold)

theorem probe_ne_recovering {filter : ScalableBloomFilter F} {ids : List MutationId} :
    (probe hashlib filter id : Phase R) ≠ .recovering (some ids) := by
  unfold probe afterMiss
  repeat' split
  all_goals simp

/-- What keeps the filter and adds nothing that it lacks. -/
theorem State.Inv.mono (h : s.Inv hashlib expires) (hfilled : s'.filter.Filled)
    (hkept : ∀ key, s.filter.Has hashlib key → s'.filter.Has hashlib key)
    (hlive : ∀ id, s'.Live expires id → s.Live expires id ∨ s'.Filed hashlib id)
    (hrecovered : ∀ w ∈ s'.recovered, w ∈ s.recovered)
    (hlookups : ∀ lookup ∈ s'.lookups, ∀ ids, lookup.phase = .recovering (some ids) →
      lookup ∈ s.lookups) : s'.Inv hashlib expires where
  filled := hfilled
  covered := fun id hid hw => (hlive id hid).elim
    (fun hid => hkept _ (h.covered id hid fun w hmem => hrecovered w (hw w hmem))) fun hfiled => hfiled
  answers := fun lookup hmem ids hphase id hid hworkflow => (hlive id hid).elim
    (fun hid => (h.answers lookup (hlookups lookup hmem ids hphase) ids hphase id hid hworkflow).imp_right
      (hkept _)) .inr

/-- What leaves the filter as it is and stores nothing. -/
theorem State.Inv.frame (h : s.Inv hashlib expires) (hfilter : s'.filter = s.filter)
    (hlive : ∀ id, s'.Live expires id → s.Live expires id)
    (hrecovered : ∀ w ∈ s'.recovered, w ∈ s.recovered)
    (hlookups : ∀ lookup ∈ s'.lookups, ∀ ids, lookup.phase = .recovering (some ids) →
      lookup ∈ s.lookups) : s'.Inv hashlib expires :=
  h.mono (hfilter ▸ h.filled) (fun _ hkey => hfilter ▸ hkey) (fun id hid => .inl (hlive id hid))
    hrecovered hlookups

/-- The filter as it is made. -/
theorem State.Inv.load {database : Dict MutationId R} {now : Nat}
    (h : State.load floats hashlib expires database now = some s) : s.Inv hashlib expires := by
  unfold State.load at h
  rcases ScalableBloomFilter.init_cases floats with hinit | ⟨row, hinit, hfilled, -⟩
  · rw [hinit] at h
    cases h
  · rw [hinit] at h
    dsimp only at h
    split at h
    · cases h
    next filter hadd =>
      cases h
      obtain ⟨hfilled', -, hall⟩ := addMany_spec hfilled hadd
      refine ⟨hfilled', fun id hid hw => hall rfl id ?_, fun _ hmem => absurd hmem List.not_mem_nil⟩
      refine mem_recoverable hid.stored hid.unexpired (Option.eq_none_iff_forall_not_mem.mpr ?_)
      exact fun w hmem => absurd (hw w hmem) List.not_mem_nil

theorem State.begins_ne_recovering {request : MutationId} {ids : List MutationId} :
    s.begins hashlib request ≠ .recovering (some ids) := by
  unfold State.begins
  split
  · exact probe_ne_recovering
  · split
    · exact probe_ne_recovering
    · simp

/-- A recovery that is resumed leaves its scope in the filter. -/
theorem State.Inv.resumed (h : s.Inv hashlib expires) {i : Nat} {lookup : Lookup R}
    (hmem : lookup ∈ s.lookups) (hs : s.resumed floats hashlib i lookup = some s') :
    s'.Inv hashlib expires := by
  unfold State.resumed at hs
  split at hs
  next ids hphase =>
    split at hs
    next filter hadd =>
      cases hs
      obtain ⟨hfilled, hkept, -⟩ := addMany_spec h.filled hadd
      refine h.mono hfilled hkept (fun id hid => .inl ⟨hid.stored, hid.unexpired, hid.learned⟩)
        (fun _ hw => hw) fun l hl ids hids => ?_
      exact (mem_setPhase hl).resolve_right fun hp => by cases hp.symm.trans hids
    next filter hadd =>
      cases hs
      obtain ⟨hfilled, hkept, hall⟩ := addMany_spec h.filled hadd
      refine ⟨hfilled, fun id hid hw => ?_, fun l hl ids' hids' id hid hworkflow => ?_⟩
      · have hold : s.Live expires id := ⟨hid.stored, hid.unexpired, hid.learned⟩
        by_cases hscope : id.workflow = lookup.request.workflow
        · rcases h.answers lookup hmem ids hphase id hold hscope with hids | hfiled
          · exact hall rfl id hids
          · exact hkept _ hfiled
        · refine hkept _ (h.covered id hold fun w hw' => ?_)
          rcases List.mem_append.mp (hw w hw') with hnew | hrecovered
          · exact absurd (hw'.trans (Option.mem_toList.mp hnew).symm) hscope
          · exact hrecovered
      · have hold : s.Live expires id := ⟨hid.stored, hid.unexpired, hid.learned⟩
        have hl' := (mem_setPhase hl).resolve_right fun hp =>
          probe_ne_recovering (hp.symm.trans hids')
        exact (h.answers l hl' ids' hids' id hold hworkflow).imp_right (hkept _)
  · cases hs
    refine h.frame rfl (fun id hid => ⟨hid.1, hid.2, hid.3⟩)
      (fun _ hw => hw) fun l hl ids hids => ?_
    exact (mem_setPhase hl).resolve_right fun hp => by cases hp.symm.trans hids
  · cases hs
    refine h.frame rfl (fun id hid => ⟨hid.1, hid.2, hid.3⟩)
      (fun _ hw => hw) fun l hl ids hids => ?_
    refine (mem_setPhase hl).resolve_right fun hp => ?_
    rw [hp] at hids
    unfold afterMiss at hids
    repeat' split at hids
    all_goals cases hids
  · cases hs

theorem find?_drop (d : Dict MutationId R) (id id' : MutationId) :
    (d.comprehend fun k response => if k = id then none else some response).find? id' =
      if id' = id then none else d.find? id' := by
  refine Option.ext fun response => ?_
  rw [Dict.find?_eq_some_iff, Dict.mem_comprehend]
  split
  next heq => simp [heq]
  next => simp [Dict.find?_eq_some_iff]

/-- One step. -/
theorem State.Inv.step (h : s.Inv hashlib expires) {a : Action R}
    (hs : step floats hashlib expires s a = some s') : s'.Inv hashlib expires := by
  cases a with
  | get request =>
    cases hs
    refine h.frame rfl (fun id hid => ⟨hid.1, hid.2, hid.3⟩)
      (fun _ hw => hw) fun l hl ids hids => ?_
    rcases List.mem_append.mp hl with hl | hl
    · exact hl
    · rw [List.mem_singleton.mp hl] at hids
      exact absurd hids State.begins_ne_recovering
  | read i =>
    unfold Lookups.step at hs
    dsimp only at hs
    split at hs
    · cases hs
    next lookup hlookup =>
      obtain ⟨phase, hphase, rfl⟩ := Option.map_eq_some_iff.mp hs
      refine ⟨h.filled, fun id hid => h.covered id ⟨hid.1, hid.2, hid.3⟩,
        fun l hl ids hids id hid hworkflow => ?_⟩
      have hold : s.Live expires id := ⟨hid.1, hid.2, hid.3⟩
      obtain ⟨j, hj⟩ := List.mem_iff_getElem?.mp hl
      rw [State.setPhase, List.getElem?_modify] at hj
      split at hj
      next hij =>
        rw [← hij, hlookup] at hj
        cases hj
        unfold State.answered at hphase
        split at hphase
        · cases hphase
          cases hids
          exact .inl (mem_recoverable hold.stored hold.unexpired hworkflow)
        · cases hphase
          cases hids
        · cases hphase
      next => exact h.answers l (List.mem_of_getElem? (by simpa using hj)) ids hids id hold hworkflow
  | resume i =>
    unfold Lookups.step at hs
    dsimp only at hs
    split at hs
    · cases hs
    next lookup hlookup => exact h.resumed (List.mem_of_getElem? hlookup) hs
  | write id' response =>
    cases hs
    refine h.frame rfl (fun id hid => ⟨?_, hid.2, ?_⟩)
      (fun _ hw => hw) fun _ hl _ _ => hl
    · have hne : id ≠ id' := fun heq => hid.learned (heq ▸ List.mem_cons_self)
      rw [← Dict.find?_set_of_ne s.database hne response]
      exact hid.stored
    · exact fun hmem => hid.learned (List.mem_cons_of_mem _ hmem)
  | learn id' =>
    unfold Lookups.step at hs
    dsimp only at hs
    split at hs
    next hstoring =>
      rcases ScalableBloomFilter.add_cases floats hashlib h.filled (makeBloomKey id') with
        hadd | ⟨filter, b, hadd, hfilled, -, hkey, hkept⟩
      · rw [hadd] at hs
        cases hs
      · rw [hadd] at hs
        cases hs
        refine h.mono hfilled hkept (fun id hid => ?_) (fun _ hw => hw) fun _ hl _ _ => hl
        by_cases heq : id = id'
        · exact .inr (heq ▸ hkey)
        · exact .inl ⟨hid.1, hid.2, fun hmem => hid.learned ((List.mem_erase_of_ne heq).mpr hmem)⟩
    · cases hs
  | drop id' =>
    cases hs
    refine h.frame rfl (fun id hid => ⟨?_, hid.2, hid.3⟩)
      (fun _ hw => hw) fun _ hl _ _ => hl
    have hstored := hid.stored
    rw [find?_drop] at hstored
    split at hstored
    · cases hstored
    · exact hstored
  | complete workflow =>
    cases hs
    exact h.frame rfl (fun id hid => ⟨hid.1, hid.2, hid.3⟩)
      (fun _ hw => (List.mem_filter.mp hw).1) fun _ hl _ _ => hl
  | tick ms =>
    cases hs
    exact h.frame rfl
      (fun id hid => ⟨hid.1, unexpired_of_le (Nat.le_add_right _ _) hid.2, hid.3⟩)
      (fun _ hw => hw) fun _ hl _ _ => hl

/-! ## What a lookup finds -/

variable (expires) in
/-- The mutation is in the database, has not expired, and no store has still to tell the filter. -/
structure Remembered (s : State F R) (id : MutationId) (response : R) : Prop where
  stored : s.database.find? id = some response
  unexpired : unexpired expires s.now id = true
  learned : id ∉ s.storing

variable (expires) in
/-- The mutation is not written over or dropped, and does not expire. -/
def Spares (id : MutationId) (s : State F R) : Action R → Prop
  | .write id' _ => id' ≠ id
  | .drop id' => id' ≠ id
  | .tick ms => unexpired expires (s.now + ms) id = true
  | _ => True

theorem Remembered.live (h : Remembered expires s id response) : s.Live expires id :=
  ⟨by rw [h.stored]; rfl, h.unexpired, h.learned⟩

/-- A lookup is on its way to the mutation, or has found it. -/
def OnTrack (id : MutationId) (response : R) (request : MutationId) : Phase R → Prop
  | .recovering _ => True
  | .reading id' answer => (id' = request ∨ id' = request.plain) ∧ (request = id → id' = id) ∧
      ∀ result, answer = some result → id' = id → result = some response
  | .returned result => (request = id → result = some response) ∧ (request.plain = id → result ≠ none)
  | .raised => True

theorem contains_eq_true {filter : ScalableBloomFilter F} {b : Bool}
    (h : filter.Has hashlib (makeBloomKey id))
    (hb : filter.contains hashlib (makeBloomKey id) = .ok b) : b = true :=
  Except.ok.inj (hb.symm.trans h)

theorem afterMiss_onTrack {filter : ScalableBloomFilter F} {request : MutationId}
    (hne : request ≠ id) (hplain : request.plain = id → filter.Has hashlib (makeBloomKey id)) :
    OnTrack id response request (afterMiss hashlib filter request) := by
  unfold afterMiss
  split
  next hnone =>
    have hself : request.plain = request := by
      obtain ⟨key, workflow⟩ := request
      exact congrArg (MutationId.mk key) hnone.symm
    exact ⟨fun heq => absurd heq hne, fun heq => absurd (hself.symm.trans heq) hne⟩
  · split
    · trivial
    · exact ⟨.inr rfl, fun heq => absurd heq hne, fun _ h => by cases h⟩
    next hmiss =>
      refine ⟨fun heq => absurd heq hne, fun heq => ?_⟩
      rw [heq] at hmiss
      cases contains_eq_true (hplain heq) hmiss

theorem probe_onTrack {filter : ScalableBloomFilter F} {request : MutationId}
    (hown : request = id → filter.Has hashlib (makeBloomKey id))
    (hplain : request.plain = id → filter.Has hashlib (makeBloomKey id)) :
    OnTrack id response request (probe hashlib filter request) := by
  unfold probe
  split
  · trivial
  · exact ⟨.inl rfl, fun heq => heq, fun _ h => by cases h⟩
  next hmiss =>
    refine afterMiss_onTrack (fun heq => ?_) hplain
    rw [heq] at hmiss
    cases contains_eq_true (hown heq) hmiss

/-- What is outside of workflows is in the filter in any case. -/
theorem State.Inv.plain (h : s.Inv hashlib expires) (hid : s.Live expires id) {request : MutationId}
    (heq : request.plain = id) : s.Filed hashlib id :=
  h.covered id hid fun w hw => by
    rw [← heq] at hw
    cases hw

theorem begins_onTrack (h : s.Inv hashlib expires) (hid : s.Live expires id) (request : MutationId) :
    OnTrack id response request (s.begins hashlib request) := by
  unfold State.begins
  split
  next hnone =>
    refine probe_onTrack (fun heq => ?_) (h.plain hid)
    refine h.covered id hid fun w hw => ?_
    rw [← heq, hnone] at hw
    cases hw
  next w hsome =>
    split
    next hmem =>
      refine probe_onTrack (fun heq => h.covered id hid fun w' hw => ?_) (h.plain hid)
      rw [← heq, hsome] at hw
      cases hw
      exact hmem
    · trivial

/-- A recovery that is resumed goes on with a filter that has the mutation. -/
theorem resumed_onTrack (h : s.Inv hashlib expires) (hid : s.Live expires id) {i : Nat}
    {lookup : Lookup R} (hlookup : s.lookups[i]? = some lookup)
    (htrack : OnTrack id response lookup.request lookup.phase)
    (hs : s.resumed floats hashlib i lookup = some s') : ∃ t phase, s' = State.setPhase t i phase ∧
      t.lookups = s.lookups ∧ OnTrack id response lookup.request phase := by
  have hmem := List.mem_of_getElem? hlookup
  unfold State.resumed at hs
  split at hs
  next ids hphase =>
    split at hs
    · cases hs
      exact ⟨_, _, rfl, rfl, trivial⟩
    next filter hadd =>
      cases hs
      obtain ⟨-, hkept, hall⟩ := addMany_spec h.filled hadd
      refine ⟨_, _, rfl, rfl, probe_onTrack (fun heq => ?_) fun heq => hkept _ (h.plain hid heq)⟩
      rcases h.answers lookup hmem ids hphase id hid (by rw [heq]) with hids | hfiled
      · exact hall rfl id hids
      · exact hkept _ hfiled
  next id' result hphase =>
    cases hs
    rw [hphase] at htrack
    refine ⟨_, _, rfl, rfl, fun heq => ?_, fun _ hnone => by cases hnone⟩
    exact htrack.2.2 _ rfl (htrack.2.1 heq)
  next id' hphase =>
    cases hs
    rw [hphase] at htrack
    obtain ⟨hcases, hown, hanswer⟩ := htrack
    -- the mutation itself was not missing
    have hne : id' ≠ id := fun heq => by cases hanswer _ rfl heq
    refine ⟨_, _, rfl, rfl, ?_⟩
    split
    next heq =>
      rw [heq] at hne ⊢
      exact afterMiss_onTrack hne (h.plain hid)
    next hreq =>
      refine ⟨fun heq => absurd (hown heq) hne, fun heq => ?_⟩
      exact absurd ((hcases.resolve_left hreq).trans heq) hne
  · cases hs

theorem Remembered.step (h : Remembered expires s id response) {a : Action R}
    (hspares : Spares expires id s a) (hs : step floats hashlib expires s a = some s') :
    Remembered expires s' id response := by
  cases a with
  | get => cases hs; exact ⟨h.1, h.2, h.3⟩
  | read i =>
    unfold Lookups.step at hs
    dsimp only at hs
    split at hs
    · cases hs
    · obtain ⟨phase, -, rfl⟩ := Option.map_eq_some_iff.mp hs
      exact ⟨h.1, h.2, h.3⟩
  | resume i =>
    unfold Lookups.step at hs
    dsimp only at hs
    split at hs
    · cases hs
    · unfold State.resumed at hs
      repeat' split at hs
      all_goals cases hs
      all_goals exact ⟨h.1, h.2, h.3⟩
  | write id' response' =>
    cases hs
    refine ⟨?_, h.2, fun hmem => ?_⟩
    · rw [← h.stored]
      exact Dict.find?_set_of_ne _ (Ne.symm hspares) _
    · rcases List.mem_cons.mp hmem with heq | hmem
      · exact hspares heq.symm
      · exact h.learned hmem
  | learn id' =>
    unfold Lookups.step at hs
    dsimp only at hs
    split at hs
    · split at hs
      · cases hs
      · cases hs
        exact ⟨h.1, h.2, fun hmem => h.learned (List.mem_of_mem_erase hmem)⟩
    · cases hs
  | drop id' =>
    cases hs
    refine ⟨?_, h.2, h.3⟩
    rw [find?_drop, if_neg (Ne.symm hspares)]
    exact h.stored
  | complete => cases hs; exact ⟨h.1, h.2, h.3⟩
  | tick ms => cases hs; exact ⟨h.1, hspares, h.3⟩

/-- The lookups from the `n`-th on are on their way. -/
def AllOnTrack (id : MutationId) (response : R) (n : Nat) (s : State F R) : Prop :=
  ∀ i lookup, n ≤ i → s.lookups[i]? = some lookup → OnTrack id response lookup.request lookup.phase

theorem AllOnTrack.setPhase {n i : Nat} (h : AllOnTrack id response n s) {lookup : Lookup R}
    (hlookup : s.lookups[i]? = some lookup) {phase : Phase R}
    (hphase : n ≤ i → OnTrack id response lookup.request phase) :
    AllOnTrack id response n (s.setPhase i phase) := by
  intro j l hj hl
  rw [State.setPhase, List.getElem?_modify] at hl
  split at hl
  next hij =>
    subst hij
    rw [hlookup] at hl
    cases hl
    exact hphase hj
  next => exact h j l hj (by simpa using hl)

theorem AllOnTrack.step {n : Nat} (h : AllOnTrack id response n s) (hinv : s.Inv hashlib expires)
    (hid : Remembered expires s id response) {a : Action R}
    (hs : step floats hashlib expires s a = some s') : AllOnTrack id response n s' := by
  cases a with
  | get request =>
    cases hs
    intro i lookup hi hlookup
    rcases Nat.lt_or_ge i s.lookups.length with hlt | hge
    · exact h i lookup hi (by rwa [← List.getElem?_append_left hlt])
    · rw [List.getElem?_append_right hge, List.getElem?_singleton] at hlookup
      split at hlookup
      · cases hlookup
        exact begins_onTrack hinv hid.live request
      · cases hlookup
  | read i =>
    unfold Lookups.step at hs
    dsimp only at hs
    split at hs
    · cases hs
    next lookup hlookup =>
      obtain ⟨phase, hphase, rfl⟩ := Option.map_eq_some_iff.mp hs
      refine h.setPhase hlookup fun hi => ?_
      have htrack := h i lookup hi hlookup
      unfold State.answered at hphase
      split at hphase
      · cases hphase
        trivial
      next id' hreading =>
        cases hphase
        rw [hreading] at htrack
        refine ⟨htrack.1, htrack.2.1, fun result hresult heq => ?_⟩
        rw [← Option.some.inj hresult, heq]
        exact hid.stored
      · cases hphase
  | resume i =>
    unfold Lookups.step at hs
    dsimp only at hs
    split at hs
    · cases hs
    next lookup hlookup =>
      by_cases hi : n ≤ i
      · obtain ⟨t, phase, rfl, hsame, hphase⟩ :=
          resumed_onTrack hinv hid.live hlookup (h i lookup hi hlookup) hs
        have ht : AllOnTrack id response n t := fun j l hj hl => h j l hj (hsame ▸ hl)
        exact ht.setPhase (hsame ▸ hlookup) fun _ => hphase
      · -- an earlier lookup
        have hother : ∀ (t : State F R) phase, t.lookups = s.lookups →
            AllOnTrack id response n (t.setPhase i phase) := by
          intro t phase hsame
          have ht : AllOnTrack id response n t := fun j l hj hl => h j l hj (hsame ▸ hl)
          exact ht.setPhase (hsame ▸ hlookup) fun hle => absurd hle hi
        unfold State.resumed at hs
        repeat' split at hs
        all_goals cases hs
        all_goals exact hother _ _ rfl
  | learn id' =>
    unfold Lookups.step at hs
    dsimp only at hs
    split at hs
    · split at hs <;> cases hs
      exact h
    · cases hs
  | write | drop | complete | tick => cases hs; exact h

/-- A mutation that is in the database, and of which no store has still to tell the filter, is found
by every lookup that begins from then on, as long as it is not dropped or written over and does not
expire; and so that a lookup for a workflow without a mutation of its own does not come back empty. -/
theorem lookup_finds {F R : Type} {floats : Floats F} {hashlib : Hashlib}
    {expires : List Byte → Option Nat} {database : Dict MutationId R} {now : Nat}
    {s₀ s s' : State F R} {id : MutationId} {response : R}
    (hload : State.load floats hashlib expires database now = some s₀)
    (h : Reach (step floats hashlib expires) (fun _ _ => True) s₀ s)
    (hid : Remembered expires s id response)
    (h' : Reach (step floats hashlib expires) (Spares expires id) s s') {i : Nat}
    (hi : s.lookups.length ≤ i) {lookup : Lookup R} (hlookup : s'.lookups[i]? = some lookup)
    {result : Option R} (hresult : lookup.phase = .returned result) :
    (lookup.request = id → result = some response) ∧ (lookup.request.plain = id → result ≠ none) := by
  have hinv : s.Inv hashlib expires :=
    h.invariant (·.Inv hashlib expires) (.load hload) fun _ _ _ hi _ hs => hi.step hs
  have hall : (s'.Inv hashlib expires ∧ Remembered expires s' id response) ∧
      AllOnTrack id response s.lookups.length s' := by
    refine h'.invariant (fun t => (t.Inv hashlib expires ∧ Remembered expires t id response) ∧
      AllOnTrack id response s.lookups.length t) ⟨⟨hinv, hid⟩, fun j l hj hl => ?_⟩ ?_
    · rw [List.getElem?_eq_none hj] at hl
      cases hl
    · rintro t a t' ⟨⟨ht, hr⟩, htrack⟩ hspares hs
      exact ⟨⟨ht.step hs, hr.step hspares hs⟩, htrack.step ht hr hs⟩
  have htrack := hall.2 i lookup hi hlookup
  rw [hresult] at htrack
  exact htrack

instance (id : MutationId) (s : State F R) (a : Action R) : Decidable (Spares expires id s a) := by
  unfold Spares
  split <;> infer_instance

/-- The first salt of 48 bytes, and the digest of sixteen sevens behind it. -/
def salt : List Byte :=
  [57, 67, 65, 183, 24, 44, 210, 39, 197, 198, 176, 126, 248, 0, 12, 223, 216, 97, 54, 196, 41,
   43, 142, 87, 101, 115, 173, 126, 217, 174, 65, 1, 159, 88, 24, 180, 185, 113, 201, 239, 252,
   96, 225, 173, 159, 18, 137, 240]

def saltedSevens : List Byte :=
  [12, 231, 207, 157, 38, 209, 210, 231, 10, 106, 38, 118, 77, 250, 131, 127, 56, 97, 148, 206,
   22, 29, 240, 27, 245, 42, 51, 225, 252, 149, 194, 215, 225, 89, 167, 121, 47, 56, 59, 202, 122,
   210, 115, 3, 186, 240, 66, 117]

/-- SHA-384 of these two inputs. -/
def hashlibOfSevens : Hashlib where
  digest := fun name data =>
    match name with
    | .sha384 => if data = salt ++ List.replicate 16 7 then saltedSevens else salt
    | name => List.replicate name.digestSize 0
  length_digest := by
    intro name data
    cases name with
    | sha384 => dsimp only; split <;> rfl
    | md5 | sha1 | sha256 | sha512 => exact List.length_replicate

/-- The sizes of the first filter; rates are counted. -/
def floatsOfFirst : Floats Nat := ⟨0, (· + 1), fun _ _ => some ⟨24, 140, by decide⟩⟩

def sevens : MutationId := ⟨List.replicate 16 7, none⟩

def loaded : Option (State Nat Nat) :=
  State.load floatsOfFirst hashlibOfSevens (fun _ => none) .empty 0

def emptyState : State Nat Nat :=
  loaded.get (by decide +kernel)

/-- A store; -/
def storeSevens : List (Action Nat) := [.write sevens 1, .learn sevens]

/-- then a lookup. -/
def lookUpSevens : List (Action Nat) := [.get sevens, .read 0, .resume 0]

/-- The state after the store. -/
def storedState : State Nat Nat :=
  last (step floatsOfFirst hashlibOfSevens fun _ => none) emptyState storeSevens

theorem lookup_finds_sevens :
    (last (step floatsOfFirst hashlibOfSevens fun _ => none) storedState lookUpSevens).lookups[0]? =
        some ⟨sevens, .returned (some 1)⟩ ∧
      ((sevens = sevens → some 1 = some 1) ∧ (sevens.plain = sevens → some 1 ≠ none)) := by
  have hload : loaded = some emptyState := (Option.some_get _).symm
  have hlookup : (last (step floatsOfFirst hashlibOfSevens fun _ => none) storedState
      lookUpSevens).lookups[0]? = some ⟨sevens, .returned (some 1)⟩ := by decide +kernel
  exact ⟨hlookup, lookup_finds hload (reach_last storeSevens .init (by decide +kernel))
    ⟨by decide +kernel, by decide +kernel, by decide +kernel⟩
    (reach_last lookUpSevens .init (by decide +kernel)) (by decide +kernel) hlookup rfl⟩

end Reboot.Txn.Lookups
