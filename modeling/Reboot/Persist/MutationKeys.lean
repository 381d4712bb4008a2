import Reboot.Persist.Migration
import Reboot.Routing.StateRef

/-!
# Looking up an idempotent mutation by its key

`MakeIdempotentMutationKey` joins the ref of a state, the scope (a workflow, or one
iteration of it) and the idempotency key of a mutation with colons, behind one of five
headers, and `RecoverIdempotentMutations` (`reboot/server/database.cc`) answers a request
for one key by scanning the column family for everything that *begins* with the joined
text, checking afterwards that it found at most one mutation.

The join is injective (`rocksKey_injective`): read from the end, every part has a fixed
length or no colon in it. It is not prefix-free, because the ref is not: the id of a state
may contain colons, so the ref of another state can spell out a ref, a colon and a key.
`recover_exact_iff` says when the lookup is exact: unless such a state has a mutation.

Mirroring notes:
- A `std::string` is a list of characters, one for each byte (`IsBytes`).
- A column family here holds what stores of idempotent mutations put into it; states and
  tasks are under other headers and never met by these scans.
- The response is streamed in messages: `sent` is what was written, `response` what is
  still collected. `EstimateIdempotentMutationSize` and `kBatchFlushBytes` only decide
  where the stream is cut and are parameters; the `CHECK` counts `response` alone.
- `workflow_iteration` comes only with `workflow_id`.
-/

namespace Reboot.Persist

open Reboot.Lib

/-! ## What the code does -/

/-- The fields of an `IdempotentMutation` that its key is made of. -/
structure MutationId where
  stateRef : Str
  key : Str
  workflowId : Option Str
  workflowIteration : Option Nat
  deriving DecidableEq

/-- A mutation as it is stored. -/
structure Mutation where
  id : MutationId
  response : Str
  deriving DecidableEq

section

variable (uuidToString : Str → Except Str Str)

/-- The key of a mutation in the column family. -/
def MutationId.rocksKey (i : MutationId) : Except Failure Str :=
  makeIdempotentMutationKey uuidToString i.stateRef i.key i.workflowId i.workflowIteration

/-- The loop of `Apply` over the idempotent mutations of a request. -/
def storeMutations : SortedAssoc Str Mutation → List Mutation →
    Except Failure (SortedAssoc Str Mutation)
  | content, [] => .ok content
  | content, m :: ms =>
    match m.id.rocksKey uuidToString with
    | .error e => .error e
    | .ok k => storeMutations (content.put k m) ms

variable (estimate : Mutation → Nat) (flushBytes : Nat)

/-- The loop of `RecoverIdempotentMutationsForKeyPrefix` from the position of the iterator
on: what was sent, what is collected, and the estimated size of the latter. -/
def recoverLoop (endPrefix : Str) : List (Str × Mutation) → List Mutation → List Mutation → Nat →
    List Mutation × List Mutation
  | [], sent, response, _ => (sent, response)
  | (k, m) :: rest, sent, response, bytes =>
    if endPrefix.isPrefixOf k then
      if bytes + estimate m ≥ flushBytes then
        recoverLoop endPrefix rest (sent ++ (response ++ [m])) [] 0
      else recoverLoop endPrefix rest sent (response ++ [m]) (bytes + estimate m)
    else (sent, response)

/-- `RecoverIdempotentMutations` for a request with an idempotency key. -/
def recoverIdempotentMutation (content : SortedAssoc Str Mutation) (request : MutationId) :
    Except Failure (List Mutation) :=
  match request.rocksKey uuidToString with
  | .error e => .error e
  | .ok k =>
    let r := recoverLoop estimate flushBytes k (seekAssoc k content.entries) [] [] 0
    if r.2.length > 1 then .error .checkFailed else .ok (r.1 ++ r.2)

end

/-! ## The parts of a key -/

/-- The five headers. -/
inductive KeyKind
  | plain
  | expiring
  | workflow
  | workflowExpiring
  | workflowIteration
  deriving DecidableEq

/-- The header as it is written, with its colon. -/
def KeyKind.header : KeyKind → Str
  | .plain => "idempotent-mutation-v4:".toList
  | .expiring => "expiring-idempotent-mutation:".toList
  | .workflow => "workflow-idempotent-mutation:".toList
  | .workflowExpiring => "workflow-expiring-idempotent-mutation:".toList
  | .workflowIteration => "workflow-iteration-idempotent-mutation:".toList

/-- Which header a mutation goes under. -/
def MutationId.kind (i : MutationId) : KeyKind :=
  match i.workflowId, i.workflowIteration with
  | some _, some _ => .workflowIteration
  | some _, none => if uuidVersion i.key = 7 then .workflowExpiring else .workflow
  | none, _ => if uuidVersion i.key = 7 then .expiring else .plain

/-- The scope and the idempotency key, as they are written behind the ref. -/
def MutationId.scopeText (uuidToString : Str → Except Str Str) (i : MutationId) : Str :=
  match i.workflowId, i.workflowIteration with
  | some w, some n => w ++ ':' :: (Nat.toDigits 10 n ++ ':' :: i.key)
  | some w, none => w ++ ':' :: i.key
  | none, _ =>
    if uuidVersion i.key = 7 then i.key
    else match uuidToString i.key with
      | .ok u => u
      | .error _ => []

/-- One character for each byte. -/
def IsBytes (s : Str) : Prop := ∀ c ∈ s, c.toNat < 256

/-- What a request or a stored mutation is made of. -/
structure MutationId.Valid (i : MutationId) : Prop where
  key : IsBytes i.key
  scope : i.workflowIteration.isSome = true → i.workflowId.isSome = true

/-- What is known of `UUID::fromBytes(..)->toString()`: 36 characters, hexadecimal digits and
dashes, and different bytes have different texts. -/
structure UuidText (uuidToString : Str → Except Str Str) : Prop where
  text : ∀ k, k.length = 16 → ∃ u, uuidToString k = .ok u ∧ u.length = 36 ∧ ':' ∉ u
  injective : ∀ k k', k.length = 16 → k'.length = 16 → IsBytes k → IsBytes k' →
    uuidToString k = uuidToString k' → k = k'

section

variable {uuidToString : Str → Except Str Str}

omit uuidToString in
theorem append_colon (a b c : Str) : a ++ ':' :: b ++ ':' :: c = a ++ ':' :: (b ++ ':' :: c) := by
  simp

/-- A key is its header, the ref, a colon and the scope text. -/
theorem rocksKey_eq {i : MutationId} {k : Str} (h : i.rocksKey uuidToString = .ok k) :
    k = i.kind.header ++ (i.stateRef ++ ':' :: i.scopeText uuidToString) ∧
      i.key.length = 16 ∧ (∀ w ∈ i.workflowId, w.length = 16) := by
  rw [← List.append_assoc]
  unfold MutationId.rocksKey makeIdempotentMutationKey at h
  unfold MutationId.kind MutationId.scopeText
  split at h
  · cases h
  next hlen =>
    have hlen' : i.key.length = 16 := not_not.mp hlen
    split at h
    next w n hw hn =>
      split at h
      · cases h
      next hwlen =>
        split at h
        · cases h
        next hv =>
          rw [append_colon, append_colon] at h
          have hwl : ∀ w' ∈ i.workflowId, w'.length = 16 := by simpa [hw] using hwlen
          simp only [hw, hn]
          exact ⟨(Except.ok.inj h).symm, hlen', by rwa [hw] at hwl⟩
    next w hw hn =>
      split at h
      · cases h
      next hwlen =>
        have hwl : ∀ w' ∈ i.workflowId, w'.length = 16 := by simpa [hw] using hwlen
        rw [hw] at hwl
        simp only [hw, hn]
        split at h
        next hv =>
          rw [append_colon] at h
          exact ⟨(Except.ok.inj h).symm.trans (by rw [if_pos hv]; rfl), hlen', hwl⟩
        next hv =>
          rw [append_colon] at h
          exact ⟨(Except.ok.inj h).symm.trans (by rw [if_neg hv]; rfl), hlen', hwl⟩
    next hw =>
      have hwl : ∀ w' ∈ i.workflowId, w'.length = 16 := by simp [hw]
      rw [hw] at hwl
      rw [hw]
      split at h
      next hv =>
        refine ⟨(Except.ok.inj h).symm.trans ?_, hlen', hwl⟩
        simp only [if_pos hv]
        rfl
      next hv =>
        split at h
        · cases h
        next u hu =>
          refine ⟨(Except.ok.inj h).symm.trans ?_, hlen', hwl⟩
          simp only [if_neg hv, hu]
          rfl

/-- No header begins another one. -/
theorem header_eq_of_isPrefix {a b : KeyKind} {x y : Str} (h : a.header ++ x <+: b.header ++ y) :
    a = b := by
  have hfree : ∀ a b : KeyKind, a.header.isPrefixOf b.header = true → a = b := by
    intro a b
    cases a <;> cases b <;> decide
  have ha : a.header <+: b.header ++ y := (List.prefix_append _ _).trans h
  rcases List.prefix_or_prefix_of_prefix ha (List.prefix_append b.header y) with hab | hba
  · exact hfree a b (List.isPrefixOf_iff_prefix.mpr hab)
  · exact (hfree b a (List.isPrefixOf_iff_prefix.mpr hba)).symm

/-! ## One key at the beginning of another -/

omit uuidToString in
/-- Two scope texts of one kind: the first is not the beginning of the second, nor does it
occur in it behind a colon so that it ends no later. -/
structure Rigid (s s' : Str) : Prop where
  eq_of_isPrefix : s <+: s' → s = s'
  not_behind : ∀ y, ¬ y ++ ':' :: s <+: s'

omit uuidToString in
theorem rigid_of_length {s s' : Str} (h : s.length = s'.length) : Rigid s s' := by
  refine ⟨fun hp => hp.eq_of_length h, fun y hp => ?_⟩
  have := hp.length_le
  simp only [List.length_append, List.length_cons] at this
  omega

omit uuidToString in
/-- The texts of two iterations: the number has no colon in it, so the colon before it
cannot move. -/
theorem rigid_iteration {w w' d d' k k' : Str} (hw : w.length = 16) (hw' : w'.length = 16)
    (hk : k.length = 16) (hk' : k'.length = 16) (hd : ':' ∉ d) (hd' : ':' ∉ d') :
    Rigid (w ++ ':' :: (d ++ ':' :: k)) (w' ++ ':' :: (d' ++ ':' :: k')) := by
  constructor
  · intro hp
    obtain ⟨z, hz⟩ := hp
    rw [List.append_assoc, List.cons_append] at hz
    obtain ⟨rfl, htail⟩ := List.append_inj hz (by omega)
    have hcut := cutFirst_append (b := k ++ z) hd
    have hcut' := cutFirst_append (b := k') hd'
    have hd_eq : d ++ ':' :: (k ++ z) = d' ++ ':' :: k' := by simpa using htail
    rw [hd_eq, hcut'] at hcut
    obtain ⟨rfl, hkz⟩ := Prod.mk.inj (Option.some.inj hcut)
    have hz0 : z = [] := by
      have := congrArg List.length hkz
      simp only [List.length_append] at this
      exact List.eq_nil_of_length_eq_zero (by omega)
    rw [hkz, hz0, List.append_nil]
  · intro y hp
    have hlen := hp.length_le
    simp only [List.length_append, List.length_cons] at hlen
    have hy : y.length < d'.length := by omega
    -- the colon behind `w` falls on a digit of `d'`
    have hleft : (y ++ ':' :: (w ++ ':' :: (d ++ ':' :: k)))[y.length + 17]? = some ':' := by
      rw [List.getElem?_append_right (by omega), Nat.add_sub_cancel_left,
        List.getElem?_cons_succ, List.getElem?_append_right (by omega), hw]
      rfl
    have hright : (w' ++ ':' :: (d' ++ ':' :: k'))[y.length + 17]? = some (d'.get ⟨y.length, hy⟩) := by
      rw [List.getElem?_append_right (by omega), hw',
        show y.length + 17 - 16 = y.length + 1 by omega, List.getElem?_cons_succ,
        List.getElem?_append_left hy]
      exact List.getElem?_eq_getElem hy
    obtain ⟨z, hz⟩ := hp
    have hsame : (y ++ ':' :: (w ++ ':' :: (d ++ ':' :: k)))[y.length + 17]? =
        (w' ++ ':' :: (d' ++ ':' :: k'))[y.length + 17]? := by
      have hlt : y.length + 17 < (y ++ ':' :: (w ++ ':' :: (d ++ ':' :: k))).length := by
        simp only [List.length_append, List.length_cons]
        omega
      rw [← hz, List.getElem?_append_left hlt]
    rw [hleft, hright] at hsame
    exact hd' (Option.some.inj hsame ▸ List.get_mem d' ⟨y.length, hy⟩)

omit uuidToString in
/-- A ref, a colon and a scope text at the beginning of others: they are the same, or the
other ref spells them out. -/
theorem joined_prefix_iff {r r' s s' : Str} (h : Rigid s s') :
    r ++ ':' :: s <+: r' ++ ':' :: s' ↔
      r = r' ∧ s = s' ∨ ∃ x, r' = r ++ ':' :: x ∧ s <+: x ++ ':' :: s' := by
  constructor
  · intro hp
    have hr : r <+: r' ++ ':' :: s' := (List.prefix_append _ _).trans hp
    rcases List.prefix_or_prefix_of_prefix hr (List.prefix_append r' (':' :: s')) with
      ⟨z, rfl⟩ | ⟨z, rfl⟩
    · rw [List.append_assoc, List.prefix_append_right_inj] at hp
      cases z with
      | nil =>
        rw [List.nil_append, List.cons_prefix_cons] at hp
        exact Or.inl ⟨(List.append_nil r).symm, h.eq_of_isPrefix hp.2⟩
      | cons c x =>
        rw [List.cons_append, List.cons_prefix_cons] at hp
        exact Or.inr ⟨x, by rw [hp.1], hp.2⟩
    · rw [List.append_assoc, List.prefix_append_right_inj] at hp
      cases z with
      | nil =>
        rw [List.nil_append, List.cons_prefix_cons] at hp
        exact Or.inl ⟨List.append_nil r', h.eq_of_isPrefix hp.2⟩
      | cons c y =>
        rw [List.cons_append, List.cons_prefix_cons] at hp
        exact absurd hp.2 (h.not_behind y)
  · rintro (⟨rfl, rfl⟩ | ⟨x, rfl, hx⟩)
    · exact List.prefix_rfl
    · rw [List.append_assoc, List.prefix_append_right_inj, List.cons_append,
        List.cons_prefix_cons]
      exact ⟨rfl, hx⟩

omit uuidToString in
theorem colon_not_digit (n : Nat) : ':' ∉ Nat.toDigits 10 n := by
  intro h
  have := Nat.isDigit_of_mem_toDigits (by decide) (by decide) h
  exact absurd this (by decide)

omit uuidToString in
/-- How long the scope text of a kind is; that of an iteration varies. -/
def KeyKind.width : KeyKind → Option Nat
  | .plain => some 36
  | .expiring => some 16
  | .workflow => some 33
  | .workflowExpiring => some 33
  | .workflowIteration => none

theorem scopeText_length (hu : UuidText uuidToString) {i : MutationId} {k : Str} {n : Nat}
    (h : i.rocksKey uuidToString = .ok k) (hn : i.kind.width = some n) :
    (i.scopeText uuidToString).length = n := by
  obtain ⟨-, hlen, hwl⟩ := rocksKey_eq h
  obtain ⟨u, hok, hul, -⟩ := hu.text i.key hlen
  unfold MutationId.kind at hn
  unfold MutationId.scopeText
  split at hn
  · cases hn
  next w hw hnone =>
    have hw16 : w.length = 16 := hwl w hw
    have hn33 : n = 33 := by
      split at hn <;> exact (Option.some.inj hn).symm
    simp only [List.length_append, List.length_cons]
    omega
  next hw =>
    split at hn
    next hv =>
      rw [if_pos hv, hlen]
      exact Option.some.inj hn
    next hv =>
      rw [if_neg hv, hok]
      exact hul.trans (Option.some.inj hn)

omit uuidToString in
theorem iteration_of_width {i : MutationId} (hn : i.kind.width = none) :
    ∃ w n, i.workflowId = some w ∧ i.workflowIteration = some n := by
  unfold MutationId.kind at hn
  split at hn
  next w n hw hn' => exact ⟨w, n, hw, hn'⟩
  · split at hn <;> cases hn
  · split at hn <;> cases hn

theorem scopeText_iteration {i : MutationId} {w : Str} {n : Nat} (hw : i.workflowId = some w)
    (hn : i.workflowIteration = some n) :
    i.scopeText uuidToString = w ++ ':' :: (Nat.toDigits 10 n ++ ':' :: i.key) := by
  simp only [MutationId.scopeText, hw, hn]

/-- The scope texts of one kind are rigid. -/
theorem scopeText_rigid (hu : UuidText uuidToString) {i i' : MutationId} {k k' : Str}
    (h : i.rocksKey uuidToString = .ok k) (h' : i'.rocksKey uuidToString = .ok k')
    (hkind : i.kind = i'.kind) :
    Rigid (i.scopeText uuidToString) (i'.scopeText uuidToString) := by
  cases hwidth : i.kind.width with
  | some n =>
    refine rigid_of_length ?_
    rw [scopeText_length hu h hwidth, scopeText_length hu h' (hkind ▸ hwidth)]
  | none =>
    obtain ⟨-, hlen, hwl⟩ := rocksKey_eq h
    obtain ⟨-, hlen', hwl'⟩ := rocksKey_eq h'
    obtain ⟨w, n, hw, hn⟩ := iteration_of_width hwidth
    obtain ⟨w', n', hw', hn'⟩ := iteration_of_width (hkind ▸ hwidth)
    rw [scopeText_iteration hw hn, scopeText_iteration hw' hn']
    exact rigid_iteration (hwl w hw) (hwl' w' hw') hlen hlen' (colon_not_digit n)
      (colon_not_digit n')

omit uuidToString in
/-- What the kind says about the scope. -/
theorem scope_of_kind {i i' : MutationId} (hv : i.Valid) (hv' : i'.Valid)
    (hkind : i.kind = i'.kind) :
    (i.workflowId = none ∧ i.workflowIteration = none ∧ i'.workflowId = none ∧
      i'.workflowIteration = none ∧ (uuidVersion i.key = 7 ↔ uuidVersion i'.key = 7)) ∨
    (∃ w w', i.workflowId = some w ∧ i.workflowIteration = none ∧ i'.workflowId = some w' ∧
      i'.workflowIteration = none) ∨
    (∃ w w' n n', i.workflowId = some w ∧ i.workflowIteration = some n ∧
      i'.workflowId = some w' ∧ i'.workflowIteration = some n') := by
  obtain ⟨r, key, w, n⟩ := i
  obtain ⟨r', key', w', n'⟩ := i'
  have hs := hv.scope
  have hs' := hv'.scope
  unfold MutationId.kind at hkind
  cases w with
  | none =>
    have hn : n = none := by simpa using hs
    subst hn
    cases w' with
    | none =>
      have hn' : n' = none := by simpa using hs'
      subst hn'
      refine Or.inl ⟨rfl, rfl, rfl, rfl, ?_⟩
      by_cases h7 : uuidVersion key = 7 <;> by_cases h7' : uuidVersion key' = 7 <;>
        simp_all
    | some w' =>
      cases n' with
      | none =>
        simp only at hkind
        split at hkind <;> split at hkind <;> cases hkind
      | some n' =>
        simp only at hkind
        split at hkind <;> cases hkind
  | some w =>
    cases n with
    | none =>
      cases w' with
      | none =>
        simp only at hkind
        split at hkind <;> split at hkind <;> cases hkind
      | some w' =>
        cases n' with
        | none => exact Or.inr (Or.inl ⟨w, w', rfl, rfl, rfl, rfl⟩)
        | some n' =>
          simp only at hkind
          split at hkind <;> cases hkind
    | some n =>
      cases w' with
      | none =>
        simp only at hkind
        split at hkind <;> cases hkind
      | some w' =>
        cases n' with
        | none =>
          simp only at hkind
          split at hkind <;> cases hkind
        | some n' => exact Or.inr (Or.inr ⟨w, w', n, n', rfl, rfl, rfl, rfl⟩)

/-- The scope text of a kind determines the scope and the key. -/
theorem scope_of_scopeText (hu : UuidText uuidToString) {i i' : MutationId} {k k' : Str}
    (hv : i.Valid) (hv' : i'.Valid) (h : i.rocksKey uuidToString = .ok k)
    (h' : i'.rocksKey uuidToString = .ok k') (hkind : i.kind = i'.kind)
    (hs : i.scopeText uuidToString = i'.scopeText uuidToString) :
    i.key = i'.key ∧ i.workflowId = i'.workflowId ∧
      i.workflowIteration = i'.workflowIteration := by
  obtain ⟨-, hlen, hwl⟩ := rocksKey_eq h
  obtain ⟨-, hlen', hwl'⟩ := rocksKey_eq h'
  unfold MutationId.scopeText at hs
  rcases scope_of_kind hv hv' hkind with ⟨hw, hn, hw', hn', h7⟩ | ⟨w, w', hw, hn, hw', hn'⟩ |
    ⟨w, w', n, n', hw, hn, hw', hn'⟩
  · refine ⟨?_, hw.trans hw'.symm, hn.trans hn'.symm⟩
    rw [hw, hn, hw', hn'] at hs
    simp only [h7] at hs
    split at hs
    · exact hs
    · obtain ⟨u, hok, -, -⟩ := hu.text i.key hlen
      obtain ⟨u', hok', -, -⟩ := hu.text i'.key hlen'
      rw [hok, hok'] at hs
      have huu : u = u' := hs
      exact hu.injective _ _ hlen hlen' hv.key hv'.key (by rw [hok, hok', huu])
  · rw [hw, hn, hw', hn'] at hs
    obtain ⟨hww, htail⟩ := List.append_inj hs ((hwl w hw).trans (hwl' w' hw').symm)
    exact ⟨(List.cons.inj htail).2, by rw [hw, hw', hww], hn.trans hn'.symm⟩
  · rw [hw, hn, hw', hn'] at hs
    obtain ⟨hww, htail⟩ := List.append_inj hs ((hwl w hw).trans (hwl' w' hw').symm)
    have hcut := cutFirst_append (b := i.key) (colon_not_digit n)
    rw [(List.cons.inj htail).2, cutFirst_append (colon_not_digit n')] at hcut
    obtain ⟨hdigits, hkey⟩ := Prod.mk.inj (Option.some.inj hcut)
    exact ⟨hkey.symm, by rw [hw, hw', hww], by rw [hn, hn', toDigits_injective hdigits]⟩

/-- **The join is injective.** -/
theorem rocksKey_injective (hu : UuidText uuidToString) {i i' : MutationId} {k : Str}
    (hv : i.Valid) (hv' : i'.Valid) (h : i.rocksKey uuidToString = .ok k)
    (h' : i'.rocksKey uuidToString = .ok k) : i = i' := by
  obtain ⟨hk, -, -⟩ := rocksKey_eq h
  obtain ⟨hk', -, -⟩ := rocksKey_eq h'
  have heq := hk.symm.trans hk'
  have hkind : i.kind = i'.kind := header_eq_of_isPrefix ⟨[], (List.append_nil _).trans heq⟩
  rw [hkind] at heq
  have hjoin := List.append_cancel_left heq
  have hrig := scopeText_rigid hu h h' hkind
  have hrig' := scopeText_rigid hu h' h hkind.symm
  have hsame : i.stateRef = i'.stateRef ∧ i.scopeText uuidToString = i'.scopeText uuidToString := by
    refine ((joined_prefix_iff hrig).mp ⟨[], (List.append_nil _).trans hjoin⟩).resolve_right ?_
    rintro ⟨x, hx, -⟩
    -- the longer ref would have to end later as well
    rw [hx, List.append_assoc, List.append_cancel_left_eq, List.cons_append] at hjoin
    exact hrig'.not_behind x ⟨[], (List.append_nil _).trans (List.cons.inj hjoin).2.symm⟩
  obtain ⟨hkey, hw, hn⟩ := scope_of_scopeText hu hv hv' h h' hkind hsame.2
  cases i
  cases i'
  obtain ⟨rfl, -⟩ := hsame
  cases hkey
  cases hw
  cases hn
  rfl

/-- A stored mutation belongs to a state whose ref spells out the ref of the request, a
colon and the scope and key of the request: all of it, or up to where its own begins. -/
def Spells (uuidToString : Str → Except Str Str) (request i : MutationId) : Prop :=
  i.kind = request.kind ∧ ∃ x, i.stateRef = request.stateRef ++ ':' :: x ∧
    request.scopeText uuidToString <+: x ++ ':' :: i.scopeText uuidToString

/-- The keys that begin with the key of a request: its own, and those that spell it. -/
theorem rocksKey_prefix_iff (hu : UuidText uuidToString) {request i : MutationId} {k k' : Str}
    (hv : request.Valid) (hv' : i.Valid) (h : request.rocksKey uuidToString = .ok k)
    (h' : i.rocksKey uuidToString = .ok k') :
    k <+: k' ↔ i = request ∨ Spells uuidToString request i := by
  obtain ⟨hk, -, -⟩ := rocksKey_eq h
  obtain ⟨hk', -, -⟩ := rocksKey_eq h'
  by_cases hkind : request.kind = i.kind
  · have hrig := scopeText_rigid hu h h' hkind
    rw [hk, hk', hkind, List.prefix_append_right_inj, joined_prefix_iff hrig]
    refine or_congr ⟨?_, ?_⟩ ⟨fun hx => ⟨hkind.symm, hx⟩, fun hx => hx.2⟩
    · rintro ⟨hr, hs⟩
      refine (rocksKey_injective hu hv hv' h ?_).symm
      rw [h', hk, hk', hkind, hr, hs]
    · rintro rfl
      exact ⟨rfl, rfl⟩
  · constructor
    · intro hp
      rw [hk, hk'] at hp
      exact absurd (header_eq_of_isPrefix hp) hkind
    · rintro (rfl | hs)
      · exact absurd rfl hkind
      · exact absurd hs.1.symm hkind

/-! ## What is stored and what is found -/

/-- An entry of the column family is the last mutation stored under its key. -/
theorem mem_storeMutations {k : Str} {m : Mutation} : ∀ {ms : List Mutation}
    {content content' : SortedAssoc Str Mutation},
    storeMutations uuidToString content ms = .ok content' →
    ((k, m) ∈ content'.entries ↔
      (∃ before after, ms = before ++ m :: after ∧ m.id.rocksKey uuidToString = .ok k ∧
        ∀ m' ∈ after, m'.id.rocksKey uuidToString ≠ .ok k) ∨
      (∀ m' ∈ ms, m'.id.rocksKey uuidToString ≠ .ok k) ∧ (k, m) ∈ content.entries)
  | [], content, content', h => by
    cases h
    simp
  | m₀ :: ms, content, content', h => by
    simp only [storeMutations] at h
    split at h
    · cases h
    next k₀ hk₀ =>
      rw [mem_storeMutations h]
      have hput : (k, m) ∈ (content.put k₀ m₀).entries ↔
          (k, m) = (k₀, m₀) ∨ (k, m) ∈ content.entries ∧ k ≠ k₀ :=
        mem_putAssoc_iff content.sorted
      rw [hput]
      constructor
      · rintro (⟨before, after, rfl, hk, hlast⟩ | ⟨hno, he | ⟨hmem, hne⟩⟩)
        · exact Or.inl ⟨m₀ :: before, after, rfl, hk, hlast⟩
        · cases he
          exact Or.inl ⟨[], ms, rfl, hk₀, hno⟩
        · refine Or.inr ⟨fun m' hm' => ?_, hmem⟩
          rcases List.mem_cons.mp hm' with rfl | hm'
          · rw [hk₀]
            exact fun e => hne (Except.ok.inj e).symm
          · exact hno m' hm'
      · rintro (⟨before, after, heq, hk, hlast⟩ | ⟨hno, hmem⟩)
        · cases before with
          | nil =>
            cases heq
            rw [hk₀] at hk
            cases hk
            exact Or.inr ⟨hlast, Or.inl rfl⟩
          | cons b before =>
            cases heq
            exact Or.inl ⟨before, after, rfl, hk, hlast⟩
        · refine Or.inr ⟨fun m' hm' => hno m' (List.mem_cons_of_mem _ hm'), Or.inr ⟨hmem, ?_⟩⟩
          rintro rfl
          exact hno m₀ (List.mem_cons_self ..) hk₀

/-- The last mutation stored for exactly this state, scope and key. -/
def lastStored (request : MutationId) (ms : List Mutation) : Option Mutation :=
  ms.reverse.find? fun m => decide (m.id = request)

omit uuidToString in
theorem lastStored_eq_some {request : MutationId} {ms : List Mutation} {m : Mutation} :
    lastStored request ms = some m ↔ m.id = request ∧
      ∃ before after, ms = before ++ m :: after ∧ ∀ m' ∈ after, m'.id ≠ request := by
  rw [lastStored, List.find?_eq_some_iff_append]
  simp only [decide_eq_true_eq, Bool.not_eq_true', decide_eq_false_iff_not]
  refine and_congr Iff.rfl ⟨?_, ?_⟩
  · rintro ⟨after, before, heq, hlast⟩
    refine ⟨before.reverse, after.reverse, ?_, fun m' hm' => hlast m' (List.mem_reverse.mp hm')⟩
    rw [← List.reverse_reverse ms, heq]
    simp
  · rintro ⟨before, after, rfl, hlast⟩
    exact ⟨after.reverse, before.reverse, by simp, fun m' hm' => hlast m' (List.mem_reverse.mp hm')⟩

variable {estimate : Mutation → Nat} {flushBytes : Nat}

omit uuidToString in
/-- However the stream is cut, what is sent and collected is what the scan meets. -/
theorem recoverLoop_eq {p : Str} : ∀ (l : List (Str × Mutation)) (sent response : List Mutation)
    (bytes : Nat),
    (recoverLoop estimate flushBytes p l sent response bytes).1 ++
      (recoverLoop estimate flushBytes p l sent response bytes).2 =
      sent ++ response ++ (l.takeWhile fun e => p.isPrefixOf e.1).map Prod.snd
  | [], sent, response, bytes => by simp [recoverLoop]
  | (k, m) :: l, sent, response, bytes => by
    unfold recoverLoop
    by_cases hp : p.isPrefixOf k = true
    · simp only [hp, if_true, List.takeWhile_cons]
      split
      · rw [recoverLoop_eq l]
        simp
      · rw [recoverLoop_eq l]
        simp
    · simp [hp]

/-- The mutations whose keys begin with `k`. -/
def hits (k : Str) (content : SortedAssoc Str Mutation) : List (Str × Mutation) :=
  content.entries.filter fun e => k.isPrefixOf e.1

omit uuidToString in
theorem recoverLoop_hits {k : Str} {content : SortedAssoc Str Mutation} :
    (recoverLoop estimate flushBytes k (seekAssoc k content.entries) [] [] 0).1 ++
      (recoverLoop estimate flushBytes k (seekAssoc k content.entries) [] [] 0).2 =
      (hits k content).map Prod.snd := by
  rw [recoverLoop_eq, takeWhile_seekAssoc content.sorted]
  rfl

omit uuidToString in
/-- The lookup is exact: it finds the mutation that was stored last for exactly the state,
scope and key asked for, if there is one, and nothing else. -/
def Exact (uuidToString : Str → Except Str Str) (estimate : Mutation → Nat) (flushBytes : Nat)
    (ms : List Mutation) (content : SortedAssoc Str Mutation) (request : MutationId) : Prop :=
  recoverIdempotentMutation uuidToString estimate flushBytes content request =
    .ok (lastStored request ms).toList

theorem mem_hits {k : Str} {ms : List Mutation} {content : SortedAssoc Str Mutation}
    (hstored : storeMutations uuidToString .empty ms = .ok content) {e : Str × Mutation} :
    e ∈ hits k content ↔ k <+: e.1 ∧ ∃ before after, ms = before ++ e.2 :: after ∧
      e.2.id.rocksKey uuidToString = .ok e.1 ∧
      ∀ m' ∈ after, m'.id.rocksKey uuidToString ≠ .ok e.1 := by
  obtain ⟨k', m⟩ := e
  rw [hits, List.mem_filter, mem_storeMutations hstored, List.isPrefixOf_iff_prefix, and_comm]
  simp [SortedAssoc.empty]

omit uuidToString in
theorem hits_nodup {k : Str} {content : SortedAssoc Str Mutation} : (hits k content).Nodup := by
  have hsorted : KeysSorted (hits k content) := List.Pairwise.filter _ content.sorted
  exact hsorted.imp fun hlt he => absurd hlt (by rw [he]; exact lt_irrefl _)

omit uuidToString in
/-- Of those with a property there is a last one. -/
theorem exists_last {α : Type} {P : α → Prop} : ∀ {l : List α}, (∃ a ∈ l, P a) →
    ∃ a before after, l = before ++ a :: after ∧ P a ∧ ∀ b ∈ after, ¬ P b
  | [], h => by
    obtain ⟨a, ha, -⟩ := h
    cases ha
  | a₀ :: l, h => by
    by_cases hlater : ∃ a ∈ l, P a
    · obtain ⟨a, before, after, rfl, ha, hlast⟩ := exists_last hlater
      exact ⟨a, a₀ :: before, after, rfl, ha, hlast⟩
    · obtain ⟨a, ha, hP⟩ := h
      rcases List.mem_cons.mp ha with rfl | ha
      · exact ⟨a, [], l, rfl, hP, fun b hb hPb => hlater ⟨b, hb, hPb⟩⟩
      · exact absurd ⟨a, ha, hP⟩ hlater

/-- What was stored had a key. -/
theorem rocksKey_of_stored {m : Mutation} : ∀ {ms : List Mutation}
    {content content' : SortedAssoc Str Mutation},
    storeMutations uuidToString content ms = .ok content' → m ∈ ms →
    ∃ k, m.id.rocksKey uuidToString = .ok k
  | [], _, _, _, hm => by cases hm
  | m₀ :: ms, content, content', h, hm => by
    simp only [storeMutations] at h
    split at h
    · cases h
    next k₀ hk₀ =>
      rcases List.mem_cons.mp hm with rfl | hm
      · exact ⟨k₀, hk₀⟩
      · exact rocksKey_of_stored h hm

/-- Under the key of the request itself is what was stored for it last. -/
theorem mem_hits_self (hu : UuidText uuidToString) {ms : List Mutation}
    {content : SortedAssoc Str Mutation} {request : MutationId} {k : Str} {m : Mutation}
    (hms : ∀ m ∈ ms, m.id.Valid) (hv : request.Valid)
    (hstored : storeMutations uuidToString .empty ms = .ok content)
    (hk : request.rocksKey uuidToString = .ok k) :
    (k, m) ∈ hits k content ↔ lastStored request ms = some m := by
  have hkey : ∀ m ∈ ms, m.id.rocksKey uuidToString = .ok k ↔ m.id = request := by
    intro m hm
    refine ⟨fun h => rocksKey_injective hu (hms m hm) hv h hk, fun h => ?_⟩
    rw [h]
    exact hk
  rw [mem_hits hstored, lastStored_eq_some]
  constructor
  · rintro ⟨-, before, after, rfl, hid, hlast⟩
    refine ⟨(hkey m (by simp)).mp hid, before, after, rfl, fun m' hm' hreq => ?_⟩
    exact hlast m' hm' ((hkey m' (by simp [hm'])).mpr hreq)
  · rintro ⟨hid, before, after, rfl, hlast⟩
    refine ⟨List.prefix_rfl, before, after, rfl, (hkey m (by simp)).mpr hid, fun m' hm' h => ?_⟩
    exact hlast m' hm' ((hkey m' (by simp [hm'])).mp h)

/-- **Exact lookup.** The lookup is exact if and only if no mutation was stored for a state
whose ref spells out the ref, scope and key of the request. -/
theorem recover_exact_iff (hu : UuidText uuidToString) {ms : List Mutation}
    {content : SortedAssoc Str Mutation} {request : MutationId} {k : Str}
    (hms : ∀ m ∈ ms, m.id.Valid) (hv : request.Valid)
    (hstored : storeMutations uuidToString .empty ms = .ok content)
    (hk : request.rocksKey uuidToString = .ok k) :
    Exact uuidToString estimate flushBytes ms content request ↔
      ∀ m ∈ ms, ¬ Spells uuidToString request m.id := by
  have hself := @mem_hits_self _ hu ms content request k
  have hfound := @recoverLoop_hits estimate flushBytes k content
  unfold Exact recoverIdempotentMutation
  rw [hk]
  simp only
  constructor
  · -- what spells the key is found as well
    intro hex m hm hsp
    split at hex
    · cases hex
    rw [hfound] at hex
    have hvalues := Except.ok.inj hex
    obtain ⟨k', hk'⟩ := rocksKey_of_stored hstored hm
    have hpre : k <+: k' := (rocksKey_prefix_iff hu hv (hms m hm) hk hk').mpr (Or.inr hsp)
    obtain ⟨m₁, before, after, hsplit, hk₁, hlast⟩ :=
      exists_last (P := fun m : Mutation => m.id.rocksKey uuidToString = .ok k') ⟨m, hm, hk'⟩
    have hhit : (k', m₁) ∈ hits k content :=
      (mem_hits hstored).mpr ⟨hpre, before, after, hsplit, hk₁, hlast⟩
    have hmem : m₁ ∈ (lastStored request ms).toList := by
      rw [← hvalues]
      exact List.mem_map.mpr ⟨(k', m₁), hhit, rfl⟩
    have hid : m₁.id = request := (lastStored_eq_some.mp (Option.mem_toList.mp hmem)).1
    rw [hid, hk] at hk₁
    obtain rfl : k = k' := Except.ok.inj hk₁
    have hreq : m.id = request := rocksKey_injective hu (hms m hm) hv hk' hk
    obtain ⟨-, x, hx, -⟩ := hsp
    rw [hreq] at hx
    have := congrArg List.length hx
    simp only [List.length_append, List.length_cons] at this
    omega
  · -- every key that begins with the key of the request is that key
    intro hno
    have hown : ∀ e ∈ hits k content, e.1 = k := by
      intro e he
      obtain ⟨hpre, before, after, hsplit, hke, -⟩ := (mem_hits hstored).mp he
      have hm : e.2 ∈ ms := by
        rw [hsplit]
        simp
      have hreq := ((rocksKey_prefix_iff hu hv (hms _ hm) hk hke).mp hpre).resolve_right (hno _ hm)
      rw [hreq, hk] at hke
      exact (Except.ok.inj hke).symm
    have hlastStored : ∀ e ∈ hits k content, lastStored request ms = some e.2 := by
      rintro ⟨k', m⟩ he
      obtain rfl : k' = k := hown _ he
      exact (hself hms hv hstored hk).mp he
    have honly : hits k content = (lastStored request ms).toList.map fun m => (k, m) := by
      cases hlast : lastStored request ms with
      | none =>
        refine List.eq_nil_iff_forall_not_mem.mpr fun e he => ?_
        have hsome := hlastStored e he
        rw [hlast] at hsome
        cases hsome
      | some m =>
        refine List.perm_singleton.mp ?_
        refine (List.perm_ext_iff_of_nodup hits_nodup (List.pairwise_singleton _ _)).mpr fun e => ?_
        rw [List.mem_singleton]
        constructor
        · intro he
          have hsome := hlastStored e he
          rw [hlast] at hsome
          exact Prod.ext (hown e he) (Option.some.inj hsome).symm
        · rintro rfl
          exact (hself hms hv hstored hk).mpr hlast
    rw [hfound, honly]
    have hcount : ¬ (recoverLoop estimate flushBytes k (seekAssoc k content.entries) [] [] 0).2.length
        > 1 := by
      have hlen := congrArg List.length (hfound.trans (congrArg (List.map Prod.snd) honly))
      simp only [List.length_append, List.length_map] at hlen
      have hle : (lastStored request ms).toList.length ≤ 1 := by
        cases lastStored request ms <;> simp
      omega
    rw [if_neg hcount]
    simp [Function.comp_def]

end

/-! ## The text of a UUID -/

/-- The two hexadecimal digits of a byte. -/
def hexByte (c : Char) : Str := [Nat.digitChar (c.toNat / 16), Nat.digitChar (c.toNat % 16)]

/-- The digits of some bytes. -/
def hexBytes : Str → Str
  | [] => []
  | c :: s => hexByte c ++ hexBytes s

/-- The usual text of a UUID: groups of 4, 2, 2, 2 and 6 bytes with dashes between them. -/
def uuidText (k : Str) : Except Str Str :=
  if k.length = 16 then
    .ok (hexBytes (k.take 4) ++ '-' :: (hexBytes ((k.drop 4).take 2) ++ '-' ::
      (hexBytes ((k.drop 6).take 2) ++ '-' :: (hexBytes ((k.drop 8).take 2) ++ '-' ::
        hexBytes (k.drop 10)))))
  else .error "Invalid number of bytes".toList

theorem hexBytes_length : ∀ s : Str, (hexBytes s).length = 2 * s.length
  | [] => rfl
  | c :: s => by
    simp only [hexBytes, hexByte, List.length_append, List.length_cons, hexBytes_length s,
      List.length_nil]
    omega

theorem digitChar_injective : ∀ a b : Fin 16, Nat.digitChar a = Nat.digitChar b → a = b := by
  decide

theorem digitChar_ne_colon (n : Nat) : ':' ≠ Nat.digitChar n := by
  by_cases hn : n < 16
  · have : ∀ a : Fin 16, ':' ≠ Nat.digitChar a := by decide
    exact this ⟨n, hn⟩
  · -- what is no digit is written as a star
    unfold Nat.digitChar
    repeat rw [if_neg (by omega)]
    decide

theorem hexBytes_injective : ∀ {s s' : Str}, IsBytes s → IsBytes s' → hexBytes s = hexBytes s' →
    s = s'
  | [], [], _, _, _ => rfl
  | [], c :: s', _, _, h => by simp [hexBytes, hexByte] at h
  | c :: s, [], _, _, h => by simp [hexBytes, hexByte] at h
  | c :: s, c' :: s', hs, hs', h => by
    simp only [hexBytes, hexByte, List.cons_append, List.nil_append, List.cons.injEq] at h
    obtain ⟨hhi, hlo, hrest⟩ := h
    have hc : c.toNat < 256 := hs c (List.mem_cons_self ..)
    have hc' : c'.toNat < 256 := hs' c' (List.mem_cons_self ..)
    have h1 := digitChar_injective ⟨c.toNat / 16, by omega⟩ ⟨c'.toNat / 16, by omega⟩ hhi
    have h2 := digitChar_injective ⟨c.toNat % 16, by omega⟩ ⟨c'.toNat % 16, by omega⟩ hlo
    have h1' : c.toNat / 16 = c'.toNat / 16 := congrArg Fin.val h1
    have h2' : c.toNat % 16 = c'.toNat % 16 := congrArg Fin.val h2
    have hcc : c = c' := Char.toNat_inj.mp (by omega)
    rw [hcc, hexBytes_injective (fun x hx => hs x (List.mem_cons_of_mem _ hx))
      (fun x hx => hs' x (List.mem_cons_of_mem _ hx)) hrest]

theorem colon_not_hex : ∀ {s : Str}, ':' ∉ hexBytes s
  | [] => by simp [hexBytes]
  | c :: s => by
    simp only [hexBytes, hexByte, List.cons_append, List.nil_append, List.mem_cons, not_or]
    exact ⟨digitChar_ne_colon _, digitChar_ne_colon _, colon_not_hex⟩

/-- The groups of the bytes of a UUID. -/
theorem uuid_groups (k : Str) : k = k.take 4 ++ ((k.drop 4).take 2 ++ ((k.drop 6).take 2 ++
    ((k.drop 8).take 2 ++ k.drop 10))) := by
  have hgroup : ∀ n, (k.drop n).take 2 ++ k.drop (n + 2) = k.drop n := by
    intro n
    rw [← List.drop_drop, List.take_append_drop]
  rw [hgroup 8, hgroup 6, hgroup 4, List.take_append_drop]

theorem uuidText_spec : UuidText uuidText := by
  constructor
  · intro k hk
    refine ⟨_, if_pos hk, ?_, ?_⟩
    · simp only [List.length_append, List.length_cons, hexBytes_length, List.length_take,
        List.length_drop, hk]
      decide
    · simp only [List.mem_append, List.mem_cons, not_or]
      exact ⟨colon_not_hex, by decide, colon_not_hex, by decide, colon_not_hex, by decide,
        colon_not_hex, by decide, colon_not_hex⟩
  · intro k k' hk hk' hb hb' h
    rw [uuidText, uuidText, if_pos hk, if_pos hk'] at h
    have hsub : ∀ {s t : Str}, IsBytes s → t ⊆ s → IsBytes t := fun hs ht c hc => hs c (ht hc)
    have hpart : ∀ {a a' b b' : Str}, a.length = a'.length → hexBytes a ++ '-' :: b =
        hexBytes a' ++ '-' :: b' → hexBytes a = hexBytes a' ∧ b = b' := by
      intro a a' b b' hlen he
      obtain ⟨h1, h2⟩ := List.append_inj he (by rw [hexBytes_length, hexBytes_length, hlen])
      exact ⟨h1, (List.cons.inj h2).2⟩
    obtain ⟨h1, h⟩ := hpart (by simp [hk, hk']) (Except.ok.inj h)
    obtain ⟨h2, h⟩ := hpart (by simp [hk, hk']) h
    obtain ⟨h3, h⟩ := hpart (by simp [hk, hk']) h
    obtain ⟨h4, h5⟩ := hpart (by simp [hk, hk']) h
    have htake : ∀ {s : Str} {n}, IsBytes s → IsBytes (s.take n) :=
      fun hs => hsub hs (List.take_subset _ _)
    have hdrop : ∀ {s : Str} {n}, IsBytes s → IsBytes (s.drop n) :=
      fun hs => hsub hs (List.drop_subset _ _)
    rw [uuid_groups k, uuid_groups k', hexBytes_injective (htake hb) (htake hb') h1,
      hexBytes_injective (htake (hdrop hb)) (htake (hdrop hb')) h2,
      hexBytes_injective (htake (hdrop hb)) (htake (hdrop hb')) h3,
      hexBytes_injective (htake (hdrop hb)) (htake (hdrop hb')) h4,
      hexBytes_injective (hdrop hb) (hdrop hb') h5]

/-! ## Runs on two states -/

/-- The bytes of the UUID `6ba7b810-9dad-41d1-80b4-00c04fd430c8`. -/
def someUuid : Str :=
  [0x6b, 0xa7, 0xb8, 0x10, 0x9d, 0xad, 0x41, 0xd1, 0x80, 0xb4, 0x00, 0xc0, 0x4f, 0xd4, 0x30,
    0xc8].map Char.ofNat

/-- The bytes of the UUID `6ba7b811-9dad-41d1-80b4-00c04fd430c8`. -/
def otherUuid : Str :=
  [0x6b, 0xa7, 0xb8, 0x11, 0x9d, 0xad, 0x41, 0xd1, 0x80, 0xb4, 0x00, 0xc0, 0x4f, 0xd4, 0x30,
    0xc8].map Char.ofNat

/-- A mutation of the state with id `user`. -/
def mutationOfUser : Mutation :=
  ⟨⟨"AEyp_5wmAiADZg:user".toList, someUuid, none, none⟩, "of user".toList⟩

/-- A mutation of the state with id `user:6ba7b810-9dad-41d1-80b4-00c04fd430c8`. -/
def mutationOfItem : Mutation :=
  ⟨⟨"AEyp_5wmAiADZg:user:6ba7b810-9dad-41d1-80b4-00c04fd430c8".toList, otherUuid, none, none⟩,
    "of the other".toList⟩

/-- What a column family holds after some stores. -/
def stored (ms : List Mutation) : SortedAssoc Str Mutation :=
  match storeMutations uuidText .empty ms with
  | .ok content => content
  | .error _ => .empty

/-- The estimate of a small response, and a limit it stays below. -/
def smallEstimate (m : Mutation) : Nat := m.response.length

theorem mutation_valid {m : Mutation} (h : m = mutationOfUser ∨ m = mutationOfItem) :
    m.id.Valid := by
  have hbytes : ∀ s : Str, s.all (fun c => decide (c.toNat < 256)) = true → IsBytes s := by
    intro s hs c hc
    simpa using List.all_eq_true.mp hs c hc
  rcases h with rfl | rfl
  · exact ⟨hbytes _ (by decide), by decide⟩
  · exact ⟨hbytes _ (by decide), by decide⟩

theorem storeMutations_stored {ms : List Mutation}
    (h : (storeMutations uuidText .empty ms).isOk = true) :
    storeMutations uuidText .empty ms = .ok (stored ms) := by
  unfold stored
  cases hs : storeMutations uuidText .empty ms with
  | ok content => rfl
  | error e =>
    rw [hs] at h
    cases h

/-- The longer ref does not get in the way of a lookup for itself. -/
theorem item_exact : Exact uuidText smallEstimate 1000 [mutationOfUser, mutationOfItem]
    (stored [mutationOfUser, mutationOfItem]) mutationOfItem.id := by
  obtain ⟨k, hk⟩ := @rocksKey_of_stored _ mutationOfItem [mutationOfItem] _ _
    (storeMutations_stored (by decide +kernel)) (by simp)
  refine (recover_exact_iff uuidText_spec ?_ (mutation_valid (Or.inr rfl))
    (storeMutations_stored (by decide +kernel)) hk).mpr ?_
  · intro m hm
    exact mutation_valid (by simpa using hm)
  · -- no ref is longer than that of the request
    rintro m hm ⟨-, x, hx, -⟩
    have hlong : m.id.stateRef.length ≤ mutationOfItem.id.stateRef.length := by
      rcases List.mem_cons.mp hm with rfl | hm
      · decide
      · rw [List.mem_singleton.mp hm]
    have hlen := congrArg List.length hx
    rw [List.length_append, List.length_cons] at hlen
    omega

/-- Two valid refs of one state type. With a mutation of the longer one stored, a lookup for
the shorter one returns it although nothing was stored for that state; with one stored
for each, the check that there is at most one fails. -/
theorem lookup_finds_other :
    Routing.isStateRef mutationOfUser.id.stateRef = .ok true ∧
    Routing.isStateRef mutationOfItem.id.stateRef = .ok true ∧
    (storeMutations uuidText .empty [mutationOfItem] = .ok (stored [mutationOfItem]) ∧
      lastStored mutationOfUser.id [mutationOfItem] = none ∧
      recoverIdempotentMutation uuidText smallEstimate 1000 (stored [mutationOfItem])
        mutationOfUser.id = .ok [mutationOfItem]) ∧
    (storeMutations uuidText .empty [mutationOfUser, mutationOfItem] =
        .ok (stored [mutationOfUser, mutationOfItem]) ∧
      recoverIdempotentMutation uuidText smallEstimate 1000
        (stored [mutationOfUser, mutationOfItem]) mutationOfUser.id = .error .checkFailed) := by
  refine ⟨by decide +kernel, by decide +kernel,
    ⟨storeMutations_stored (by decide +kernel), by decide, by decide +kernel⟩,
    storeMutations_stored (by decide +kernel), by decide +kernel⟩

end Reboot.Persist
