import Mathlib.Algebra.Group.Nat.Defs
import Reboot.Lib.Scan
import Reboot.Persist.MutationKeys

/-!
# Recovering the idempotent mutations of a state in bulk

A request of `RecoverIdempotentMutations` (`reboot/server/database.cc`) without an
idempotency key asks for the mutations of a state, of a workflow of it, or of one iteration
of a workflow, as `Preload` asks for those of a state. Each is a scan of the column family
for what begins with the joined text of the request, and another one, which starts at the
current time, for the mutations whose key expires.

The joined text ends where the ref or the iteration ends, without a colon behind it, so that
a longer ref and a longer number begin with it as well.

> `recovery_scoped_iff`: what is recovered is what is stored in the scope asked for, unless
> some mutation of another state, workflow or iteration `Strays` into the scan.

The time bound is right: `timestamp_le_iff` says that the bytes of the time are compared like
the times.

Mirroring notes:
- As in `Reboot.Persist.MutationKeys` a column family holds the mutations alone, and the
  stream is cut by parameters; `Stream` is a `responses` stream together with the `response`
  that is still collected and its estimated size.
- `std::chrono::system_clock::now()` counts nanoseconds in 63 bits and a sign; times before
  1970 are left out.
- A client that disconnects ends the stream early and sees no answer; this is left out.
-/

namespace Reboot.Persist

open Reboot.Lib

/-! ## What the code does -/

/-- `system_clock::now()`, in nanoseconds. -/
abbrev Nanoseconds := Fin (2 ^ 63)

/-- `duration_cast<milliseconds>`. -/
def Nanoseconds.toMs (now : Nanoseconds) : Nat := now.val / 10 ^ 6

/-- `CurrentTimestampForKeyPrefix`. -/
def timestampForKeyPrefix (now : Nanoseconds) : Str :=
  let nowMs := now.toMs
  [nowMs / 2 ^ 40 % 256, nowMs / 2 ^ 32 % 256, nowMs / 2 ^ 24 % 256, nowMs / 2 ^ 16 % 256,
    nowMs / 2 ^ 8 % 256, nowMs % 256].map Char.ofNat

/-- A `RecoverIdempotentMutationsRequest` without an idempotency key. -/
structure BulkRequest where
  stateRef : Str
  workflowId : Option Str
  workflowIteration : Option Nat
  deriving DecidableEq

/-- What was written to the stream, what is collected, and its estimated size. -/
structure Stream where
  sent : List Mutation
  response : List Mutation
  estimatedBatchBytes : Nat

/-- All that the stream has got. -/
def Stream.all (s : Stream) : List Mutation := s.sent ++ s.response

section

variable (estimate : Mutation → Nat) (flushBytes : Nat)

/-- `MaybeWriteAndClearResponse`, with a mutation just added. -/
def Stream.add (s : Stream) (m : Mutation) : Stream :=
  if s.estimatedBatchBytes + estimate m ≥ flushBytes then ⟨s.sent ++ (s.response ++ [m]), [], 0⟩
  else ⟨s.sent, s.response ++ [m], s.estimatedBatchBytes + estimate m⟩

/-- The loop of `RecoverIdempotentMutationsForKeyPrefix`. -/
def streamLoop (endPrefix : Str) : List (Str × Mutation) → Stream → Stream
  | [], s => s
  | (k, m) :: rest, s =>
    if endPrefix.isPrefixOf k then streamLoop endPrefix rest (s.add estimate flushBytes m) else s

/-- `RecoverIdempotentMutationsForKeyPrefix`. -/
def recoverForKeyPrefix (content : SortedAssoc Str Mutation) (startPrefix : Str)
    (endPrefix : Option Str) (s : Stream) : Stream :=
  streamLoop estimate flushBytes (endPrefix.getD startPrefix) (seekAssoc startPrefix content.entries)
    s

/-- `RecoverNonWorkflowIdempotentMutations`. -/
def recoverNonWorkflowIdempotentMutations (content : SortedAssoc Str Mutation) (now : Nanoseconds)
    (stateRef : Str) (s : Stream) : Stream :=
  let s := recoverForKeyPrefix estimate flushBytes content
    (KeyKind.plain.header ++ stateRef) none s
  recoverForKeyPrefix estimate flushBytes content
    (KeyKind.expiring.header ++ (stateRef ++ ':' :: timestampForKeyPrefix now))
    (some (KeyKind.expiring.header ++ stateRef)) s

/-- `RecoverIdempotentMutations` for a request without an idempotency key. -/
def recoverBulk (content : SortedAssoc Str Mutation) (now : Nanoseconds) (request : BulkRequest) :
    Except Failure (List Mutation) :=
  match request.workflowId, request.workflowIteration with
  | some workflowId, some workflowIteration =>
    if workflowId.length ≠ 16 then .error .checkFailed
    else
      .ok (recoverForKeyPrefix estimate flushBytes content
        (KeyKind.workflowIteration.header ++ (request.stateRef ++ ':' :: (workflowId ++ ':' ::
          Nat.toDigits 10 workflowIteration))) none ⟨[], [], 0⟩).all
  | some workflowId, none =>
    if workflowId.length ≠ 16 then .error .checkFailed
    else
      let s := recoverForKeyPrefix estimate flushBytes content
        (KeyKind.workflow.header ++ (request.stateRef ++ ':' :: workflowId)) none ⟨[], [], 0⟩
      .ok (recoverForKeyPrefix estimate flushBytes content
        (KeyKind.workflowExpiring.header ++ ((request.stateRef ++ ':' :: workflowId) ++ ':' ::
          timestampForKeyPrefix now))
        (some (KeyKind.workflowExpiring.header ++ (request.stateRef ++ ':' :: workflowId))) s).all
  | none, _ =>
    .ok (recoverNonWorkflowIdempotentMutations estimate flushBytes content now request.stateRef
      ⟨[], [], 0⟩).all

/-- The mutations that `Preload` streams, unless it is to skip them. -/
def preloadMutations (content : SortedAssoc Str Mutation) (now : Nanoseconds) (stateRef : Str)
    (skipIdempotentMutations : Bool) : List Mutation :=
  if skipIdempotentMutations then []
  else
    (recoverNonWorkflowIdempotentMutations estimate flushBytes content now stateRef ⟨[], [], 0⟩).all

end

/-! ## What is asked for -/

/-- The number that bytes are the digits of, to the base 256. -/
def bytesValue : Str → Nat
  | [] => 0
  | c :: s => c.toNat * 256 ^ s.length + bytesValue s

/-- When a UUIDv7 expires, in milliseconds: its first 48 bits. -/
def expirationMs (key : Str) : Nat := bytesValue (key.take 6)

/-- The iteration asked for; without a workflow there is none. -/
def BulkRequest.iteration (request : BulkRequest) : Option Nat :=
  request.workflowId.bind fun _ => request.workflowIteration

/-- A mutation of the state, the workflow and the iteration asked for. -/
def BulkRequest.Asks (request : BulkRequest) (i : MutationId) : Prop :=
  i.stateRef = request.stateRef ∧ i.workflowId = request.workflowId ∧
    i.workflowIteration = request.iteration

/-- A mutation asked for that has not expired. -/
def BulkRequest.InScope (request : BulkRequest) (now : Nanoseconds) (i : MutationId) : Prop :=
  request.Asks i ∧ (uuidVersion i.key = 7 → now.toMs ≤ expirationMs i.key)

instance (request : BulkRequest) (i : MutationId) : Decidable (request.Asks i) :=
  inferInstanceAs (Decidable (_ ∧ _ ∧ _))

instance (request : BulkRequest) (now : Nanoseconds) (i : MutationId) :
    Decidable (request.InScope now i) :=
  inferInstanceAs (Decidable (_ ∧ _))

/-- The mutations stored in the scope of a request. -/
def scope (content : SortedAssoc Str Mutation) (now : Nanoseconds) (request : BulkRequest) :
    List Mutation :=
  (content.entries.filter fun e => decide (request.InScope now e.2.id)).map Prod.snd

/-- The kinds of keys a request is about. -/
def BulkRequest.kinds (request : BulkRequest) : List KeyKind :=
  match request.workflowId, request.workflowIteration with
  | some _, some _ => [.workflowIteration]
  | some _, none => [.workflow, .workflowExpiring]
  | none, _ => [.plain, .expiring]

def KeyKind.expires : KeyKind → Bool
  | .expiring => true
  | .workflowExpiring => true
  | _ => false

/-- The ref and the scope of a request, joined. -/
def BulkRequest.text (request : BulkRequest) : Str :=
  match request.workflowId, request.workflowIteration with
  | some workflowId, some workflowIteration =>
    request.stateRef ++ ':' :: (workflowId ++ ':' :: Nat.toDigits 10 workflowIteration)
  | some workflowId, none => request.stateRef ++ ':' :: workflowId
  | none, _ => request.stateRef

/-- A key without its header. -/
def MutationId.joined (uuidToString : Str → Except Str Str) (i : MutationId) : Str :=
  i.stateRef ++ ':' :: i.scopeText uuidToString

/-- A mutation whose key begins with the joined text of the request, and with a later time
behind it if it expires. -/
def BulkRequest.Meets (uuidToString : Str → Except Str Str) (request : BulkRequest)
    (now : Nanoseconds) (i : MutationId) : Prop :=
  i.kind ∈ request.kinds ∧ request.text <+: i.joined uuidToString ∧
    (i.kind.expires = true →
      request.text ++ ':' :: timestampForKeyPrefix now ≤ i.joined uuidToString)

/-- A mutation of another state, workflow or iteration that the scan meets. -/
def BulkRequest.Strays (uuidToString : Str → Except Str Str) (request : BulkRequest)
    (now : Nanoseconds) (i : MutationId) : Prop :=
  ¬request.Asks i ∧ request.Meets uuidToString now i

/-- Every mutation is under its key. -/
def Keyed (uuidToString : Str → Except Str Str) (content : SortedAssoc Str Mutation) : Prop :=
  ∀ e ∈ content.entries, e.2.id.Valid ∧ e.2.id.rocksKey uuidToString = .ok e.1

/-- The recovery is exact: the mutations that are stored in the scope, each once. -/
def BulkExact (estimate : Mutation → Nat) (flushBytes : Nat) (content : SortedAssoc Str Mutation)
    (now : Nanoseconds) (request : BulkRequest) : Prop :=
  ∃ recovered, recoverBulk estimate flushBytes content now request = .ok recovered ∧
    recovered.Perm (scope content now request)

/-! ## Times as bytes -/

/-- Of strings of one length the one with the smaller number comes first. -/
theorem le_iff_bytesValue : ∀ {s t : Str}, s.length = t.length → IsBytes s → IsBytes t →
    (s ≤ t ↔ bytesValue s ≤ bytesValue t)
  | [], [], _, _, _ => by simp
  | [], _ :: _, h, _, _ => by simp at h
  | _ :: _, [], h, _, _ => by simp at h
  | c :: s, d :: t, h, hs, ht => by
    have hlen : s.length = t.length := by simpa using h
    have hs' : IsBytes s := fun x hx => hs x (List.mem_cons_of_mem _ hx)
    have ht' : IsBytes t := fun x hx => ht x (List.mem_cons_of_mem _ hx)
    have ih := le_iff_bytesValue hlen hs' ht'
    have hbound : ∀ {u : Str}, IsBytes u → bytesValue u < 256 ^ u.length := by
      intro u hu
      induction u with
      | nil => simp [bytesValue]
      | cons x u ih =>
        have hx : x.toNat < 256 := hu x List.mem_cons_self
        have hu' := ih fun y hy => hu y (List.mem_cons_of_mem _ hy)
        have hmul : (x.toNat + 1) * 256 ^ u.length ≤ 256 * 256 ^ u.length :=
          Nat.mul_le_mul_right _ hx
        rw [Nat.add_mul, Nat.one_mul] at hmul
        rw [List.length_cons, Nat.pow_succ, Nat.mul_comm (256 ^ u.length)]
        show x.toNat * 256 ^ u.length + bytesValue u < _
        omega
    have hsb := hbound hs'
    have htb := hbound ht'
    rw [← not_lt, List.cons_lt_cons_iff]
    show _ ↔ c.toNat * 256 ^ s.length + bytesValue s ≤ d.toNat * 256 ^ t.length + bytesValue t
    rw [← hlen] at htb ⊢
    rcases lt_trichotomy c d with hcd | rfl | hdc
    · -- the first byte decides
      have hlt : c.toNat + 1 ≤ d.toNat := Char.lt_def.mp hcd
      have hmul : (c.toNat + 1) * 256 ^ s.length ≤ d.toNat * 256 ^ s.length :=
        Nat.mul_le_mul_right _ hlt
      rw [Nat.add_mul, Nat.one_mul] at hmul
      refine iff_of_true ?_ (by omega)
      rintro (hdc | ⟨rfl, -⟩)
      · exact lt_asymm hcd hdc
      · exact lt_irrefl _ hcd
    · rw [Nat.add_le_add_iff_left, ← ih, ← not_lt]
      simp
    · have hlt : d.toNat + 1 ≤ c.toNat := Char.lt_def.mp hdc
      have hmul : (d.toNat + 1) * 256 ^ s.length ≤ c.toNat * 256 ^ s.length :=
        Nat.mul_le_mul_right _ hlt
      rw [Nat.add_mul, Nat.one_mul] at hmul
      refine iff_of_false (fun h => h (.inl hdc)) (by omega)

/-- A string is compared with a longer one by as many of its characters. -/
theorem le_iff_le_take : ∀ {s t : Str}, s.length ≤ t.length → (s ≤ t ↔ s ≤ t.take s.length)
  | [], t, _ => iff_of_true (not_lt.mp (List.not_lt_nil _)) (not_lt.mp (List.not_lt_nil _))
  | _ :: _, [], h => by simp at h
  | c :: s, d :: t, h => by
    have hlen : s.length ≤ t.length := by simpa using h
    have ih := not_congr (le_iff_le_take hlen)
    rw [not_le, not_le] at ih
    rw [List.length_cons, List.take_succ_cons, ← not_lt, ← not_lt, List.cons_lt_cons_iff,
      List.cons_lt_cons_iff, ih]

theorem toNat_ofNat_mod (n : Nat) : (Char.ofNat (n % 256)).toNat = n % 256 := by
  have hvalid : (n % 256).isValidChar := Or.inl (by omega)
  unfold Char.ofNat
  rw [dif_pos hvalid]
  rfl

theorem timestamp_isBytes (now : Nanoseconds) : IsBytes (timestampForKeyPrefix now) := by
  intro c hc
  simp only [timestampForKeyPrefix, List.map_cons, List.map_nil, List.mem_cons, List.not_mem_nil,
    or_false] at hc
  obtain rfl | rfl | rfl | rfl | rfl | rfl := hc <;> rw [toNat_ofNat_mod] <;> omega

theorem timestamp_value (now : Nanoseconds) :
    bytesValue (timestampForKeyPrefix now) = now.toMs := by
  have hnow : now.toMs < 2 ^ 48 := by
    have := now.isLt
    unfold Nanoseconds.toMs
    omega
  simp only [timestampForKeyPrefix, List.map_cons, List.map_nil, bytesValue, toNat_ofNat_mod,
    List.length_cons, List.length_nil]
  omega

/-- The bytes of the time are before a key that expires exactly if it has not yet. -/
theorem timestamp_le_iff {now : Nanoseconds} {key : Str} (hlen : key.length = 16)
    (hkey : IsBytes key) : timestampForKeyPrefix now ≤ key ↔ now.toMs ≤ expirationMs key := by
  have h6 : (timestampForKeyPrefix now).length = 6 := rfl
  rw [le_iff_le_take (by rw [h6, hlen]; decide), h6, le_iff_bytesValue
    (by rw [h6, List.length_take, hlen]; decide) (timestamp_isBytes now)
    (fun c hc => hkey c (List.take_subset 6 key hc)), timestamp_value]
  rfl

/-! ## What a scan yields -/

section

variable {estimate : Mutation → Nat} {flushBytes : Nat} {content : SortedAssoc Str Mutation}

theorem Stream.add_all (s : Stream) (m : Mutation) :
    (s.add estimate flushBytes m).all = s.all ++ [m] := by
  unfold Stream.add Stream.all
  split
  next => simp
  next => simp

/-- However the stream is cut, it gets what the scan meets. -/
theorem streamLoop_all {endPrefix : Str} : ∀ (l : List (Str × Mutation)) (s : Stream),
    (streamLoop estimate flushBytes endPrefix l s).all =
      s.all ++ (l.takeWhile fun e => endPrefix.isPrefixOf e.1).map Prod.snd
  | [], s => by simp [streamLoop]
  | (k, m) :: l, s => by
    unfold streamLoop
    split
    next hp =>
      rw [streamLoop_all l, Stream.add_all, List.takeWhile_cons, if_pos hp]
      simp
    next hp =>
      rw [List.takeWhile_cons, if_neg hp]
      simp

/-- The entries a scan from `start` on under `text` meets. -/
def metFrom (content : SortedAssoc Str Mutation) (start text : Str) : List (Str × Mutation) :=
  content.entries.filter fun e => decide (start ≤ e.1) && text.isPrefixOf e.1

theorem recoverForKeyPrefix_all {start text : Str} (hp : text <+: start) (s : Stream) :
    (recoverForKeyPrefix estimate flushBytes content start (some text) s).all =
      s.all ++ (metFrom content start text).map Prod.snd := by
  unfold recoverForKeyPrefix
  rw [streamLoop_all, Option.getD_some, takeWhile_seekAssoc_from hp content.sorted]
  rfl

theorem recoverForKeyPrefix_none {start : Str} (s : Stream) :
    recoverForKeyPrefix estimate flushBytes content start none s =
      recoverForKeyPrefix estimate flushBytes content start (some start) s := rfl

/-- Where the scan for a kind of key starts. -/
def BulkRequest.start (request : BulkRequest) (now : Nanoseconds) (kind : KeyKind) : Str :=
  kind.header ++
    if kind.expires then request.text ++ ':' :: timestampForKeyPrefix now else request.text

/-- What the scan for a kind of key meets. -/
def BulkRequest.met (request : BulkRequest) (content : SortedAssoc Str Mutation)
    (now : Nanoseconds) (kind : KeyKind) : List (Str × Mutation) :=
  metFrom content (request.start now kind) (kind.header ++ request.text)

theorem prefix_append_colon (header text x : Str) :
    header ++ text <+: header ++ (text ++ ':' :: x) :=
  (List.prefix_append_right_inj header).mpr (List.prefix_append text _)

/-- A workflow id that is no raw UUID stops the process; otherwise the scans for the kinds of
keys follow each other. -/
theorem recoverBulk_eq (content : SortedAssoc Str Mutation) (now : Nanoseconds)
    (request : BulkRequest) :
    recoverBulk estimate flushBytes content now request =
      if ∀ workflowId ∈ request.workflowId, workflowId.length = 16 then
        .ok (request.kinds.flatMap fun kind => (request.met content now kind).map Prod.snd)
      else .error .checkFailed := by
  obtain ⟨stateRef, workflowId, workflowIteration⟩ := request
  have hempty : (⟨[], [], 0⟩ : Stream).all = [] := rfl
  cases workflowId with
  | none =>
    rw [if_pos (by simp)]
    dsimp only [recoverBulk, recoverNonWorkflowIdempotentMutations]
    rw [recoverForKeyPrefix_all (prefix_append_colon _ _ _), recoverForKeyPrefix_none, recoverForKeyPrefix_all List.prefix_rfl, hempty]
    simp [BulkRequest.kinds, BulkRequest.met, BulkRequest.start, BulkRequest.text,
      KeyKind.expires]
  | some workflowId =>
    by_cases hlen : workflowId.length = 16
    · rw [if_pos (by simpa using hlen)]
      cases workflowIteration with
      | some workflowIteration =>
        dsimp only [recoverBulk]
        rw [if_neg (by simpa using hlen), recoverForKeyPrefix_none,
          recoverForKeyPrefix_all List.prefix_rfl, hempty]
        simp [BulkRequest.kinds, BulkRequest.met, BulkRequest.start, BulkRequest.text,
          KeyKind.expires]
      | none =>
        dsimp only [recoverBulk]
        rw [if_neg (by simpa using hlen), recoverForKeyPrefix_all (prefix_append_colon _ _ _),
          recoverForKeyPrefix_none, recoverForKeyPrefix_all List.prefix_rfl, hempty]
        simp [BulkRequest.kinds, BulkRequest.met, BulkRequest.start, BulkRequest.text,
          KeyKind.expires]
    · rw [if_neg (by simpa using hlen)]
      cases workflowIteration with
      | some workflowIteration => exact if_pos hlen
      | none => exact if_pos hlen

end

/-! ## What the scans of a request yield -/

section

variable {uuidToString : Str → Except Str Str} {content : SortedAssoc Str Mutation}
  {now : Nanoseconds} {request : BulkRequest} {e : Str × Mutation}

theorem Keyed.key_eq (hkeyed : Keyed uuidToString content) (he : e ∈ content.entries) :
    e.1 = e.2.id.kind.header ++ e.2.id.joined uuidToString :=
  (rocksKey_eq (hkeyed e he).2).1

/-- Text behind a header at the beginning of a key. -/
theorem header_prefix_iff {kind kind' : KeyKind} {text joined : Str} :
    kind.header ++ text <+: kind'.header ++ joined ↔ kind' = kind ∧ text <+: joined := by
  constructor
  · intro h
    obtain rfl := header_eq_of_isPrefix h
    exact ⟨rfl, (List.prefix_append_right_inj _).mp h⟩
  · rintro ⟨rfl, h⟩
    exact (List.prefix_append_right_inj _).mpr h

/-- The scan for a kind of key meets the mutations of this kind that the request meets. -/
theorem mem_met_iff (hkeyed : Keyed uuidToString content) {kind : KeyKind}
    (hkind : kind ∈ request.kinds) :
    e ∈ request.met content now kind ↔ e ∈ content.entries ∧ e.2.id.kind = kind ∧
      request.Meets uuidToString now e.2.id := by
  unfold BulkRequest.met metFrom
  rw [List.mem_filter]
  refine and_congr_right fun he => ?_
  rw [Bool.and_eq_true, decide_eq_true_eq, List.isPrefixOf_iff_prefix, hkeyed.key_eq he,
    header_prefix_iff]
  constructor
  · rintro ⟨hstart, rfl, htext⟩
    refine ⟨rfl, hkind, htext, fun hexpires => ?_⟩
    unfold BulkRequest.start at hstart
    rwa [if_pos hexpires, append_le_append_iff] at hstart
  · rintro ⟨rfl, -, htext, hexpires⟩
    refine ⟨?_, rfl, htext⟩
    unfold BulkRequest.start
    rw [append_le_append_iff]
    split
    next hexp => exact hexpires hexp
    next =>
      obtain ⟨x, hx⟩ := htext
      rw [← hx]
      exact le_append_self _ _

/-- Behind the joined text of a request the key of a mutation it asks for goes on with a
colon, and then with the idempotency key if that expires. -/
theorem joined_of_asks (uuidToString : Str → Except Str Str) {i : MutationId} (hasks : request.Asks i) :
    i.kind ∈ request.kinds ∧ ∃ tail, i.joined uuidToString = request.text ++ ':' :: tail ∧
      (i.kind.expires = true → tail = i.key) := by
  obtain ⟨stateRef, key, workflowId, workflowIteration⟩ := i
  obtain ⟨requestRef, requestId, requestIteration⟩ := request
  obtain ⟨href, hid, hiteration⟩ := hasks
  dsimp only at href hid hiteration
  subst href
  subst hid
  cases workflowId with
  | none =>
    have hnone : workflowIteration = none := hiteration
    subst hnone
    by_cases h7 : uuidVersion key = 7
    · simp [MutationId.kind, h7, BulkRequest.kinds, MutationId.joined, MutationId.scopeText,
        BulkRequest.text]
    · simp [MutationId.kind, h7, KeyKind.expires, BulkRequest.kinds, MutationId.joined,
        BulkRequest.text]
  | some workflowId =>
    have hsame : workflowIteration = requestIteration := hiteration
    subst hsame
    cases workflowIteration with
    | none =>
      by_cases h7 : uuidVersion key = 7
      · simp [MutationId.kind, h7, BulkRequest.kinds, MutationId.joined, MutationId.scopeText,
          BulkRequest.text]
      · simp [MutationId.kind, h7, KeyKind.expires, BulkRequest.kinds, MutationId.joined,
          MutationId.scopeText, BulkRequest.text]
    | some workflowIteration =>
      simp [MutationId.kind, KeyKind.expires, BulkRequest.kinds, MutationId.joined,
        MutationId.scopeText, BulkRequest.text]

/-- A key that is stored expires exactly if it is a UUIDv7. -/
theorem expires_iff {i : MutationId} {k : Str} (hkey : i.rocksKey uuidToString = .ok k) :
    i.kind.expires = true ↔ uuidVersion i.key = 7 := by
  have hscope : (if uuidVersion i.key = 7 then KeyKind.workflowExpiring
      else .workflow).expires = true ↔ uuidVersion i.key = 7 := by
    by_cases h7 : uuidVersion i.key = 7
    · rw [if_pos h7]
      exact iff_of_true rfl h7
    · rw [if_neg h7]
      exact iff_of_false (by decide) h7
  have hplain : (if uuidVersion i.key = 7 then KeyKind.expiring
      else .plain).expires = true ↔ uuidVersion i.key = 7 := by
    by_cases h7 : uuidVersion i.key = 7
    · rw [if_pos h7]
      exact iff_of_true rfl h7
    · rw [if_neg h7]
      exact iff_of_false (by decide) h7
  unfold MutationId.kind
  cases hw : i.workflowId with
  | none => exact hplain
  | some w =>
    cases hn : i.workflowIteration with
    | none => exact hscope
    | some n =>
      -- a key of an iteration is refused when it would expire
      refine iff_of_false (show ¬ KeyKind.workflowIteration.expires = true by decide) fun h7 => ?_
      unfold MutationId.rocksKey makeIdempotentMutationKey at hkey
      rw [hw, hn] at hkey
      dsimp only at hkey
      rw [if_pos h7] at hkey
      split at hkey
      · cases hkey
      · split at hkey <;> cases hkey

/-- Of the mutations that are asked for, the scan meets those that have not expired. -/
theorem meets_iff_of_asks {i : MutationId} {k : Str} (hvalid : i.Valid)
    (hkey : i.rocksKey uuidToString = .ok k) (hasks : request.Asks i) :
    request.Meets uuidToString now i ↔ request.InScope now i := by
  obtain ⟨hkind, tail, hjoined, htail⟩ := joined_of_asks uuidToString hasks
  have hlen := (rocksKey_eq hkey).2.1
  have htext : request.text <+: i.joined uuidToString := by
    rw [hjoined]
    exact List.prefix_append _ _
  have htime : i.kind.expires = true →
      (request.text ++ ':' :: timestampForKeyPrefix now ≤ i.joined uuidToString ↔
        now.toMs ≤ expirationMs i.key) := by
    intro hexpires
    have hcolon : ':' :: timestampForKeyPrefix now ≤ ':' :: i.key ↔
        timestampForKeyPrefix now ≤ i.key := append_le_append_iff (p := [':'])
    rw [hjoined, htail hexpires, append_le_append_iff, hcolon, timestamp_le_iff hlen hvalid.key]
  constructor
  · rintro ⟨-, -, hstart⟩
    refine ⟨hasks, fun h7 => ?_⟩
    have hexpires := (expires_iff hkey).mpr h7
    exact (htime hexpires).mp (hstart hexpires)
  · rintro ⟨-, hunexpired⟩
    refine ⟨hkind, htext, fun hexpires => ?_⟩
    exact (htime hexpires).mpr (hunexpired ((expires_iff hkey).mp hexpires))

/-- All that the scans of a request meet, in their order. -/
def BulkRequest.allMet (request : BulkRequest) (content : SortedAssoc Str Mutation)
    (now : Nanoseconds) : List (Str × Mutation) :=
  request.kinds.flatMap (request.met content now)

theorem mem_allMet_iff (hkeyed : Keyed uuidToString content) :
    e ∈ request.allMet content now ↔ e ∈ content.entries ∧
      request.Meets uuidToString now e.2.id := by
  unfold BulkRequest.allMet
  rw [List.mem_flatMap]
  constructor
  · rintro ⟨kind, hkind, he⟩
    obtain ⟨hmem, -, hmeets⟩ := (mem_met_iff hkeyed hkind).mp he
    exact ⟨hmem, hmeets⟩
  · rintro ⟨hmem, hmeets⟩
    exact ⟨e.2.id.kind, hmeets.1, (mem_met_iff hkeyed hmeets.1).mpr ⟨hmem, rfl, hmeets⟩⟩

theorem entries_nodup (content : SortedAssoc Str Mutation) : content.entries.Nodup :=
  content.sorted.imp fun hlt he => absurd hlt (by rw [he]; exact lt_irrefl _)

theorem kinds_nodup (request : BulkRequest) : request.kinds.Nodup := by
  unfold BulkRequest.kinds
  split <;> decide

theorem allMet_nodup (hkeyed : Keyed uuidToString content) :
    (request.allMet content now).Nodup := by
  unfold BulkRequest.allMet
  rw [List.nodup_flatMap]
  refine ⟨fun kind _ => (entries_nodup content).filter _, ?_⟩
  -- scans for different kinds have no entry in common
  refine (kinds_nodup request).imp_of_mem ?_
  intro kind kind' hkind hkind' hne e he he'
  have h := (mem_met_iff hkeyed hkind).mp he
  have h' := (mem_met_iff hkeyed hkind').mp he'
  exact hne (h.2.1.symm.trans h'.2.1)

/-- What is recovered is what is stored in the scope exactly when the workflow id is a raw UUID
and no mutation outside the scope strays into the scan. -/
theorem recoverBulk_exact_iff (estimate : Mutation → Nat) (flushBytes : Nat)
    (hkeyed : Keyed uuidToString content) (now : Nanoseconds) (request : BulkRequest) :
    BulkExact estimate flushBytes content now request ↔
      (∀ workflowId ∈ request.workflowId, workflowId.length = 16) ∧
        ∀ e ∈ content.entries, ¬request.Strays uuidToString now e.2.id := by
  have hmap : (request.kinds.flatMap fun kind => (request.met content now kind).map Prod.snd) =
      (request.allMet content now).map Prod.snd := by
    unfold BulkRequest.allMet
    rw [List.map_flatMap]
  unfold BulkExact
  rw [recoverBulk_eq, hmap]
  constructor
  · rintro ⟨recovered, hok, hperm⟩
    split at hok
    next hlen =>
      refine ⟨hlen, fun e he hstrays => ?_⟩
      have hmem : e.2 ∈ recovered := by
        cases hok
        exact List.mem_map.mpr ⟨e, (mem_allMet_iff hkeyed).mpr ⟨he, hstrays.2⟩, rfl⟩
      obtain ⟨e', he', hsame⟩ := List.mem_map.mp (hperm.mem_iff.mp hmem)
      have hscope := of_decide_eq_true (List.mem_filter.mp he').2
      rw [hsame] at hscope
      exact hstrays.1 hscope.1
    next => cases hok
  · rintro ⟨hlen, hstrays⟩
    refine ⟨_, if_pos hlen, List.Perm.map _ ?_⟩
    refine (List.perm_ext_iff_of_nodup (allMet_nodup hkeyed)
      ((entries_nodup content).filter _)).mpr fun e => ?_
    rw [mem_allMet_iff hkeyed, List.mem_filter, decide_eq_true_eq]
    refine and_congr_right fun he => ?_
    obtain ⟨hvalid, hkey⟩ := hkeyed e he
    by_cases hasks : request.Asks e.2.id
    · exact meets_iff_of_asks hvalid hkey hasks
    · exact iff_of_false (fun hmeets => hstrays e he ⟨hasks, hmeets⟩) fun hscope => hasks hscope.1

/-- `Preload` streams what a request for the state alone recovers. -/
theorem preloadMutations_eq (estimate : Mutation → Nat) (flushBytes : Nat)
    (content : SortedAssoc Str Mutation) (now : Nanoseconds) (stateRef : Str) :
    recoverBulk estimate flushBytes content now ⟨stateRef, none, none⟩ =
      .ok (preloadMutations estimate flushBytes content now stateRef false) := rfl

/-- **Scoped recovery.** A request recovers what is stored in its scope, and `Preload` what is
stored for the state, exactly when no mutation outside the scope strays into the scan. -/
theorem recovery_scoped_iff (estimate : Mutation → Nat) (flushBytes : Nat)
    (hkeyed : Keyed uuidToString content) (now : Nanoseconds) :
    (∀ request, BulkExact estimate flushBytes content now request ↔
      (∀ workflowId ∈ request.workflowId, workflowId.length = 16) ∧
        ∀ e ∈ content.entries, ¬request.Strays uuidToString now e.2.id) ∧
    ∀ stateRef, (preloadMutations estimate flushBytes content now stateRef false).Perm
        (scope content now ⟨stateRef, none, none⟩) ↔
      ∀ e ∈ content.entries,
        ¬BulkRequest.Strays uuidToString ⟨stateRef, none, none⟩ now e.2.id := by
  refine ⟨fun request => recoverBulk_exact_iff estimate flushBytes hkeyed now request,
    fun stateRef => ?_⟩
  have hiff := recoverBulk_exact_iff estimate flushBytes hkeyed now ⟨stateRef, none, none⟩
  unfold BulkExact at hiff
  rw [preloadMutations_eq] at hiff
  constructor
  · intro hperm
    exact (hiff.mp ⟨_, rfl, hperm⟩).2
  · intro hstrays
    obtain ⟨recovered, hok, hperm⟩ := hiff.mpr ⟨fun _ h => (nomatch h), hstrays⟩
    cases hok
    exact hperm

/-- What stores put into a column family is under its key. -/
theorem keyed_of_stored {ms : List Mutation} (hms : ∀ m ∈ ms, m.id.Valid)
    (hstored : storeMutations uuidToString .empty ms = .ok content) :
    Keyed uuidToString content := by
  rintro ⟨k, m⟩ he
  obtain ⟨before, after, hsplit, hkey, -⟩ | ⟨-, hnone⟩ := (mem_storeMutations hstored).mp he
  · refine ⟨hms m ?_, hkey⟩
    rw [hsplit]
    exact List.mem_append_right _ List.mem_cons_self
  · cases hnone

end

/-! ## Neighbours -/

/-- A mutation of the tenth iteration of a workflow of the state with id `user`. -/
def mutationOfIteration10 : Mutation :=
  ⟨⟨"AEyp_5wmAiADZg:user".toList, someUuid, some otherUuid, some 10⟩, "of iteration 10".toList⟩

/-- A mutation of the state with id `user2`. -/
def mutationOfUser2 : Mutation :=
  ⟨⟨"AEyp_5wmAiADZg:user2".toList, someUuid, none, none⟩, "of user2".toList⟩

theorem neighbours_valid {m : Mutation} (hm : m = mutationOfIteration10 ∨ m = mutationOfUser2) :
    m.id.Valid := by
  have hbytes : ∀ s : Str, s.all (fun c => decide (c.toNat < 256)) = true → IsBytes s := by
    intro s hs c hc
    exact of_decide_eq_true (List.all_eq_true.mp hs c hc)
  obtain rfl | rfl := hm
  · exact ⟨hbytes _ (by decide), by decide⟩
  · exact ⟨hbytes _ (by decide), by decide⟩

theorem neighbours_keyed : Keyed uuidText (stored [mutationOfIteration10, mutationOfUser2]) := by
  refine keyed_of_stored (fun m hm => neighbours_valid ?_)
    (storeMutations_stored (by decide +kernel))
  simpa using hm

/-- A request for the tenth iteration, and what it depends on. -/
theorem recovery_scoped_tenth :
    BulkExact smallEstimate 1000 (stored [mutationOfIteration10, mutationOfUser2]) 0
        ⟨"AEyp_5wmAiADZg:user".toList, some otherUuid, some 10⟩ ↔
      (∀ workflowId ∈ some otherUuid, workflowId.length = 16) ∧
        ∀ e ∈ (stored [mutationOfIteration10, mutationOfUser2]).entries,
          ¬BulkRequest.Strays uuidText
            ⟨"AEyp_5wmAiADZg:user".toList, some otherUuid, some 10⟩ 0 e.2.id :=
  (recovery_scoped_iff smallEstimate 1000 neighbours_keyed 0).1 _

/-- The mutation of the tenth iteration is recovered for the first one, and the mutation of
the state with id `user2` for the state with id `user`. -/
theorem neighbours_recovered :
    ¬BulkExact smallEstimate 1000 (stored [mutationOfIteration10, mutationOfUser2]) 0
        ⟨"AEyp_5wmAiADZg:user".toList, some otherUuid, some 1⟩ ∧
      ¬BulkExact smallEstimate 1000 (stored [mutationOfIteration10, mutationOfUser2]) 0
        ⟨"AEyp_5wmAiADZg:user".toList, none, none⟩ := by
  constructor
  · rintro ⟨recovered, hok, hperm⟩
    have hwrong : recovered = [mutationOfIteration10] :=
      Except.ok.inj (hok.symm.trans (by decide +kernel))
    have hright : scope (stored [mutationOfIteration10, mutationOfUser2]) 0
        ⟨"AEyp_5wmAiADZg:user".toList, some otherUuid, some 1⟩ = [] := by decide +kernel
    rw [hwrong, hright] at hperm
    exact absurd hperm.length_eq (by decide)
  · rintro ⟨recovered, hok, hperm⟩
    have hwrong : recovered = [mutationOfUser2] :=
      Except.ok.inj (hok.symm.trans (by decide +kernel))
    have hright : scope (stored [mutationOfIteration10, mutationOfUser2]) 0
        ⟨"AEyp_5wmAiADZg:user".toList, none, none⟩ = [] := by decide +kernel
    rw [hwrong, hright] at hperm
    exact absurd hperm.length_eq (by decide)

end Reboot.Persist
