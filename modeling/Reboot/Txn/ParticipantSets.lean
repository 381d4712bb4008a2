import Mathlib.Data.List.Dedup
import Mathlib.Data.List.Lattice
import Mathlib.Order.Lattice
import Mathlib.Order.Basic
import Reboot.Lib.Dict
import Reboot.Lib.Json

/-!
# The participants of a transaction

`Participants` (`reboot/aio/contexts.py`): the states that a transaction touched, which its
coordinator prepares and commits. Each is kept under its state type, in `_should_commit` when it
was written and in `_read_only` when it was only read. Both sets travel: up the call tree as gRPC
metadata, and to the database as a protobuf message.

What the class is for is said by `access`: how far each state is involved, ordered
`absent < readOnly < readWrite`. `add` and `union` are joins of it (`access_add`, `access_union`),
so a write wins over a read whatever the order of the calls; `retain_as_read_only` is the one
operation that lowers an access, and it lowers all of them.

Mirroring notes:
- State refs are equal when their encoded strings are (`StateRef.__eq__`), so a ref is its string.
- A set is iterated in an order that depends on hashes. `Order` gives the order in which the sets of
  one call are iterated, and the order in which a protobuf map is; the theorems hold for each.
- The keys of `_should_commit` and `_read_only` stay when their sets become empty. The encodings
  leave such keys out, so two participants are compared by what their sets hold (`Same`).
- `union` changes `self` in place. Passed itself, it only adds what its sets hold already, so the
  loops never see their own changes.
- `json.loads` is modelled for objects of lists of strings, the only texts the encoder writes; in
  the model another text is refused.
-/

namespace Reboot.Txn.WriteWins

open Reboot.Lib

/-! ## Sets of states -/

/-- A set of state refs. -/
structure RefSet where
  refs : List Str
  nodup : refs.Nodup

namespace RefSet

def empty : RefSet := ⟨[], List.nodup_nil⟩

def add (s : RefSet) (ref : Str) : RefSet := ⟨s.refs.insert ref, s.nodup.insert⟩

def discard (s : RefSet) (ref : Str) : RefSet := ⟨s.refs.erase ref, s.nodup.erase ref⟩

def update (s t : RefSet) : RefSet := ⟨t.refs ∪ s.refs, List.Nodup.union t.refs s.nodup⟩

end RefSet

/-- A `defaultdict(set)` from state types to refs. -/
abbrev RefSets := Dict Str RefSet

namespace RefSets

/-- The set of a type; `_EMPTY` if there is none. -/
def refsAt (sets : RefSets) (ty : Str) : RefSet := (sets.find? ty).getD .empty

/-- A state is in the set of its type. -/
def Holds (sets : RefSets) (x : Str × Str) : Prop := x.2 ∈ (refsAt sets x.1).refs

instance (sets : RefSets) (x : Str × Str) : Decidable (Holds sets x) :=
  inferInstanceAs (Decidable (_ ∈ _))

/-- `sets[ty].add(ref)`. -/
def add (sets : RefSets) (x : Str × Str) : RefSets := sets.set x.1 ((refsAt sets x.1).add x.2)

/-- `if ty in sets: sets[ty].discard(ref)`. -/
def discard (sets : RefSets) (x : Str × Str) : RefSets :=
  match sets.find? x.1 with
  | some s => sets.set x.1 (s.discard x.2)
  | none => sets

/-- `for (ty, refs) in sets'.items(): sets[ty].update(refs)`. -/
def update (sets sets' : RefSets) : RefSets :=
  sets'.items.foldl (fun sets e => sets.set e.1 ((refsAt sets e.1).update e.2)) sets

theorem refsAt_set_self (sets : RefSets) (ty : Str) (s : RefSet) : refsAt (sets.set ty s) ty = s := by
  unfold refsAt
  rw [Dict.find?_set_self]
  rfl

theorem refsAt_set_of_ne (sets : RefSets) {ty ty' : Str} (h : ty' ≠ ty) (s : RefSet) :
    refsAt (sets.set ty s) ty' = refsAt sets ty' := by
  unfold refsAt
  rw [Dict.find?_set_of_ne sets h]

theorem not_holds_empty (x : Str × Str) : ¬ Holds Dict.empty x := List.not_mem_nil

theorem holds_add {sets : RefSets} {x y : Str × Str} :
    Holds (add sets x) y ↔ Holds sets y ∨ y = x := by
  obtain ⟨ty, ref⟩ := x
  obtain ⟨ty', ref'⟩ := y
  unfold Holds add
  by_cases hty : ty' = ty
  · subst hty
    rw [refsAt_set_self]
    show ref' ∈ List.insert ref _ ↔ _
    rw [List.mem_insert_iff, Prod.mk.injEq]
    constructor
    · rintro (h | h)
      · exact .inr ⟨rfl, h⟩
      · exact .inl h
    · rintro (h | ⟨-, h⟩)
      · exact .inr h
      · exact .inl h
  · rw [refsAt_set_of_ne sets hty]
    constructor
    · exact .inl
    · rintro (h | h)
      · exact h
      · exact absurd (congrArg Prod.fst h) hty

theorem holds_discard {sets : RefSets} {x y : Str × Str} :
    Holds (discard sets x) y ↔ Holds sets y ∧ y ≠ x := by
  obtain ⟨ty, ref⟩ := x
  obtain ⟨ty', ref'⟩ := y
  unfold Holds discard
  cases hfind : sets.find? ty with
  | none =>
    dsimp only
    constructor
    · intro h
      refine ⟨h, ?_⟩
      rintro ⟨⟩
      unfold refsAt at h
      rw [hfind] at h
      exact absurd h List.not_mem_nil
    · exact And.left
  | some s =>
    have hs : refsAt sets ty = s := by
      unfold refsAt
      rw [hfind]
      rfl
    dsimp only
    by_cases hty : ty' = ty
    · subst hty
      rw [refsAt_set_self, hs]
      show ref' ∈ s.refs.erase ref ↔ _
      rw [List.Nodup.mem_erase_iff s.nodup, Ne, Ne, Prod.mk.injEq]
      constructor
      · rintro ⟨hne, h⟩
        exact ⟨h, fun he => hne he.2⟩
      · rintro ⟨h, hne⟩
        exact ⟨fun he => hne ⟨rfl, he⟩, h⟩
    · rw [refsAt_set_of_ne sets hty]
      constructor
      · exact fun h => ⟨h, fun he => hty (congrArg Prod.fst he)⟩
      · exact And.left

/-- What a dictionary of sets holds, is in one of its items. -/
theorem holds_iff_mem {sets : RefSets} {x : Str × Str} :
    Holds sets x ↔ ∃ s, (x.1, s) ∈ sets.items ∧ x.2 ∈ s.refs := by
  unfold Holds refsAt
  constructor
  · intro h
    cases hfind : sets.find? x.1 with
    | none =>
      rw [hfind] at h
      exact absurd h List.not_mem_nil
    | some s =>
      rw [hfind] at h
      exact ⟨s, Dict.find?_eq_some_iff.mp hfind, h⟩
  · rintro ⟨s, hs, h⟩
    rw [Dict.find?_eq_some_iff.mpr hs]
    exact h

theorem holds_update {sets sets' : RefSets} {y : Str × Str} :
    Holds (update sets sets') y ↔ Holds sets y ∨ Holds sets' y := by
  have hstep : ∀ (sets : RefSets) (e : Str × RefSet),
      Holds (sets.set e.1 ((refsAt sets e.1).update e.2)) y ↔
        Holds sets y ∨ (y.1 = e.1 ∧ y.2 ∈ e.2.refs) := by
    intro sets e
    unfold Holds
    by_cases hty : y.1 = e.1
    · rw [hty, refsAt_set_self]
      show y.2 ∈ e.2.refs ∪ _ ↔ _
      rw [List.mem_union_iff]
      constructor
      · rintro (h | h)
        · exact .inr ⟨rfl, h⟩
        · exact .inl h
      · rintro (h | ⟨-, h⟩)
        · exact .inr h
        · exact .inl h
    · rw [refsAt_set_of_ne sets hty]
      constructor
      · exact .inl
      · rintro (h | ⟨h, -⟩)
        · exact h
        · exact absurd h hty
  have hfold : ∀ (items : List (Str × RefSet)) (sets : RefSets),
      Holds (items.foldl (fun sets e => sets.set e.1 ((refsAt sets e.1).update e.2)) sets) y ↔
        Holds sets y ∨ ∃ e ∈ items, y.1 = e.1 ∧ y.2 ∈ e.2.refs := by
    intro items
    induction items with
    | nil =>
      intro sets
      exact ⟨.inl, fun h => h.resolve_right fun ⟨_, he, _⟩ => absurd he List.not_mem_nil⟩
    | cons e items ih =>
      intro sets
      rw [List.foldl_cons, ih, hstep, or_assoc]
      refine or_congr_right ?_
      constructor
      · rintro (h | ⟨e', he', h⟩)
        · exact ⟨e, List.mem_cons_self, h⟩
        · exact ⟨e', List.mem_cons_of_mem _ he', h⟩
      · rintro ⟨e', he', h⟩
        rcases List.mem_cons.mp he' with rfl | he'
        · exact .inl h
        · exact .inr ⟨e', he', h⟩
  unfold update
  have hitems := @holds_iff_mem sets' y
  rw [hfold, hitems]
  refine or_congr_right ?_
  constructor
  · rintro ⟨⟨ty, s⟩, he, hty, hs⟩
    exact ⟨s, hty ▸ he, hs⟩
  · rintro ⟨s, he, hs⟩
    exact ⟨_, he, rfl, hs⟩

end RefSets

/-! ## Accesses -/

/-- How far a state is involved in a transaction. -/
inductive Access
  | absent
  | readOnly
  | readWrite
  deriving DecidableEq

def Access.rank : Access → Nat
  | absent => 0
  | readOnly => 1
  | readWrite => 2

instance : LinearOrder Access := LinearOrder.lift' Access.rank fun a b => by
  cases a <;> cases b <;> decide

theorem absent_le (a : Access) : Access.absent ≤ a := Nat.zero_le a.rank

theorem le_readWrite (a : Access) : a ≤ Access.readWrite := by
  cases a <;> decide

/-- The accesses of one participant. -/
def single (x : Str × Str) (level : Access) (y : Str × Str) : Access :=
  if y = x then level else .absent

/-- The accesses of some participants at one level. -/
def level (xs : List (Str × Str)) (level : Access) (y : Str × Str) : Access :=
  if y ∈ xs then level else .absent

theorem single_sup_level (x : Str × Str) (xs : List (Str × Str)) (a : Access) :
    single x a ⊔ level xs a = level (x :: xs) a := by
  funext y
  show single x a y ⊔ level xs a y = level (x :: xs) a y
  unfold single level
  by_cases hx : y = x
  · by_cases hmem : y ∈ xs
    · rw [if_pos hx, if_pos hmem, if_pos (List.mem_cons_of_mem _ hmem), sup_idem]
    · rw [if_pos hx, if_neg hmem, if_pos (hx ▸ List.mem_cons_self), sup_of_le_left (absent_le a)]
  · by_cases hmem : y ∈ xs
    · rw [if_neg hx, if_pos hmem, if_pos (List.mem_cons_of_mem _ hmem),
        sup_of_le_right (absent_le a)]
    · rw [if_neg hx, if_neg hmem, if_neg (fun h => (List.mem_cons.mp h).elim hx hmem), sup_idem]

/-! ## Participants -/

/-- `Participants`. -/
structure Participants where
  shouldCommit : RefSets
  readOnly : RefSets
  sawLegacyToAbort : Bool

/-- The order in which the sets of one call and its protobuf maps are iterated. -/
structure Order where
  refs : Str → RefSet → List Str
  refs_perm : ∀ ty s, (refs ty s).Perm s.refs
  entries : Dict Str (List Str) → List (Str × List Str)
  entries_perm : ∀ d, (entries d).Perm d.items

/-- Every set in the order in which it was filled. -/
def Order.insertion : Order where
  refs _ s := s.refs
  refs_perm _ _ := .refl _
  entries d := d.items
  entries_perm _ := .refl _

/-- `for (ty, refs) in sets.items(): for ref in refs: ...`. -/
def Order.states (order : Order) (sets : RefSets) : List (Str × Str) :=
  sets.items.flatMap fun e => (order.refs e.1 e.2).map fun ref => (e.1, ref)

/-- The states that lists of refs hold, under their types. -/
def listed (entries : List (Str × List Str)) : List (Str × Str) :=
  entries.flatMap fun e => e.2.map fun ref => (e.1, ref)

/-- What is sent of a dictionary of sets: a list for each set that is not empty. -/
def Order.lists (order : Order) (sets : RefSets) : Dict Str (List Str) :=
  sets.comprehend fun ty s => if s.refs.length > 0 then some (order.refs ty s) else none

namespace Participants

def empty : Participants := ⟨.empty, .empty, false⟩

/-- `add`. -/
def add (p : Participants) (readOnly : Bool) (x : Str × Str) : Participants :=
  if readOnly then
    -- a state that is written stays written
    if RefSets.Holds p.shouldCommit x then p
    else { p with readOnly := RefSets.add p.readOnly x }
  else
    { p with
      readOnly := RefSets.discard p.readOnly x
      shouldCommit := RefSets.add p.shouldCommit x }

def addAll (p : Participants) (readOnly : Bool) (xs : List (Str × Str)) : Participants :=
  xs.foldl (fun p x => p.add readOnly x) p

/-- `union`. -/
def union (order : Order) (p participants : Participants) : Participants :=
  (p.addAll false (order.states participants.shouldCommit)).addAll true
    (order.states participants.readOnly)

/-- `retain_as_read_only`. -/
def retainAsReadOnly (p : Participants) : Participants :=
  { p with
    readOnly := RefSets.update p.readOnly p.shouldCommit
    shouldCommit := .empty }

/-- The access of a state; being committed counts. -/
def access (p : Participants) (x : Str × Str) : Access :=
  if RefSets.Holds p.shouldCommit x then .readWrite
  else if RefSets.Holds p.readOnly x then .readOnly
  else .absent

/-- No state is to be committed and read-only. -/
def Disjoint (p : Participants) : Prop :=
  ∀ x, ¬ (RefSets.Holds p.shouldCommit x ∧ RefSets.Holds p.readOnly x)

/-- The same states are to be committed, and the same are read-only. -/
structure Same (p q : Participants) : Prop where
  shouldCommit : ∀ x, RefSets.Holds p.shouldCommit x ↔ RefSets.Holds q.shouldCommit x
  readOnly : ∀ x, RefSets.Holds p.readOnly x ↔ RefSets.Holds q.readOnly x
  sawLegacyToAbort : p.sawLegacyToAbort = q.sawLegacyToAbort

/-! ### The join -/

theorem access_eq_readWrite {p : Participants} {x : Str × Str} :
    p.access x = .readWrite ↔ RefSets.Holds p.shouldCommit x := by
  unfold access
  split
  next h => exact iff_of_true rfl h
  next h =>
    refine iff_of_false ?_ h
    split <;> exact fun he => Access.noConfusion he

theorem Disjoint.access_eq_readOnly {p : Participants} (hp : p.Disjoint) {x : Str × Str} :
    p.access x = .readOnly ↔ RefSets.Holds p.readOnly x := by
  unfold access
  split
  next h => exact iff_of_false (fun he => Access.noConfusion he) fun hr => hp x ⟨h, hr⟩
  next h =>
    split
    next hr => exact iff_of_true rfl hr
    next hr => exact iff_of_false (fun he => Access.noConfusion he) hr

/-- Between participants that keep the two sets apart, the accesses decide. -/
theorem same_of_access {p q : Participants} (hp : p.Disjoint) (hq : q.Disjoint)
    (h : p.access = q.access) (hflag : p.sawLegacyToAbort = q.sawLegacyToAbort) : p.Same q where
  shouldCommit x := by rw [← access_eq_readWrite, ← access_eq_readWrite, h]
  readOnly x := by rw [← hp.access_eq_readOnly, ← hq.access_eq_readOnly, h]
  sawLegacyToAbort := hflag

theorem access_add (p : Participants) (readOnly : Bool) (x : Str × Str) :
    (p.add readOnly x).access =
      p.access ⊔ single x (if readOnly then .readOnly else .readWrite) := by
  funext y
  show (p.add readOnly x).access y = p.access y ⊔ single x _ y
  cases readOnly with
  | false =>
    show (if RefSets.Holds (RefSets.add p.shouldCommit x) y then Access.readWrite
      else if RefSets.Holds (RefSets.discard p.readOnly x) y then .readOnly else .absent) = _
    unfold single
    by_cases hy : y = x
    · rw [if_pos (RefSets.holds_add.mpr (.inr hy)), if_pos hy]
      exact (sup_of_le_right (le_readWrite _)).symm
    · rw [if_neg hy, sup_of_le_left (absent_le _)]
      unfold access
      simp only [RefSets.holds_add, RefSets.holds_discard, hy, or_false, ne_eq, not_false_eq_true,
        and_true]
  | true =>
    unfold add
    rw [if_pos rfl]
    split
    next hx =>
      unfold single
      by_cases hy : y = x
      · rw [if_pos hy, hy, access_eq_readWrite.mpr hx]
        rfl
      · rw [if_neg hy, sup_of_le_left (absent_le _)]
    next hx =>
      show (if RefSets.Holds p.shouldCommit y then Access.readWrite
        else if RefSets.Holds (RefSets.add p.readOnly x) y then .readOnly else .absent) = _
      unfold single access
      by_cases hy : y = x
      · subst hy
        rw [if_neg hx, if_pos (RefSets.holds_add.mpr (.inr rfl)), if_neg hx, if_pos rfl]
        split <;> rfl
      · rw [if_neg hy, sup_of_le_left (absent_le _)]
        simp only [RefSets.holds_add, hy, or_false]

theorem access_addAll (readOnly : Bool) : ∀ (xs : List (Str × Str)) (p : Participants),
    (p.addAll readOnly xs).access =
      p.access ⊔ level xs (if readOnly then .readOnly else .readWrite)
  | [], p => by
    funext y
    exact (sup_of_le_left (absent_le _)).symm
  | x :: xs, p => by
    show ((p.add readOnly x).addAll readOnly xs).access = _
    rw [access_addAll readOnly xs (p.add readOnly x), access_add, sup_assoc, single_sup_level]

theorem mem_states {order : Order} {sets : RefSets} {x : Str × Str} :
    x ∈ order.states sets ↔ RefSets.Holds sets x := by
  obtain ⟨ty, ref⟩ := x
  rw [RefSets.holds_iff_mem]
  unfold Order.states
  rw [List.mem_flatMap]
  constructor
  · rintro ⟨e, he, hx⟩
    obtain ⟨ref', href, heq⟩ := List.mem_map.mp hx
    obtain ⟨rfl, rfl⟩ := Prod.mk.inj heq
    exact ⟨e.2, he, (order.refs_perm e.1 e.2).mem_iff.mp href⟩
  · rintro ⟨s, hs, href⟩
    exact ⟨(ty, s), hs, List.mem_map_of_mem ((order.refs_perm ty s).mem_iff.mpr href)⟩

/-- Adding one set to be committed and then one that is read-only gives the accesses of both. -/
theorem access_addBoth (p q : Participants) {commits reads : List (Str × Str)}
    (hcommits : ∀ x, x ∈ commits ↔ RefSets.Holds q.shouldCommit x)
    (hreads : ∀ x, x ∈ reads ↔ RefSets.Holds q.readOnly x) :
    ((p.addAll false commits).addAll true reads).access = p.access ⊔ q.access := by
  rw [access_addAll, access_addAll, sup_assoc]
  congr 1
  funext y
  show level commits .readWrite y ⊔ level reads .readOnly y = q.access y
  unfold level access
  simp only [hcommits, hreads]
  split
  next h => exact sup_of_le_left (le_readWrite _)
  next h => exact sup_of_le_right (absent_le _)

theorem access_union (order : Order) (p q : Participants) :
    (p.union order q).access = p.access ⊔ q.access :=
  access_addBoth p q (fun _ => mem_states) fun _ => mem_states

/-! ### Disjointness -/

theorem Disjoint.add {p : Participants} (h : p.Disjoint) (readOnly : Bool) (x : Str × Str) :
    (p.add readOnly x).Disjoint := by
  intro y
  unfold Participants.add
  cases readOnly with
  | false =>
    rintro ⟨hcommit, hread⟩
    obtain ⟨hread, hne⟩ := RefSets.holds_discard.mp hread
    rcases RefSets.holds_add.mp hcommit with hcommit | hy
    · exact h y ⟨hcommit, hread⟩
    · exact hne hy
  | true =>
    rw [if_pos rfl]
    split
    next => exact h y
    next hx =>
      rintro ⟨hcommit, hread⟩
      rcases RefSets.holds_add.mp hread with hread | hy
      · exact h y ⟨hcommit, hread⟩
      · exact hx (hy ▸ hcommit)

theorem Disjoint.addAll (readOnly : Bool) : ∀ (xs : List (Str × Str)) {p : Participants},
    p.Disjoint → (p.addAll readOnly xs).Disjoint
  | [], _, h => h
  | x :: xs, _, h => Disjoint.addAll readOnly xs (h.add readOnly x)

theorem Disjoint.retainAsReadOnly (p : Participants) : p.retainAsReadOnly.Disjoint :=
  fun x h => RefSets.not_holds_empty x h.1

theorem disjoint_empty : empty.Disjoint := fun x h => RefSets.not_holds_empty x h.1

theorem sawLegacyToAbort_addAll (readOnly : Bool) : ∀ (xs : List (Str × Str)) (p : Participants),
    (p.addAll readOnly xs).sawLegacyToAbort = p.sawLegacyToAbort
  | [], _ => rfl
  | x :: xs, p => by
    show ((p.add readOnly x).addAll readOnly xs).sawLegacyToAbort = _
    rw [sawLegacyToAbort_addAll readOnly xs]
    unfold add
    split
    · split <;> rfl
    · rfl

/-! ## Encodings -/

/-- The protobuf message `database_pb2.Participants`. -/
structure SidecarParticipants where
  shouldCommit : Dict Str (List Str)
  readOnly : Dict Str (List Str)

/-- `to_sidecar`. -/
def toSidecar (order : Order) (p : Participants) : SidecarParticipants :=
  ⟨order.lists p.shouldCommit, order.lists p.readOnly⟩

/-- `from_sidecar`. -/
def fromSidecar (order : Order) (participants : SidecarParticipants) : Participants :=
  (empty.addAll false (listed (order.entries participants.shouldCommit))).addAll true
    (listed (order.entries participants.readOnly))

/-- `TRANSACTION_PARTICIPANTS_HEADER`. -/
def participantsHeader : Str := "x-reboot-transaction-participants".toList

/-- `TRANSACTION_PARTICIPANTS_TO_ABORT_HEADER`. -/
def toAbortHeader : Str := "x-reboot-transaction-participants-to-abort".toList

/-- `TRANSACTION_PARTICIPANTS_READ_ONLY_HEADER`. -/
def readOnlyHeader : Str := "x-reboot-transaction-participants-read-only".toList

/-- Objects of lists of strings. -/
def refsCodec : Codec (List (Str × List Str)) := Codec.string.array.object

/-- `to_grpc_metadata`. -/
def toGrpcMetadata (order : Order) (readOnlyAware : Bool) (p : Participants) : List (Str × Str) :=
  let shouldCommit :=
    if readOnlyAware then p.shouldCommit
    else RefSets.update (RefSets.update .empty p.shouldCommit) p.readOnly
  (participantsHeader, refsCodec.dumps (order.lists shouldCommit).items) ::
    if readOnlyAware then [(readOnlyHeader, refsCodec.dumps (order.lists p.readOnly).items)]
    else []

/-- The states of a header's object. -/
def loadStates (value : Str) : Option (List (Str × Str)) :=
  (refsCodec.loads value).map fun members => listed (Dict.ofItems members).items

/-- One header of `from_grpc_metadata`. -/
def readHeader (p : Participants) (header : Str × Str) : Option Participants :=
  if header.1 = participantsHeader then (loadStates header.2).map (p.addAll false)
  else if header.1 = toAbortHeader then some { p with sawLegacyToAbort := true }
  else if header.1 = readOnlyHeader then (loadStates header.2).map (p.addAll true)
  else some p

/-- `from_grpc_metadata`. -/
def fromGrpcMetadata (metadata : List (Str × Str)) : Option Participants :=
  metadata.foldlM readHeader empty

/-- The lists name what the sets hold, in whatever order they are read. -/
theorem mem_listed {order : Order} {sets : RefSets} {entries : List (Str × List Str)}
    (h : entries.Perm (order.lists sets).items) (x : Str × Str) :
    x ∈ listed entries ↔ RefSets.Holds sets x := by
  obtain ⟨ty, ref⟩ := x
  rw [RefSets.holds_iff_mem]
  unfold listed
  rw [List.mem_flatMap]
  constructor
  · rintro ⟨e, he, hx⟩
    obtain ⟨ref', href, heq⟩ := List.mem_map.mp hx
    obtain ⟨rfl, rfl⟩ := Prod.mk.inj heq
    obtain ⟨s, hs, hlist⟩ := Dict.mem_comprehend.mp (h.mem_iff.mp he)
    obtain ⟨-, hrefs⟩ := Option.ite_none_right_eq_some.mp hlist
    refine ⟨s, hs, (order.refs_perm e.1 s).mem_iff.mp ?_⟩
    rwa [Option.some.inj hrefs]
  · rintro ⟨s, hs, href⟩
    refine ⟨(ty, order.refs ty s), h.mem_iff.mpr (Dict.mem_comprehend.mpr ⟨s, hs, ?_⟩),
      List.mem_map_of_mem ((order.refs_perm ty s).mem_iff.mpr href)⟩
    exact if_pos (List.length_pos_of_mem href)

theorem loadStates_dumps (order : Order) (sets : RefSets) :
    loadStates (refsCodec.dumps (order.lists sets).items) =
      some (listed (order.lists sets).items) := by
  unfold loadStates
  rw [Codec.loads_dumps, Option.map_some, Dict.ofItems_items]

theorem readOnlyHeader_ne : readOnlyHeader ≠ participantsHeader ∧ readOnlyHeader ≠ toAbortHeader := by
  decide

theorem fromGrpcMetadata_aware (order : Order) (p : Participants) :
    fromGrpcMetadata (p.toGrpcMetadata order true) =
      some ((empty.addAll false (listed (order.lists p.shouldCommit).items)).addAll true
        (listed (order.lists p.readOnly).items)) := by
  unfold toGrpcMetadata fromGrpcMetadata
  rw [if_pos rfl, if_pos rfl, List.foldlM_cons, readHeader, if_pos rfl, loadStates_dumps]
  show List.foldlM readHeader _ [_] = _
  rw [List.foldlM_cons, readHeader, if_neg readOnlyHeader_ne.1, if_neg readOnlyHeader_ne.2, if_pos rfl,
    loadStates_dumps]
  rfl

theorem fromGrpcMetadata_unaware (order : Order) (p : Participants) :
    fromGrpcMetadata (p.toGrpcMetadata order false) =
      some (empty.addAll false (listed (order.lists
        (RefSets.update (RefSets.update .empty p.shouldCommit) p.readOnly)).items)) := by
  unfold toGrpcMetadata fromGrpcMetadata
  rw [if_neg Bool.false_ne_true, if_neg Bool.false_ne_true, List.foldlM_cons, readHeader,
    if_pos rfl, loadStates_dumps]
  rfl

/-- Participants that are rebuilt from lists of both sets are the same. -/
theorem same_rebuilt {p : Participants} (hp : p.Disjoint) (hflag : p.sawLegacyToAbort = false)
    {commits reads : List (Str × Str)}
    (hcommits : ∀ x, x ∈ commits ↔ RefSets.Holds p.shouldCommit x)
    (hreads : ∀ x, x ∈ reads ↔ RefSets.Holds p.readOnly x) :
    ((empty.addAll false commits).addAll true reads).Same p := by
  refine same_of_access ((disjoint_empty.addAll false commits).addAll true reads) hp ?_ ?_
  · rw [access_addBoth empty p hcommits hreads]
    funext x
    exact sup_of_le_right (absent_le _)
  · rw [sawLegacyToAbort_addAll, sawLegacyToAbort_addAll, hflag]
    rfl

theorem holds_addAll_false {commits : List (Str × Str)} (x : Str × Str) :
    RefSets.Holds (empty.addAll false commits).shouldCommit x ↔ x ∈ commits := by
  rw [← access_eq_readWrite, access_addAll]
  show (Access.absent ⊔ level commits .readWrite x) = .readWrite ↔ _
  rw [sup_of_le_right (absent_le _)]
  unfold level
  split
  next h => exact iff_of_true rfl h
  next h => exact iff_of_false (fun he => Access.noConfusion he) h

/-! ## What can be reached -/

/-- The participants that calls of `add`, `union` and `retain_as_read_only` lead to. -/
inductive Reachable : Participants → Prop
  | empty : Reachable empty
  | add {p : Participants} (readOnly : Bool) (x : Str × Str) :
      Reachable p → Reachable (p.add readOnly x)
  | union {p q : Participants} (order : Order) :
      Reachable p → Reachable q → Reachable (p.union order q)
  | retainAsReadOnly {p : Participants} : Reachable p → Reachable p.retainAsReadOnly

theorem Disjoint.union {p : Participants} (h : p.Disjoint) (order : Order) (q : Participants) :
    (p.union order q).Disjoint := (h.addAll false _).addAll true _

theorem sawLegacyToAbort_union (order : Order) (p q : Participants) :
    (p.union order q).sawLegacyToAbort = p.sawLegacyToAbort := by
  unfold union
  rw [sawLegacyToAbort_addAll, sawLegacyToAbort_addAll]

theorem Reachable.disjoint {p : Participants} (h : Reachable p) : p.Disjoint := by
  induction h with
  | empty => exact disjoint_empty
  | add readOnly x _ ih => exact ih.add readOnly x
  | union order _ _ ih _ => exact ih.union order _
  | @retainAsReadOnly p _ _ => exact Disjoint.retainAsReadOnly p

/-- Only a header of an older server sets the flag. -/
theorem Reachable.sawLegacyToAbort {p : Participants} (h : Reachable p) :
    p.sawLegacyToAbort = false := by
  induction h with
  | empty => rfl
  | @add p readOnly x _ ih => exact (sawLegacyToAbort_addAll readOnly [x] p).trans ih
  | union order _ _ ih _ => exact (sawLegacyToAbort_union order _ _).trans ih
  | retainAsReadOnly _ ih => exact ih

theorem same_union {p p' q q' : Participants} {order order' : Order} (hp : Reachable p)
    (hp' : Reachable p') (h : p.access ⊔ q.access = p'.access ⊔ q'.access) :
    (p.union order q).Same (p'.union order' q') := by
  refine same_of_access (hp.disjoint.union order q) (hp'.disjoint.union order' q') ?_ ?_
  · rw [access_union, access_union, h]
  · rw [sawLegacyToAbort_union, sawLegacyToAbort_union, hp.sawLegacyToAbort,
      hp'.sawLegacyToAbort]

/-- Participants are a join in which writes win, and both encodings keep them. -/
theorem reachable_writeWins {p q : Participants} (hp : Reachable p) (hq : Reachable q)
    (r : Participants) (o₁ o₂ o₃ o₄ : Order) :
    p.Disjoint ∧
      (p.union o₁ q).Same (q.union o₂ p) ∧
      ((p.union o₁ q).union o₂ r).Same (p.union o₃ (q.union o₄ r)) ∧
      (p.union o₁ p).Same p ∧
      (∀ x, RefSets.Holds (p.union o₁ q).shouldCommit x ↔
        RefSets.Holds p.shouldCommit x ∨ RefSets.Holds q.shouldCommit x) ∧
      (fromSidecar o₂ (p.toSidecar o₁)).Same p ∧
      (∃ p', fromGrpcMetadata (p.toGrpcMetadata o₁ true) = some p' ∧ p'.Same p) ∧
      ∃ p', fromGrpcMetadata (p.toGrpcMetadata o₁ false) = some p' ∧
        ∀ x, RefSets.Holds p'.shouldCommit x ↔
          RefSets.Holds p.shouldCommit x ∨ RefSets.Holds p.readOnly x := by
  have hflag := hp.sawLegacyToAbort
  refine ⟨hp.disjoint, ?_, ?_, ?_, ?_, ?_, ?_, ?_⟩
  · exact same_union hp hq (sup_comm _ _)
  · refine same_union (.union o₁ hp hq) hp ?_
    rw [access_union, access_union, sup_assoc]
  · refine same_of_access (hp.disjoint.union o₁ p) hp.disjoint ?_ (sawLegacyToAbort_union o₁ p p)
    rw [access_union, sup_idem]
  · intro x
    rw [← access_eq_readWrite, ← access_eq_readWrite, ← access_eq_readWrite, access_union]
    show p.access x ⊔ q.access x = _ ↔ _
    cases p.access x <;> cases q.access x <;> decide
  · exact same_rebuilt hp.disjoint hflag (mem_listed (o₂.entries_perm _))
      (mem_listed (o₂.entries_perm _))
  · exact ⟨_, fromGrpcMetadata_aware o₁ p,
      same_rebuilt hp.disjoint hflag (mem_listed (.refl _)) (mem_listed (.refl _))⟩
  · refine ⟨_, fromGrpcMetadata_unaware o₁ p, fun x => ?_⟩
    rw [holds_addAll_false, mem_listed (.refl _), RefSets.holds_update, RefSets.holds_update]
    constructor
    · rintro ((h | h) | h)
      · exact absurd h (RefSets.not_holds_empty x)
      · exact .inl h
      · exact .inr h
    · rintro (h | h)
      · exact .inl (.inr h)
      · exact .inr h

def readThenWritten : Participants :=
  (empty.add true ("T".toList, "a/\"b".toList)).add false ("T".toList, "a/\"b".toList)

theorem reachable_writeWins_readThenWritten :
    Reachable readThenWritten ∧
      ∀ x, RefSets.Holds (readThenWritten.union .insertion
          (readThenWritten.retainAsReadOnly)).shouldCommit x ↔
        RefSets.Holds readThenWritten.shouldCommit x ∨
          RefSets.Holds readThenWritten.retainAsReadOnly.shouldCommit x := by
  have hp : Reachable readThenWritten := .add false _ (.add true _ .empty)
  exact ⟨hp, (reachable_writeWins hp hp.retainAsReadOnly .empty .insertion .insertion .insertion
    .insertion).2.2.2.2.1⟩

end Participants

end Reboot.Txn.WriteWins
