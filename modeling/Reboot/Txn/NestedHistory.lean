import Mathlib.Data.List.Induction
import Mathlib.Data.List.TakeWhile
import Reboot.Lib.Ancestry
import Reboot.Txn.Lock

/-!
# What nested rollback is for

A transaction and its nested transactions use a state one inside the other. This module
says, without snapshots, what undoing one of them means: the history of a state is the
list of what happened to it and is still in force, its contents are the history played
back from the start, and undoing a nested transaction cuts the history right before the
first claim that was made within its subtree.

The rules a history keeps (`Allowed`) are those of ownership: a claim comes from within
the owner, what is written is written by the owner, and ownership is given back upward.
They make the cut exact in the other direction too: everything behind the first claim
of a subtree belongs to that subtree (`within_of_claimed`), so nothing else is undone.

`NestedRollback` shows that the snapshots of `StateManager.Transaction` do just this.
-/

namespace Reboot.Txn.Nested

open Reboot.Lib

/-- What one store writes. Tasks and idempotent mutations go by their uuid. -/
structure Writes (κ V M : Type) where
  state : Option V
  tasks : List (κ × M)
  idempotentMutations : List (κ × M)
  deriving DecidableEq

/-- What a transaction has of a state. -/
@[ext]
structure Contents (ι κ V M : Type) where
  /-- `None` until it is loaded or constructed -/
  state : Option V
  tasks : List (κ × M)
  idempotentMutations : List (κ × M)
  ownerIds : List ι
  mode : Mode
  deriving DecidableEq

/-- Something that happened to the state, with the innermost transaction it happened in. -/
inductive Event (ι κ V M : Type)
  /-- a claim, and the mode in which the lock was held then -/
  | claim (n : ι) (mode : Mode)
  | load (n : ι) (value : V)
  | upgrade (n : ι)
  | store (n : ι) (writes : Writes κ V M)
  /-- ownership goes back from `n` to its parent -/
  | commit (n : ι)
  deriving DecidableEq

/-- `dict[key] = mutation`. -/
def putKey {κ M : Type} [DecidableEq κ] (l : List (κ × M)) (e : κ × M) : List (κ × M) :=
  if e.1 ∈ l.map (·.1) then l.map fun x => if x.1 = e.1 then e else x else l ++ [e]

variable {ι κ V M : Type}

/-- The transaction an event happened in. -/
def Event.within : Event ι κ V M → ι
  | .claim n _ => n
  | .load n _ => n
  | .upgrade n => n
  | .store n _ => n
  | .commit n => n

namespace Contents

/-- Nobody has used the state yet. -/
def unused : Contents ι κ V M := ⟨none, [], [], [], .shared⟩

/-- The in-memory half of `_store`. -/
def write [DecidableEq κ] (c : Contents ι κ V M) (w : Writes κ V M) : Contents ι κ V M :=
  { c with
    state := w.state.or c.state
    tasks := c.tasks ++ w.tasks
    idempotentMutations := w.idempotentMutations.foldl putKey c.idempotentMutations }

end Contents

variable [DecidableEq ι] [DecidableEq κ] (A : Ancestry ι)

/-- What an event does. -/
def apply (c : Contents ι κ V M) : Event ι κ V M → Contents ι κ V M
  | .claim n mode => { c with ownerIds := A.path n, mode := mode }
  | .load _ v => { c with state := c.state.or (some v) }
  | .upgrade _ => { c with mode := .exclusive }
  | .store _ w => c.write w
  | .commit n => { c with ownerIds := c.ownerIds.take (c.ownerIds.idxOf n) }

/-- The contents after a history. -/
def replay (h : List (Event ι κ V M)) : Contents ι κ V M := h.foldl (apply A) .unused

/-- A claim made within the subtree of `n`. -/
def claimsWithin (n : ι) : Event ι κ V M → Bool
  | .claim m _ => decide (n ∈ A.path m)
  | _ => false

/-- Cut a history right before the first claim within the subtree of `n`. -/
def undo (n : ι) (h : List (Event ι κ V M)) : List (Event ι κ V M) :=
  h.takeWhile fun e => !claimsWithin A n e

/-- The rules of ownership. `committed` says which transactions have committed: ownership
goes back upward from a transaction that has, past those that have. -/
def Allowed (committed : ι → Prop) (c : Contents ι κ V M) : Event ι κ V M → Prop
  | .claim n mode => c.ownerIds <+: A.path n ∧ (c.mode = .exclusive → mode = .exclusive)
  | .load n _ => c.ownerIds = A.path n
  | .upgrade n => c.ownerIds = A.path n
  | .store n w => c.ownerIds = A.path n ∧ ((c.tasks ++ w.tasks).map (·.1)).Nodup ∧
      ((c.idempotentMutations ++ w.idempotentMutations).map (·.1)).Nodup
  | .commit n => n ∈ c.ownerIds ∧ n ≠ A.root ∧ ∀ m ∈ c.ownerIds, n ∈ A.path m → committed m

/-- Every event of the history was allowed when it happened. -/
def Valid (committed : ι → Prop) (h : List (Event ι κ V M)) : Prop :=
  ∀ p e, p ++ [e] <+: h → Allowed A committed (replay A p) e

section

variable {A} {committed : ι → Prop} {h p : List (Event ι κ V M)} {e : Event ι κ V M} {n : ι}

@[simp] theorem replay_append_singleton : replay A (h ++ [e]) = apply A (replay A h) e := by
  simp [replay]

theorem valid_nil : Valid A committed ([] : List (Event ι κ V M)) := by
  intro p e hp
  simp at hp

theorem valid_snoc : Valid A committed (h ++ [e]) ↔
    Valid A committed h ∧ Allowed A committed (replay A h) e := by
  constructor
  · intro hv
    exact ⟨fun p e' hp => hv p e' (hp.trans (List.prefix_append h [e])),
      hv h e (List.prefix_refl _)⟩
  · rintro ⟨hv, ha⟩ p e' hp
    rcases List.prefix_concat_iff.mp hp with heq | hp
    · obtain ⟨rfl, he⟩ := List.append_inj' heq rfl
      cases he
      exact ha
    · exact hv p e' hp

theorem Valid.of_isPrefix (hv : Valid A committed h) (hp : p <+: h) : Valid A committed p :=
  fun q e hq => hv q e (hq.trans hp)

/-- Transactions only ever become committed. -/
theorem Valid.mono {committed' : ι → Prop} (hc : ∀ n, committed n → committed' n)
    (hv : Valid A committed h) : Valid A committed' h := by
  intro p e hp
  have ha := hv p e hp
  cases e with
  | commit n => exact ⟨ha.1, ha.2.1, fun m hm hnm => hc m (ha.2.2 m hm hnm)⟩
  | claim n mode => exact ha
  | load n v => exact ha
  | upgrade n => exact ha
  | store n w => exact ha

/-! ## Who owns the state -/

/-- The owner is a transaction with all its ancestors, or nobody before the first claim. -/
theorem owner_path (hv : Valid A committed h) :
    h = [] ∨ ∃ m, (replay A h).ownerIds = A.path m := by
  induction h using List.reverseRecOn with
  | nil => exact .inl rfl
  | append_singleton h e ih =>
    obtain ⟨hv', ha⟩ := valid_snoc.mp hv
    rw [replay_append_singleton]
    right
    cases e with
    | claim n mode => exact ⟨n, rfl⟩
    | load n v => exact ⟨n, ha⟩
    | upgrade n => exact ⟨n, ha⟩
    | store n w => exact ⟨n, ha.1⟩
    | commit n =>
      obtain ⟨hn, hroot, -⟩ := ha
      rcases ih hv' with rfl | ⟨m, hm⟩
      · cases hn
      · rw [hm] at hn
        obtain ⟨p, -, hp⟩ := A.get_before hn hroot
        refine ⟨p, ?_⟩
        show (replay A h).ownerIds.take ((replay A h).ownerIds.idxOf n) = A.path p
        rw [hm, A.take_idxOf hn, hp]

theorem eq_nil_of_owner (hv : Valid A committed h) (ho : (replay A h).ownerIds = []) : h = [] := by
  rcases owner_path hv with rfl | ⟨m, hm⟩
  · rfl
  · exact absurd (hm ▸ ho) (A.path_ne_nil m)

/-- Ownership goes back from `n` to the proper ancestors of `n`. -/
theorem commit_owner (hv : Valid A committed h) (hn : n ∈ (replay A h).ownerIds) :
    (replay A h).ownerIds.take ((replay A h).ownerIds.idxOf n) = (A.path n).dropLast := by
  rcases owner_path hv with rfl | ⟨m, hm⟩
  · cases hn
  · rw [hm] at hn ⊢
    exact A.take_idxOf hn

/-- An owner got there by a claim within it. -/
theorem claimed_of_owner (hn : n ∈ (replay A h).ownerIds) :
    ∃ e ∈ h, claimsWithin A n e = true := by
  induction h using List.reverseRecOn with
  | nil => cases hn
  | append_singleton h e ih =>
    rw [replay_append_singleton] at hn
    have hold : n ∈ (replay A h).ownerIds → ∃ e' ∈ h ++ [e], claimsWithin A n e' = true := by
      intro hmem
      obtain ⟨e', he', hc⟩ := ih hmem
      exact ⟨e', List.mem_append_left _ he', hc⟩
    cases e with
    | claim m mode =>
      exact ⟨.claim m mode, by simp, by simpa [claimsWithin, apply] using hn⟩
    | load m v => exact hold hn
    | upgrade m => exact hold hn
    | store m w => exact hold hn
    | commit m => exact hold (List.mem_of_mem_take hn)

/-- Two owners are one within the other. -/
theorem owner_linear (hv : Valid A committed h) {m : ι} (hn : n ∈ (replay A h).ownerIds)
    (hm : m ∈ (replay A h).ownerIds) : n ∈ A.path m ∨ m ∈ A.path n := by
  rcases owner_path hv with rfl | ⟨k, hk⟩
  · cases hn
  · rw [hk] at hn hm
    exact A.linear hn hm

/-- What an event allowed while an uncommitted `n` owns the state happens within `n`. -/
theorem within_of_owner (hv : Valid A committed h) (ha : Allowed A committed (replay A h) e)
    (hc : ¬ committed n) (hn : n ∈ (replay A h).ownerIds) : n ∈ A.path e.within := by
  cases e with
  | claim m mode => exact ha.1.subset hn
  | load m v => exact ha ▸ hn
  | upgrade m => exact ha ▸ hn
  | store m w => exact ha.1 ▸ hn
  | commit m =>
    rcases owner_linear hv hn ha.1 with h | h
    · exact h
    · exact absurd (ha.2.2 n hn h) hc

/-- A transaction that has not committed owns the state from the first claim within it on. -/
theorem owner_of_claimed (hv : Valid A committed h) (hc : ¬ committed n)
    (hclaim : ∃ e ∈ h, claimsWithin A n e = true) : n ∈ (replay A h).ownerIds := by
  induction h using List.reverseRecOn with
  | nil =>
    obtain ⟨e, he, -⟩ := hclaim
    cases he
  | append_singleton h e ih =>
    obtain ⟨hv', ha⟩ := valid_snoc.mp hv
    obtain ⟨e', he', hclaim'⟩ := hclaim
    rw [replay_append_singleton]
    rcases List.mem_append.mp he' with hmem | hmem
    · have hn := ih hv' ⟨e', hmem, hclaim'⟩
      have hwithin := within_of_owner hv' ha hc hn
      cases e with
      | claim m mode => exact hwithin
      | load m v => exact hn
      | upgrade m => exact hn
      | store m w => exact hn
      | commit m =>
        have hne : n ≠ m := by
          rintro rfl
          exact hc (ha.2.2 n hn (A.self_mem n))
        show n ∈ (replay A h).ownerIds.take ((replay A h).ownerIds.idxOf m)
        rw [commit_owner hv' ha.1]
        exact A.mem_dropLast.mpr ⟨hwithin, hne⟩
    · rw [List.mem_singleton] at hmem
      subst hmem
      cases e' with
      | claim m mode => simpa [claimsWithin, apply] using hclaim'
      | load | upgrade | store | commit => cases hclaim'

/-! ## What is undone -/

omit [DecidableEq κ] in
theorem undo_isPrefix : undo A n h <+: h := List.takeWhile_prefix _

omit [DecidableEq κ] in
theorem undo_eq_self (hno : ¬ ∃ e ∈ h, claimsWithin A n e = true) : undo A n h = h := by
  refine List.takeWhile_eq_self_iff.mpr fun e he => ?_
  simpa using fun hc => hno ⟨e, he, hc⟩

omit [DecidableEq κ] in
theorem not_claimed_undo : ¬ ∃ e ∈ undo A n h, claimsWithin A n e = true := by
  rintro ⟨e, he, hc⟩
  have hall := List.all_takeWhile (p := fun e => !claimsWithin A n e) (l := h)
  rw [List.all_eq_true] at hall
  have := hall e he
  rw [hc] at this
  cases this

omit [DecidableEq κ] in
/-- A claim within `n` stands at the cut. -/
theorem undo_split (hclaim : ∃ e ∈ h, claimsWithin A n e = true) :
    ∃ m mode rest, h = undo A n h ++ .claim m mode :: rest ∧ n ∈ A.path m := by
  have hsplit : undo A n h ++ h.dropWhile (fun e => !claimsWithin A n e) = h :=
    List.takeWhile_append_dropWhile
  cases hd : h.dropWhile (fun e => !claimsWithin A n e) with
  | nil =>
    rw [hd, List.append_nil] at hsplit
    exact absurd (hsplit.symm ▸ hclaim) (not_claimed_undo (h := h))
  | cons e rest =>
    have hhead : claimsWithin A n e = true := by
      have := List.head?_dropWhile_not (fun e => !claimsWithin A n e) h
      rw [hd] at this
      simpa using this
    rw [hd] at hsplit
    cases e with
    | claim m mode => exact ⟨m, mode, rest, hsplit.symm, by simpa [claimsWithin] using hhead⟩
    | load | upgrade | store | commit => cases hhead

omit [DecidableEq κ] in
/-- The cut only depends on the history up to the first claim. -/
theorem undo_of_isPrefix (hp : p <+: h) (hclaim : ∃ e ∈ p, claimsWithin A n e = true) :
    undo A n h = undo A n p := by
  obtain ⟨rest, rfl⟩ := hp
  obtain ⟨m, mode, q, hsplit, hm⟩ := undo_split hclaim
  have hstop : (!claimsWithin A n (.claim m mode : Event ι κ V M)) = false := by
    simpa [claimsWithin] using hm
  have hcut : ∀ r, undo A n (undo A n p ++ .claim m mode :: r) = undo A n p := by
    intro r
    have hall : ∀ e ∈ undo A n p, (!claimsWithin A n e) = true := by
      intro e he
      simpa using fun hc => not_claimed_undo ⟨e, he, hc⟩
    rw [undo, List.takeWhile_append_of_pos hall, List.takeWhile_cons_of_neg (by simp [hstop]),
      List.append_nil]
  nth_rewrite 1 [hsplit]
  rw [List.append_assoc, List.cons_append, hcut]

omit [DecidableEq κ] in
/-- The cut at the first claim within `n`. -/
theorem undo_claim {m : ι} {mode : Mode} (hno : ¬ ∃ e ∈ h, claimsWithin A n e = true)
    (hm : n ∈ A.path m) : undo A n (h ++ [.claim m mode]) = h := by
  have hstop : ¬ (!claimsWithin A n (.claim m mode : Event ι κ V M)) = true := by
    simpa [claimsWithin] using hm
  have hall : ∀ e ∈ h, (!claimsWithin A n e) = true := by
    intro e he
    simpa using fun hc => hno ⟨e, he, hc⟩
  rw [undo, List.takeWhile_append_of_pos hall, List.takeWhile_cons_of_neg (by exact hstop),
    List.append_nil]

omit [DecidableEq κ] in
/-- Nothing is kept from a claim within `n` on. -/
theorem undo_prefix_of_claim {m : ι} {mode : Mode} (hp : p ++ [.claim m mode] <+: h)
    (hm : n ∈ A.path m) : undo A n h <+: p := by
  have hclaim : ∃ e ∈ p ++ [.claim m mode], claimsWithin A n e = true :=
    ⟨.claim m mode, by simp, by simpa [claimsWithin] using hm⟩
  have hpre : undo A n h <+: p ++ [.claim m mode] := by
    rw [undo_of_isPrefix hp hclaim]
    exact undo_isPrefix
  rcases List.prefix_concat_iff.mp hpre with heq | hpre
  · exact absurd (heq ▸ hclaim) not_claimed_undo
  · exact hpre

/-- Everything that undoing an uncommitted `n` takes back happened within `n`. -/
theorem within_of_claimed (hv : Valid A committed h) (hc : ¬ committed n) (he : e ∈ h)
    (hnot : e ∉ undo A n h) : n ∈ A.path e.within := by
  have hclaim : ∃ e ∈ h, claimsWithin A n e = true := by
    by_contra hno
    rw [undo_eq_self hno] at hnot
    exact hnot he
  obtain ⟨m, mode, rest, hsplit, hm⟩ := undo_split hclaim
  rw [hsplit] at he
  rcases List.mem_append.mp he with hmem | hmem
  · exact absurd hmem hnot
  · rcases List.mem_cons.mp hmem with rfl | hmem
    · exact hm
    · -- an event behind the claim: `n` was an owner when it happened
      obtain ⟨q, q', rfl⟩ := List.append_of_mem hmem
      have hp : (undo A n h ++ .claim m mode :: q) ++ [e] <+: h := by
        refine ⟨q', ?_⟩
        nth_rewrite 2 [hsplit]
        simp
      have hvp : Valid A committed (undo A n h ++ .claim m mode :: q) :=
        hv.of_isPrefix ((List.prefix_append _ [e]).trans hp)
      refine within_of_owner hvp (hv _ _ hp) hc (owner_of_claimed hvp hc ?_)
      exact ⟨.claim m mode, by simp, by simpa [claimsWithin] using hm⟩

/-! ## What is only ever added -/

theorem foldl_putKey {M : Type} (l : List (κ × M)) :
    ∀ (es : List (κ × M)), ((l ++ es).map (·.1)).Nodup → es.foldl putKey l = l ++ es := by
  intro es
  induction es generalizing l with
  | nil =>
    intro _
    simp
  | cons x es ih =>
    intro hnd
    have hx : x.1 ∉ l.map (·.1) := by
      intro hmem
      rw [List.map_append, List.map_cons] at hnd
      exact absurd rfl ((List.nodup_append.mp hnd).2.2 x.1 hmem x.1 List.mem_cons_self)
    have hput : putKey l x = l ++ [x] := by
      unfold putKey
      rw [if_neg hx]
    rw [List.foldl_cons, hput, ih (l ++ [x]) (by simpa using hnd)]
    simp

/-- The uuids in the contents differ. -/
def Distinct (c : Contents ι κ V M) : Prop :=
  (c.tasks.map (·.1)).Nodup ∧ (c.idempotentMutations.map (·.1)).Nodup

omit [DecidableEq ι] in
/-- A store under new uuids appends. -/
theorem write_append {c : Contents ι κ V M} {w : Writes κ V M}
    (hm : ((c.idempotentMutations ++ w.idempotentMutations).map (·.1)).Nodup) :
    (c.write w).idempotentMutations = c.idempotentMutations ++ w.idempotentMutations :=
  foldl_putKey _ _ hm

theorem distinct (hv : Valid A committed h) : Distinct (replay A h) := by
  induction h using List.reverseRecOn with
  | nil => exact ⟨List.nodup_nil, List.nodup_nil⟩
  | append_singleton h e ih =>
    obtain ⟨hv', ha⟩ := valid_snoc.mp hv
    rw [replay_append_singleton]
    cases e with
    | claim m mode => exact ih hv'
    | load m v => exact ih hv'
    | upgrade m => exact ih hv'
    | commit m => exact ih hv'
    | store m w =>
      obtain ⟨-, ht, hm⟩ := ha
      refine ⟨ht, ?_⟩
      show ((Contents.write (replay A h) w).idempotentMutations.map (·.1)).Nodup
      rw [write_append hm]
      exact hm

/-- What one event keeps of the contents before it. -/
structure Grows (c c' : Contents ι κ V M) : Prop where
  tasks : c.tasks <+: c'.tasks
  idempotentMutations : c.idempotentMutations <+: c'.idempotentMutations
  mode : c.mode = .exclusive → c'.mode = .exclusive
  state : c.state.isSome → c'.state.isSome

theorem apply_grows {c : Contents ι κ V M} (ha : Allowed A committed c e) :
    Grows c (apply A c e) := by
  cases e with
  | claim m mode => exact ⟨List.prefix_refl _, List.prefix_refl _, ha.2, id⟩
  | load m v =>
    refine ⟨List.prefix_refl _, List.prefix_refl _, id, fun h => ?_⟩
    show (c.state.or (some v)).isSome
    simp
  | upgrade m => exact ⟨List.prefix_refl _, List.prefix_refl _, fun _ => rfl, id⟩
  | commit m => exact ⟨List.prefix_refl _, List.prefix_refl _, id, id⟩
  | store m w =>
    refine ⟨List.prefix_append _ _, ?_, id, fun h => ?_⟩
    · show c.idempotentMutations <+: (c.write w).idempotentMutations
      rw [write_append ha.2.2]
      exact List.prefix_append _ _
    · show (w.state.or c.state).isSome
      simp [h]

theorem replay_grows (hv : Valid A committed h) (hp : p <+: h) :
    Grows (replay A p) (replay A h) := by
  induction h using List.reverseRecOn with
  | nil =>
    rw [List.prefix_nil.mp hp]
    exact ⟨List.prefix_refl _, List.prefix_refl _, id, id⟩
  | append_singleton h e ih =>
    obtain ⟨hv', ha⟩ := valid_snoc.mp hv
    rcases List.prefix_concat_iff.mp hp with rfl | hp
    · exact ⟨List.prefix_refl _, List.prefix_refl _, id, id⟩
    · have hold := ih hv' hp
      have hnew := apply_grows ha
      rw [replay_append_singleton]
      exact ⟨hold.tasks.trans hnew.tasks,
        hold.idempotentMutations.trans hnew.idempotentMutations,
        fun h => hnew.mode (hold.mode h), fun h => hnew.state (hold.state h)⟩

end

end Reboot.Txn.Nested
