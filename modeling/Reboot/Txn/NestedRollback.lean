import Reboot.Lib.Run
import Reboot.Txn.Deadlock
import Reboot.Txn.NestedHistory

/-!
# The snapshots of a transaction undo nested transactions exactly

`StateManager.Transaction` keeps a stack of snapshots: one is pushed when a nested
transaction claims a state it does not own yet, and `relinquish_ownership` goes back to
the oldest one that was taken within the transaction that aborts. A transaction that
commits may leave its snapshot behind for an ancestor that has none of its own.

Here the transactions of one root claim, read and write a state and finish, and the
messages that tell the state about it are delivered in any order and any number of
times. `nested_rollback_exact` compares the contents with `NestedHistory`: an abort
restores what was there before the first claim in the subtree and nothing else is lost,
as long as the rules of ownership are kept. `relinquish_ownership` and
`claim_ownership` do not enforce two of them, and the runs behind the theorem show what
follows.

Mirroring notes:
- The nested transactions of the root are a tree, given by the `transaction_ids` of each.
- `relinquish` delivers the message of a transaction that has finished. The message of a
  parent may overtake those of its children: they are sent by tasks of their own.
- An assertion that fails is `none`.
- A snapshot has the state's bytes, of mutations and tasks only the uuids.
- `lock` is the mode in which the transaction has the state's `Lock`.
-/

namespace Reboot.Txn.Nested

open Reboot.Lib

/-- `Transaction.Snapshot`. -/
structure Snapshot (ι κ V : Type) where
  transactionIds : List ι
  ownerIds : List ι
  mode : Mode
  state : Option V
  idempotentMutationKeys : List κ
  taskUuids : List κ
  deriving DecidableEq

/-- A `StateManager.Transaction` and its hold of the state's lock. -/
structure Participant (ι κ V M : Type) where
  contents : Contents ι κ V M
  snapshots : List (Snapshot ι κ V)
  lock : Mode
  deriving DecidableEq

section Code

variable {ι κ V M : Type} [LinearOrder ι] [DecidableEq κ]

omit [DecidableEq κ] in
/-- The snapshot `_push_snapshot` takes. If nobody has used the state before, the mode to
go back to is shared. -/
def snapshotOf (c : Contents ι κ V M) (transactionIds : List ι) : Snapshot ι κ V where
  transactionIds := transactionIds
  ownerIds := c.ownerIds
  mode := if c.ownerIds = [] then .shared else c.mode
  state := c.state
  idempotentMutationKeys := c.idempotentMutations.map (·.1)
  taskUuids := c.tasks.map (·.1)

/-- `claim_ownership`, once the caller does not have to wait any more. -/
def claimOwnership (x : Participant ι κ V M) (transactionIds : List ι) :
    Option (Participant ι κ V M) :=
  if isClaimableBy x.contents.ownerIds transactionIds then
    if x.contents.ownerIds = transactionIds then some x
    else
      some { x with
        contents := { x.contents with ownerIds := transactionIds }
        snapshots :=
          if transactionIds.length > 1 then
            x.snapshots ++ [snapshotOf x.contents transactionIds]
          else x.snapshots }
  else none

/-- Whether a snapshot, found behind the given older ones, is not needed any more. -/
def isUnneeded (older : List (Snapshot ι κ V)) (snapshot : Snapshot ι κ V) (n : ι)
    (aborted : Bool) : Bool :=
  aborted ||
    let depth := snapshot.transactionIds.idxOf n
    decide (depth = 1) ||
      (snapshot.transactionIds[depth - 1]?).any fun parent =>
        older.any fun o => decide (parent ∈ o.transactionIds)

/-- `_maybe_pop_snapshot`: the oldest snapshot taken within `n`, and what stays. -/
def maybePopSnapshot (snapshots : List (Snapshot ι κ V)) (n : ι) (aborted : Bool) :
    Option (Snapshot ι κ V × List (Snapshot ι κ V)) :=
  let older := snapshots.takeWhile fun s => decide (n ∉ s.transactionIds)
  match snapshots[older.length]? with
  | some snapshot =>
    some (snapshot, if isUnneeded older snapshot n aborted then older else snapshots)
  | none => none

/-- `_rollback`. -/
def rollback (x : Participant ι κ V M) (s : Snapshot ι κ V) : Option (Participant ι κ V M) :=
  -- `assert self.state is not None`
  if s.state.isSome ∧ x.contents.state.isNone then none
  else
    some { x with
      contents := {
        state := s.state
        tasks := x.contents.tasks.filter fun t => decide (t.1 ∈ s.taskUuids)
        idempotentMutations :=
          x.contents.idempotentMutations.filter fun m => decide (m.1 ∈ s.idempotentMutationKeys)
        ownerIds := s.ownerIds
        mode := s.mode }
      lock := if x.contents.mode = .exclusive ∧ s.mode = .shared then .shared else x.lock }

/-- `relinquish_ownership`. -/
def relinquishOwnership (x : Participant ι κ V M) (n : ι) (aborted : Bool) :
    Option (Participant ι κ V M) :=
  if n ∉ x.contents.ownerIds then some x
  else
    match maybePopSnapshot x.snapshots n aborted with
    -- "Snapshot missing when nested transaction is still owner"
    | none => none
    | some (s, snapshots) =>
      if aborted then rollback { x with snapshots := snapshots } s
      else
        some { x with
          contents := { x.contents with
            ownerIds := x.contents.ownerIds.take (x.contents.ownerIds.idxOf n) }
          snapshots := snapshots }

end Code

/-! ## The stack and the history

Each snapshot on the stack belongs to a claim of the history: it is the snapshot of what
the history before that claim amounts to. The stack is allowed to miss claims, but not
the first one of a transaction that may still abort.
-/

section Stack

variable {ι κ V M : Type} [LinearOrder ι] [DecidableEq κ]

/-- A snapshot, and the history before the claim it was taken at. -/
abbrev Mark (ι κ V M : Type) := List (Event ι κ V M) × Snapshot ι κ V

/-- The marked snapshots are a stack for the history. -/
structure Stacked (A : Ancestry ι) (committed : ι → Prop) (h : List (Event ι κ V M))
    (stack : List (Mark ι κ V M)) : Prop where
  taken : ∀ x ∈ stack, ∃ m mode, x.1 ++ [.claim m mode] <+: h ∧
    x.2 = snapshotOf (replay A x.1) (A.path m)
  sorted : stack.Pairwise fun x y => x.1.length < y.1.length
  first : ∀ n, n ≠ A.root → ¬ committed n → (∃ e ∈ h, claimsWithin A n e = true) →
    ∃ x ∈ stack, x.1 = undo A n h
  covered : ∀ n ∈ (replay A h).ownerIds, n ≠ A.root → ∃ x ∈ stack, n ∈ x.2.transactionIds
  coveredBefore : ∀ older x newer, stack = older ++ x :: newer →
    ∀ n ∈ x.2.ownerIds, n ≠ A.root → ∃ y ∈ older, n ∈ y.2.transactionIds

variable {A : Ancestry ι} {committed : ι → Prop} {h : List (Event ι κ V M)}
  {stack : List (Mark ι κ V M)} {e : Event ι κ V M} {n m : ι}

theorem stacked_nil : Stacked A committed ([] : List (Event ι κ V M)) [] where
  taken x hx := by cases hx
  sorted := List.Pairwise.nil
  first n _ _ hclaim := by
    obtain ⟨e, he, -⟩ := hclaim
    cases he
  covered n hn := by cases hn
  coveredBefore older x newer heq := by
    have := congrArg List.length heq
    simp at this

/-- More transactions have committed. -/
theorem Stacked.mono {committed' : ι → Prop} (hc : ∀ n, committed n → committed' n)
    (hs : Stacked A committed h stack) : Stacked A committed' h stack :=
  { hs with first := fun n hroot hn => hs.first n hroot (fun h => hn (hc n h)) }

theorem Stacked.length_lt (hs : Stacked A committed h stack) {x : Mark ι κ V M}
    (hx : x ∈ stack) : x.1.length < h.length := by
  obtain ⟨m, mode, hp, -⟩ := hs.taken x hx
  have := hp.length_le
  simp at this
  omega

/-- A mark that is not longer than one in the beginning of the stack is in the beginning. -/
theorem Stacked.mem_older (hs : Stacked A committed h stack) {older newer : List (Mark ι κ V M)}
    (hsplit : stack = older ++ newer) {x y : Mark ι κ V M} (hx : x ∈ stack) (hy : y ∈ older)
    (hle : x.1.length ≤ y.1.length) : x ∈ older := by
  have hsorted := hs.sorted
  rw [hsplit] at hx hsorted
  rcases List.mem_append.mp hx with hx | hx
  · exact hx
  · have hlt := (List.pairwise_append.mp hsorted).2.2 y hy x hx
    omega

/-- An event that is not a claim by a nested transaction, and after which no new nested
transaction owns the state. -/
theorem Stacked.snoc (hs : Stacked A committed h stack)
    (he : ∀ n, n ≠ A.root → claimsWithin A n e = false)
    (howner : ∀ n ∈ (apply A (replay A h) e).ownerIds, n ≠ A.root → n ∈ (replay A h).ownerIds) :
    Stacked A committed (h ++ [e]) stack where
  taken x hx := by
    obtain ⟨m, mode, hp, hx2⟩ := hs.taken x hx
    exact ⟨m, mode, hp.trans (List.prefix_append h [e]), hx2⟩
  sorted := hs.sorted
  first n hroot hn hclaim := by
    have hold : ∃ e' ∈ h, claimsWithin A n e' = true := by
      obtain ⟨e', he', hc⟩ := hclaim
      rcases List.mem_append.mp he' with he' | he'
      · exact ⟨e', he', hc⟩
      · rw [List.mem_singleton.mp he', he n hroot] at hc
        cases hc
    rw [undo_of_isPrefix (List.prefix_append h [e]) hold]
    exact hs.first n hroot hn hold
  covered n hn hroot := by
    rw [replay_append_singleton] at hn
    exact hs.covered n (howner n hn hroot) hroot
  coveredBefore := hs.coveredBefore

/-- A claim by a nested transaction pushes its snapshot. -/
theorem Stacked.claim (hs : Stacked A committed h stack) (mode : Mode) :
    Stacked A committed (h ++ [.claim m mode])
      (stack ++ [(h, snapshotOf (replay A h) (A.path m))]) where
  taken x hx := by
    rcases List.mem_append.mp hx with hx | hx
    · obtain ⟨m', mode', hp, hx2⟩ := hs.taken x hx
      exact ⟨m', mode', hp.trans (List.prefix_append h _), hx2⟩
    · rw [List.mem_singleton.mp hx]
      exact ⟨m, mode, List.prefix_refl _, rfl⟩
  sorted := by
    refine List.pairwise_append.mpr ⟨hs.sorted, List.pairwise_singleton _ _, fun x hx y hy => ?_⟩
    rw [List.mem_singleton.mp hy]
    exact hs.length_lt hx
  first n hroot hn hclaim := by
    by_cases hold : ∃ e ∈ h, claimsWithin A n e = true
    · obtain ⟨x, hx, hx1⟩ := hs.first n hroot hn hold
      refine ⟨x, List.mem_append_left _ hx, ?_⟩
      rw [undo_of_isPrefix (List.prefix_append h _) hold, hx1]
    · -- this claim is the first one within `n`
      refine ⟨_, List.mem_append_right _ (List.mem_singleton_self _), ?_⟩
      obtain ⟨e, he, hc⟩ := hclaim
      rcases List.mem_append.mp he with he | he
      · exact absurd ⟨e, he, hc⟩ hold
      · rw [List.mem_singleton.mp he] at hc
        exact (undo_claim hold (by simpa [claimsWithin] using hc)).symm
  covered n hn hroot := by
    rw [replay_append_singleton] at hn
    exact ⟨_, List.mem_append_right _ (List.mem_singleton_self _), hn⟩
  coveredBefore older x newer heq n hn hroot := by
    cases newer using List.reverseRecOn with
    | nil =>
      obtain ⟨rfl, hx⟩ := List.append_inj' heq rfl
      cases hx
      exact hs.covered n hn hroot
    | append_singleton newer y =>
      have heq' : stack ++ [(h, snapshotOf (replay A h) (A.path m))] =
          (older ++ x :: newer) ++ [y] := by
        rw [heq]
        simp
      obtain ⟨hstack, -⟩ := List.append_inj' heq' rfl
      exact hs.coveredBefore older x newer hstack n hn hroot

/-- Ownership goes back from `n`, and what is left of the stack still has a snapshot within
every proper ancestor of `n`. -/
theorem Stacked.commit (hs : Stacked A committed h stack) (hv : Valid A committed h)
    (ha : Allowed A committed (replay A h) (.commit n)) {older newer : List (Mark ι κ V M)}
    (hsplit : stack = older ++ newer)
    (hcov : ∀ a ∈ (A.path n).dropLast, a ≠ A.root → ∃ y ∈ older, a ∈ y.2.transactionIds) :
    Stacked A committed (h ++ [.commit n]) older where
  taken x hx := by
    obtain ⟨m, mode, hp, hx2⟩ := hs.taken x (hsplit ▸ List.mem_append_left _ hx)
    exact ⟨m, mode, hp.trans (List.prefix_append h _), hx2⟩
  sorted := (List.pairwise_append.mp (hsplit ▸ hs.sorted)).1
  first k hroot hk hclaim := by
    have hold : ∃ e ∈ h, claimsWithin A k e = true := by
      obtain ⟨e, he, hc⟩ := hclaim
      rcases List.mem_append.mp he with he | he
      · exact ⟨e, he, hc⟩
      · rw [List.mem_singleton.mp he] at hc
        cases hc
    obtain ⟨x, hx, hx1⟩ := hs.first k hroot hk hold
    refine ⟨x, ?_, by rw [undo_of_isPrefix (List.prefix_append h _) hold, hx1]⟩
    -- `k` may still abort, so it is a proper ancestor of `n`
    have howner := owner_of_claimed hv hk hold
    have hwithin : k ∈ A.path n := within_of_owner hv ha hk howner
    have hne : k ≠ n := by
      rintro rfl
      exact hk (ha.2.2 k howner (A.self_mem k))
    obtain ⟨y, hy, hky⟩ := hcov k (A.mem_dropLast.mpr ⟨hwithin, hne⟩) hroot
    obtain ⟨m, mode, hp, hy2⟩ := hs.taken y (hsplit ▸ List.mem_append_left _ hy)
    rw [hy2] at hky
    have hle := (undo_prefix_of_claim hp hky).length_le
    exact hs.mem_older hsplit hx hy (hx1 ▸ hle)
  covered k hk hroot := by
    rw [replay_append_singleton] at hk
    have hk' : k ∈ (A.path n).dropLast := commit_owner hv ha.1 ▸ hk
    exact hcov k hk' hroot
  coveredBefore older' x newer' heq :=
    hs.coveredBefore older' x (newer' ++ newer) (by rw [hsplit, heq]; simp)

/-- The snapshot taken at the first claim within `n` is the oldest one within `n`. -/
theorem Stacked.oldest (hs : Stacked A committed h stack)
    (hclaim : ∃ e ∈ h, claimsWithin A n e = true) {older newer : List (Mark ι κ V M)}
    {x : Mark ι κ V M} (hsplit : stack = older ++ x :: newer) (hx : x.1 = undo A n h) :
    n ∈ x.2.transactionIds ∧ ∀ y ∈ older, n ∉ y.2.transactionIds := by
  constructor
  · obtain ⟨m, mode, hp, hx2⟩ := hs.taken x (by rw [hsplit]; simp)
    obtain ⟨m', mode', rest, hsplit', hm'⟩ := undo_split hclaim
    have hp' : x.1 ++ [.claim m' mode'] <+: h := ⟨rest, by rw [hx, List.append_assoc]; exact hsplit'.symm⟩
    have heq := (List.prefix_of_prefix_length_le hp hp' (by simp)).eq_of_length (by simp)
    obtain ⟨-, hlast⟩ := List.append_inj' heq rfl
    cases hlast
    rw [hx2]
    exact hm'
  · intro y hy hny
    obtain ⟨m, mode, hp, hy2⟩ := hs.taken y (by rw [hsplit]; exact List.mem_append_left _ hy)
    rw [hy2] at hny
    have hle := (undo_prefix_of_claim hp hny).length_le
    have hlt := (List.pairwise_append.mp (hsplit ▸ hs.sorted)).2.2 y hy x List.mem_cons_self
    rw [hx] at hlt
    omega

/-- Undoing `n` leaves the part of the stack below its oldest snapshot. -/
theorem Stacked.undo (hs : Stacked A committed h stack) {older newer : List (Mark ι κ V M)}
    {x : Mark ι κ V M} (hsplit : stack = older ++ x :: newer) (hx : x.1 = undo A n h) :
    Stacked A committed (undo A n h) older where
  taken y hy := by
    obtain ⟨m, mode, hp, hy2⟩ := hs.taken y (by rw [hsplit]; exact List.mem_append_left _ hy)
    have hlt := (List.pairwise_append.mp (hsplit ▸ hs.sorted)).2.2 y hy x List.mem_cons_self
    refine ⟨m, mode, List.prefix_of_prefix_length_le hp undo_isPrefix ?_, hy2⟩
    rw [hx] at hlt
    simpa using hlt
  sorted := (List.pairwise_append.mp (hsplit ▸ hs.sorted)).1
  first k hroot hk hclaim := by
    have hsame := undo_of_isPrefix (h := h) undo_isPrefix hclaim
    have hold : ∃ e ∈ h, claimsWithin A k e = true := by
      obtain ⟨e, he, hc⟩ := hclaim
      exact ⟨e, undo_isPrefix.subset he, hc⟩
    obtain ⟨y, hy, hy1⟩ := hs.first k hroot hk hold
    refine ⟨y, ?_, hy1.trans hsame⟩
    -- the cut of `k` is shorter than the one of `n`, which has a claim within `k`
    have hlt : y.1.length < x.1.length := by
      obtain ⟨m, mode, rest, hs', -⟩ := undo_split hclaim
      have hlen := congrArg List.length hs'
      rw [hy1, hsame, hx]
      simp at hlen
      omega
    rw [hsplit] at hy
    rcases List.mem_append.mp hy with hy | hy
    · exact hy
    · rcases List.mem_cons.mp hy with rfl | hy
      · omega
      · have hsorted := (List.pairwise_append.mp (hsplit ▸ hs.sorted)).2.1
        have := (List.pairwise_cons.mp hsorted).1 y hy
        omega
  covered k hk hroot := by
    obtain ⟨m, mode, -, hx2⟩ := hs.taken x (by rw [hsplit]; simp)
    refine hs.coveredBefore older x newer hsplit k ?_ hroot
    rw [hx2, hx]
    exact hk
  coveredBefore older' y newer' heq :=
    hs.coveredBefore older' y (newer' ++ x :: newer) (by rw [hsplit, heq]; simp)

/-! ## What the code finds on the stack -/

omit [DecidableEq κ] in
theorem maybePopSnapshot_split {older newer : List (Mark ι κ V M)} {x : Mark ι κ V M}
    (hx : n ∈ x.2.transactionIds) (hold : ∀ y ∈ older, n ∉ y.2.transactionIds)
    (aborted : Bool) :
    maybePopSnapshot ((older ++ x :: newer).map (·.2)) n aborted =
      some (x.2, if isUnneeded (older.map (·.2)) x.2 n aborted then older.map (·.2)
        else (older ++ x :: newer).map (·.2)) := by
  have htake : ((older ++ x :: newer).map (·.2)).takeWhile
      (fun s => decide (n ∉ s.transactionIds)) = older.map (·.2) := by
    rw [List.map_append, List.map_cons, List.takeWhile_append_of_pos, List.takeWhile_cons_of_neg,
      List.append_nil]
    · simpa using hx
    · intro s hs
      obtain ⟨y, hy, rfl⟩ := List.mem_map.mp hs
      simpa using hold y hy
  have hget : ((older ++ x :: newer).map (·.2))[(older.map (·.2)).length]? = some x.2 := by
    rw [List.map_append, List.getElem?_append_right (Nat.le_refl _), Nat.sub_self]
    rfl
  simp only [maybePopSnapshot, htake, hget]

omit [DecidableEq κ] in
/-- A nested owner has an oldest snapshot. -/
theorem exists_oldest (hn : ∃ x ∈ stack, n ∈ x.2.transactionIds) :
    ∃ older x newer, stack = older ++ x :: newer ∧ n ∈ x.2.transactionIds ∧
      ∀ y ∈ older, n ∉ y.2.transactionIds := by
  have hfind : (stack.find? fun x => decide (n ∈ x.2.transactionIds)).isSome := by
    rw [List.find?_isSome]
    simpa using hn
  obtain ⟨x, hx⟩ := Option.isSome_iff_exists.mp hfind
  obtain ⟨hmem, older, newer, hsplit, hold⟩ := List.find?_eq_some_iff_append.mp hx
  exact ⟨older, x, newer, hsplit, by simpa using hmem, by simpa using hold⟩

/-- A snapshot that is dropped at a commit is not the last one within a proper ancestor. -/
theorem covered_of_unneeded (hs : Stacked A committed h stack)
    {older newer : List (Mark ι κ V M)} {x : Mark ι κ V M} (hsplit : stack = older ++ x :: newer)
    (hx : n ∈ x.2.transactionIds) (hroot : n ≠ A.root)
    (hun : isUnneeded (older.map (·.2)) x.2 n false = true) :
    ∀ a ∈ (A.path n).dropLast, a ≠ A.root → ∃ y ∈ older, a ∈ y.2.transactionIds := by
  intro a ha haroot
  obtain ⟨m, mode, -, hx2⟩ := hs.taken x (by rw [hsplit]; simp)
  have hids : x.2.transactionIds = A.path m := by rw [hx2]; rfl
  rw [hids] at hx
  obtain ⟨p, hget, hp⟩ := A.get_before hx hroot
  simp only [isUnneeded, hids, hget, Bool.false_or, Bool.or_eq_true, decide_eq_true_eq,
    Option.any_some, List.any_map, List.any_eq_true, Function.comp_apply] at hun
  rcases hun with hdepth | ⟨y, hy, hpy⟩
  · -- `n` is an outermost nested transaction: its only proper ancestor is the root
    rw [A.idxOf_path hx] at hdepth
    obtain ⟨r, hr⟩ := List.length_eq_one_iff.mp hdepth
    have hhead : A.root ∈ (A.path n).dropLast :=
      A.mem_dropLast.mpr ⟨A.root_mem n, fun h => hroot h.symm⟩
    rw [hr, List.mem_singleton] at ha hhead
    exact absurd (ha.trans hhead.symm) haroot
  · obtain ⟨m', mode', -, hy2⟩ := hs.taken y (by rw [hsplit]; exact List.mem_append_left _ hy)
    refine ⟨y, hy, ?_⟩
    rw [hy2] at hpy ⊢
    exact A.mem_trans (hp ▸ ha) hpy

/-! ## What the code restores -/

omit [LinearOrder ι] in
theorem filter_keys {l l' : List (κ × M)} (hp : l <+: l') (hnd : (l'.map (·.1)).Nodup) :
    l'.filter (fun x => decide (x.1 ∈ l.map (·.1))) = l := by
  obtain ⟨rest, rfl⟩ := hp
  rw [List.map_append] at hnd
  have hkeep : l.filter (fun x => decide (x.1 ∈ l.map (·.1))) = l :=
    List.filter_eq_self.mpr fun x hx => by simpa using ⟨x.2, hx⟩
  have hdrop : rest.filter (fun x => decide (x.1 ∈ l.map (·.1))) = [] := by
    refine List.filter_eq_nil_iff.mpr fun x hx => ?_
    rw [decide_eq_true_iff]
    intro hmem
    exact absurd rfl ((List.nodup_append.mp hnd).2.2 x.1 hmem x.1 (List.mem_map_of_mem hx))
  rw [List.filter_append, hkeep, hdrop, List.append_nil]

/-- The contents of a participant are the ones that a history amounts to. Before anybody
uses the state the lock may be held in any mode. -/
structure Agrees (x : Participant ι κ V M) (c : Contents ι κ V M) : Prop where
  state : x.contents.state = c.state
  tasks : x.contents.tasks = c.tasks
  idempotentMutations : x.contents.idempotentMutations = c.idempotentMutations
  ownerIds : x.contents.ownerIds = c.ownerIds
  mode : x.contents.ownerIds ≠ [] → x.contents.mode = c.mode
  lock : x.lock = x.contents.mode

variable {x : Participant ι κ V M}

/-- The snapshot of the contents is the snapshot of the history. -/
theorem Agrees.snapshotOf_eq (ha : Agrees x (replay A h)) (ids : List ι) :
    snapshotOf x.contents ids = snapshotOf (replay A h) ids := by
  unfold snapshotOf
  rw [← ha.state, ← ha.tasks, ← ha.idempotentMutations, ← ha.ownerIds]
  split
  next => rfl
  next hne => rw [ha.mode hne]

/-- The mode a snapshot goes back to is the one the history before it ends in. -/
theorem snapshot_mode {p : List (Event ι κ V M)} (hv : Valid A committed p) (ids : List ι) :
    (snapshotOf (replay A p) ids).mode = (replay A p).mode := by
  unfold snapshotOf
  split
  next howner =>
    rw [eq_nil_of_owner hv howner]
    rfl
  next => rfl

/-- Going back to the snapshot of an earlier point of the history restores what was there. -/
theorem rollback_replay (ha : Agrees x (replay A h)) (hv : Valid A committed h)
    (howner : x.contents.ownerIds ≠ []) {p : List (Event ι κ V M)} (hp : p <+: h)
    (ids : List ι) :
    ∃ x', rollback x (snapshotOf (replay A p) ids) = some x' ∧ x'.snapshots = x.snapshots ∧
      x'.contents = replay A p ∧ x'.lock = (replay A p).mode := by
  have hgrows := replay_grows hv hp
  have hdistinct := distinct hv
  have hstate : ¬ ((snapshotOf (replay A p) ids).state.isSome ∧ x.contents.state.isNone) := by
    rintro ⟨hsome, hnone⟩
    have hsome' := hgrows.state hsome
    rw [← ha.state] at hsome'
    simp [Option.isNone_iff_eq_none.mp hnone] at hsome'
  have htasks : x.contents.tasks.filter
      (fun t => decide (t.1 ∈ (snapshotOf (replay A p) ids).taskUuids)) = (replay A p).tasks := by
    rw [ha.tasks]
    exact filter_keys hgrows.tasks hdistinct.1
  have hmutations : x.contents.idempotentMutations.filter
      (fun m => decide (m.1 ∈ (snapshotOf (replay A p) ids).idempotentMutationKeys)) =
      (replay A p).idempotentMutations := by
    rw [ha.idempotentMutations]
    exact filter_keys hgrows.idempotentMutations hdistinct.2
  have hmode := snapshot_mode (hv.of_isPrefix hp) ids
  unfold rollback
  rw [if_neg hstate]
  refine ⟨_, rfl, rfl, ?_, ?_⟩
  · simp only [htasks, hmutations, hmode]
    rfl
  · show (if x.contents.mode = .exclusive ∧ (snapshotOf (replay A p) ids).mode = .shared
      then Mode.shared else x.lock) = _
    rw [hmode, ha.lock, ha.mode howner]
    have hmono := hgrows.mode
    cases hp' : (replay A p).mode with
    | shared =>
      cases hh : (replay A h).mode with
      | shared => rfl
      | exclusive => rfl
    | exclusive => rw [hmono hp']; rfl

/-- The message that `n` has aborted, when a claim within `n` is in force. -/
theorem relinquish_aborted (ha : Agrees x (replay A h)) (hv : Valid A committed h)
    (hs : Stacked A committed h stack) (hsnap : x.snapshots = stack.map (·.2))
    (hroot : n ≠ A.root) (hc : ¬ committed n) (hclaim : ∃ e ∈ h, claimsWithin A n e = true) :
    ∃ x' stack', relinquishOwnership x n true = some x' ∧
      x'.contents = replay A (undo A n h) ∧ x'.lock = x'.contents.mode ∧
      x'.snapshots = stack'.map (·.2) ∧ Stacked A committed (undo A n h) stack' := by
  obtain ⟨y, hy, hy1⟩ := hs.first n hroot hc hclaim
  obtain ⟨older, newer, hsplit⟩ := List.append_of_mem hy
  obtain ⟨hmem, hold⟩ := hs.oldest hclaim hsplit hy1
  obtain ⟨m, mode, -, hy2⟩ := hs.taken y hy
  have hown : n ∈ x.contents.ownerIds := ha.ownerIds ▸ owner_of_claimed hv hc hclaim
  have ha' : Agrees { x with snapshots := older.map (·.2) } (replay A h) :=
    ⟨ha.1, ha.2, ha.3, ha.4, ha.5, ha.6⟩
  obtain ⟨x', hx', hsnap', hcont, hlock⟩ := rollback_replay ha' hv (List.ne_nil_of_mem hown)
    (p := y.1) (hy1 ▸ undo_isPrefix) (A.path m)
  refine ⟨x', older, ?_, hy1 ▸ hcont, by rw [hlock, hcont], hsnap', hs.undo hsplit hy1⟩
  unfold relinquishOwnership
  rw [if_neg (not_not_intro hown), hsnap, hsplit, maybePopSnapshot_split hmem hold]
  rw [← hy2] at hx'
  exact hx'

/-- The message that `n` has committed, while `n` owns the state. -/
theorem relinquish_committed (ha : Agrees x (replay A h)) (hv : Valid A committed h)
    (hs : Stacked A committed h stack) (hsnap : x.snapshots = stack.map (·.2))
    (hallowed : Allowed A committed (replay A h) (.commit n)) :
    ∃ x' stack', relinquishOwnership x n false = some x' ∧
      x'.contents = { x.contents with ownerIds := (A.path n).dropLast } ∧ x'.lock = x.lock ∧
      x'.snapshots = stack'.map (·.2) ∧ Stacked A committed (h ++ [.commit n]) stack' := by
  have hown : n ∈ x.contents.ownerIds := ha.ownerIds ▸ hallowed.1
  have hback : x.contents.ownerIds.take (x.contents.ownerIds.idxOf n) = (A.path n).dropLast := by
    rw [ha.ownerIds]
    exact commit_owner hv hallowed.1
  obtain ⟨older, y, newer, hsplit, hmem, hold⟩ :=
    exists_oldest (hs.covered n hallowed.1 hallowed.2.1)
  have hrel : relinquishOwnership x n false = some { x with
      contents := { x.contents with ownerIds := (A.path n).dropLast }
      snapshots := if isUnneeded (older.map (·.2)) y.2 n false then older.map (·.2)
        else stack.map (·.2) } := by
    unfold relinquishOwnership
    rw [if_neg (not_not_intro hown), hsnap, hsplit, maybePopSnapshot_split hmem hold, hback]
    rfl
  cases hun : isUnneeded (older.map (·.2)) y.2 n false with
  | true =>
    refine ⟨_, older, hrel, rfl, rfl, by simp [hun], hs.commit hv hallowed hsplit ?_⟩
    exact covered_of_unneeded hs hsplit hmem hallowed.2.1 hun
  | false =>
    refine ⟨_, stack, hrel, rfl, rfl, by simp [hun], hs.snoc (fun _ _ => rfl) ?_⟩
    exact fun k hk _ => List.mem_of_mem_take hk

end Stack

/-! ## The transactions of one root around it -/

/-- How a nested transaction finished. -/
inductive Ending
  | committed
  /-- recoverably -/
  | aborted
  deriving DecidableEq

/-- One state of the root transaction, which of the nested ones have finished, and the
history that is in force. -/
structure Site (ι κ V M : Type) where
  participant : Participant ι κ V M
  ending : ι → Option Ending
  history : List (Event ι κ V M)

/-- What can happen next; `n` is a transaction. -/
inductive Action (ι κ V M : Type)
  | claim (n : ι)
  | load (n : ι) (value : V)
  | upgrade (n : ι)
  | store (n : ι) (writes : Writes κ V M)
  | finish (n : ι) (ending : Ending)
  /-- the message that `n` has finished is delivered, for the first time or again -/
  | relinquish (n : ι)
  deriving DecidableEq

namespace Site

variable {ι κ V M : Type} [LinearOrder ι] [DecidableEq κ] (A : Ancestry ι)

omit [LinearOrder ι] [DecidableEq κ] in
/-- The transaction has just become a participant, in the mode its first call needs. -/
def init (mode : Mode) : Site ι κ V M where
  participant := ⟨{ Contents.unused with mode := mode }, [], mode⟩
  ending := fun _ => none
  history := []

/-- What a turn other than the database's does to the contents, recorded in the history. -/
def happen (s : Site ι κ V M) (e : Event ι κ V M) : Site ι κ V M :=
  { s with
    participant := { s.participant with contents := apply A s.participant.contents e }
    history := s.history ++ [e] }

/-- One turn. -/
def step (s : Site ι κ V M) : Action ι κ V M → Option (Site ι κ V M)
  | .claim n =>
    match claimOwnership s.participant (A.path n) with
    | some x =>
      some { s with
        participant := x
        history :=
          if s.participant.contents.ownerIds = A.path n then s.history
          else s.history ++ [.claim n s.participant.contents.mode] }
    | none => none
  | .load n v => some (s.happen A (.load n v))
  | .upgrade n =>
    some { s.happen A (.upgrade n) with
      participant := { (s.happen A (.upgrade n)).participant with lock := .exclusive } }
  | .store n w => some (s.happen A (.store n w))
  | .finish n ending =>
    if s.ending n = none then some { s with ending := Function.update s.ending n (some ending) }
    else none
  | .relinquish n =>
    if n = A.root then none
    else
      match s.ending n with
      | some .aborted =>
        match relinquishOwnership s.participant n true with
        | some x => some { s with participant := x, history := undo A n s.history }
        | none => none
      | some .committed =>
        match relinquishOwnership s.participant n false with
        | some x =>
          some { s with
            participant := x
            history :=
              if n ∈ s.participant.contents.ownerIds then s.history ++ [.commit n]
              else s.history }
        | none => none
      | none => none

/-- The rules that the code leaves to its callers: who reads or writes is the owner, and
writes under new uuids; when the message that `n` has committed arrives, every
transaction within `n` that still owns the state has committed as well. -/
def Orderly (s : Site ι κ V M) : Action ι κ V M → Prop
  | .load n _ => s.participant.contents.ownerIds = A.path n
  | .upgrade n => s.participant.contents.ownerIds = A.path n
  | .store n w => s.participant.contents.ownerIds = A.path n ∧
      ((s.participant.contents.tasks ++ w.tasks).map (·.1)).Nodup ∧
      ((s.participant.contents.idempotentMutations ++ w.idempotentMutations).map (·.1)).Nodup
  | .relinquish n => s.ending n = some .committed →
      ∀ m ∈ s.participant.contents.ownerIds, n ∈ A.path m → s.ending m = some .committed
  | _ => True

instance (s : Site ι κ V M) (a : Action ι κ V M) : Decidable (s.Orderly A a) :=
  match a with
  | .load .. => inferInstanceAs (Decidable (_ = _))
  | .upgrade _ => inferInstanceAs (Decidable (_ = _))
  | .store .. => inferInstanceAs (Decidable (_ ∧ _ ∧ _))
  | .relinquish _ => inferInstanceAs (Decidable (_ → _))
  | .claim _ => inferInstanceAs (Decidable True)
  | .finish .. => inferInstanceAs (Decidable True)

/-! ## Every run -/

/-- The transactions that have committed. -/
def Committed (s : Site ι κ V M) (n : ι) : Prop := s.ending n = some .committed

structure Inv (s : Site ι κ V M) : Prop where
  valid : Valid A s.Committed s.history
  agrees : Agrees s.participant (replay A s.history)
  stacked : ∃ stack, s.participant.snapshots = stack.map (·.2) ∧
    Stacked A s.Committed s.history stack

variable {A}

theorem inv_init (mode : Mode) : Inv A (init mode : Site ι κ V M) where
  valid := valid_nil
  agrees := ⟨rfl, rfl, rfl, rfl, fun h => absurd rfl h, rfl⟩
  stacked := ⟨[], rfl, stacked_nil⟩

variable {s s' : Site ι κ V M} {n : ι}

omit [DecidableEq κ] in
theorem claimOwnership_some {x x' : Participant ι κ V M} {ids : List ι}
    (h : claimOwnership x ids = some x') :
    x.contents.ownerIds <+: ids ∧ (x.contents.ownerIds = ids ∧ x' = x ∨
      x.contents.ownerIds ≠ ids ∧ x' = { x with
        contents := { x.contents with ownerIds := ids }
        snapshots := if ids.length > 1 then x.snapshots ++ [snapshotOf x.contents ids]
          else x.snapshots }) := by
  unfold claimOwnership at h
  split at h
  next hclaim =>
    refine ⟨isClaimableBy_iff.mp hclaim, ?_⟩
    split at h
    next heq =>
      cases h
      exact .inl ⟨heq, rfl⟩
    next hne =>
      cases h
      exact .inr ⟨hne, rfl⟩
  next => cases h

theorem claim_inv (hi : Inv A s) (hs : step A s (.claim n) = some s') : Inv A s' := by
  simp only [step] at hs
  split at hs
  next x hx =>
    cases hs
    obtain ⟨hpre, ⟨heq, rfl⟩ | ⟨hne, rfl⟩⟩ := claimOwnership_some hx
    · simp only [heq, if_true]
      exact ⟨hi.valid, hi.agrees, hi.stacked⟩
    · simp only [if_neg hne]
      obtain ⟨stack, hsnap, hstack⟩ := hi.stacked
      have hmode : (replay A s.history).mode = .exclusive →
          s.participant.contents.mode = .exclusive := by
        intro hex
        by_cases hown : s.participant.contents.ownerIds = []
        · have hnil := eq_nil_of_owner hi.valid (hi.agrees.ownerIds ▸ hown)
          rw [hnil] at hex
          cases hex
        · rw [hi.agrees.mode hown, hex]
      have hallowed : Allowed A s.Committed (replay A s.history)
          (.claim n s.participant.contents.mode) :=
        ⟨hi.agrees.ownerIds ▸ hpre, hmode⟩
      refine ⟨valid_snoc.mpr ⟨hi.valid, hallowed⟩, ?_, ?_⟩
      · rw [replay_append_singleton]
        exact ⟨hi.agrees.state, hi.agrees.tasks, hi.agrees.idempotentMutations, rfl,
          fun _ => rfl, hi.agrees.lock⟩
      · by_cases hroot : n = A.root
        · -- the root takes no snapshot
          refine ⟨stack, ?_, hstack.snoc (fun k hk => ?_) (fun k hk hne => ?_)⟩
          · rw [if_neg (fun h => A.one_lt_length_path.mp h hroot), hsnap]
          · rw [hroot]
            simpa [claimsWithin, A.path_root] using hk
          · have hk' : k ∈ A.path A.root := hroot ▸ hk
            rw [A.path_root, List.mem_singleton] at hk'
            exact absurd hk' hne
        · refine ⟨stack ++ [(s.history, snapshotOf (replay A s.history) (A.path n))], ?_,
            hstack.claim _⟩
          rw [if_pos (A.one_lt_length_path.mpr hroot), hsnap, hi.agrees.snapshotOf_eq]
          simp
  next => cases hs

/-- An event by the owner that is neither a claim nor a commit. -/
theorem happen_inv (hi : Inv A s) {e : Event ι κ V M} {lock : Mode}
    (he : ∀ k, claimsWithin A k e = false)
    (hallowed : Allowed A s.Committed (replay A s.history) e)
    (hagrees : Agrees { s.participant with
      contents := apply A s.participant.contents e, lock := lock }
      (apply A (replay A s.history) e))
    (howner : (apply A (replay A s.history) e).ownerIds = (replay A s.history).ownerIds) :
    Inv A { s.happen A e with
      participant := { (s.happen A e).participant with lock := lock } } := by
  obtain ⟨stack, hsnap, hstack⟩ := hi.stacked
  refine ⟨valid_snoc.mpr ⟨hi.valid, hallowed⟩, ?_, stack, hsnap, ?_⟩
  · show Agrees _ (replay A (s.history ++ [e]))
    rw [replay_append_singleton]
    exact hagrees
  · exact hstack.snoc (fun k _ => he k) (fun k hk _ => howner ▸ hk)

theorem load_inv (hi : Inv A s) {v : V} (hok : s.Orderly A (.load n v)) :
    Inv A (s.happen A (.load n v)) := by
  have hallowed : Allowed A s.Committed (replay A s.history) (.load n v) :=
    hi.agrees.ownerIds.symm.trans hok
  refine happen_inv hi (fun _ => rfl) hallowed ?_ rfl
  refine ⟨?_, hi.agrees.tasks, hi.agrees.idempotentMutations, hi.agrees.ownerIds,
    hi.agrees.mode, hi.agrees.lock⟩
  show s.participant.contents.state.or (some v) = (replay A s.history).state.or (some v)
  rw [hi.agrees.state]

theorem store_inv (hi : Inv A s) {w : Writes κ V M} (hok : s.Orderly A (.store n w)) :
    Inv A (s.happen A (.store n w)) := by
  obtain ⟨hown, htasks, hmutations⟩ := hok
  rw [hi.agrees.ownerIds] at hown
  rw [hi.agrees.tasks] at htasks
  rw [hi.agrees.idempotentMutations] at hmutations
  have hallowed : Allowed A s.Committed (replay A s.history) (.store n w) :=
    ⟨hown, htasks, hmutations⟩
  refine happen_inv hi (fun _ => rfl) hallowed ?_ rfl
  refine ⟨?_, ?_, ?_, hi.agrees.ownerIds, hi.agrees.mode, hi.agrees.lock⟩
  · show w.state.or s.participant.contents.state = w.state.or (replay A s.history).state
    rw [hi.agrees.state]
  · show s.participant.contents.tasks ++ w.tasks = (replay A s.history).tasks ++ w.tasks
    rw [hi.agrees.tasks]
  · show w.idempotentMutations.foldl putKey s.participant.contents.idempotentMutations =
      w.idempotentMutations.foldl putKey (replay A s.history).idempotentMutations
    rw [hi.agrees.idempotentMutations]

theorem upgrade_inv (hi : Inv A s) (hok : s.Orderly A (.upgrade n)) :
    Inv A { s.happen A (.upgrade n) with
      participant := { (s.happen A (.upgrade n)).participant with lock := .exclusive } } := by
  have hallowed : Allowed A s.Committed (replay A s.history) (.upgrade n) :=
    hi.agrees.ownerIds.symm.trans hok
  refine happen_inv hi (fun _ => rfl) hallowed ?_ rfl
  exact ⟨hi.agrees.state, hi.agrees.tasks, hi.agrees.idempotentMutations, hi.agrees.ownerIds,
    fun _ => rfl, rfl⟩

theorem finish_inv (hi : Inv A s) {ending : Ending} (hn : s.ending n = none) :
    Inv A { s with ending := Function.update s.ending n (some ending) } := by
  have hmono : ∀ k, s.Committed k → Function.update s.ending n (some ending) k = some .committed := by
    intro k hk
    have hne : k ≠ n := by
      rintro rfl
      unfold Committed at hk
      rw [hn] at hk
      cases hk
    rw [Function.update_of_ne hne]
    exact hk
  obtain ⟨stack, hsnap, hstack⟩ := hi.stacked
  exact ⟨hi.valid.mono hmono, hi.agrees, stack, hsnap, hstack.mono hmono⟩

omit [LinearOrder ι] [DecidableEq κ] in
/-- A transaction that has aborted has not committed. -/
theorem not_committed (h : s.ending n = some .aborted) : ¬ s.Committed n := by
  unfold Committed
  rw [h]
  exact fun h => by cases h

/-- The message that `n` has aborted: the contents go back to the history before the first
claim within `n` that is in force, or stay as they are if there is none. -/
theorem aborted_step (hi : Inv A s) (hroot : n ≠ A.root) (hn : s.ending n = some .aborted) :
    ∃ x, step A s (.relinquish n) =
        some { s with participant := x, history := undo A n s.history } ∧
      ((∃ e ∈ s.history, claimsWithin A n e = true) →
        x.contents = replay A (undo A n s.history) ∧ x.lock = x.contents.mode) ∧
      ((¬ ∃ e ∈ s.history, claimsWithin A n e = true) → x = s.participant) ∧
      Inv A { s with participant := x, history := undo A n s.history } := by
  obtain ⟨stack, hsnap, hstack⟩ := hi.stacked
  by_cases hclaim : ∃ e ∈ s.history, claimsWithin A n e = true
  · obtain ⟨x, stack', hrel, hcont, hlock, hsnap', hstack'⟩ :=
      relinquish_aborted hi.agrees hi.valid hstack hsnap hroot (not_committed hn) hclaim
    refine ⟨x, by simp only [step, if_neg hroot, hn, hrel], fun _ => ⟨hcont, hlock⟩,
      fun h => absurd hclaim h, hi.valid.of_isPrefix undo_isPrefix, ?_, stack', hsnap', hstack'⟩
    show Agrees x (replay A (undo A n s.history))
    rw [← hcont]
    exact ⟨rfl, rfl, rfl, rfl, fun _ => rfl, hlock⟩
  · have hnot : n ∉ s.participant.contents.ownerIds := by
      rw [hi.agrees.ownerIds]
      exact fun h => hclaim (claimed_of_owner h)
    have hrel : relinquishOwnership s.participant n true = some s.participant := by
      unfold relinquishOwnership
      rw [if_pos hnot]
    refine ⟨s.participant, by simp only [step, if_neg hroot, hn, hrel],
      fun h => absurd h hclaim, fun _ => rfl, ?_⟩
    rw [undo_eq_self hclaim]
    exact ⟨hi.valid, hi.agrees, stack, hsnap, hstack⟩

/-- The message that `n` has committed: ownership goes back, and nothing else changes. -/
theorem committed_step (hi : Inv A s) (hroot : n ≠ A.root) (hn : s.ending n = some .committed)
    (hok : s.Orderly A (.relinquish n)) :
    ∃ x h, step A s (.relinquish n) = some { s with participant := x, history := h } ∧
      x.contents = { s.participant.contents with
        ownerIds := if n ∈ s.participant.contents.ownerIds then (A.path n).dropLast
          else s.participant.contents.ownerIds } ∧
      x.lock = s.participant.lock ∧ s.history <+: h ∧
      Inv A { s with participant := x, history := h } := by
  obtain ⟨stack, hsnap, hstack⟩ := hi.stacked
  by_cases hown : n ∈ s.participant.contents.ownerIds
  · have hallowed : Allowed A s.Committed (replay A s.history) (.commit n) :=
      ⟨hi.agrees.ownerIds ▸ hown, hroot, hi.agrees.ownerIds ▸ hok hn⟩
    obtain ⟨x, stack', hrel, hcont, hlock, hsnap', hstack'⟩ :=
      relinquish_committed hi.agrees hi.valid hstack hsnap hallowed
    have hagrees : Agrees x (replay A (s.history ++ [.commit n])) := by
      rw [replay_append_singleton]
      refine ⟨?_, ?_, ?_, ?_, ?_, ?_⟩
      · rw [hcont]
        exact hi.agrees.state
      · rw [hcont]
        exact hi.agrees.tasks
      · rw [hcont]
        exact hi.agrees.idempotentMutations
      · rw [hcont]
        exact (commit_owner hi.valid hallowed.1).symm
      · intro _
        rw [hcont]
        exact hi.agrees.mode (List.ne_nil_of_mem hown)
      · rw [hlock, hcont]
        exact hi.agrees.lock
    have hvalid : Valid A s.Committed (s.history ++ [.commit n]) :=
      valid_snoc.mpr ⟨hi.valid, hallowed⟩
    exact ⟨x, s.history ++ [Event.commit n],
      by simp only [step, if_neg hroot, hn, hrel, if_pos hown], by rw [if_pos hown, hcont], hlock, List.prefix_append _ _, hvalid, hagrees, stack', hsnap',
      hstack'⟩
  · have hrel : relinquishOwnership s.participant n false = some s.participant := by
      unfold relinquishOwnership
      rw [if_pos hown]
    exact ⟨s.participant, s.history, by simp only [step, if_neg hroot, hn, hrel, if_neg hown],
      by rw [if_neg hown], rfl, List.prefix_refl _, hi.valid, hi.agrees, stack, hsnap, hstack⟩

theorem step_inv {a : Action ι κ V M} (hi : Inv A s) (hok : s.Orderly A a)
    (hs : step A s a = some s') : Inv A s' := by
  cases a with
  | claim n => exact claim_inv hi hs
  | load n v =>
    cases hs
    exact load_inv hi hok
  | upgrade n =>
    cases hs
    exact upgrade_inv hi hok
  | store n w =>
    cases hs
    exact store_inv hi hok
  | finish n ending =>
    simp only [step] at hs
    split at hs
    next hn =>
      cases hs
      exact finish_inv hi hn
    next => cases hs
  | relinquish n =>
    by_cases hroot : n = A.root
    · simp only [step, if_pos hroot] at hs
      cases hs
    · cases hn : s.ending n with
      | none =>
        simp only [step, if_neg hroot, hn] at hs
        cases hs
      | some ending =>
        cases ending with
        | aborted =>
          obtain ⟨x, hstep, -, -, hinv⟩ := aborted_step hi hroot hn
          rw [hs] at hstep
          cases hstep
          exact hinv
        | committed =>
          obtain ⟨x, h, hstep, -, -, -, hinv⟩ := committed_step hi hroot hn hok
          rw [hs] at hstep
          cases hstep
          exact hinv

theorem reach_inv {mode : Mode} (hr : Reach (step A) (Orderly A) (init mode) s) : Inv A s :=
  hr.invariant (Inv A) (inv_init mode) (fun _ _ _ hi hok hs => step_inv hi hok hs)

omit [LinearOrder ι] [DecidableEq κ] in
/-- The contents, with the mode a rollback to them ends in. -/
def restored (s : Site ι κ V M) : Contents ι κ V M :=
  { s.participant.contents with
    mode := if s.participant.contents.ownerIds.isEmpty then .shared
      else s.participant.contents.mode }

/-- The history that a state was reached by determines what is restored. -/
theorem restored_eq (hi : Inv A s) : s.restored = replay A s.history := by
  refine Contents.ext hi.agrees.state hi.agrees.tasks hi.agrees.idempotentMutations
    hi.agrees.ownerIds ?_
  show (if s.participant.contents.ownerIds.isEmpty then Mode.shared
    else s.participant.contents.mode) = (replay A s.history).mode
  split
  next hnil =>
    rw [eq_nil_of_owner hi.valid (hi.agrees.ownerIds ▸ List.isEmpty_iff.mp hnil)]
    rfl
  next hne => exact hi.agrees.mode (fun h => hne (List.isEmpty_iff.mpr h))

/-- In every state reached by a run that keeps the rules:

* when `n` has aborted, its message can be delivered and the contents become exactly what
  they were in the state `s₁` right before the first claim within `n` that is in force
  (the lock shared, if nobody had used the state then); if no such claim is in force the
  message changes nothing; and what did not happen within `n` stays in force;
* when `n` has committed, its message can be delivered, takes nothing out of force and
  changes nothing but the owner;
* what is in force is what the contents are made of. -/
theorem nested_rollback_exact {mode : Mode}
    (hr : Reach (step A) (Orderly A) (init mode) s) :
    (∀ n, n ≠ A.root → s.ending n = some .aborted →
      ∃ s', step A s (.relinquish n) = some s' ∧
        (∀ s₁ m, Reach (step A) (Orderly A) (init mode) s₁ → n ∈ A.path m →
          s₁.history ++ [.claim m s₁.participant.contents.mode] <+: s.history →
          (¬ ∃ e ∈ s₁.history, claimsWithin A n e = true) →
          s'.participant.contents = s₁.restored ∧
            s'.participant.lock = s'.participant.contents.mode) ∧
        ((¬ ∃ e ∈ s.history, claimsWithin A n e = true) → s'.participant = s.participant) ∧
        ∀ e ∈ s.history, n ∉ A.path e.within → e ∈ s'.history) ∧
    (∀ n, n ≠ A.root → s.ending n = some .committed → s.Orderly A (.relinquish n) →
      ∃ s', step A s (.relinquish n) = some s' ∧ s.history <+: s'.history ∧
        s'.participant.contents = { s.participant.contents with
          ownerIds := if n ∈ s.participant.contents.ownerIds then (A.path n).dropLast
            else s.participant.contents.ownerIds }) ∧
    s.restored = replay A s.history := by
  have hi := reach_inv hr
  refine ⟨fun n hroot hn => ?_, fun n hroot hn hok => ?_, restored_eq hi⟩
  · obtain ⟨x, hstep, hclaimed, hunclaimed, -⟩ := aborted_step hi hroot hn
    refine ⟨_, hstep, fun s₁ m hr₁ hm hpre hfirst => ?_, hunclaimed, fun e he hout => ?_⟩
    · have hi₁ := reach_inv hr₁
      have hmem : ∃ e ∈ s₁.history ++ [.claim m s₁.participant.contents.mode],
          claimsWithin A n e = true :=
        ⟨_, List.mem_append_right _ (List.mem_singleton_self _), by simpa [claimsWithin] using hm⟩
      have hclaim : ∃ e ∈ s.history, claimsWithin A n e = true := by
        obtain ⟨e, he, hc⟩ := hmem
        exact ⟨e, hpre.subset he, hc⟩
      -- the cut is the history of `s₁`
      have hcut : undo A n s.history = s₁.history := by
        rw [undo_of_isPrefix hpre hmem, undo_claim hfirst hm]
      obtain ⟨hcont, hlock⟩ := hclaimed hclaim
      refine ⟨?_, hlock⟩
      show x.contents = s₁.restored
      rw [hcont, hcut, restored_eq hi₁]
    · by_contra hlost
      exact hout (within_of_claimed hi.valid (not_committed hn) he hlost)
  · obtain ⟨x, h, hstep, hcont, -, hpre, -⟩ := committed_step hi hroot hn hok
    exact ⟨_, hstep, hpre, hcont⟩

/-- The transactions `0`, `1` in `0`, `2` in `1` and so on. -/
def line : Ancestry Nat where
  root := 0
  path n := List.range (n + 1)
  nodup n := List.nodup_range
  head n := by simp [List.head?_range]
  last n := by simp [List.getLast?_range]
  closed n m hm := by
    have hle : m + 1 ≤ n + 1 := List.mem_range.mp hm
    have htake : List.range (m + 1) = (List.range (n + 1)).take (m + 1) := by
      rw [List.take_range, Nat.min_eq_left hle]
    exact htake ▸ List.take_prefix _ _

/-- `2`, in `1`, in the root, is the first to use the state; it writes and aborts. -/
def childAborts : List (Action Nat Nat Nat Nat) :=
  [.claim 2, .load 2 5, .store 2 ⟨some 6, [(7, 7)], [(8, 8)]⟩, .finish 2 .aborted]

theorem childAborts_exact : ∃ s', step line (last (step line) (init .exclusive) childAborts)
      (.relinquish 2) = some s' ∧
    s'.participant.contents = (init .exclusive : Site Nat Nat Nat Nat).restored := by
  have hr : Reach (step line) (Orderly line) (init .exclusive)
      (last (step line) (init .exclusive) childAborts) := reach_last childAborts .init (by decide)
  obtain ⟨s', hstep, hexact, -⟩ := (nested_rollback_exact hr).1 2 (by decide) rfl
  exact ⟨s', hstep, (hexact (init .exclusive) 2 .init (by decide)
    ⟨[.load 2 5, .store 2 ⟨some 6, [(7, 7)], [(8, 8)]⟩], rfl⟩ (by simp [init])).1⟩

/-- As before, but `1` goes on, commits, and its message arrives first. -/
def messageOvertaken : List (Action Nat Nat Nat Nat) :=
  childAborts ++ [.finish 1 .committed, .relinquish 1]

/-- The root calls a writer and a nested transaction at the same time. The nested one claims
the state, and with it takes its snapshot, before the writer has stored. -/
def writerInFlight : List (Action Nat Nat Nat Nat) :=
  [.claim 0, .claim 1, .load 0 5, .store 0 ⟨some 6, [(7, 7)], []⟩, .finish 1 .aborted]

/-- What `2` wrote stays, although `2` has aborted and its message has arrived; and the
abort of `1` takes back what the root wrote. -/
theorem rollback_not_exact :
    (∃ s s' : Site Nat Nat Nat Nat,
      Reach (step line) (fun _ _ => True) (init .exclusive) s ∧
      s.ending 2 = some .aborted ∧ step line s (.relinquish 2) = some s' ∧
      (init .exclusive : Site Nat Nat Nat Nat).participant.contents.tasks = [] ∧
      s'.participant.contents = ⟨some 6, [(7, 7)], [(8, 8)], [0], .exclusive⟩) ∧
    ∃ s s' : Site Nat Nat Nat Nat,
      Reach (step line) (fun _ _ => True) (init .exclusive) s ∧
      s.ending 1 = some .aborted ∧ step line s (.relinquish 1) = some s' ∧
      .store 0 ⟨some 6, [(7, 7)], []⟩ ∈ s.history ∧ 1 ∉ line.path 0 ∧
      s'.participant.contents = ⟨none, [], [], [0], .exclusive⟩ := by
  refine ⟨⟨last (step line) (init .exclusive) messageOvertaken,
    last (step line) (init .exclusive) (messageOvertaken ++ [.relinquish 2]),
    reach_last messageOvertaken .init (by decide), rfl, rfl, rfl, rfl⟩,
    ⟨last (step line) (init .exclusive) writerInFlight,
    last (step line) (init .exclusive) (writerInFlight ++ [.relinquish 1]),
    reach_last writerInFlight .init (by decide), rfl, rfl, by decide, by decide, rfl⟩⟩

end Site

end Reboot.Txn.Nested
