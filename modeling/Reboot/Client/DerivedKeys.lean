import Mathlib.Logic.Equiv.List
import Reboot.Client.IdempotencyManager
import Reboot.Routing.StateId

/-!
# Derived idempotency keys

The keys that an `IdempotencyManager` with a seed makes up itself: `uuid5` of the seed and a text
that is joined from the name of the RPC, the id of the state, and the alias with its iteration,

    '{service}.{method}'@{state_ref.id}: {alias} (iteration #{n})

`derivedKeys`: two calls have the same key exactly if they agree on all of these, unless they
`Collide`. Of the state ref only the last id is in the text, so the states of two parents that
share an id collide; an id and an alias are free text, so an id may hold what separates it from
the alias, and an alias what separates it from the iteration.

Mirroring notes:

* `uuid5` is assumed to be injective in the name.
* The manager is one that any calls of `idempotently` were made on, each under its own seeds.
-/

namespace Reboot.Client

open Reboot.Lib Reboot.Routing

variable {R : Type}

/-! ## Which texts are the same -/

/-- Where a text is cut at a separator twice. -/
theorem append_sep_iff {c : Char} {a b a' b' : Str} :
    a ++ c :: b = a' ++ c :: b' ↔
      (a = a' ∧ b = b') ∨ (∃ x, a' = a ++ c :: x ∧ b = x ++ c :: b') ∨
        ∃ x, a = a' ++ c :: x ∧ b' = x ++ c :: b := by
  have hcut : ∀ {x u v : Str}, c :: u = x ++ c :: v → x = [] ∧ u = v ∨
      ∃ y, x = c :: y ∧ u = y ++ c :: v := by
    intro x u v h
    cases x with
    | nil => exact .inl ⟨rfl, (List.cons.inj h).2⟩
    | cons d y =>
      obtain ⟨rfl, hu⟩ := List.cons.inj h
      exact .inr ⟨y, rfl, hu⟩
  constructor
  · intro h
    rcases List.append_eq_append_iff.mp h with ⟨x, rfl, hx⟩ | ⟨x, rfl, hx⟩
    · rcases hcut hx with ⟨rfl, rfl⟩ | ⟨y, rfl, hy⟩
      · exact .inl ⟨(List.append_nil _).symm, rfl⟩
      · exact .inr (.inl ⟨y, rfl, hy⟩)
    · rcases hcut hx with ⟨rfl, rfl⟩ | ⟨y, rfl, hy⟩
      · exact .inl ⟨List.append_nil _, rfl⟩
      · exact .inr (.inr ⟨y, rfl, hy⟩)
  · rintro (⟨rfl, rfl⟩ | ⟨x, rfl, rfl⟩ | ⟨x, rfl, rfl⟩)
    · rfl
    · simp
    · simp

theorem append_sep_inj {c : Char} {a b a' b' : Str} (hb : c ∉ b) (hb' : c ∉ b')
    (h : a ++ c :: b = a' ++ c :: b') : a = a' ∧ b = b' := by
  rcases append_sep_iff.mp h with heq | ⟨x, -, rfl⟩ | ⟨x, -, rfl⟩
  · exact heq
  · exact absurd (by simp) hb
  · exact absurd (by simp) hb'

namespace Idempotency

/-- Two calls whose aliases are not the same but are written the same way. -/
def Ambiguous (i j : Idempotency) : Prop :=
  (∃ n, i.iteration = some n ∧ j.iteration = some n ∧ i.aliasBase = none ∧
    j.aliasBase = some ['-']) ∨
  ∃ n, i.iteration = some n ∧ j.iteration = none ∧
    j.aliasBase = some (i.aliasBase.getD ['-'] ++ " (iteration #".toList ++ Nat.toDigits 10 n ++
      [')'])

theorem aliasName_of_iteration_none {i : Idempotency} (h : i.iteration = none) :
    i.aliasName = i.aliasBase := by
  unfold aliasName makeIdempotencyAlias
  rw [h]
  cases i.aliasBase <;> rfl

theorem aliasName_of_iteration {i : Idempotency} {n : Nat} (h : i.iteration = some n) :
    i.aliasName = some (i.aliasBase.getD ['-'] ++ " (iteration #".toList ++ Nat.toDigits 10 n ++
      [')']) := by
  unfold aliasName makeIdempotencyAlias
  rw [h]
  cases i.aliasBase <;> rfl

theorem iterationText_inj {a a' : Str} {n n' : Nat}
    (h : a ++ " (iteration #".toList ++ Nat.toDigits 10 n ++ [')'] =
      a' ++ " (iteration #".toList ++ Nat.toDigits 10 n' ++ [')']) : a = a' ∧ n = n' := by
  have hnum : ∀ m : Nat, '#' ∉ Nat.toDigits 10 m ++ [')'] := by
    intro m hmem
    rcases List.mem_append.mp hmem with hmem | hmem
    · exact absurd (Nat.isDigit_of_mem_toDigits (by decide) (by decide) hmem) (by decide)
    · exact absurd hmem (by decide)
  have hsplit : ∀ (b : Str) (m : Nat), b ++ " (iteration #".toList ++ Nat.toDigits 10 m ++ [')'] =
      (b ++ " (iteration ".toList) ++ '#' :: (Nat.toDigits 10 m ++ [')']) := by
    intro b m
    simp
  rw [hsplit, hsplit] at h
  obtain ⟨hfront, hback⟩ := append_sep_inj (hnum n) (hnum n') h
  exact ⟨List.append_cancel_right hfront, toDigits_injective (List.append_cancel_right hback)⟩

theorem aliasName_eq_iff {i j : Idempotency} :
    i.aliasName = j.aliasName ↔
      (i.aliasBase = j.aliasBase ∧ i.iteration = j.iteration) ∨ i.Ambiguous j ∨ j.Ambiguous i := by
  have hmixed : ∀ {i j : Idempotency} {n : Nat}, i.iteration = some n → j.iteration = none →
      (i.aliasName = j.aliasName ↔ i.Ambiguous j) := by
    intro i j n hi hj
    rw [aliasName_of_iteration hi, aliasName_of_iteration_none hj]
    constructor
    · exact fun h => .inr ⟨n, hi, hj, h.symm⟩
    · rintro (⟨m, -, hm, -⟩ | ⟨m, hm, -, hbase⟩)
      · exact nomatch hj.symm.trans hm
      · obtain rfl := Option.some.inj (hi.symm.trans hm)
        exact hbase.symm
  have hnot : ∀ {i j : Idempotency}, i.iteration = none → ¬ i.Ambiguous j := by
    rintro i j hi (⟨m, hm, -⟩ | ⟨m, hm, -⟩)
    · exact nomatch hi.symm.trans hm
    · exact nomatch hi.symm.trans hm
  cases hi : i.iteration with
  | none =>
    cases hj : j.iteration with
    | none =>
      rw [aliasName_of_iteration_none hi, aliasName_of_iteration_none hj]
      exact ⟨fun h => .inl ⟨h, rfl⟩, fun h =>
        h.elim (fun h => h.1) fun h => (h.elim (hnot hi) (hnot hj)).elim⟩
    | some n =>
      rw [eq_comm, hmixed hj hi]
      exact ⟨fun h => .inr (.inr h), fun h =>
        h.elim (fun h => nomatch h.2) fun h => h.elim (fun h => (hnot hi h).elim) id⟩
  | some n =>
    cases hj : j.iteration with
    | none =>
      rw [hmixed hi hj]
      exact ⟨fun h => .inr (.inl h), fun h =>
        h.elim (fun h => nomatch h.2) fun h => h.elim id fun h => (hnot hj h).elim⟩
    | some m =>
      rw [aliasName_of_iteration hi, aliasName_of_iteration hj]
      constructor
      · intro h
        obtain ⟨hbase, rfl⟩ := iterationText_inj (Option.some.inj h)
        cases hb : i.aliasBase with
        | none =>
          cases hb' : j.aliasBase with
          | none => exact .inl ⟨rfl, rfl⟩
          | some b' =>
            rw [hb, hb'] at hbase
            cases hbase
            exact .inr (.inl (.inl ⟨n, hi, hj, hb, hb'⟩))
        | some b =>
          cases hb' : j.aliasBase with
          | none =>
            rw [hb, hb'] at hbase
            cases hbase
            exact .inr (.inr (.inl ⟨n, hj, hi, hb', hb⟩))
          | some b' =>
            rw [hb, hb'] at hbase
            exact .inl ⟨congrArg some hbase, rfl⟩
      · rintro (⟨hbase, hiter⟩ | h | h)
        · rw [hbase, Option.some.inj hiter]
        · rcases h with ⟨k, hik, hjk, hbase, hbase'⟩ | ⟨k, -, hjk, -⟩
          · obtain rfl := Option.some.inj (hi.symm.trans hik)
            obtain rfl := Option.some.inj (hj.symm.trans hjk)
            rw [hbase, hbase']
            rfl
          · exact nomatch hj.symm.trans hjk
        · rcases h with ⟨k, hjk, hik, hbase, hbase'⟩ | ⟨k, -, hik, -⟩
          · obtain rfl := Option.some.inj (hi.symm.trans hik)
            obtain rfl := Option.some.inj (hj.symm.trans hjk)
            rw [hbase, hbase']
            rfl
          · exact nomatch hi.symm.trans hik

/-- The alias as it is appended to the text. -/
def suffix (i : Idempotency) : Str :=
  match i.aliasName with
  | none => []
  | some name => ':' :: ' ' :: name

theorem suffix_inj {i j : Idempotency} : i.suffix = j.suffix ↔ i.aliasName = j.aliasName := by
  constructor
  · intro h
    unfold suffix at h
    cases hi : i.aliasName with
    | none =>
      cases hj : j.aliasName with
      | none => rfl
      | some name => rw [hi, hj] at h; cases h
    | some name =>
      cases hj : j.aliasName with
      | none => rw [hi, hj] at h; cases h
      | some name' =>
        rw [hi, hj] at h
        cases h
        rfl
  · intro h
    unfold suffix
    rw [h]

end Idempotency

variable {rpc rpc' : Rpc R} {i j : Idempotency}

theorem fullAlias_eq (stateId : Str → Str) (rpc : Rpc R) (i : Idempotency) :
    fullAlias stateId rpc i = rpc.name ++ '@' :: (stateId rpc.stateRef ++ i.suffix) := by
  unfold fullAlias Idempotency.suffix
  cases i.aliasName <;> simp

/-- The call, the alias and the iteration that a key is meant for are the same. -/
def Agree (rpc rpc' : Rpc R) (i j : Idempotency) : Prop :=
  rpc.name = rpc'.name ∧ rpc.stateRef = rpc'.stateRef ∧ i.aliasBase = j.aliasBase ∧
    i.iteration = j.iteration

/-- The id of the first state is the id of the second one, the separator, and the beginning of
what the second call has as its alias. -/
def IdHolds (rpc : Rpc R) (i : Idempotency) (rpc' : Rpc R) (j : Idempotency) : Prop :=
  ∃ x, refId rpc.stateRef = refId rpc'.stateRef ++ ':' :: ' ' :: x ∧
    j.aliasName = some (x ++ i.suffix)

/-- The name of the first RPC holds the name of the second one and a separator. -/
def NameHolds (rpc : Rpc R) (i : Idempotency) (rpc' : Rpc R) (j : Idempotency) : Prop :=
  ∃ x, rpc.name = rpc'.name ++ '@' :: x ∧
    refId rpc'.stateRef ++ j.suffix = x ++ '@' :: (refId rpc.stateRef ++ i.suffix)

/-- How two calls that do not agree are written as one text. -/
inductive Collides (rpc rpc' : Rpc R) (i j : Idempotency) : Prop
  /-- the states are not the same but share their id -/
  | sharedId (hname : rpc.name = rpc'.name) (hid : refId rpc.stateRef = refId rpc'.stateRef)
      (href : rpc.stateRef ≠ rpc'.stateRef) (hbase : i.aliasBase = j.aliasBase)
      (hiteration : i.iteration = j.iteration)
  | ambiguous (hname : rpc.name = rpc'.name) (hid : refId rpc.stateRef = refId rpc'.stateRef)
      (h : i.Ambiguous j ∨ j.Ambiguous i)
  | idHolds (hname : rpc.name = rpc'.name) (h : IdHolds rpc i rpc' j ∨ IdHolds rpc' j rpc i)
  | nameHolds (h : NameHolds rpc i rpc' j ∨ NameHolds rpc' j rpc i)

/-- Two ids with what is appended to them. -/
theorem append_suffix_iff :
    refId rpc.stateRef ++ i.suffix = refId rpc'.stateRef ++ j.suffix ↔
      (refId rpc.stateRef = refId rpc'.stateRef ∧ i.aliasName = j.aliasName) ∨
        IdHolds rpc i rpc' j ∨ IdHolds rpc' j rpc i := by
  have hcut : ∀ {i j : Idempotency} {x : Str}, i.suffix = x ++ j.suffix →
      x = [] ∨ ∃ y, x = ':' :: ' ' :: y ∧ i.aliasName = some (y ++ j.suffix) := by
    intro i j x h
    cases x with
    | nil => exact .inl rfl
    | cons c x =>
      right
      unfold Idempotency.suffix at h ⊢
      cases hi : i.aliasName with
      | none => rw [hi] at h; cases h
      | some name =>
        rw [hi] at h
        obtain ⟨hc, htext⟩ := List.cons.inj h
        rw [← hc]
        cases x with
        | nil =>
          -- the second character of a suffix is not the first one of another
          cases hj : j.aliasName with
          | none => rw [hj] at htext; cases htext
          | some name' =>
            rw [hj] at htext
            exact absurd (List.cons.inj htext).1 (by decide)
        | cons d y =>
          obtain ⟨hd, hname⟩ := List.cons.inj htext
          rw [← hd]
          exact ⟨y, rfl, congrArg some hname⟩
  constructor
  · intro h
    rcases List.append_eq_append_iff.mp h with ⟨x, hid, hx⟩ | ⟨x, hid, hx⟩
    · rcases hcut hx with rfl | ⟨y, rfl, hy⟩
      · refine .inl ⟨by rw [hid, List.append_nil], Idempotency.suffix_inj.mp hx⟩
      · exact .inr (.inr ⟨y, hid, hy⟩)
    · rcases hcut hx with rfl | ⟨y, rfl, hy⟩
      · refine .inl ⟨by rw [hid, List.append_nil], (Idempotency.suffix_inj.mp hx).symm⟩
      · exact .inr (.inl ⟨y, hid, hy⟩)
  · have hholds : ∀ {rpc rpc' : Rpc R} {i j : Idempotency}, IdHolds rpc i rpc' j →
        refId rpc.stateRef ++ i.suffix = refId rpc'.stateRef ++ j.suffix := by
      rintro rpc rpc' i j ⟨x, hid, hx⟩
      have hj : j.suffix = ':' :: ' ' :: (x ++ i.suffix) := by
        show (match j.aliasName with | none => [] | some name => ':' :: ' ' :: name) = _
        rw [hx]
      rw [hid, hj]
      simp
    rintro (⟨hid, hname⟩ | h | h)
    · rw [hid, Idempotency.suffix_inj.mpr hname]
    · exact hholds h
    · exact (hholds h).symm

/-- Two calls are written as one text exactly if they agree or collide. -/
theorem fullAlias_eq_iff :
    fullAlias refId rpc i = fullAlias refId rpc' j ↔ Agree rpc rpc' i j ∨ Collides rpc rpc' i j := by
  rw [fullAlias_eq, fullAlias_eq, append_sep_iff]
  constructor
  · rintro (⟨hname, htext⟩ | h | h)
    · rcases append_suffix_iff.mp htext with ⟨hid, halias⟩ | h
      · rcases Idempotency.aliasName_eq_iff.mp halias with ⟨hbase, hiteration⟩ | h
        · by_cases href : rpc.stateRef = rpc'.stateRef
          · exact .inl ⟨hname, href, hbase, hiteration⟩
          · exact .inr (.sharedId hname hid href hbase hiteration)
        · exact .inr (.ambiguous hname hid h)
      · exact .inr (.idHolds hname h)
    · exact .inr (.nameHolds (.inr h))
    · exact .inr (.nameHolds (.inl h))
  · rintro (⟨hname, href, hbase, hiteration⟩ | h)
    · exact .inl ⟨hname, append_suffix_iff.mpr (.inl ⟨congrArg refId href,
        Idempotency.aliasName_eq_iff.mpr (.inl ⟨hbase, hiteration⟩)⟩)⟩
    · cases h with
      | sharedId hname hid href hbase hiteration =>
        exact .inl ⟨hname, append_suffix_iff.mpr (.inl ⟨hid,
          Idempotency.aliasName_eq_iff.mpr (.inl ⟨hbase, hiteration⟩)⟩)⟩
      | ambiguous hname hid h =>
        exact .inl ⟨hname, append_suffix_iff.mpr (.inl ⟨hid,
          Idempotency.aliasName_eq_iff.mpr (.inr h)⟩)⟩
      | idHolds hname h => exact .inl ⟨hname, append_suffix_iff.mpr (.inr h)⟩
      | nameHolds h => exact .inr h.symm

/-- Calls that collide do not agree. -/
theorem Collides.not_agree (h : Collides rpc rpc' i j) : ¬ Agree rpc rpc' i j := by
  rintro ⟨hname, href, hbase, hiteration⟩
  have hambiguous : ∀ {i j : Idempotency}, i.aliasBase = j.aliasBase →
      i.iteration = j.iteration → ¬ i.Ambiguous j := by
    rintro i j hbase hiteration (⟨n, -, -, hnone, hdash⟩ | ⟨n, hsome, hnone, -⟩)
    · exact nomatch hnone.symm.trans (hbase.trans hdash)
    · exact nomatch hnone.symm.trans (hiteration.symm.trans hsome)
  have hlonger : ∀ {a x y : Str}, a ≠ a ++ ':' :: x ∧ a ≠ a ++ '@' :: y := by
    intro a x y
    constructor <;> simp
  cases h with
  | sharedId _ _ hne => exact hne href
  | ambiguous _ _ h =>
    exact h.elim (hambiguous hbase hiteration) (hambiguous hbase.symm hiteration.symm)
  | idHolds _ h =>
    rcases h with ⟨x, hid, -⟩ | ⟨x, hid, -⟩
    · rw [href] at hid
      exact (hlonger (y := [])).1 hid
    · rw [href] at hid
      exact (hlonger (y := [])).1 hid
  | nameHolds h =>
    rcases h with ⟨x, hx, -⟩ | ⟨x, hx, -⟩
    · rw [hname] at hx
      exact (hlonger (x := [])).2 hx
    · rw [hname] at hx
      exact (hlonger (x := [])).2 hx

/-! ## The manager -/

/-- A call of `idempotently`, under the seeds that are active then. -/
structure Made (R : Type) where
  seeds : Option Uuid
  expiring : Uuid
  rpc : Rpc R
  idempotency : Option Idempotency

namespace Manager

variable (uuid5 : Uuid → Str → Uuid)

def env (seeds : Option Uuid) (expiring : Uuid) : Env := ⟨uuid5, refId, seeds, expiring⟩

/-- The manager after these calls. -/
def after [DecidableEq R] (m : Manager R) (calls : List (Made R)) : Manager R :=
  calls.foldl (fun m c => (m.idempotently (env uuid5 c.seeds c.expiring) c.rpc c.idempotency).1) m

/-- Every key that an alias was given is the one derived from it. -/
structure KeysDerived (seed : Uuid) (m : Manager R) : Prop where
  seed_eq : m.seed = some seed
  derived : ∀ e ∈ m.aliases, e.2 = makeDerivedIdempotencyKey uuid5 e.1.2.2 seed e.1.2.1

variable {uuid5} {seed : Uuid} {m : Manager R}

theorem KeysDerived.getOrCreate (h : KeysDerived uuid5 seed m) (seeds : Option Uuid)
    (expiring : Uuid) (rpc : Rpc R) (i : Idempotency) :
    KeysDerived uuid5 seed (m.getOrCreateIdempotencyKey (env uuid5 seeds expiring) rpc i).1 ∧
      (i.key = none → (m.getOrCreateIdempotencyKey (env uuid5 seeds expiring) rpc i).2 =
        makeDerivedIdempotencyKey uuid5 seeds seed (fullAlias refId rpc i)) := by
  unfold getOrCreateIdempotencyKey
  cases hkey : i.key with
  | some key => exact ⟨h, fun hnone => nomatch hnone⟩
  | none =>
    dsimp only
    cases hlookup : m.aliases.lookup
        (rpc.stateRef, fullAlias (env uuid5 seeds expiring).stateId rpc i,
          (env uuid5 seeds expiring).seeds) with
    | some key =>
      obtain ⟨front, back, heq, -⟩ := List.lookup_eq_some_iff.mp hlookup
      refine ⟨h, fun _ => ?_⟩
      refine h.derived ((rpc.stateRef, fullAlias refId rpc i, seeds), key) ?_
      rw [heq]
      exact List.mem_append_right _ List.mem_cons_self
    | none =>
      dsimp only
      rw [h.seed_eq]
      refine ⟨⟨rfl, fun e he => ?_⟩, fun _ => rfl⟩
      rcases List.mem_cons.mp he with rfl | he
      · rfl
      · exact h.derived e he

variable [DecidableEq R]

theorem KeysDerived.idempotencyKeyFrom (h : KeysDerived uuid5 seed m) (seeds : Option Uuid)
    (expiring : Uuid) (rpc : Rpc R) (i : Idempotency) :
    KeysDerived uuid5 seed (m.idempotencyKeyFrom (env uuid5 seeds expiring) rpc i).1 := by
  have hcreate := (h.getOrCreate seeds expiring rpc i).1
  unfold Manager.idempotencyKeyFrom
  dsimp only
  split
  next => exact ⟨hcreate.seed_eq, hcreate.derived⟩
  next =>
    split
    next => exact hcreate
    next => split <;> exact hcreate

omit [DecidableEq R] in
theorem KeysDerived.failed (h : KeysDerived uuid5 seed m) (rpc : Rpc R) (fromBackend : Bool) :
    KeysDerived uuid5 seed (m.failed rpc fromBackend) := by
  unfold Manager.failed
  split
  · exact ⟨h.seed_eq, h.derived⟩
  · exact h

theorem KeysDerived.idempotently (h : KeysDerived uuid5 seed m) (c : Made R) :
    KeysDerived uuid5 seed
      (m.idempotently (env uuid5 c.seeds c.expiring) c.rpc c.idempotency).1 := by
  unfold Manager.idempotently
  split
  next =>
    have hset : KeysDerived uuid5 seed
        (if c.rpc.mutation then { m with mutationsWithoutIdempotency := true } else m) := by
      split
      · exact ⟨h.seed_eq, h.derived⟩
      · exact h
    split
    next => exact h
    next =>
      dsimp only
      split
      next =>
        split
        next hmut =>
          rw [if_pos hmut] at hset
          exact hset
        next hmut =>
          rw [if_neg hmut] at hset
          exact hset
      next => exact hset
  next _ i _ =>
    split
    next => exact h
    next =>
      split
      next => exact h
      next =>
        have hfrom := h.idempotencyKeyFrom c.seeds c.expiring c.rpc i
        split
        next heq =>
          rw [heq] at hfrom
          exact hfrom
        next heq =>
          rw [heq] at hfrom
          exact hfrom.failed ..

/-- Whatever calls were made. -/
theorem keysDerived_after (seed : Uuid) (requiredReason : Option Str) (calls : List (Made R)) :
    KeysDerived uuid5 seed ((fresh R (some seed) requiredReason).after uuid5 calls) := by
  unfold after
  have hrun : ∀ m : Manager R, KeysDerived uuid5 seed m → KeysDerived uuid5 seed (calls.foldl
      (fun m c => (m.idempotently (env uuid5 c.seeds c.expiring) c.rpc c.idempotency).1) m) := by
    induction calls with
    | nil => exact fun m h => h
    | cons c calls ih => exact fun m h => ih _ (h.idempotently c)
  exact hrun _ ⟨rfl, fun e he => nomatch he⟩

theorem makeDerived_injective (hinj : ∀ seed, Function.Injective (uuid5 seed))
    (seeds : Option Uuid) (seed : Uuid) :
    Function.Injective (makeDerivedIdempotencyKey uuid5 seeds seed) := by
  intro a b h
  unfold makeDerivedIdempotencyKey at h
  cases seeds with
  | none => exact hinj _ h
  | some seeds => exact hinj _ h

/-- Two calls without keys, under one seed and the same active seeds: whatever was called before,
"the same key exactly if they agree" is true of them exactly if they do not collide. -/
theorem derivedKeys (hinj : ∀ seed, Function.Injective (uuid5 seed)) (seed : Uuid)
    (requiredReason requiredReason' : Option Str) (calls calls' : List (Made R))
    (seeds : Option Uuid) (expiring expiring' : Uuid) (rpc rpc' : Rpc R) {i j : Idempotency}
    (hi : i.key = none) (hj : j.key = none) :
    ((((fresh R (some seed) requiredReason).after uuid5 calls).getOrCreateIdempotencyKey
          (env uuid5 seeds expiring) rpc i).2 =
        (((fresh R (some seed) requiredReason').after uuid5 calls').getOrCreateIdempotencyKey
          (env uuid5 seeds expiring') rpc' j).2 ↔ Agree rpc rpc' i j) ↔
      ¬ Collides rpc rpc' i j := by
  rw [((keysDerived_after seed requiredReason calls).getOrCreate seeds expiring rpc i).2 hi,
    ((keysDerived_after seed requiredReason' calls').getOrCreate seeds expiring' rpc' j).2 hj,
    (makeDerived_injective hinj seeds seed).eq_iff, fullAlias_eq_iff]
  constructor
  · exact fun h hcollides => hcollides.not_agree (h.mp (.inr hcollides))
  · exact fun h => or_iff_left h

/-- A `uuid5` for examples: the name as a number. -/
def exampleUuid5 (_ : Uuid) (name : Str) : Uuid := Encodable.encode (name.map Char.toNat)

theorem exampleUuid5_injective (seed : Uuid) : Function.Injective (exampleUuid5 seed) := by
  have hchar : Function.Injective Char.toNat := fun a b h => Char.toNat_inj.mp h
  exact fun a b h => List.map_injective_iff.mpr hchar (Encodable.encode_injective h)

/-- `Charge` of the state with this ref. -/
def chargeOf (stateRef : String) : Rpc Nat :=
  { stateTypeName := "shop.Item".toList, stateRef := stateRef.toList
    serviceName := some "shop.ItemMethods".toList, method := some "Charge".toList
    mutation := true, request := some 0, metadata := [] }

def withAlias (name : String) : Idempotency := ⟨some name.toList, none, none, none, .inr rfl⟩

def withoutAlias : Idempotency := ⟨none, none, none, none, Idempotency.one_none⟩

def inIteration (name : String) (n : Nat) : Idempotency :=
  ⟨some name.toList, none, some .perIteration, some n, .inr rfl⟩

/-- Two states with one id: the items `1` of the orders `a` and `b`. -/
theorem derivedKeys_sharedId :
    let key (rpc : Rpc Nat) := (((fresh Nat (some 7) none).after exampleUuid5 []).getOrCreateIdempotencyKey
      (env exampleUuid5 none 0) rpc withoutAlias).2
    ¬ (key (chargeOf "AAAAAAAAAAAAAA:a/AAEBAQEBAQEBAQ:1") =
        key (chargeOf "AAAAAAAAAAAAAA:b/AAEBAQEBAQEBAQ:1") ↔
      Agree (chargeOf "AAAAAAAAAAAAAA:a/AAEBAQEBAQEBAQ:1")
        (chargeOf "AAAAAAAAAAAAAA:b/AAEBAQEBAQEBAQ:1") withoutAlias withoutAlias) := by
  intro key h
  have hkey : key (chargeOf "AAAAAAAAAAAAAA:a/AAEBAQEBAQEBAQ:1") =
      key (chargeOf "AAAAAAAAAAAAAA:b/AAEBAQEBAQEBAQ:1") :=
    congrArg (exampleUuid5 7) (by decide +kernel)
  exact absurd (h.mp hkey).2.1 (by decide)

/-- Two calls on one state in different iterations of a loop. -/
theorem derivedKeys_iterations :
    (((fresh Nat (some 7) none).after exampleUuid5 []).getOrCreateIdempotencyKey
        (env exampleUuid5 none 0) (chargeOf "AAEBAQEBAQEBAQ:1") (inIteration "pay" 1)).2 =
      (((fresh Nat (some 7) none).after exampleUuid5 []).getOrCreateIdempotencyKey
        (env exampleUuid5 none 0) (chargeOf "AAEBAQEBAQEBAQ:1") (inIteration "pay" 2)).2 ↔
      Agree (chargeOf "AAEBAQEBAQEBAQ:1") (chargeOf "AAEBAQEBAQEBAQ:1") (inIteration "pay" 1)
        (inIteration "pay" 2) := by
  refine (derivedKeys exampleUuid5_injective 7 none none [] [] none 0 0 _ _ rfl rfl).mpr fun h => ?_
  have hsame := fullAlias_eq_iff.mpr (.inr h)
  exact absurd hsame (by decide +kernel)

end Manager

end Reboot.Client
