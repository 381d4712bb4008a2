import Mathlib.Logic.Function.Basic
import Reboot.Txn.Holds

/-!
# The lock and those who use it

What the callers of a `Lock` know of it: every party has a hold recorded (`base`), and
some parties have a call that is suspended in `Lock._wait`, to get a first hold or to
upgrade a shared one. The lock runs ahead of its callers by exactly the grants whose
coroutine has not come back yet: for everybody else the hold is the recorded one.

`Agrees l calls base` says so, through an abstract lock. One theorem for each
operation says that, used by a party that may use it, the operation fails no assertion
and leaves a lock that agrees with the record its caller then makes. Nothing about
locks is unfolded anywhere else.
-/

namespace Reboot.Txn

/-- A call that is suspended in `Lock._wait`. -/
structure Call (τ : Type) where
  id : Nat
  party : Party τ
  target : Mode
  isUpgrade : Bool
  deriving DecidableEq

/-- The calls without the one that waits under `id`. -/
def dropCall {τ : Type} (id : Nat) (calls : List (Call τ)) : List (Call τ) :=
  calls.filter fun c => decide (c.id ≠ id)

theorem mem_dropCall {τ : Type} {id : Nat} {calls : List (Call τ)} {c : Call τ} :
    c ∈ dropCall id calls ↔ c ∈ calls ∧ c.id ≠ id := by
  simp [dropCall]

/-- Where a call waits, if it was not granted. -/
def Queued {τ : Type} (h : Holds τ) (c : Call τ) : Prop :=
  if c.isUpgrade then h.upgrader = some (c.id, c.party) else ⟨c.id, c.target, c.party⟩ ∈ h.queue

/-- The abstract lock, the calls suspended in it and the holds recorded outside. -/
structure Link {τ : Type} [DecidableEq τ] (h : Holds τ) (calls : List (Call τ))
    (base : Party τ → Option Mode) : Prop where
  waiting : ∀ c ∈ calls, Queued h c ∨ c.id ∈ h.granted
  queue : ∀ r ∈ h.queue, ⟨r.id, r.party, r.mode, false⟩ ∈ calls
  upgrader : ∀ w p, h.upgrader = some (w, p) → ⟨w, p, .exclusive, true⟩ ∈ calls
  granted : ∀ w ∈ h.granted, ∃ c ∈ calls, c.id = w
  granted_nodup : h.granted.Nodup
  queue_fresh : ∀ r ∈ h.queue, r.id ∉ h.granted
  upgrader_fresh : ∀ w p, h.upgrader = some (w, p) → w ∉ h.granted
  ids : ∀ c ∈ calls, ∀ c' ∈ calls, c.id = c'.id → c = c'
  parties : ∀ c ∈ calls, ∀ c' ∈ calls, c.party = c'.party → c = c'
  hold : ∀ p, (∀ c ∈ calls, c.party = p → c.id ∉ h.granted) → h.holdOf p = base p
  granted_hold : ∀ c ∈ calls, c.id ∈ h.granted → h.holdOf c.party = some c.target
  before : ∀ c ∈ calls, base c.party = if c.isUpgrade then some .shared else none
  target : ∀ c ∈ calls, c.isUpgrade = true → c.target = .exclusive

namespace Link

variable {τ : Type} [DecidableEq τ] {h : Holds τ} {calls : List (Call τ)}
  {base : Party τ → Option Mode}

/-! ## The four ways the link moves -/

/-- Whoever has no suspended call holds what is recorded. -/
theorem hold_of_no_call (hl : Link h calls base) {p : Party τ} (hno : ∀ c ∈ calls, c.party ≠ p) :
    h.holdOf p = base p :=
  hl.hold p fun c hc he => absurd he (hno c hc)

/-- A suspended call is granted. -/
theorem grant (hl : Link h calls base) {h' : Holds τ} {c₀ : Call τ} (hc₀ : c₀ ∈ calls)
    (hfresh : c₀.id ∉ h.granted) (hgr : h'.granted = c₀.id :: h.granted)
    (hqueue : ∀ r, r ∈ h'.queue ↔ r ∈ h.queue ∧ r.id ≠ c₀.id)
    (hup : ∀ w p, h'.upgrader = some (w, p) ↔ h.upgrader = some (w, p) ∧ w ≠ c₀.id)
    (hself : h'.holdOf c₀.party = some c₀.target)
    (hother : ∀ p, p ≠ c₀.party → h'.holdOf p = h.holdOf p) : Link h' calls base where
  waiting c hc := by
    rw [hgr]
    by_cases he : c.id = c₀.id
    · exact Or.inr (he ▸ List.mem_cons_self ..)
    · rcases hl.waiting c hc with hw | hw
      · refine Or.inl ?_
        unfold Queued at hw ⊢
        split at hw
        next hu => rw [if_pos hu, hup]; exact ⟨hw, he⟩
        next hu => rw [if_neg hu, hqueue]; exact ⟨hw, he⟩
      · exact Or.inr (List.mem_cons_of_mem _ hw)
  queue r hr := hl.queue r ((hqueue r).mp hr).1
  upgrader w p hu := hl.upgrader w p ((hup w p).mp hu).1
  granted w hw := by
    rw [hgr] at hw
    rcases List.mem_cons.mp hw with rfl | hw
    · exact ⟨c₀, hc₀, rfl⟩
    · exact hl.granted w hw
  granted_nodup := by
    rw [hgr]
    exact List.nodup_cons.mpr ⟨hfresh, hl.granted_nodup⟩
  queue_fresh r hr := by
    obtain ⟨hr', hne⟩ := (hqueue r).mp hr
    rw [hgr, List.mem_cons, not_or]
    exact ⟨hne, hl.queue_fresh r hr'⟩
  upgrader_fresh w p hu := by
    obtain ⟨hu', hne⟩ := (hup w p).mp hu
    rw [hgr, List.mem_cons, not_or]
    exact ⟨hne, hl.upgrader_fresh w p hu'⟩
  ids := hl.ids
  parties := hl.parties
  hold p hp := by
    have hne : p ≠ c₀.party := by
      rintro rfl
      exact hp c₀ hc₀ rfl (hgr ▸ List.mem_cons_self ..)
    rw [hother p hne]
    exact hl.hold p fun c hc he hmem => hp c hc he (hgr ▸ List.mem_cons_of_mem _ hmem)
  granted_hold c hc hmem := by
    by_cases he : c.id = c₀.id
    · rw [hl.ids c hc c₀ hc₀ he]
      exact hself
    · have hne : c.party ≠ c₀.party := fun hp => he (congrArg Call.id (hl.parties c hc c₀ hc₀ hp))
      rw [hother _ hne]
      rw [hgr] at hmem
      exact hl.granted_hold c hc (List.mem_of_ne_of_mem he hmem)
  before := hl.before
  target := hl.target

/-- A party without a suspended call changes its hold. -/
theorem rebase (hl : Link h calls base) {h' : Holds τ} {p : Party τ} {x : Option Mode}
    (hno : ∀ c ∈ calls, c.party ≠ p) (hqueue : h'.queue = h.queue)
    (hup : h'.upgrader = h.upgrader) (hgr : h'.granted = h.granted) (hself : h'.holdOf p = x)
    (hother : ∀ q, q ≠ p → h'.holdOf q = h.holdOf q) :
    Link h' calls (Function.update base p x) where
  waiting c hc := by
    have := hl.waiting c hc
    unfold Queued at this ⊢
    rw [hqueue, hup, hgr]
    exact this
  queue := by rw [hqueue]; exact hl.queue
  upgrader := by rw [hup]; exact hl.upgrader
  granted := by rw [hgr]; exact hl.granted
  granted_nodup := by rw [hgr]; exact hl.granted_nodup
  queue_fresh := by rw [hqueue, hgr]; exact hl.queue_fresh
  upgrader_fresh := by rw [hup, hgr]; exact hl.upgrader_fresh
  ids := hl.ids
  parties := hl.parties
  hold q hq := by
    rw [hgr] at hq
    by_cases he : q = p
    · subst he
      rw [hself, Function.update_self]
    · rw [hother q he, Function.update_of_ne he]
      exact hl.hold q hq
  granted_hold c hc hmem := by
    rw [hother _ (hno c hc)]
    exact hl.granted_hold c hc (hgr ▸ hmem)
  before c hc := by
    rw [Function.update_of_ne (hno c hc)]
    exact hl.before c hc
  target := hl.target

/-- A suspended call comes to an end. -/
theorem remove (hl : Link h calls base) {h' : Holds τ} {c₀ : Call τ} {x : Option Mode}
    (hc₀ : c₀ ∈ calls) (hgr : h'.granted = h.granted.erase c₀.id)
    (hqueue : ∀ r, r ∈ h'.queue ↔ r ∈ h.queue ∧ r.id ≠ c₀.id)
    (hup : ∀ w p, h'.upgrader = some (w, p) ↔ h.upgrader = some (w, p) ∧ w ≠ c₀.id)
    (hself : h'.holdOf c₀.party = x) (hother : ∀ p, p ≠ c₀.party → h'.holdOf p = h.holdOf p) :
    Link h' (dropCall c₀.id calls) (Function.update base c₀.party x) := by
  have hmem : ∀ w, w ∈ h'.granted ↔ w ∈ h.granted ∧ w ≠ c₀.id := by
    intro w
    rw [hgr, hl.granted_nodup.mem_erase_iff]
    exact and_comm
  have hparty : ∀ c ∈ dropCall c₀.id calls, c ∈ calls ∧ c.party ≠ c₀.party := by
    intro c hc
    obtain ⟨hc, hne⟩ := mem_dropCall.mp hc
    exact ⟨hc, fun hp => hne (congrArg Call.id (hl.parties c hc c₀ hc₀ hp))⟩
  refine ⟨?_, ?_, ?_, ?_, ?_, ?_, ?_, ?_, ?_, ?_, ?_, ?_, ?_⟩
  · intro c hc
    obtain ⟨hc, hne⟩ := mem_dropCall.mp hc
    rcases hl.waiting c hc with hw | hw
    · refine Or.inl ?_
      unfold Queued at hw ⊢
      split at hw
      next hu => rw [if_pos hu, hup]; exact ⟨hw, hne⟩
      next hu => rw [if_neg hu, hqueue]; exact ⟨hw, hne⟩
    · exact Or.inr ((hmem _).mpr ⟨hw, hne⟩)
  · intro r hr
    obtain ⟨hr, hne⟩ := (hqueue r).mp hr
    exact mem_dropCall.mpr ⟨hl.queue r hr, hne⟩
  · intro w p hu
    obtain ⟨hu, hne⟩ := (hup w p).mp hu
    exact mem_dropCall.mpr ⟨hl.upgrader w p hu, hne⟩
  · intro w hw
    obtain ⟨hw, hne⟩ := (hmem w).mp hw
    obtain ⟨c, hc, rfl⟩ := hl.granted w hw
    exact ⟨c, mem_dropCall.mpr ⟨hc, hne⟩, rfl⟩
  · rw [hgr]
    exact hl.granted_nodup.erase _
  · intro r hr hw
    exact hl.queue_fresh r ((hqueue r).mp hr).1 ((hmem _).mp hw).1
  · intro w p hu hw
    exact hl.upgrader_fresh w p ((hup w p).mp hu).1 ((hmem _).mp hw).1
  · intro c hc c' hc'
    exact hl.ids c (hparty c hc).1 c' (hparty c' hc').1
  · intro c hc c' hc'
    exact hl.parties c (hparty c hc).1 c' (hparty c' hc').1
  · intro p hp
    by_cases he : p = c₀.party
    · subst he
      rw [hself, Function.update_self]
    · rw [hother p he, Function.update_of_ne he]
      refine hl.hold p fun c hc hcp hw => ?_
      have hne : c.id ≠ c₀.id := fun hid => he (hcp ▸ congrArg Call.party (hl.ids c hc c₀ hc₀ hid))
      exact hp c (mem_dropCall.mpr ⟨hc, hne⟩) hcp ((hmem _).mpr ⟨hw, hne⟩)
  · intro c hc hw
    rw [hother _ (hparty c hc).2]
    exact hl.granted_hold c (hparty c hc).1 ((hmem _).mp hw).1
  · intro c hc
    rw [Function.update_of_ne (hparty c hc).2]
    exact hl.before c (hparty c hc).1
  · intro c hc
    exact hl.target c (hparty c hc).1

/-- A party starts to wait. -/
theorem add (hl : Link h calls base) {h' : Holds τ} {c₀ : Call τ}
    (hno : ∀ c ∈ calls, c.party ≠ c₀.party) (hid : ∀ c ∈ calls, c.id ≠ c₀.id)
    (hbefore : base c₀.party = if c₀.isUpgrade then some .shared else none)
    (htarget : c₀.isUpgrade = true → c₀.target = .exclusive) (hq : Queued h' c₀)
    (hkeep : ∀ c ∈ calls, Queued h c → Queued h' c)
    (hqueue : ∀ r ∈ h'.queue, r ∈ h.queue ∨ (⟨r.id, r.party, r.mode, false⟩ : Call τ) = c₀)
    (hup : ∀ w p, h'.upgrader = some (w, p) →
      h.upgrader = some (w, p) ∨ (⟨w, p, .exclusive, true⟩ : Call τ) = c₀)
    (hgr : h'.granted = h.granted) (hother : ∀ p, h'.holdOf p = h.holdOf p) :
    Link h' (c₀ :: calls) base := by
  have hfresh : c₀.id ∉ h.granted := by
    intro hw
    obtain ⟨c, hc, he⟩ := hl.granted _ hw
    exact hid c hc he
  refine ⟨?_, ?_, ?_, ?_, ?_, ?_, ?_, ?_, ?_, ?_, ?_, ?_, ?_⟩
  · intro c hc
    rw [hgr]
    rcases List.mem_cons.mp hc with rfl | hc
    · exact Or.inl hq
    · exact (hl.waiting c hc).imp (hkeep c hc) id
  · intro r hr
    rcases hqueue r hr with hr | he
    · exact List.mem_cons_of_mem _ (hl.queue r hr)
    · exact he ▸ List.mem_cons_self ..
  · intro w p hu
    rcases hup w p hu with hu | he
    · exact List.mem_cons_of_mem _ (hl.upgrader w p hu)
    · exact he ▸ List.mem_cons_self ..
  · intro w hw
    rw [hgr] at hw
    obtain ⟨c, hc, he⟩ := hl.granted w hw
    exact ⟨c, List.mem_cons_of_mem _ hc, he⟩
  · rw [hgr]
    exact hl.granted_nodup
  · intro r hr
    rw [hgr]
    rcases hqueue r hr with hr | he
    · exact hl.queue_fresh r hr
    · rw [← he] at hfresh
      exact hfresh
  · intro w p hu
    rw [hgr]
    rcases hup w p hu with hu | he
    · exact hl.upgrader_fresh w p hu
    · rw [← he] at hfresh
      exact hfresh
  · intro c hc c' hc' he
    rcases List.mem_cons.mp hc with rfl | hm
    · rcases List.mem_cons.mp hc' with rfl | hm'
      · rfl
      · exact absurd he.symm (hid c' hm')
    · rcases List.mem_cons.mp hc' with rfl | hm'
      · exact absurd he (hid c hm)
      · exact hl.ids c hm c' hm' he
  · intro c hc c' hc' he
    rcases List.mem_cons.mp hc with rfl | hm
    · rcases List.mem_cons.mp hc' with rfl | hm'
      · rfl
      · exact absurd he.symm (hno c' hm')
    · rcases List.mem_cons.mp hc' with rfl | hm'
      · exact absurd he (hno c hm)
      · exact hl.parties c hm c' hm' he
  · intro p hp
    rw [hother p]
    exact hl.hold p fun c hc he => hgr ▸ hp c (List.mem_cons_of_mem _ hc) he
  · intro c hc hw
    rw [hgr] at hw
    rw [hother]
    rcases List.mem_cons.mp hc with rfl | hc
    · exact absurd hw hfresh
    · exact hl.granted_hold c hc hw
  · intro c hc
    rcases List.mem_cons.mp hc with rfl | hc
    · exact hbefore
    · exact hl.before c hc
  · intro c hc
    rcases List.mem_cons.mp hc with rfl | hc
    · exact htarget
    · exact hl.target c hc

/-! ## Granting -/

theorem takeHead_queue {r : Request τ} {rs : List (Request τ)} (hl : Link h calls base)
    (hq : h.queue = r :: rs) (hwf : h.WF) (r' : Request τ) :
    r' ∈ rs ↔ r' ∈ h.queue ∧ r'.id ≠ r.id := by
  have hr : r ∈ h.queue := hq ▸ List.mem_cons_self ..
  have hnd := hwf.queue_nodup
  rw [hq, List.map_cons, List.nodup_cons] at hnd
  constructor
  · intro hr'
    have hmem : r' ∈ h.queue := hq ▸ List.mem_cons_of_mem _ hr'
    refine ⟨hmem, fun he => hnd.1 ?_⟩
    have hc := hl.ids _ (hl.queue r' hmem) _ (hl.queue r hr) he
    exact List.mem_map.mpr ⟨r', hr', congrArg Call.party hc⟩
  · rintro ⟨hr', hne⟩
    rw [hq] at hr'
    rcases List.mem_cons.mp hr' with rfl | hr'
    · exact absurd rfl hne
    · exact hr'

theorem takeShared {r : Request τ} {rs : List (Request τ)} (hl : Link h calls base)
    (hq : h.queue = r :: rs) (hm : r.mode = .shared) (hwf : h.WF) (hex : h.exclusive = none)
    (hu : h.upgrader = none) : Link (h.takeShared r rs) calls base := by
  have hr : r ∈ h.queue := hq ▸ List.mem_cons_self ..
  refine hl.grant (hl.queue r hr) (hl.queue_fresh r hr) rfl (hl.takeHead_queue hq hwf) ?_ ?_ ?_
  · intro w p
    simp [Holds.takeShared, hu]
  · simp [Holds.holdOf, Holds.takeShared, hex, hm]
  · intro p hp
    simp [Holds.holdOf, Holds.takeShared, hp]

theorem takeExclusive {r : Request τ} {rs : List (Request τ)} (hl : Link h calls base)
    (hq : h.queue = r :: rs) (hm : r.mode = .exclusive) (hwf : h.WF) (hex : h.exclusive = none)
    (hs : h.shared = []) (hu : h.upgrader = none) : Link (h.takeExclusive r rs) calls base := by
  have hr : r ∈ h.queue := hq ▸ List.mem_cons_self ..
  refine hl.grant (hl.queue r hr) (hl.queue_fresh r hr) rfl (hl.takeHead_queue hq hwf) ?_ ?_ ?_
  · intro w p
    simp [Holds.takeExclusive, hu]
  · simp [Holds.holdOf, Holds.takeExclusive, hm]
  · intro p hp
    have hp' : ¬ r.party = p := fun e => hp e.symm
    simp [Holds.holdOf, Holds.takeExclusive, hex, hs, hp']

theorem takeUpgrade {w : Nat} {p : Party τ} (hl : Link h calls base)
    (hu : h.upgrader = some (w, p)) (hwf : h.WF) (hex : h.exclusive = none)
    (hlen : h.shared.length = 1) : Link (h.takeUpgrade w p) calls base := by
  have hshared : h.shared = [p] := by
    obtain ⟨q, hq⟩ := List.length_eq_one_iff.mp hlen
    have hp := hwf.upgrader_shared w p hu
    rw [hq, List.mem_singleton] at hp
    rw [hq, hp]
  refine hl.grant (hl.upgrader w p hu) (hl.upgrader_fresh w p hu) rfl ?_ ?_ ?_ ?_
  · intro r
    refine ⟨fun hr => ⟨hr, fun he => ?_⟩, fun hr => hr.1⟩
    have hc := hl.ids _ (hl.queue r hr) _ (hl.upgrader w p hu) he
    exact absurd (congrArg Call.isUpgrade hc) (by simp)
  · intro w' p'
    simp only [Holds.takeUpgrade, hu, Option.some.injEq, Prod.mk.injEq, reduceCtorEq, false_iff]
    rintro ⟨⟨rfl, -⟩, hne⟩
    exact hne rfl
  · simp [Holds.holdOf, Holds.takeUpgrade]
  · intro q hq
    have hq' : ¬ p = q := fun e => hq e.symm
    simp [Holds.holdOf, Holds.takeUpgrade, hex, hshared, hq, hq']

theorem grantQueue : ∀ {rs : List (Request τ)} {h : Holds τ}, h.queue = rs → h.WF →
    h.exclusive = none → h.upgrader = none → Link h calls base →
    Link (Holds.grantQueue rs h) calls base
  | [], _, _, _, _, _, hl => hl
  | r :: rs, h, hq, hwf, hex, hu, hl => by
    simp only [Holds.grantQueue]
    split
    next hm =>
      split
      · exact hl
      next hs => exact hl.takeExclusive hq hm hwf hex (not_not.mp hs) hu
    next hm =>
      exact grantQueue rfl (Holds.takeShared_wf hq hex hwf) hex hu
        (hl.takeShared hq hm hwf hex hu)

theorem grantNext (hl : Link h calls base) (hwf : h.WF) (hex : h.exclusive = none) :
    Link (Holds.grantNext h) calls base := by
  unfold Holds.grantNext
  split
  next w p hu =>
    split
    next hlen => exact hl.takeUpgrade hu hwf hex hlen
    · exact hl
  next hu =>
    split
    · exact hl
    · exact grantQueue rfl hwf hex hu hl

end Link

/-! ## The specification of the operations -/

/-- The lock agrees with the calls suspended in it and the holds recorded outside. -/
def Agrees {τ : Type} [DecidableEq τ] (l : Lock τ) (calls : List (Call τ))
    (base : Party τ → Option Mode) : Prop :=
  ∃ h : Holds τ, l = h.toLock ∧ h.WF ∧ h.Settled ∧ Link h calls base

namespace Agrees

variable {τ : Type} [DecidableEq τ] {l : Lock τ} {calls : List (Call τ)}
  {base : Party τ → Option Mode} {p : Party τ}

theorem free : Agrees (Lock.free : Lock τ) [] (fun _ => none) := by
  refine ⟨Holds.free, rfl, ?_, Holds.settled_of_none rfl, ?_⟩
  · constructor <;> simp [Holds.free]
  · constructor <;> simp [Holds.free, Holds.holdOf]

/-- A transaction without a suspended call holds what it has recorded. -/
theorem holdOf_eq (ha : Agrees l calls base) {t : τ} (hno : ∀ c ∈ calls, c.party ≠ .txn t) :
    l.holdOf t = base (.txn t) := by
  obtain ⟨h, rfl, -, -, hl⟩ := ha
  rw [Holds.toLock_holdOf]
  exact hl.hold_of_no_call hno

/-- What is recorded for the party of a suspended call. -/
theorem before {c : Call τ} (ha : Agrees l calls base) (hc : c ∈ calls) :
    base c.party = if c.isUpgrade then some .shared else none := by
  obtain ⟨h, rfl, -, -, hl⟩ := ha
  exact hl.before c hc

/-- A suspended call goes; nobody else's does, and its party has none left. -/
theorem mem_dropCall_iff {c : Call τ} (ha : Agrees l calls base) (hc : c ∈ calls) (c' : Call τ) :
    c' ∈ dropCall c.id calls ↔ c' ∈ calls ∧ c'.party ≠ c.party := by
  obtain ⟨h, rfl, -, -, hl⟩ := ha
  rw [mem_dropCall]
  refine ⟨fun ⟨hm, hne⟩ => ⟨hm, fun hp => hne ?_⟩, fun ⟨hm, hne⟩ => ⟨hm, fun hid => hne ?_⟩⟩
  · rw [hl.parties c' hm c hc hp]
  · rw [hl.ids c' hm c hc hid]

/-- The transaction of a suspended call holds what it was granted, or else what it has
recorded. -/
theorem holdOf_suspended {c : Call τ} {t : τ} (ha : Agrees l calls base) (hc : c ∈ calls)
    (hp : c.party = .txn t) :
    l.holdOf t = if c.id ∈ l.done then some c.target else base (.txn t) := by
  obtain ⟨h, rfl, -, -, hl⟩ := ha
  rw [Holds.toLock_holdOf, ← hp]
  split
  next hd => exact hl.granted_hold c hc hd
  next hd =>
    refine hl.hold _ fun c' hc' he => ?_
    rw [hl.parties c' hc' c hc he]
    exact hd

/-- The upgrader has a suspended call. -/
theorem not_upgrader {h : Holds τ} (hl : Link h calls base) (hno : ∀ c ∈ calls, c.party ≠ p) :
    ∀ w, h.upgrader ≠ some (w, p) :=
  fun w hu => hno _ (hl.upgrader w p hu) rfl

/-- Whoever is queued has a suspended call. -/
theorem not_queued {h : Holds τ} (hl : Link h calls base) (hno : ∀ c ∈ calls, c.party ≠ p) :
    ∀ r ∈ h.queue, r.party ≠ p :=
  fun r hr => hno _ (hl.queue r hr)

/-- An attempt that succeeds gives the hold asked for. -/
theorem tryAcquire {m : Mode} {r : Op τ} (ha : Agrees l calls base)
    (hno : ∀ c ∈ calls, c.party ≠ p) (hb : base p = none)
    (hr : l.tryAcquire m p.transaction = some r) :
    r.2 = true ∧ Agrees r.1 calls (Function.update base p (some m)) := by
  obtain ⟨h, rfl, hwf, hset, hl⟩ := ha
  have hnone : h.holdOf p = none := by rw [hl.hold_of_no_call hno, hb]
  obtain ⟨hnex, hnsh⟩ := Holds.holdOf_eq_none.mp hnone
  have hnq := not_queued hl hno
  cases m with
  | shared =>
    simp only [Lock.tryAcquire, Lock.tryAcquireShared] at hr
    split at hr
    · cases hr
    next hfree =>
      rw [not_or, not_not] at hfree
      have hex : h.exclusive = none := by simpa [Holds.toLock] using hfree.1
      split at hr
      · cases hr
      next =>
        rw [Holds.addSharedHolder_eq h.shared rfl hnsh] at hr
        cases hr
        have hu : h.upgrader = none := by simpa [Holds.toLock] using hfree.2
        refine ⟨rfl, { h with shared := p :: h.shared }, rfl, ?_, Holds.settled_of_none hu, ?_⟩
        · refine ⟨List.nodup_cons.mpr ⟨hnsh, hwf.shared_nodup⟩, ?_, ?_, hwf.queue_nodup, ?_,
            hwf.queue_not_exclusive⟩
          · intro q hq
            simp only [hex] at hq
            cases hq
          · intro w q hq
            exact List.mem_cons_of_mem _ (hwf.upgrader_shared w q hq)
          · intro r hr hmem
            rcases List.mem_cons.mp hmem with he | hmem
            · exact hnq r hr he
            · exact hwf.queue_not_shared r hr hmem
        · refine hl.rebase hno rfl rfl rfl ?_ ?_
          · simp [Holds.holdOf, hex]
          · intro q hq
            simp [Holds.holdOf, hq]
  | exclusive =>
    simp only [Lock.tryAcquire, Lock.tryAcquireExclusive] at hr
    split at hr
    · cases hr
    next hfree =>
      rw [not_or, not_or, not_not] at hfree
      have hex : h.exclusive = none := by simpa [Holds.toLock] using hfree.1
      have hs : h.shared = [] := by simpa [Holds.toLock] using hfree.2.1
      have hu : h.upgrader = none := by simpa [Holds.toLock] using hfree.2.2
      rw [Holds.setExclusiveHolder_eq (by simp [Holds.toLock, hex])] at hr
      cases hr
      refine ⟨rfl, { h with exclusive := some p }, rfl, ?_, Holds.settled_of_none hu, ?_⟩
      · refine ⟨hwf.shared_nodup, fun _ _ => ⟨hs, hu⟩, hwf.upgrader_shared, hwf.queue_nodup,
          hwf.queue_not_shared, ?_⟩
        intro r hr he
        exact hnq r hr (Option.some.inj he).symm
      · refine hl.rebase hno rfl rfl rfl ?_ ?_
        · simp [Holds.holdOf]
        · intro q hq
          have hq' : ¬ p = q := fun e => hq e.symm
          simp [Holds.holdOf, hex, hq']

/-- A party that holds nothing and does not wait can queue. -/
theorem enqueue {m : Mode} {w : Nat} (ha : Agrees l calls base)
    (hno : ∀ c ∈ calls, c.party ≠ p) (hb : base p = none) (hid : ∀ c ∈ calls, c.id ≠ w) :
    Agrees (l.enqueue w m p.transaction) (⟨w, p, m, false⟩ :: calls) base := by
  obtain ⟨h, rfl, hwf, hset, hl⟩ := ha
  have hnone : h.holdOf p = none := by rw [hl.hold_of_no_call hno, hb]
  obtain ⟨hnex, hnsh⟩ := Holds.holdOf_eq_none.mp hnone
  have hnq := not_queued hl hno
  refine ⟨{ h with queue := h.queue ++ [⟨w, m, p⟩] }, ?_, ?_, hset, ?_⟩
  · simp [Lock.enqueue, Holds.toLock, Request.waiter]
  · refine ⟨hwf.shared_nodup, hwf.exclusive_alone, hwf.upgrader_shared, ?_, ?_, ?_⟩
    · rw [List.map_append, List.nodup_append]
      refine ⟨hwf.queue_nodup, List.pairwise_singleton _ _, ?_⟩
      intro q hq q' hq'
      obtain ⟨r, hr, rfl⟩ := List.mem_map.mp hq
      rw [List.map_singleton, List.mem_singleton] at hq'
      exact hq' ▸ hnq r hr
    · intro r hr
      rcases List.mem_append.mp hr with hr | hr
      · exact hwf.queue_not_shared r hr
      · rw [List.mem_singleton] at hr
        subst hr
        exact hnsh
    · intro r hr
      rcases List.mem_append.mp hr with hr | hr
      · exact hwf.queue_not_exclusive r hr
      · rw [List.mem_singleton] at hr
        subst hr
        exact hnex
  · refine hl.add hno hid (by simpa using hb) (by simp) ?_ ?_ ?_ ?_ rfl ?_
    · simp [Queued]
    · intro c _ hq
      unfold Queued at hq ⊢
      split
      next hup => simpa [hup] using hq
      next hup => exact List.mem_append_left _ (by simpa [hup] using hq)
    · intro r hr
      rcases List.mem_append.mp hr with hr | hr
      · exact Or.inl hr
      · rw [List.mem_singleton] at hr
        exact Or.inr (hr ▸ rfl)
    · intro w' p' hu
      exact Or.inl hu
    · intro q
      rfl

/-- The hold of a party without a suspended call can be given back. -/
theorem release {m : Mode} (ha : Agrees l calls base) (hno : ∀ c ∈ calls, c.party ≠ p)
    (hb : base p = some m) :
    (l.release m p.transaction).2 = true ∧
      Agrees (l.release m p.transaction).1 calls (Function.update base p none) := by
  obtain ⟨h, rfl, hwf, hset, hl⟩ := ha
  have hnu := not_upgrader hl hno
  have hold : h.holdOf p = some m := by rw [hl.hold_of_no_call hno, hb]
  rw [Holds.release_toLock hwf hold hnu]
  refine ⟨rfl, _, rfl, ?_⟩
  cases m with
  | shared =>
    have hp := (Holds.holdOf_eq_shared hwf).mp hold
    have hex := Holds.exclusive_none_of_shared hwf hp
    have hwf' := Holds.erase_wf hwf hp hnu
    refine ⟨Holds.grantNext_wf hex hwf', Holds.grantNext_settled _, Link.grantNext ?_ hwf' hex⟩
    refine hl.rebase hno rfl rfl rfl ?_ ?_
    · rw [Holds.holdOf_eq_none]
      refine ⟨by simp [hex], ?_⟩
      exact fun hmem => (hwf.shared_nodup.mem_erase_iff.mp hmem).1 rfl
    · intro q hq
      simp [Holds.holdOf, List.mem_erase_of_ne hq]
  | exclusive =>
    have he := Holds.holdOf_eq_exclusive.mp hold
    obtain ⟨hs, hu⟩ := hwf.exclusive_alone p he
    have hwf' := Holds.drop_exclusive_wf hwf
    refine ⟨Holds.grantQueue_wf rfl rfl hu hwf',
      Holds.settled_of_none ((Holds.grantQueue_upgrader _ _).trans hu),
      Link.grantQueue rfl hwf' rfl hu ?_⟩
    refine hl.rebase hno rfl rfl rfl ?_ ?_
    · simp [Holds.holdOf, hs]
    · intro q hq
      have hq' : ¬ p = q := fun e => hq e.symm
      simp [Holds.holdOf, he, hs, hq']

/-- A release takes nothing from the other transactions; at most it grants the
upgrade that one of them waits for. -/
theorem release_keeps {m m' : Mode} {t u : τ} (ha : Agrees l calls base)
    (hno : ∀ c ∈ calls, c.party ≠ .txn t) (hb : base (.txn t) = some m) (hne : u ≠ t)
    (hu : l.holdOf u = some m') :
    (l.release m (some t)).1.holdOf u = some m' ∨
      m' = .shared ∧ (∃ c ∈ calls, c.party = .txn u ∧ c.isUpgrade = true) ∧
        (l.release m (some t)).1.holdOf u = some .exclusive := by
  obtain ⟨h, rfl, hwf, hset, hl⟩ := ha
  have hnu := not_upgrader hl hno
  have hold : h.holdOf (.txn t) = some m := by rw [hl.hold_of_no_call hno, hb]
  have hrel : Lock.release m (some t) h.toLock = ((Holds.release m (.txn t) h).toLock, true) :=
    Holds.release_toLock hwf hold hnu
  have hpne : Party.txn u ≠ Party.txn t := fun e => hne (Party.txn.inj e)
  rw [Holds.toLock_holdOf] at hu
  simp only [hrel, Holds.toLock_holdOf]
  cases m with
  | shared =>
    have hp := (Holds.holdOf_eq_shared hwf).mp hold
    have hex := Holds.exclusive_none_of_shared hwf hp
    have hu' : Holds.holdOf { h with shared := h.shared.erase (.txn t) } (.txn u) = some m' := by
      rw [← hu]
      simp [Holds.holdOf, List.mem_erase_of_ne hpne]
    refine (Holds.holdOf_grantNext (Holds.erase_wf hwf hp hnu) hex hu').imp id ?_
    rintro ⟨hm, ⟨w, hw⟩, hx⟩
    exact ⟨hm, ⟨_, hl.upgrader w _ hw, rfl, rfl⟩, hx⟩
  | exclusive =>
    have he := Holds.holdOf_eq_exclusive.mp hold
    have hnone : h.holdOf (.txn u) = none := by
      rw [Holds.holdOf_eq_none, he, (hwf.exclusive_alone _ he).1]
      exact ⟨fun e => hpne (Option.some.inj e).symm, List.not_mem_nil⟩
    rw [hnone] at hu
    cases hu

/-- An exclusive hold can be kept as a shared one. -/
theorem downgrade (ha : Agrees l calls base) (hb : base p = some .exclusive) :
    (l.downgrade p.transaction).2 = true ∧
      Agrees (l.downgrade p.transaction).1 calls (Function.update base p (some .shared)) := by
  obtain ⟨h, rfl, hwf, hset, hl⟩ := ha
  have hno : ∀ c ∈ calls, c.party ≠ p := by
    intro c hc he
    have hbefore := hl.before c hc
    rw [he, hb] at hbefore
    split at hbefore
    · cases hbefore
    · cases hbefore
  have he : h.exclusive = some p :=
    Holds.holdOf_eq_exclusive.mp (by rw [hl.hold_of_no_call hno, hb])
  obtain ⟨hs, hu⟩ := hwf.exclusive_alone p he
  have hwf' := Holds.share_exclusive_wf hwf he
  rw [Holds.downgrade_toLock hwf he]
  refine ⟨rfl, _, rfl, Holds.grantQueue_wf rfl rfl hu hwf',
    Holds.settled_of_none ((Holds.grantQueue_upgrader _ _).trans hu),
    Link.grantQueue rfl hwf' rfl hu ?_⟩
  refine hl.rebase hno rfl rfl rfl ?_ ?_
  · simp [Holds.holdOf]
  · intro q hq
    have hq' : ¬ p = q := fun e => hq e.symm
    simp [Holds.holdOf, he, hs, hq, hq']

/-- A granted call comes back and records what it was granted. -/
theorem comeBack {c : Call τ} (ha : Agrees l calls base) (hc : c ∈ calls) (hd : c.id ∈ l.done) :
    Agrees (l.comeBack c.id) (dropCall c.id calls)
      (Function.update base c.party (some c.target)) := by
  obtain ⟨h, rfl, hwf, hset, hl⟩ := ha
  have hd' : c.id ∈ h.granted := hd
  refine ⟨{ h with granted := h.granted.erase c.id }, rfl, ⟨hwf.1, hwf.2, hwf.3, hwf.4, hwf.5,
    hwf.6⟩, hset, ?_⟩
  refine hl.remove hc rfl ?_ ?_ (hl.granted_hold c hc hd') (fun _ _ => rfl)
  · intro r
    exact ⟨fun hr => ⟨hr, fun he => hl.queue_fresh r hr (he ▸ hd')⟩, fun hr => hr.1⟩
  · intro w q
    exact ⟨fun hu => ⟨hu, fun he => hl.upgrader_fresh w q hu (he ▸ hd')⟩, fun hu => hu.1⟩

/-- After a granted call is taken out its party holds the target and does not wait. -/
theorem taken {h : Holds τ} {c : Call τ} (hwf : h.WF) (hset : h.Settled)
    (hl : Link h calls base) (hc : c ∈ calls) (hd : c.id ∈ h.granted) :
    Agrees { h.toLock with done := h.toLock.done.erase c.id } (dropCall c.id calls)
      (Function.update base c.party (some c.target)) :=
  comeBack ⟨h, rfl, hwf, hset, hl⟩ hc hd

/-- Giving up puts everything back to what was recorded before the call. -/
theorem giveUp {c : Call τ} (ha : Agrees l calls base) (hc : c ∈ calls) :
    (l.giveUp c.id c.isUpgrade c.target c.party.transaction).2 = true ∧
      Agrees (l.giveUp c.id c.isUpgrade c.target c.party.transaction).1 (dropCall c.id calls)
        base := by
  obtain ⟨h, rfl, hwf, hset, hl⟩ := ha
  have hno : ∀ c' ∈ dropCall c.id calls, c'.party ≠ c.party := by
    intro c' hc' he
    obtain ⟨hc', hne⟩ := mem_dropCall.mp hc'
    exact hne (congrArg Call.id (hl.parties c' hc' c hc he))
  have hbefore := hl.before c hc
  unfold Lock.giveUp
  by_cases hd : c.id ∈ h.granted
  · -- the hold was granted and goes back
    have htaken := taken hwf hset hl hc hd
    have hd' : c.id ∈ h.toLock.done := hd
    simp only [if_pos hd']
    by_cases hup : c.isUpgrade = true
    · rw [hl.target c hc hup] at htaken
      have hdown := htaken.downgrade (p := c.party) (by simp)
      simp only [hup, if_true] at hbefore ⊢
      rw [Function.update_idem, ← hbefore, Function.update_eq_self] at hdown
      exact hdown
    · simp only [hup, Bool.false_eq_true, if_false] at hbefore ⊢
      have hrel := htaken.release (p := c.party) (m := c.target) hno (by simp)
      rw [Function.update_idem, ← hbefore, Function.update_eq_self] at hrel
      exact hrel
  · -- the call leaves the queue
    have hd' : c.id ∉ h.toLock.done := hd
    have hhold : h.holdOf c.party = base c.party := by
      refine hl.hold _ fun c' hc' he => ?_
      rw [hl.parties c' hc' c hc he]
      exact hd
    have hgr : h.granted = h.granted.erase c.id := (List.erase_of_not_mem hd).symm
    rcases hl.waiting c hc with hq | hg
    · simp only [if_neg hd']
      unfold Queued at hq
      by_cases hup : c.isUpgrade = true
      · simp only [hup, if_true] at hq ⊢
        have hul : h.toLock.upgrader = some ⟨c.id, .exclusive, c.party.transaction⟩ := by
          simp [Holds.toLock, hq]
        rw [hul]
        simp only [if_true]
        refine ⟨trivial, { h with upgrader := none }, rfl, ?_, Holds.settled_of_none rfl, ?_⟩
        · refine ⟨hwf.shared_nodup, fun q he => ⟨(hwf.exclusive_alone q he).1, rfl⟩, ?_,
            hwf.queue_nodup, hwf.queue_not_shared, hwf.queue_not_exclusive⟩
          intro w q hu
          cases hu
        · rw [← Function.update_eq_self c.party base]
          refine hl.remove hc hgr ?_ ?_ hhold (fun _ _ => rfl)
          · intro r
            refine ⟨fun hr => ⟨hr, fun he => ?_⟩, fun hr => hr.1⟩
            have := hl.ids _ (hl.queue r hr) c hc he
            exact absurd ((congrArg Call.isUpgrade this).trans hup) (by simp)
          · intro w q
            rw [hq]
            simp only [Option.some.injEq, Prod.mk.injEq, reduceCtorEq, false_iff]
            rintro ⟨⟨rfl, -⟩, hne⟩
            exact hne rfl
      · simp only [hup, Bool.false_eq_true, if_false] at hq ⊢
        refine ⟨trivial, { h with queue := h.queue.filter fun r => decide (r.id ≠ c.id) }, ?_,
          ?_, hset, ?_⟩
        · simp only [Holds.toLock, List.filter_map]
          rfl
        · refine ⟨hwf.shared_nodup, hwf.exclusive_alone, hwf.upgrader_shared, ?_, ?_, ?_⟩
          · exact hwf.queue_nodup.sublist (List.filter_sublist.map _)
          · intro r hr
            exact hwf.queue_not_shared r (List.mem_of_mem_filter hr)
          · intro r hr
            exact hwf.queue_not_exclusive r (List.mem_of_mem_filter hr)
        · rw [← Function.update_eq_self c.party base]
          refine hl.remove hc hgr ?_ ?_ hhold (fun _ _ => rfl)
          · intro r
            simp [List.mem_filter]
          · intro w q
            refine ⟨fun hu => ⟨hu, fun he => ?_⟩, fun hu => hu.1⟩
            have := hl.ids _ (hl.upgrader w q hu) c hc he
            exact hup (congrArg Call.isUpgrade this).symm
    · exact absurd hg hd

/-- How an upgrade of a recorded shared hold begins. -/
theorem upgrade {w : Nat} (ha : Agrees l calls base) (hno : ∀ c ∈ calls, c.party ≠ p)
    (hb : base p = some .shared) (hid : ∀ c ∈ calls, c.id ≠ w) :
    match l.upgrade w p.transaction with
    | .upgraded l' => Agrees l' calls (Function.update base p (some .exclusive))
    | .waiting l' => Agrees l' (⟨w, p, .exclusive, true⟩ :: calls) base
    | .raised l' => l' = l := by
  obtain ⟨h, rfl, hwf, hset, hl⟩ := ha
  have hp : p ∈ h.shared := (Holds.holdOf_eq_shared hwf).mp (by rw [hl.hold_of_no_call hno, hb])
  have hex := Holds.exclusive_none_of_shared hwf hp
  have hpos := List.length_pos_of_mem hp
  have hne : ¬ h.toLock.shared = 0 := by
    simp only [Holds.toLock]
    omega
  have hexl : h.toLock.exclusive = false := by simp [Holds.toLock, hex]
  unfold Lock.upgrade
  rw [if_neg hne]
  by_cases h1 : h.shared.length = 1
  · have hone : h.toLock.shared = 1 ∧ ¬ h.toLock.exclusive = true := ⟨h1, by simp [hexl]⟩
    have hshared : h.shared = [p] := by
      obtain ⟨q, hq⟩ := List.length_eq_one_iff.mp h1
      rw [hq, List.mem_singleton] at hp
      rw [hq, hp]
    have hu : h.upgrader = none := by
      cases hu : h.upgrader with
      | none => rfl
      | some u =>
        obtain ⟨w', q⟩ := u
        have hq := hwf.upgrader_shared w' q hu
        rw [hshared, List.mem_singleton] at hq
        exact absurd (hq ▸ hu) (not_upgrader hl hno w')
    rw [if_pos hone, Holds.removeSharedHolder_eq h.shared rfl hp, Op.andThen_ok,
      Holds.setExclusiveHolder_eq (by simp [Holds.toLock, hex])]
    refine ⟨{ h with shared := [], exclusive := some p }, ?_, ?_, Holds.settled_of_none hu, ?_⟩
    · simp [Holds.toLock, hshared]
    · refine ⟨List.nodup_nil, fun _ _ => ⟨rfl, hu⟩, ?_, hwf.queue_nodup, ?_, ?_⟩
      · intro w' q hq
        simp only [hu] at hq
        cases hq
      · intro r _
        exact List.not_mem_nil
      · intro r hr he
        exact not_queued hl hno r hr (Option.some.inj he).symm
    · refine hl.rebase hno rfl rfl rfl ?_ ?_
      · simp [Holds.holdOf]
      · intro q hq
        have hq' : ¬ p = q := fun e => hq e.symm
        simp [Holds.holdOf, hex, hshared, hq, hq']
  · have hmany : ¬ (h.toLock.shared = 1 ∧ ¬ h.toLock.exclusive = true) := fun hc => h1 hc.1
    rw [if_neg hmany]
    cases hu : h.upgrader with
    | some u =>
      have hul : h.toLock.upgrader ≠ none := by simp [Holds.toLock, hu]
      rw [if_pos hul]
    | none =>
      have hul : ¬ h.toLock.upgrader ≠ none := by simp [Holds.toLock, hu]
      rw [if_neg hul]
      refine ⟨{ h with upgrader := some (w, p) }, rfl, ?_, fun _ _ => h1, ?_⟩
      · refine ⟨hwf.shared_nodup, ?_, ?_, hwf.queue_nodup, hwf.queue_not_shared,
          hwf.queue_not_exclusive⟩
        · intro q hq
          simp only [hex] at hq
          cases hq
        · intro w' q hq
          cases hq
          exact hp
      · refine hl.add hno hid (by simpa using hb) (fun _ => rfl) ?_ ?_ ?_ ?_ rfl (fun _ => rfl)
        · simp [Queued]
        · intro c hc hq
          unfold Queued at hq ⊢
          split
          next hup =>
            rw [if_pos hup, hu] at hq
            cases hq
          next hup => simpa [hup] using hq
        · intro r hr
          exact Or.inl hr
        · intro w' q hq
          cases hq
          exact Or.inr rfl

/-- While an upgrade is suspended a second one raises at once. -/
theorem upgrade_busy {w : Nat} {c : Call τ} (ha : Agrees l calls base) (hc : c ∈ calls)
    (hup : c.isUpgrade = true) :
    l.upgrade w p.transaction = .raised l := by
  obtain ⟨h, rfl, hwf, hset, hl⟩ := ha
  unfold Lock.upgrade
  by_cases hd : c.id ∈ h.granted
  · have hold := hl.granted_hold c hc hd
    rw [hl.target c hc hup, Holds.holdOf_eq_exclusive] at hold
    have hzero : h.toLock.shared = 0 := by simp [Holds.toLock, (hwf.exclusive_alone _ hold).1]
    rw [if_pos hzero]
  · have hu : h.upgrader = some (c.id, c.party) := by
      rcases hl.waiting c hc with hq | hg
      · simpa [Queued, hup] using hq
      · exact absurd hg hd
    have hmem := hwf.upgrader_shared _ _ hu
    have hpos := List.length_pos_of_mem hmem
    have hne1 := hset _ hu
    have hlen : h.toLock.shared = h.shared.length := rfl
    have hul : h.toLock.upgrader ≠ none := by simp [Holds.toLock, hu]
    rw [hlen, if_neg (by omega), if_neg (fun hcon => hne1 hcon.1), if_pos hul]

end Agrees

end Reboot.Txn
