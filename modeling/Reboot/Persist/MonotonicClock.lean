import Mathlib.Data.Int.Order.Basic
import Mathlib.Data.List.Basic
import Reboot.Lib.Run

/-!
# The monotonic clock of the database

`MonotonicClock` (`reboot/server/monotonic_clock.cc`) gives timestamps that never decrease,
also across restarts and with a system clock that was set back. It keeps a high water mark
in the database, never returns a value above it, and starts from it after a restart.

Several threads are in `Now` at once, without a lock; a flusher advances the high water
mark in the background, and `Now(strict)` does so when it has to. Each load, the
compare-and-swap, each write to the database and each store after it is a step of its own
here, and between any two of them the process may die.

`returned_monotonic`: over the whole history, across every restart, the values returned do
not decrease, each is at most the high water mark that is in the database at that moment,
and a strict one is later, in whole milliseconds, than all before it.

What carries it is `Running`: values returned ≤ `last_returned_` ≤ `high_water_mark_` ≤ the
persisted one, where a write that is under way is above the second of these, and what a
call has read is at most the current value (the marks) or is checked by the swap (the last
value returned).

Mirroring notes:
- Times are nanoseconds, in `Int`. The range of the 64 bits they have (the years 1677 to
  2262) is not modelled.
- The atomics are sequentially consistent.
- A write that fails may have reached the disk (`failsLate`) or not.
- `steady` is what `steady_now_` returns next; it only goes forward while a process runs.
-/

namespace Reboot.Persist.MonotonicClock

open Reboot.Lib

/-! ## The clock -/

/-- `google::protobuf::Timestamp`. -/
structure Timestamp where
  seconds : Int
  nanos : Int
  deriving DecidableEq

/-- `TimeUtil::NanosecondsToTimestamp`. -/
def nanosecondsToTimestamp (n : Int) : Timestamp := ⟨n / 1000000000, n % 1000000000⟩

/-- `TimeUtil::TimestampToNanoseconds`. -/
def timestampToNanoseconds (t : Timestamp) : Int := t.seconds * 1000000000 + t.nanos

theorem timestampToNanoseconds_of (n : Int) :
    timestampToNanoseconds (nanosecondsToTimestamp n) = n := by
  show n / 1000000000 * 1000000000 + n % 1000000000 = n
  omega

def highWaterMarkReservation : Int := 2 * 1000000000

/-- `std::chrono::floor<std::chrono::milliseconds>`, in milliseconds. -/
def floorMilliseconds (n : Int) : Int := n / 1000000

/-- A call of `Now` that is under way. -/
inductive Call
  /-- at the head of the loop -/
  | start
  /-- it has read the wall clock -/
  | walled (now : Int)
  /-- it has read the high water mark, and `now` is at most that -/
  | marked (now highWaterMark : Int)
  /-- it has read the last value that was returned -/
  | computed (now highWaterMark lastReturned : Int)
  /-- it needs a higher mark -/
  | exceeds (now : Int)
  | finished
  deriving DecidableEq

/-- Who has `high_water_mark_write_mutex_`. -/
inductive Owner
  | flusher
  | call (i : Nat)
  deriving DecidableEq

/-- The owner of the mutex is about to write a new mark, or has written it and is about to
store it in memory. -/
structure Writing where
  owner : Owner
  target : Int
  written : Bool
  deriving DecidableEq

/-- A process that has started its clock. -/
structure Process where
  baseSystem : Int
  baseSteady : Int
  steady : Int
  highWaterMark : Int
  lastReturned : Int
  writing : Option Writing
  /-- the calls, with `strict` -/
  calls : List (Bool × Call)
  deriving DecidableEq

/-- A value that `Now` has returned, and the high water mark in the database at that moment. -/
structure Returned where
  value : Int
  strict : Bool
  persisted : Option Timestamp
  deriving DecidableEq

inductive Phase
  | down
  /-- `Start(db)` has found no mark, and is about to write the first one -/
  | bootstrapping (baseSystem baseSteady steady initial : Int)
  | running (p : Process)
  deriving DecidableEq

structure Clock where
  /-- in the database -/
  persisted : Option Timestamp
  phase : Phase
  /-- newest first -/
  returned : List Returned
  deriving DecidableEq

/-- How a write to the database ends. -/
inductive WriteResult
  | ok
  | fails
  /-- it fails, and is on disk all the same -/
  | failsLate
  deriving DecidableEq

inductive Action
  /-- a process constructs its clock, when the steady clock is at `base`, and later calls
  `Start(db)` -/
  | start (system base steady : Int)
  | bootstrapWrite (r : WriteResult)
  | tick (n : Nat)
  | now (strict : Bool)
  /-- a call goes on; `spurious`: a weak compare-and-swap may fail for no reason -/
  | proceed (i : Nat) (spurious : Bool)
  | flush
  | write (r : WriteResult)
  | store
  | crash
  deriving DecidableEq

namespace Process

/-- `MonotonicWallClockNow`. -/
def monotonicWallClockNow (p : Process) : Int := p.baseSystem + (p.steady - p.baseSteady)

/-- `NextHighWaterMark`. -/
def nextHighWaterMark (p : Process) : Int :=
  max p.highWaterMark (p.monotonicWallClockNow + highWaterMarkReservation)

def setCall (p : Process) (i : Nat) (strict : Bool) (c : Call) : Process :=
  { p with calls := p.calls.set i (strict, c) }

/-- `Start(initial_high_water_mark)`. -/
def started (baseSystem baseSteady steady initial : Int) : Process where
  baseSystem := baseSystem
  baseSteady := baseSteady
  steady := steady
  highWaterMark := initial
  lastReturned := initial
  writing := none
  calls := []

/-- The value for the caller, from what was read: `lastReturned` at least, and a whole
millisecond later if it has to be strict. -/
def advance (strict : Bool) (now lastReturned : Int) : Int :=
  let now := max now lastReturned
  if strict = true ∧ floorMilliseconds now ≤ floorMilliseconds lastReturned then
    (floorMilliseconds lastReturned + 1) * 1000000
  else now

end Process

namespace Clock

/-- What the write leaves in the database, and whether it is reported as done. -/
def writeHighWaterMark (persisted : Option Timestamp) (target : Int) :
    WriteResult → Option Timestamp × Bool
  | .ok => (some (nanosecondsToTimestamp target), true)
  | .fails => (persisted, false)
  | .failsLate => (some (nanosecondsToTimestamp target), false)

/-- The process goes on. -/
def goesOn (s : Clock) (p : Process) : Clock := { s with phase := .running p }

/-- A call of `Now` goes on to its next load, swap or lock. -/
def proceed (s : Clock) (p : Process) (i : Nat) (spurious strict : Bool) : Call → Option Clock
  | .start => some (s.goesOn (p.setCall i strict (.walled p.monotonicWallClockNow)))
  | .walled now =>
    some (s.goesOn (p.setCall i strict (.marked (min now p.highWaterMark) p.highWaterMark)))
  | .marked now highWaterMark =>
    some (s.goesOn (p.setCall i strict
      (.computed (Process.advance strict now p.lastReturned) highWaterMark p.lastReturned)))
  | .computed now highWaterMark lastReturned =>
    if now > highWaterMark then some (s.goesOn (p.setCall i strict (.exceeds now)))
    else if p.lastReturned = lastReturned ∧ spurious = false then
      some { s.goesOn { p.setCall i strict .finished with lastReturned := now } with
        returned := ⟨now, strict, s.persisted⟩ :: s.returned }
    else some (s.goesOn (p.setCall i strict .start))
  | .exceeds now =>
    -- it needs the mutex
    if p.writing.isNone then
      if now > p.highWaterMark then
        some (s.goesOn { p with
          writing := some ⟨.call i, now + highWaterMarkReservation, false⟩ })
      else some (s.goesOn (p.setCall i strict .start))
    else none
  | .finished => none

/-- The mutex is given back; the call that had it starts over. -/
def giveBack (p : Process) : Owner → Process
  | .flusher => { p with writing := none }
  | .call i =>
    match p.calls[i]? with
    | some (strict, _) => { p.setCall i strict .start with writing := none }
    | none => { p with writing := none }

/-- Something happens in the process that runs. -/
def onProcess (s : Clock) (f : Process → Option Clock) : Option Clock :=
  match s.phase with
  | .running p => f p
  | _ => none

/-- `Start(db)`. -/
def start (s : Clock) (system base steady : Int) : Clock :=
  match s.persisted with
  | some t => s.goesOn (Process.started system base steady (timestampToNanoseconds t))
  | none =>
    let initial :=
      (Process.started system base steady 0).monotonicWallClockNow + highWaterMarkReservation
    { s with phase := .bootstrapping system base steady initial }

/-- `Start(db)`, after the first mark was written or not. -/
def bootstrap (s : Clock) (system base steady initial : Int) (r : WriteResult) : Clock :=
  match writeHighWaterMark s.persisted initial r with
  | (persisted, true) =>
    { s with persisted := persisted }.goesOn (Process.started system base steady initial)
  | (persisted, false) => { s with persisted := persisted, phase := .down }

/-- `Flush`, up to the write. -/
def flush (s : Clock) (p : Process) : Option Clock :=
  if p.writing.isNone then
    if p.nextHighWaterMark ≤ p.highWaterMark then some s
    else some (s.goesOn { p with writing := some ⟨.flusher, p.nextHighWaterMark, false⟩ })
  else none

/-- The write of whoever has the mutex. -/
def write (s : Clock) (p : Process) (r : WriteResult) : Option Clock :=
  match p.writing with
  | some ⟨owner, target, false⟩ =>
    match writeHighWaterMark s.persisted target r with
    | (persisted, true) =>
      some ({ s with persisted := persisted }.goesOn
        { p with writing := some ⟨owner, target, true⟩ })
    | (persisted, false) => some ({ s with persisted := persisted }.goesOn (giveBack p owner))
  | _ => none

/-- What was written is stored in memory. -/
def store (s : Clock) (p : Process) : Option Clock :=
  match p.writing with
  | some ⟨owner, target, true⟩ => some (s.goesOn { giveBack p owner with highWaterMark := target })
  | _ => none

def step (s : Clock) : Action → Option Clock
  | .start system base steady =>
    match s.phase with
    | .down => some (s.start system base steady)
    | _ => none
  | .bootstrapWrite r =>
    match s.phase with
    | .bootstrapping system base steady initial => some (s.bootstrap system base steady initial r)
    | _ => none
  | .tick n => s.onProcess fun p => some (s.goesOn { p with steady := p.steady + n })
  | .now strict =>
    s.onProcess fun p => some (s.goesOn { p with calls := p.calls ++ [(strict, .start)] })
  | .proceed i spurious => s.onProcess fun p =>
    match p.calls[i]? with
    | some (strict, c) => s.proceed p i spurious strict c
    | none => none
  | .flush => s.onProcess s.flush
  | .write r => s.onProcess fun p => s.write p r
  | .store => s.onProcess s.store
  | .crash => some { s with phase := .down }

/-- A database that has no mark yet. -/
def init : Clock := ⟨none, .down, []⟩

/-! ## What holds in every state -/

/-- The mark that is in the database is at least `n`. -/
def Covers (persisted : Option Timestamp) (n : Int) : Prop :=
  ∃ t, persisted = some t ∧ n ≤ timestampToNanoseconds t

/-- What a call has read is not above what is there now, and the value it has computed is a
fit successor of the last one it saw. -/
def CallOk (p : Process) (strict : Bool) : Call → Prop
  | .marked _ highWaterMark => highWaterMark ≤ p.highWaterMark
  | .computed now highWaterMark lastReturned =>
    highWaterMark ≤ p.highWaterMark ∧ lastReturned ≤ now ∧
      (strict = true → floorMilliseconds lastReturned < floorMilliseconds now)
  | _ => True

structure Running (s : Clock) (p : Process) : Prop where
  covers : Covers s.persisted p.highWaterMark
  last : p.lastReturned ≤ p.highWaterMark
  returned : ∀ r ∈ s.returned, r.value ≤ p.lastReturned
  above : ∀ w, p.writing = some w → p.highWaterMark ≤ w.target
  written : ∀ w, p.writing = some w → w.written = true → Covers s.persisted w.target
  calls : ∀ c ∈ p.calls, CallOk p c.1 c.2

/-- `later` may be returned after `earlier`. -/
def Follows (later earlier : Returned) : Prop :=
  earlier.value ≤ later.value ∧
    (later.strict = true → floorMilliseconds earlier.value < floorMilliseconds later.value)

structure Inv (s : Clock) : Prop where
  ordered : s.returned.Pairwise Follows
  bounded : ∀ r ∈ s.returned, Covers r.persisted r.value
  covered : ∀ r ∈ s.returned, Covers s.persisted r.value
  bootstrapping : ∀ a b c d, s.phase = .bootstrapping a b c d → s.persisted = none
  running : ∀ p, s.phase = .running p → s.Running p

theorem Covers.mono {persisted : Option Timestamp} {m n : Int} (h : Covers persisted n)
    (hmn : m ≤ n) : Covers persisted m := by
  obtain ⟨t, ht, hn⟩ := h
  exact ⟨t, ht, le_trans hmn hn⟩

theorem covers_written (n : Int) : Covers (some (nanosecondsToTimestamp n)) n :=
  ⟨_, rfl, le_of_eq (timestampToNanoseconds_of n).symm⟩

/-- A later value, and in whole milliseconds if it has to be. -/
theorem advance_spec (strict : Bool) (now lastReturned : Int) :
    lastReturned ≤ Process.advance strict now lastReturned ∧
    (strict = true → floorMilliseconds lastReturned <
      floorMilliseconds (Process.advance strict now lastReturned)) := by
  unfold Process.advance floorMilliseconds
  simp only
  split
  next h => omega
  next h =>
    refine ⟨le_max_right _ _, fun hs => ?_⟩
    by_contra hle
    exact h ⟨hs, by omega⟩

/-- Marks only go up, so what a call has read stays below. -/
theorem CallOk.mono {p p' : Process} {strict : Bool} {c : Call} (h : CallOk p strict c)
    (hmark : p.highWaterMark ≤ p'.highWaterMark) : CallOk p' strict c := by
  cases c with
  | marked now m => exact le_trans h hmark
  | computed now m l => exact ⟨le_trans h.1 hmark, h.2⟩
  | _ => trivial

theorem onProcess_some {s s' : Clock} {f : Process → Option Clock}
    (h : s.onProcess f = some s') : ∃ p, s.phase = .running p ∧ f p = some s' := by
  unfold onProcess at h
  split at h
  next p hp => exact ⟨p, hp, h⟩
  next => cases h

theorem inv_init : init.Inv :=
  ⟨List.Pairwise.nil, nofun, nofun, nofun, fun _ h => Phase.noConfusion h⟩

/-- A step of the process that returns nothing. -/
theorem Inv.goesOn {s : Clock} (hi : s.Inv) {p' : Process} (hp : s.Running p') :
    (s.goesOn p').Inv where
  ordered := hi.ordered
  bounded := hi.bounded
  covered := hi.covered
  bootstrapping _ _ _ _ h := by cases h
  running p h := by
    cases h
    exact ⟨hp.covers, hp.last, hp.returned, hp.above, hp.written, hp.calls⟩

/-- A call goes on, and the atomics stay as they are. -/
theorem Running.setCall {s : Clock} {p : Process} (hp : s.Running p) {i : Nat} {strict : Bool}
    {c : Call} (hc : CallOk p strict c) : s.Running (p.setCall i strict c) := by
  refine ⟨hp.covers, hp.last, hp.returned, hp.above, hp.written, fun x hx => ?_⟩
  rcases List.mem_or_eq_of_mem_set hx with hold | rfl
  · exact (hp.calls x hold).mono (le_refl _)
  · exact hc.mono (le_refl _)

/-- The swap has found the last value that the call has seen: the new one follows all that
were returned. -/
theorem returns_inv {s : Clock} (hi : s.Inv) {p : Process} (hp : s.Running p) {i : Nat}
    {strict : Bool} {now m : Int} (hc : CallOk p strict (.computed now m p.lastReturned))
    (hle : now ≤ m) :
    ({ s.goesOn { p.setCall i strict .finished with lastReturned := now } with
      returned := ⟨now, strict, s.persisted⟩ :: s.returned } : Clock).Inv := by
  obtain ⟨hm, hlast, hstrict⟩ := hc
  have hmark : now ≤ p.highWaterMark := le_trans hle hm
  have hnow : Covers s.persisted now := hp.covers.mono hmark
  have hfinished : s.Running (p.setCall i strict .finished) := hp.setCall trivial
  refine ⟨List.pairwise_cons.mpr ⟨fun r hr => ?_, hi.ordered⟩, fun r hr => ?_, fun r hr => ?_,
    nofun, ?_⟩
  · have hr' := hp.returned r hr
    refine ⟨le_trans hr' hlast, fun hs => ?_⟩
    have hfloor : floorMilliseconds r.value ≤ floorMilliseconds p.lastReturned :=
      Int.ediv_le_ediv (by decide) hr'
    exact lt_of_le_of_lt hfloor (hstrict hs)
  · rcases List.mem_cons.mp hr with rfl | hold
    · exact hnow
    · exact hi.bounded r hold
  · rcases List.mem_cons.mp hr with rfl | hold
    · exact hnow
    · exact hi.covered r hold
  · rintro q ⟨⟩
    refine ⟨hp.covers, hmark, fun r hr => ?_, hp.above, hp.written, fun c hc => ?_⟩
    · rcases List.mem_cons.mp hr with rfl | hold
      · exact le_refl _
      · exact le_trans (hp.returned r hold) hlast
    · exact (hfinished.calls c hc).mono (le_refl _)

theorem proceed_inv {s s' : Clock} (hi : s.Inv) {p : Process} (hp : s.Running p) {i : Nat}
    {spurious strict : Bool} {c : Call} (hc : CallOk p strict c)
    (h : s.proceed p i spurious strict c = some s') : s'.Inv := by
  cases c with
  | start =>
    cases h
    exact hi.goesOn (hp.setCall trivial)
  | walled now =>
    cases h
    exact hi.goesOn (hp.setCall (le_refl p.highWaterMark))
  | marked now m =>
    cases h
    exact hi.goesOn (hp.setCall ⟨hc, advance_spec strict now p.lastReturned⟩)
  | computed now m l =>
    simp only [proceed] at h
    split at h
    next =>
      cases h
      exact hi.goesOn (hp.setCall trivial)
    next hle =>
      split at h
      next hswap =>
        cases h
        obtain ⟨rfl, -⟩ := hswap
        exact returns_inv hi hp hc (not_lt.mp hle)
      next =>
      cases h
      exact hi.goesOn (hp.setCall trivial)
  | exceeds now =>
    simp only [proceed] at h
    split at h
    next =>
      split at h
      next hlt =>
        cases h
        refine hi.goesOn { hp with above := ?_, written := ?_ }
        · rintro w ⟨⟩
          show p.highWaterMark ≤ now + highWaterMarkReservation
          unfold highWaterMarkReservation
          omega
        · rintro w ⟨⟩ hw
          cases hw
      next =>
      cases h
      exact hi.goesOn (hp.setCall trivial)
    next => cases h
  | finished => cases h

/-- The mutex is given back. -/
theorem Running.giveBack {s : Clock} {p : Process} (hp : s.Running p) (o : Owner) :
    s.Running (giveBack p o) ∧ (Clock.giveBack p o).highWaterMark = p.highWaterMark := by
  unfold Clock.giveBack
  split
  next => exact ⟨{ hp with above := nofun, written := nofun }, rfl⟩
  next i =>
    split
    next strict c hget =>
      have h' : s.Running (p.setCall i strict .start) := hp.setCall trivial
      exact ⟨{ h' with above := nofun, written := nofun }, rfl⟩
    next => exact ⟨{ hp with above := nofun, written := nofun }, rfl⟩

theorem giveBack_writing (p : Process) (o : Owner) : (giveBack p o).writing = none := by
  unfold giveBack
  split
  · rfl
  · split <;> rfl

/-- A new mark is in the database, above all that was returned. -/
theorem Running.persist {s : Clock} {p : Process} (hp : s.Running p) {target : Int}
    (hle : p.highWaterMark ≤ target) (hnone : ∀ w, p.writing = some w → w.target ≤ target) :
    ({ s with persisted := some (nanosecondsToTimestamp target) } : Clock).Running p ∧
    ∀ r ∈ s.returned, Covers (some (nanosecondsToTimestamp target)) r.value := by
  have hnew := covers_written target
  refine ⟨⟨hnew.mono hle, hp.last, hp.returned, hp.above,
    fun w hw _ => hnew.mono (hnone w hw), hp.calls⟩, fun r hr => hnew.mono ?_⟩
  exact le_trans (hp.returned r hr) (le_trans hp.last hle)

theorem write_inv {s s' : Clock} (hi : s.Inv) {p : Process} (hp : s.Running p)
    {r : WriteResult} (h : s.write p r = some s') : s'.Inv := by
  unfold write at h
  split at h
  next owner target hw =>
    have hle : p.highWaterMark ≤ target := hp.above _ hw
    have hnone : ∀ w, p.writing = some w → w.target ≤ target := by
      intro w hw'
      cases hw.symm.trans hw'
      exact le_refl _
    obtain ⟨hp', hcovered⟩ := hp.persist hle hnone
    cases r with
    | ok =>
      cases h
      refine ⟨hi.ordered, hi.bounded, hcovered, nofun, ?_⟩
      rintro q ⟨⟩
      refine ⟨hp'.covers, hp.last, hp.returned, ?_, ?_, hp.calls⟩
      · rintro w ⟨⟩
        exact hle
      · rintro w ⟨⟩ -
        exact covers_written target
    | fails =>
      cases h
      exact hi.goesOn (hp.giveBack owner).1
    | failsLate =>
      cases h
      refine ⟨hi.ordered, hi.bounded, hcovered, nofun, ?_⟩
      rintro q ⟨⟩
      have hback := (hp'.giveBack owner).1
      exact ⟨hback.covers, hback.last, hback.returned, hback.above, hback.written, hback.calls⟩
  next => cases h

theorem store_inv {s s' : Clock} (hi : s.Inv) {p : Process} (hp : s.Running p)
    (h : s.store p = some s') : s'.Inv := by
  unfold store at h
  split at h
  next owner target hw =>
    cases h
    have hle : p.highWaterMark ≤ target := hp.above _ hw
    have hcovers := hp.written _ hw rfl
    obtain ⟨hback, hmark⟩ := hp.giveBack owner
    have hle' : (giveBack p owner).highWaterMark ≤ target := hmark ▸ hle
    refine hi.goesOn ⟨hcovers, le_trans hback.last hle', hback.returned, fun w hw' => ?_,
      hback.written, fun c hc => (hback.calls c hc).mono hle'⟩
    cases (giveBack_writing p owner).symm.trans hw'
  next => cases h

theorem flush_inv {s s' : Clock} (hi : s.Inv) {p : Process} (hp : s.Running p)
    (h : s.flush p = some s') : s'.Inv := by
  unfold flush at h
  split at h
  next =>
    split at h
    next =>
      cases h
      exact hi
    next hlt =>
      cases h
      refine hi.goesOn { hp with above := ?_, written := ?_ }
      · rintro w ⟨⟩
        exact le_max_left _ _
      · rintro w ⟨⟩ hw
        cases hw
  next => cases h

/-- A process that starts from a mark that covers everything that was returned. -/
theorem started_running {s : Clock} {initial : Int} (hcovers : Covers s.persisted initial)
    (hreturned : ∀ r ∈ s.returned, r.value ≤ initial) (a b c : Int) :
    s.Running (Process.started a b c initial) :=
  ⟨hcovers, le_refl _, hreturned, nofun, nofun, nofun⟩

theorem start_inv {s : Clock} (hi : s.Inv) (system base steady : Int) :
    (s.start system base steady).Inv := by
  unfold start
  split
  next t ht =>
    refine hi.goesOn (started_running ⟨t, ht, le_refl _⟩ (fun r hr => ?_) ..)
    obtain ⟨t', ht', hle⟩ := hi.covered r hr
    cases ht.symm.trans ht'
    exact hle
  next hnone =>
    exact ⟨hi.ordered, hi.bounded, hi.covered, fun _ _ _ _ _ => hnone,
      fun _ h => Phase.noConfusion h⟩

/-- Nothing was returned while there was no mark. -/
theorem bootstrap_inv {s : Clock} (hi : s.Inv) (hnone : s.persisted = none)
    (a b c initial : Int) (r : WriteResult) : (s.bootstrap a b c initial r).Inv := by
  have hempty : ∀ r, r ∉ s.returned := by
    intro r hr
    obtain ⟨t, ht, -⟩ := hi.covered r hr
    cases hnone.symm.trans ht
  have hcovered : ∀ (m : Option Timestamp), ∀ r ∈ s.returned, Covers m r.value :=
    fun _ r hr => absurd hr (hempty r)
  cases r with
  | ok =>
    refine ⟨hi.ordered, hi.bounded, hcovered _, nofun, ?_⟩
    rintro q ⟨⟩
    exact ⟨covers_written initial, le_refl _, fun r hr => absurd hr (hempty r), nofun, nofun, nofun⟩
  | fails =>
    exact ⟨hi.ordered, hi.bounded, hi.covered, nofun, fun _ h => Phase.noConfusion h⟩
  | failsLate =>
    exact ⟨hi.ordered, hi.bounded, hcovered _, nofun, fun _ h => Phase.noConfusion h⟩

theorem step_inv {s s' : Clock} {a : Action} (hi : s.Inv) (h : s.step a = some s') : s'.Inv := by
  cases a with
  | start system base steady =>
    simp only [step] at h
    split at h <;> cases h
    exact start_inv hi system base steady
  | bootstrapWrite r =>
    simp only [step] at h
    split at h
    next a b c d hphase =>
      cases h
      exact bootstrap_inv hi (hi.bootstrapping a b c d hphase) a b c d r
    next => cases h
  | tick n =>
    obtain ⟨p, hphase, hf⟩ := onProcess_some h
    cases hf
    have hp := hi.running p hphase
    exact hi.goesOn ⟨hp.covers, hp.last, hp.returned, hp.above, hp.written,
      fun c hc => (hp.calls c hc).mono (le_refl _)⟩
  | now strict =>
    obtain ⟨p, hphase, hf⟩ := onProcess_some h
    cases hf
    have hp := hi.running p hphase
    refine hi.goesOn ⟨hp.covers, hp.last, hp.returned, hp.above, hp.written, fun c hc => ?_⟩
    rcases List.mem_append.mp hc with hold | hnew
    · exact (hp.calls c hold).mono (le_refl _)
    · rw [List.mem_singleton.mp hnew]
      trivial
  | proceed i spurious =>
    obtain ⟨p, hphase, hf⟩ := onProcess_some h
    have hp := hi.running p hphase
    split at hf
    next strict c hget => exact proceed_inv hi hp (hp.calls _ (List.mem_of_getElem? hget)) hf
    next => cases hf
  | flush =>
    obtain ⟨p, hphase, hf⟩ := onProcess_some h
    exact flush_inv hi (hi.running p hphase) hf
  | write r =>
    obtain ⟨p, hphase, hf⟩ := onProcess_some h
    exact write_inv hi (hi.running p hphase) hf
  | store =>
    obtain ⟨p, hphase, hf⟩ := onProcess_some h
    exact store_inv hi (hi.running p hphase) hf
  | crash =>
    cases h
    exact ⟨hi.ordered, hi.bounded, hi.covered, nofun, fun _ h => Phase.noConfusion h⟩

/-- Two calls in one process and one in the next, whose system clock was set back: the second
one is strict and needs a new mark, and the process dies before the flusher's next one is
written. -/
def setBack : List Action :=
  [.start 5000000000 0 0, .bootstrapWrite .ok, .tick 7, .now false, .proceed 0 false,
    .proceed 0 false, .proceed 0 false, .proceed 0 false,
    .now true, .proceed 1 false, .proceed 1 false, .proceed 1 false, .proceed 1 false,
    .proceed 1 false, .write .fails, .proceed 1 false, .proceed 1 false, .proceed 1 false,
    .proceed 1 false, .proceed 1 false, .write .ok, .store, .proceed 1 false, .proceed 1 false,
    .proceed 1 false, .proceed 1 false, .tick 9000000000, .flush, .crash,
    .start 3000000000 0 0, .now true, .proceed 0 false, .proceed 0 false, .proceed 0 false,
    .proceed 0 false, .proceed 0 false, .write .failsLate, .proceed 0 false, .proceed 0 false,
    .proceed 0 false, .proceed 0 false, .proceed 0 false, .write .ok, .store, .proceed 0 false,
    .proceed 0 false, .proceed 0 false, .proceed 0 false]

end Clock

end Reboot.Persist.MonotonicClock
