import Reboot.Lib.Run
import Reboot.Lib.Text

/-!
# Reactive reads in the browser

`reactively` of `reboot/web/index.ts`: the generator `responses` reads a method over one stream
after another, and `setRequest` and the caller's `signal` end the stream that is being read through
`responsesAbortController`. An attempt takes its signal and its request, awaits `bearerToken()` and
opens a stream, by `grpcServerStream` (`fetch`) or `grpcWebsocketServerStream` (a WebSocket).

> `State.Current`: a response that is yielded answers the newest request or arrived before a newer
> one was set, and after the caller's signal has aborted no stream is opened, none stays open and
> only frames are yielded that had arrived.

`fetch` rejects where its signal has aborted already. A WebSocket learns of an abort from a listener,
and a listener that is added to an aborted signal is never called: where the request is set or the
read is aborted while `bearerToken()` is awaited, the socket that is opened afterwards sends the old
request and nothing closes it. `StepOk` leaves this window out, and then `reactively_current` holds
in every run.

Mirroring notes:

* What runs between two awaits is one action. The generator is driven by its consumer, who may wait
  between `yield` and `next`.
* A stream is a `fetch` and its body or a WebSocket. What arrives on it is in `buffer` until it is
  read; a response of `fetch` that is not OK is its `failure`.
* A WebSocket on which `close()` was called dispatches no message any more, its `close` event comes
  later. A `fetch` that was aborted has failed, and what it had received may be lost (`discard`).
* A stream that the loop has left stays in `streams`.
* The numbers in frames and streams say which request they belong to and when they came; no branch
  reads them.
-/

namespace Reboot.Web.Reactive

open Reboot.Lib

variable {Q R : Type}

/-! ## State -/

/-- The arguments of `reactively`. -/
structure Config where
  /-- `url.protocol === "https:" && !websockets` does not hold. -/
  overWebSocket : Bool
  bearerToken : Bool
  onUnauthenticated : Bool
  deriving DecidableEq

structure Status where
  code : Nat
  message : Str
  deriving DecidableEq

/-- `StatusCode.UNAUTHENTICATED` -/
def unauthenticated : Nat := 16

/-- What a frame carries. -/
inductive Payload (R : Type)
  | response (response : R)
  | status (status : Status)
  | neither
  /-- The frame cannot be decoded. -/
  | malformed
  /-- The response in the frame cannot be decoded. -/
  | undecodable
  deriving DecidableEq

structure Frame (R : Type) where
  payload : Payload R
  /-- The number of the request that the stream has sent. -/
  answers : Nat
  /-- The number of the newest request when the frame arrived. -/
  arrived : Nat
  /-- Whether the caller's signal had aborted when it arrived. -/
  late : Bool
  deriving DecidableEq

inductive Phase
  | connecting | open | closed
  deriving DecidableEq

/-- Why reading ends: the stream ended, or an error is thrown, which is a `Status` of the server or
is not. -/
inductive Outcome (R : Type)
  | ended
  | failure (frame : Option (Frame R × Status))
  deriving DecidableEq

structure Stream (R : Type) where
  /-- The number of the controller whose signal it was given. -/
  signal : Nat
  /-- The number of the request it sends. -/
  request : Nat
  phase : Phase
  buffer : List (Frame R)
  outcome : Option (Outcome R)
  /-- Whether the caller's signal had aborted when it was opened. -/
  late : Bool
  deriving DecidableEq

/-- What an attempt of the loop has taken: `attemptSignal` and the request. -/
structure Attempt where
  signal : Nat
  request : Nat
  deriving DecidableEq

/-- Where the generator is. -/
inductive Pc (R : Type)
  /-- `next` was not called yet. -/
  | idle
  /-- It awaits the first request or an abort, which has come or not. -/
  | first (aborted : Bool)
  | token (attempt : Attempt)
  | rejected (attempt : Attempt)
  | reading (attempt : Attempt) (stream : Nat)
  /-- At `yield { response }`. -/
  | yielded (attempt : Attempt) (stream : Nat)
  /-- It awaits `onUnauthenticated()`. -/
  | renewing (frame : Frame R) (status : Status)
  /-- At `yield { aborted }`. -/
  | yieldedAborted
  | backoff
  | done
  /-- The assertion that there is a request. -/
  | threw
  deriving DecidableEq

/-- What the consumer was given. -/
structure Yield (R : Type) where
  item : R ⊕ Status
  frame : Frame R
  /-- The number of the newest request. -/
  newest : Nat
  deriving DecidableEq

structure State (Q R : Type) where
  /-- The requests that were set; `request` is the last. -/
  requests : List Q
  /-- `signal.aborted` -/
  aborted : Bool
  /-- The number of `responsesAbortController`. -/
  controller : Nat
  /-- The controllers that have aborted. -/
  abortedControllers : List Nat
  streams : List (Stream R)
  pc : Pc R
  didRefresh : Bool
  yielded : List (Yield R)
  deriving DecidableEq

/-- After the call of `reactively`. -/
def State.init (request : Option Q) (aborted : Bool) : State Q R where
  requests := request.toList
  aborted := aborted
  controller := 0
  abortedControllers := []
  streams := []
  pc := .idle
  didRefresh := false
  yielded := []

inductive Action (Q R : Type)
  | setRequest (request : Q)
  | abort
  /-- The consumer calls `next`. -/
  | next
  /-- The race for the first request is over. -/
  | wake
  /-- `bearerToken()` has resolved, or not. -/
  | token (resolved : Bool)
  /-- `fetch` rejects. -/
  | reject
  | connect (stream : Nat)
  | frame (stream : Nat) (payload : Payload R)
  | close (stream : Nat)
  /-- The stream fails; the response of `fetch` may be a `Status`. -/
  | error (stream : Nat) (status : Option Status)
  | discard (stream : Nat)
  | read
  /-- `onUnauthenticated()` has returned this, or thrown, which is as `false`. -/
  | renewed (refreshed : Bool)
  | backoff

/-! ## Actions -/

/-- What the listeners on the signal of a controller do to a stream. -/
def Stream.abort (config : Config) (controller : Nat) (stream : Stream R) : Stream R :=
  if stream.signal = controller then
    { stream with
      phase := .closed
      outcome := if config.overWebSocket then stream.outcome
        else stream.outcome.or (some (.failure none)) }
  else stream

/-- `responsesAbortController.abort()`. The listeners are called the first time. -/
def State.abortController (config : Config) (s : State Q R) : State Q R :=
  if s.controller ∈ s.abortedControllers then s
  else { s with
    abortedControllers := s.controller :: s.abortedControllers
    streams := s.streams.map (Stream.abort config s.controller) }

def State.setRequest (config : Config) (s : State Q R) (request : Q) : State Q R :=
  if s.requests = [] then { s with requests := [request] }
  else
    let s := { s with requests := s.requests ++ [request] }.abortController config
    { s with controller := s.controller + 1 }

/-- The race for the first request hears of an abort. -/
def Pc.aborted : Pc R → Pc R
  | .first _ => .first true
  | pc => pc

/-- The listeners on the caller's signal. -/
def State.abort (config : Config) (s : State Q R) : State Q R :=
  let s := { s with aborted := true }.abortController config
  { s with pc := s.pc.aborted }

/-- `reactiveReader`, up to what it awaits first. -/
def State.openStream (config : Config) (s : State Q R) (attempt : Attempt) : State Q R :=
  if !config.overWebSocket && decide (attempt.signal ∈ s.abortedControllers) then
    { s with pc := .rejected attempt }
  else { s with
    streams := s.streams ++ [⟨attempt.signal, attempt.request, .connecting, [], none, s.aborted⟩]
    pc := .reading attempt s.streams.length }

/-- The head of the loop. -/
def State.loop (config : Config) (s : State Q R) : State Q R :=
  if s.aborted then { s with pc := .done }
  else
    let attempt : Attempt := ⟨s.controller, s.requests.length⟩
    if config.bearerToken then { s with pc := .token attempt }
    else s.openStream config attempt

def State.yieldAborted (s : State Q R) (frame : Frame R) (status : Status) : State Q R :=
  { s with
    didRefresh := false
    yielded := s.yielded ++ [⟨.inr status, frame, s.requests.length⟩]
    pc := .yieldedAborted }

/-- The `catch` of an attempt. -/
def State.caught (config : Config) (s : State Q R) (attempt : Attempt)
    (error : Option (Frame R × Status)) : State Q R :=
  if s.aborted then { s with pc := .done }
  else if attempt.signal ∈ s.abortedControllers then s.loop config
  else
    match error with
    | none => { s with pc := .backoff }
    | some (frame, status) =>
      if status.code = unauthenticated && config.onUnauthenticated && !s.didRefresh then
        { s with pc := .renewing frame status }
      else s.yieldAborted frame status

/-- A generator whose loop is left by an exception closes its WebSocket in `finally`. -/
def Stream.leave (config : Config) (stream : Stream R) : Stream R :=
  if config.overWebSocket then { stream with phase := .closed } else stream

/-- Whether it has failed without an answer. -/
def Stream.failed (stream : Stream R) : Bool :=
  match stream.outcome with
  | some (.failure none) => true
  | _ => false

def State.setStream (s : State Q R) (i : Nat) (stream : Stream R) : State Q R :=
  { s with streams := s.streams.set i stream }

/-- What the loop does with a frame that it has taken off the buffer. -/
def State.readFrame (config : Config) (s : State Q R) (attempt : Attempt) (i : Nat)
    (stream : Stream R) (frame : Frame R) : State Q R :=
  match frame.payload with
  | .response response =>
    { s.setStream i stream with
      didRefresh := false
      yielded := s.yielded ++ [⟨.inl response, frame, s.requests.length⟩]
      pc := .yielded attempt i }
  | .status status =>
    if config.overWebSocket then
      (s.setStream i (stream.leave config)).caught config attempt (some (frame, status))
    else { s.setStream i stream with didRefresh := false }
  | .neither => { s.setStream i stream with didRefresh := false }
  | .malformed => (s.setStream i (stream.leave config)).caught config attempt none
  | .undecodable =>
    { s.setStream i (stream.leave config) with didRefresh := false }.caught config attempt none

/-- The loop goes on with a stream. -/
def State.read (config : Config) (s : State Q R) (attempt : Attempt) (i : Nat) :
    Option (State Q R) :=
  match s.streams[i]? with
  | none => none
  | some stream =>
    match stream.buffer with
    | frame :: rest => some (s.readFrame config attempt i { stream with buffer := rest } frame)
    | [] =>
      match stream.outcome with
      | none => none
      | some .ended =>
        if attempt.signal ∈ s.abortedControllers then some (s.loop config)
        else some { s with pc := .backoff }
      | some (.failure error) =>
        some ((s.setStream i (stream.leave config)).caught config attempt error)

/-- The frame of a status or a response that arrives now. -/
def State.arrive (s : State Q R) (stream : Stream R) (payload : Payload R) : Frame R :=
  ⟨payload, stream.request, s.requests.length, s.aborted⟩

/-- One action. -/
def step (config : Config) (s : State Q R) : Action Q R → Option (State Q R)
  | .setRequest request => some (s.setRequest config request)
  | .abort => if s.aborted then none else some (s.abort config)
  | .next =>
    match s.pc with
    | .idle => some { s with pc := .first false }
    | .yielded attempt i => some { s with pc := .reading attempt i }
    | .yieldedAborted => some { s with pc := if s.aborted then .done else .backoff }
    | _ => none
  | .wake =>
    match s.pc with
    | .first aborted =>
      if s.requests ≠ [] then some (s.loop config)
      else if aborted then some { s with pc := .threw }
      else none
    | _ => none
  | .token resolved =>
    match s.pc with
    | .token attempt =>
      if resolved then some (s.openStream config attempt)
      else some (s.caught config attempt none)
    | _ => none
  | .reject =>
    match s.pc with
    | .rejected attempt => some (s.caught config attempt none)
    | _ => none
  | .connect i =>
    match s.streams[i]? with
    | some stream =>
      if stream.phase = .connecting then some (s.setStream i { stream with phase := .open })
      else none
    | none => none
  | .frame i payload =>
    match s.streams[i]? with
    | some stream =>
      if stream.phase = .open then
        some (s.setStream i
          { stream with buffer := stream.buffer ++ [s.arrive stream payload] })
      else none
    | none => none
  | .close i =>
    match s.streams[i]? with
    | some stream =>
      if stream.outcome = none then
        some (s.setStream i { stream with phase := .closed, outcome := some .ended })
      else none
    | none => none
  | .error i status =>
    match s.streams[i]? with
    | some stream =>
      if stream.outcome = none then
        match status with
        | none =>
          some (s.setStream i { stream with phase := .closed, outcome := some (.failure none) })
        | some status =>
          if !config.overWebSocket && decide (stream.phase = .connecting) then
            some (s.setStream i { stream with
              phase := .closed
              outcome := some (.failure (some (s.arrive stream (.status status), status))) })
          else none
      else none
    | none => none
  | .discard i =>
    match s.streams[i]? with
    | some stream =>
      if !config.overWebSocket && stream.failed then
        some (s.setStream i { stream with buffer := [] })
      else none
    | none => none
  | .read =>
    match s.pc with
    | .reading attempt i => s.read config attempt i
    | _ => none
  | .renewed refreshed =>
    match s.pc with
    | .renewing frame status =>
      if refreshed then some ({ s with didRefresh := true }.loop config)
      else some (s.yieldAborted frame status)
    | _ => none
  | .backoff =>
    match s.pc with
    | .backoff => some (s.loop config)
    | _ => none

/-! ## What a read promises -/

/-- What is yielded answers the newest request or arrived before a newer one was set, and after the
caller's signal has aborted nothing is opened, nothing stays open and nothing is yielded that had
not arrived. -/
structure State.Current (s : State Q R) : Prop where
  newest : ∀ y ∈ s.yielded, y.frame.answers = y.newest ∨ y.frame.arrived = y.frame.answers
  opened : ∀ stream ∈ s.streams, stream.late = false
  closed : s.aborted = true → ∀ stream ∈ s.streams, stream.phase = .closed
  received : ∀ y ∈ s.yielded, y.frame.late = false

/-- What `StepOk` asks of one action. -/
def stepOk (config : Config) (s : State Q R) : Action Q R → Bool
  -- no WebSocket is opened with a signal that has aborted
  | .token true =>
    match s.pc with
    | .token attempt => !config.overWebSocket || decide (attempt.signal ∉ s.abortedControllers)
    | _ => true
  | _ => true

/-- Over a WebSocket no request is set and the read is not aborted while `bearerToken()` is awaited
that then resolves. -/
def StepOk (config : Config) (s : State Q R) (a : Action Q R) : Prop := stepOk config s a = true

instance (config : Config) (s : State Q R) (a : Action Q R) : Decidable (StepOk config s a) :=
  inferInstanceAs (Decidable (_ = _))

/-! ## Invariant -/

/-- It arrived while the request that it answers was the newest, and before an abort. -/
def Frame.InTime (frame : Frame R) : Prop := frame.arrived = frame.answers ∧ frame.late = false

/-- The frame of an error. -/
def ErrorInTime (error : Option (Frame R × Status)) : Prop :=
  ∀ frame status, error = some (frame, status) → frame.InTime

structure Stream.Ok (s : State Q R) (stream : Stream R) : Prop where
  late : stream.late = false
  /-- A stream that can still receive is that of the newest request. -/
  current : stream.phase ≠ .closed → stream.signal = s.controller ∧
    stream.request = s.requests.length ∧ s.aborted = false
  buffer : ∀ frame ∈ stream.buffer, frame.InTime
  outcome : ∀ error, stream.outcome = some (.failure error) → ErrorInTime error

/-- Where the generator is. -/
def Pc.Ok (s : State Q R) : Pc R → Prop
  | .token attempt => attempt.signal ∉ s.abortedControllers →
      attempt.signal = s.controller ∧ attempt.request = s.requests.length ∧ s.aborted = false
  | .renewing frame _ => frame.InTime
  | _ => True

/-- Before there is a request. -/
def Pc.isEarly : Pc R → Bool
  | .idle | .first _ | .threw => true
  | _ => false

structure Inv (s : State Q R) : Prop where
  early : s.requests = [] → s.streams = [] ∧ s.pc.isEarly = true
  /-- The signal of the controller of today aborts only with the caller's. -/
  controllers : ∀ c ∈ s.abortedControllers, c ≤ s.controller ∧ (c = s.controller → s.aborted = true)
  streams : ∀ stream ∈ s.streams, stream.Ok s
  pc : s.pc.Ok s
  yielded : ∀ y ∈ s.yielded, y.frame.InTime

theorem Inv.init (request : Option Q) (aborted : Bool) : Inv (State.init (R := R) request aborted) :=
  ⟨fun _ => ⟨rfl, rfl⟩, by simp [State.init], by simp [State.init], trivial, by simp [State.init]⟩

theorem Inv.current {s : State Q R} (h : Inv s) : s.Current where
  newest y hy := .inr (h.yielded y hy).1
  opened stream hstream := (h.streams stream hstream).late
  closed haborted stream hstream := by
    by_contra hphase
    have hfalse : s.aborted = false := ((h.streams stream hstream).current hphase).2.2
    rw [haborted] at hfalse
    cases hfalse
  received y hy := (h.yielded y hy).2

theorem Inv.controller_notMem {s : State Q R} (h : Inv s) (haborted : s.aborted = false) :
    s.controller ∉ s.abortedControllers := by
  intro hmem
  have := (h.controllers _ hmem).2 rfl
  rw [haborted] at this
  cases this

/-! ## The loop -/

/-- What a stream has to meet depends on no more than the requests, the controller and the signal. -/
theorem Stream.Ok.congr {s s' : State Q R} {stream : Stream R} (h : stream.Ok s)
    (hcontroller : s'.controller = s.controller) (hrequests : s'.requests = s.requests)
    (haborted : s'.aborted = s.aborted) : stream.Ok s' := by
  refine ⟨h.late, fun hphase => ?_, h.buffer, h.outcome⟩
  rw [hcontroller, hrequests, haborted]
  exact h.current hphase

/-- The generator goes to a place that asks for nothing. -/
theorem Inv.goTo {s : State Q R} (h : Inv s) (hne : s.requests ≠ []) {pc : Pc R} (hpc : pc.Ok s) :
    Inv { s with pc := pc } :=
  ⟨fun hnil => absurd hnil hne, h.controllers, fun stream hstream => (h.streams stream hstream).congr rfl rfl rfl,
    by cases pc <;> exact hpc, h.yielded⟩

theorem Inv.openStream {config : Config} {s : State Q R} (h : Inv s) (hne : s.requests ≠ []) {attempt : Attempt}
    (hcurrent : attempt.signal ∉ s.abortedControllers → attempt.signal = s.controller ∧
      attempt.request = s.requests.length ∧ s.aborted = false)
    (hok : config.overWebSocket = false ∨ attempt.signal ∉ s.abortedControllers) :
    Inv (s.openStream config attempt) := by
  unfold State.openStream
  split
  · exact h.goTo hne trivial
  · next hopen =>
    have hnotMem : attempt.signal ∉ s.abortedControllers := by
      rcases hok with hfetch | hnotMem
      · simpa [hfetch] using hopen
      · exact hnotMem
    obtain ⟨hsignal, hrequest, haborted⟩ := hcurrent hnotMem
    refine ⟨fun hnil => absurd hnil hne, h.controllers, fun stream hstream => ?_, trivial,
      h.yielded⟩
    rcases List.mem_append.mp hstream with hold | hnew
    · exact (h.streams stream hold).congr rfl rfl rfl
    · obtain rfl := List.mem_singleton.mp hnew
      exact ⟨haborted, fun _ => ⟨hsignal, hrequest, haborted⟩, by simp, by simp⟩

theorem Inv.loop {config : Config} {s : State Q R} (h : Inv s) (hne : s.requests ≠ []) :
    Inv (s.loop config) := by
  unfold State.loop
  split
  · exact h.goTo hne trivial
  · next hnot =>
    have haborted : s.aborted = false := by simpa using hnot
    have hcurrent : s.controller = s.controller ∧ s.requests.length = s.requests.length ∧
        s.aborted = false := ⟨rfl, rfl, haborted⟩
    split
    · exact h.goTo hne fun _ => hcurrent
    · exact h.openStream hne (fun _ => hcurrent) (.inr (h.controller_notMem haborted))

theorem Inv.yieldAborted {s : State Q R} (h : Inv s) (hne : s.requests ≠ []) {frame : Frame R}
    {status : Status} (hframe : frame.InTime) : Inv (s.yieldAborted frame status) := by
  refine ⟨fun hnil => absurd hnil hne, h.controllers,
    fun stream hstream => (h.streams stream hstream).congr rfl rfl rfl, trivial, fun y hy => ?_⟩
  rcases List.mem_append.mp hy with hold | hnew
  · exact h.yielded y hold
  · obtain rfl := List.mem_singleton.mp hnew
    exact hframe

theorem Inv.caught {config : Config} {s : State Q R} (h : Inv s) (hne : s.requests ≠ [])
    {attempt : Attempt} {error : Option (Frame R × Status)} (herror : ErrorInTime error) :
    Inv (s.caught config attempt error) := by
  unfold State.caught
  split
  · exact h.goTo hne trivial
  split
  · exact h.loop hne
  split
  · exact h.goTo hne trivial
  · next frame status =>
    have hframe : frame.InTime := herror frame status rfl
    split
    · exact h.goTo hne hframe
    · exact h.yieldAborted hne hframe

/-! ## Streams -/

theorem Inv.setStream {s : State Q R} (h : Inv s) {i : Nat} {stream : Stream R}
    (hstream : stream.Ok s) : Inv (s.setStream i stream) := by
  refine ⟨fun hnil => ⟨?_, (h.early hnil).2⟩, h.controllers, fun stream' hstream' => ?_, ?_,
    h.yielded⟩
  · show s.streams.set i stream = []
    rw [(h.early hnil).1, List.set_nil]
  · rcases List.mem_or_eq_of_mem_set hstream' with hold | rfl
    · exact (h.streams stream' hold).congr rfl rfl rfl
    · exact hstream.congr rfl rfl rfl
  · have hpc := h.pc
    unfold State.setStream
    cases hcase : s.pc <;> rw [hcase] at hpc <;> exact hpc

theorem Stream.Ok.leave {config : Config} {s : State Q R} {stream : Stream R} (h : stream.Ok s) :
    (stream.leave config).Ok s := by
  unfold Stream.leave
  split
  · exact ⟨h.late, fun hphase => absurd rfl hphase, h.buffer, h.outcome⟩
  · exact h

/-- A stream that is closed with an outcome. -/
theorem Stream.Ok.close {s : State Q R} {stream : Stream R} (h : stream.Ok s) {outcome : Outcome R}
    (houtcome : ∀ error, outcome = .failure error → ErrorInTime error) :
    ({ stream with phase := .closed, outcome := some outcome } : Stream R).Ok s :=
  ⟨h.late, fun hphase => absurd rfl hphase, h.buffer,
    fun error herror => houtcome error (Option.some.inj herror)⟩

/-- What arrives on a stream that is not closed arrives in time. -/
theorem Stream.Ok.arrive {s : State Q R} {stream : Stream R} (h : stream.Ok s)
    (hphase : stream.phase ≠ .closed) (payload : Payload R) : (s.arrive stream payload).InTime := by
  obtain ⟨-, hrequest, haborted⟩ := h.current hphase
  exact ⟨hrequest.symm, haborted⟩

/-- That the token was renewed is forgotten. -/
theorem Inv.forget {s : State Q R} (h : Inv s) (hne : s.requests ≠ []) :
    Inv { s with didRefresh := false } := by
  refine ⟨fun hnil => absurd hnil hne, h.controllers,
    fun stream hstream => (h.streams stream hstream).congr rfl rfl rfl, ?_, h.yielded⟩
  have hpc := h.pc
  cases hcase : s.pc <;> rw [hcase] at hpc <;> exact hpc

theorem Inv.readFrame {config : Config} {s : State Q R} (h : Inv s) (hne : s.requests ≠ [])
    {attempt : Attempt} {i : Nat} {stream : Stream R} {frame : Frame R} (hstream : stream.Ok s) (hframe : frame.InTime) :
    Inv (s.readFrame config attempt i stream frame) := by
  have hset := h.setStream (i := i) hstream
  have hleft : Inv (s.setStream i (stream.leave config)) := h.setStream hstream.leave
  unfold State.readFrame
  split
  · refine ⟨fun hnil => absurd hnil hne, hset.controllers, fun stream' hstream' =>
      (hset.streams stream' hstream').congr rfl rfl rfl, trivial, fun y hy => ?_⟩
    rcases List.mem_append.mp hy with hold | hnew
    · exact h.yielded y hold
    · obtain rfl := List.mem_singleton.mp hnew
      exact hframe
  · split
    · refine hleft.caught hne fun frame' status' heq => ?_
      obtain ⟨rfl, -⟩ := Prod.mk.inj (Option.some.inj heq)
      exact hframe
    · exact hset.forget hne
  · exact hset.forget hne
  · exact hleft.caught hne fun _ _ heq => (nomatch heq)
  · exact (hleft.forget hne).caught hne fun _ _ heq => (nomatch heq)

theorem Inv.read {config : Config} {s s' : State Q R} (h : Inv s) (hne : s.requests ≠ []) {attempt : Attempt} {i : Nat}
    (hs : s.read config attempt i = some s') : Inv s' := by
  unfold State.read at hs
  split at hs
  · cases hs
  · next stream hi =>
    have hstream : stream.Ok s := h.streams stream (List.mem_of_getElem? hi)
    split at hs
    · next frame rest hbuffer =>
      cases hs
      have hrest : ∀ frame' ∈ rest, frame'.InTime := fun frame' hmem =>
        hstream.buffer frame' (hbuffer ▸ List.mem_cons_of_mem _ hmem)
      exact h.readFrame hne ⟨hstream.late, hstream.current, hrest, hstream.outcome⟩
        (hstream.buffer frame (hbuffer ▸ List.mem_cons_self))
    · split at hs
      · cases hs
      · split at hs
        · cases hs
          exact h.loop hne
        · cases hs
          exact h.goTo hne trivial
      · next error houtcome =>
        cases hs
        exact (h.setStream hstream.leave).caught hne (hstream.outcome error houtcome)

/-! ## The signals -/

/-- A stream that is closed is as it has to be, whatever the newest request is. -/
theorem Stream.Ok.of_closed {s s' : State Q R} {stream : Stream R} (h : stream.Ok s)
    (hclosed : stream.phase = .closed) : stream.Ok s' :=
  ⟨h.late, fun hphase => absurd hclosed hphase, h.buffer, h.outcome⟩

theorem Stream.Ok.abort {config : Config} {s : State Q R} {stream : Stream R} (h : stream.Ok s) :
    (stream.abort config s.controller).Ok s ∧
      (stream.abort config s.controller).phase = .closed := by
  unfold Stream.abort
  split
  · refine ⟨⟨h.late, fun hphase => absurd rfl hphase, h.buffer, fun error herror => ?_⟩, rfl⟩
    have herror' : (if config.overWebSocket then stream.outcome
        else stream.outcome.or (some (.failure none))) = some (.failure error) := herror
    split at herror'
    · exact h.outcome error herror'
    · cases houtcome : stream.outcome with
      | none =>
        rw [houtcome] at herror'
        cases herror'
        exact fun _ _ heq => (nomatch heq)
      | some outcome =>
        rw [houtcome] at herror'
        exact h.outcome error (houtcome.trans herror')
  · next hsignal =>
    refine ⟨h, ?_⟩
    by_contra hphase
    exact hsignal (h.current hphase).1

/-- Where the controller of today has aborted, no stream is open. -/
theorem Inv.abortController_streams {config : Config} {s : State Q R} (h : Inv s) :
    ∀ stream ∈ (s.abortController config).streams, stream.Ok s ∧ stream.phase = .closed := by
  intro stream hmem
  unfold State.abortController at hmem
  split at hmem
  · next haborted =>
    refine ⟨h.streams stream hmem, ?_⟩
    exact h.current.closed ((h.controllers _ haborted).2 rfl) stream hmem
  · obtain ⟨old, hold, rfl⟩ := List.mem_map.mp hmem
    exact (h.streams old hold).abort

theorem mem_abortController_iff {config : Config} {s : State Q R} {c : Nat} :
    c ∈ (s.abortController config).abortedControllers ↔
      c = s.controller ∨ c ∈ s.abortedControllers := by
  unfold State.abortController
  split
  · next hmem =>
    constructor
    · exact .inr
    · rintro (rfl | h)
      · exact hmem
      · exact h
  · exact List.mem_cons

theorem abortController_requests {config : Config} {s : State Q R} {requests : List Q} :
    { s with requests := requests }.abortController config =
      { s.abortController config with requests := requests } := by
  unfold State.abortController
  split <;> rfl

theorem abortController_aborted {config : Config} {s : State Q R} {aborted : Bool} :
    { s with aborted := aborted }.abortController config =
      { s.abortController config with aborted := aborted } := by
  unfold State.abortController
  split <;> rfl

theorem abortController_eq {config : Config} {s : State Q R} :
    ∃ controllers streams, s.abortController config =
      { s with abortedControllers := controllers, streams := streams } := by
  unfold State.abortController
  split
  · exact ⟨_, _, rfl⟩
  · exact ⟨_, _, rfl⟩

/-- An attempt that awaits its token is of the controller that aborts, or its signal has aborted
before. -/
theorem Inv.token_aborted {config : Config} {s : State Q R} (h : Inv s) {attempt : Attempt}
    (hpc : s.pc = .token attempt) :
    attempt.signal ∈ (s.abortController config).abortedControllers := by
  rw [mem_abortController_iff]
  by_cases hmem : attempt.signal ∈ s.abortedControllers
  · exact .inr hmem
  · have hok := h.pc
    rw [hpc] at hok
    exact .inl (hok hmem).1

theorem Inv.setRequest {config : Config} {s : State Q R} (h : Inv s) (request : Q) :
    Inv (s.setRequest config request) := by
  unfold State.setRequest
  split
  · next hnil =>
    obtain ⟨hstreams, hearly⟩ := h.early hnil
    refine ⟨fun hcons => (nomatch hcons), h.controllers, fun stream hmem => ?_, ?_, h.yielded⟩
    · have hmem' : stream ∈ s.streams := hmem
      rw [hstreams] at hmem'
      cases hmem'
    · show Pc.Ok _ s.pc
      cases hpc : s.pc <;> rw [hpc] at hearly <;> trivial
  · next hne =>
    have hstreams := @Inv.abortController_streams Q R config s h
    have hcontrollers := fun c => @mem_abortController_iff Q R config s c
    have htoken := fun attempt => @Inv.token_aborted Q R config s h attempt
    obtain ⟨controllers, streams, heq⟩ := @abortController_eq Q R config s
    rw [heq] at hstreams hcontrollers htoken
    rw [abortController_requests, heq]
    refine ⟨fun hnil => absurd (List.append_eq_nil_iff.mp hnil).1 hne, fun c hc => ?_,
      fun stream hmem => (hstreams stream hmem).1.of_closed (hstreams stream hmem).2, ?_, h.yielded⟩
    · have hle : c ≤ s.controller := by
        rcases (hcontrollers c).mp hc with rfl | hold
        · exact Nat.le_refl _
        · exact (h.controllers c hold).1
      exact ⟨Nat.le_succ_of_le hle, fun hlast => absurd hlast (Nat.ne_of_lt (Nat.lt_succ_of_le hle))⟩
    · show Pc.Ok _ s.pc
      have hpc := h.pc
      cases hcase : s.pc with
      | token attempt => exact fun hnotMem => absurd (htoken attempt hcase) hnotMem
      | renewing frame status =>
        rw [hcase] at hpc
        exact hpc
      | _ => trivial

theorem Pc.isEarly_aborted (pc : Pc R) : pc.aborted.isEarly = pc.isEarly := by
  cases pc <;> rfl

theorem Inv.abort {config : Config} {s : State Q R} (h : Inv s) : Inv (s.abort config) := by
  have hstreams := @Inv.abortController_streams Q R config s h
  have hcontrollers := fun c => @mem_abortController_iff Q R config s c
  have htoken := fun attempt => @Inv.token_aborted Q R config s h attempt
  obtain ⟨controllers, streams, heq⟩ := @abortController_eq Q R config s
  rw [heq] at hstreams hcontrollers htoken
  have hempty : s.requests = [] → streams = [] := fun hnil => by
    have hmap : (s.abortController config).streams = [] := by
      unfold State.abortController
      split
      · exact (h.early hnil).1
      · show s.streams.map _ = []
        rw [(h.early hnil).1, List.map_nil]
    rw [heq] at hmap
    exact hmap
  have hle : ∀ c ∈ controllers, c ≤ s.controller := fun c hc => by
    rcases (hcontrollers c).mp hc with rfl | hold
    · exact Nat.le_refl _
    · exact (h.controllers c hold).1
  unfold State.abort
  rw [abortController_aborted, heq]
  refine ⟨fun hnil => ⟨hempty hnil, ?_⟩, fun c hc => ⟨hle c hc, fun _ => rfl⟩,
    fun stream hmem => (hstreams stream hmem).1.of_closed (hstreams stream hmem).2, ?_, h.yielded⟩
  · show s.pc.aborted.isEarly = true
    rw [Pc.isEarly_aborted]
    exact (h.early hnil).2
  · show Pc.Ok _ s.pc.aborted
    have hpc := h.pc
    cases hcase : s.pc with
    | token attempt => exact fun hnotMem => absurd (htoken attempt hcase) hnotMem
    | renewing frame status =>
      rw [hcase] at hpc
      exact hpc
    | _ => trivial

/-! ## Runs -/

/-- Past the first request the generator has one. -/
theorem Inv.requests_ne {s : State Q R} (h : Inv s) (hpc : s.pc.isEarly = false) :
    s.requests ≠ [] := by
  intro hnil
  rw [(h.early hnil).2] at hpc
  cases hpc

theorem Inv.abort_step {config : Config} {s s' : State Q R} (h : Inv s)
    (hs : step config s .abort = some s') : Inv s' := by
  unfold step at hs
  dsimp only at hs
  split at hs
  · cases hs
  · cases hs
    exact h.abort

theorem Inv.next_step {config : Config} {s s' : State Q R} (h : Inv s)
    (hs : step config s .next = some s') : Inv s' := by
  unfold step at hs
  dsimp only at hs
  split at hs
  · cases hs
    exact ⟨fun hnil => ⟨(h.early hnil).1, rfl⟩, h.controllers,
      fun stream hmem => (h.streams stream hmem).congr rfl rfl rfl, trivial, h.yielded⟩
  · next attempt i hpc =>
    cases hs
    exact h.goTo (h.requests_ne (by rw [hpc]; rfl)) trivial
  · next hpc =>
    cases hs
    refine h.goTo (h.requests_ne (by rw [hpc]; rfl)) ?_
    split <;> trivial
  · cases hs

theorem Inv.wake_step {config : Config} {s s' : State Q R} (h : Inv s)
    (hs : step config s .wake = some s') : Inv s' := by
  unfold step at hs
  dsimp only at hs
  split at hs
  · split at hs
    · next hne =>
      cases hs
      exact h.loop hne
    · split at hs
      · cases hs
        exact ⟨fun hnil => ⟨(h.early hnil).1, rfl⟩, h.controllers,
          fun stream hmem => (h.streams stream hmem).congr rfl rfl rfl, trivial, h.yielded⟩
      · cases hs
  · cases hs

theorem Inv.token_step {config : Config} {s s' : State Q R} {resolved : Bool} (h : Inv s)
    (hok : StepOk config s (.token resolved)) (hs : step config s (.token resolved) = some s') :
    Inv s' := by
  unfold step at hs
  dsimp only at hs
  split at hs
  · next attempt hpc =>
    have hne : s.requests ≠ [] := h.requests_ne (by rw [hpc]; rfl)
    split at hs
    · next hresolved =>
      cases hs
      have hcurrent := h.pc
      rw [hpc] at hcurrent
      refine h.openStream hne hcurrent ?_
      unfold StepOk at hok
      simpa [stepOk, hresolved, hpc] using hok
    · cases hs
      exact h.caught hne fun _ _ heq => (nomatch heq)
  · cases hs

theorem Inv.reject_step {config : Config} {s s' : State Q R} (h : Inv s)
    (hs : step config s .reject = some s') : Inv s' := by
  unfold step at hs
  dsimp only at hs
  split at hs
  · next attempt hpc =>
    cases hs
    exact h.caught (h.requests_ne (by rw [hpc]; rfl)) fun _ _ heq => (nomatch heq)
  · cases hs

theorem Inv.connect_step {config : Config} {s s' : State Q R} {i : Nat} (h : Inv s)
    (hs : step config s (.connect i) = some s') : Inv s' := by
  unfold step at hs
  dsimp only at hs
  split at hs
  · next stream hi =>
    have hstream : stream.Ok s := h.streams stream (List.mem_of_getElem? hi)
    split at hs
    · next hphase =>
      cases hs
      exact h.setStream ⟨hstream.late, fun _ => hstream.current (by rw [hphase]; exact nofun),
        hstream.buffer, hstream.outcome⟩
    · cases hs
  · cases hs

theorem Inv.frame_step {config : Config} {s s' : State Q R} {i : Nat} {payload : Payload R}
    (h : Inv s) (hs : step config s (.frame i payload) = some s') : Inv s' := by
  unfold step at hs
  dsimp only at hs
  split at hs
  · next stream hi =>
    have hstream : stream.Ok s := h.streams stream (List.mem_of_getElem? hi)
    split at hs
    · next hphase =>
      cases hs
      refine h.setStream ⟨hstream.late, hstream.current, fun frame hmem => ?_, hstream.outcome⟩
      rcases List.mem_append.mp hmem with hold | hnew
      · exact hstream.buffer frame hold
      · obtain rfl := List.mem_singleton.mp hnew
        exact hstream.arrive (by rw [hphase]; exact nofun) payload
    · cases hs
  · cases hs

theorem Inv.close_step {config : Config} {s s' : State Q R} {i : Nat} (h : Inv s)
    (hs : step config s (.close i) = some s') : Inv s' := by
  unfold step at hs
  dsimp only at hs
  split at hs
  · next stream hi =>
    have hstream : stream.Ok s := h.streams stream (List.mem_of_getElem? hi)
    split at hs
    · cases hs
      exact h.setStream (hstream.close fun _ heq => (nomatch heq))
    · cases hs
  · cases hs

theorem Inv.error_step {config : Config} {s s' : State Q R} {i : Nat} {status : Option Status}
    (h : Inv s) (hs : step config s (.error i status) = some s') : Inv s' := by
  unfold step at hs
  dsimp only at hs
  split at hs
  · next stream hi =>
    have hstream : stream.Ok s := h.streams stream (List.mem_of_getElem? hi)
    split at hs
    · split at hs
      · cases hs
        refine h.setStream (hstream.close fun error heq => ?_)
        cases heq
        exact fun _ _ heq => (nomatch heq)
      · next status =>
        split at hs
        · next hconnecting =>
          cases hs
          have hphase : stream.phase = .connecting := by
            simp only [Bool.and_eq_true, decide_eq_true_eq] at hconnecting
            exact hconnecting.2
          refine h.setStream (hstream.close fun error heq => ?_)
          cases heq
          intro frame status' heq
          obtain ⟨rfl, -⟩ := Prod.mk.inj (Option.some.inj heq)
          exact hstream.arrive (by rw [hphase]; exact nofun) _
        · cases hs
    · cases hs
  · cases hs

theorem Inv.discard_step {config : Config} {s s' : State Q R} {i : Nat} (h : Inv s)
    (hs : step config s (.discard i) = some s') : Inv s' := by
  unfold step at hs
  dsimp only at hs
  split at hs
  · next stream hi =>
    have hstream : stream.Ok s := h.streams stream (List.mem_of_getElem? hi)
    split at hs
    · cases hs
      exact h.setStream ⟨hstream.late, hstream.current, by simp, hstream.outcome⟩
    · cases hs
  · cases hs

theorem Inv.renewed_step {config : Config} {s s' : State Q R} {refreshed : Bool} (h : Inv s)
    (hs : step config s (.renewed refreshed) = some s') : Inv s' := by
  unfold step at hs
  dsimp only at hs
  split at hs
  · next frame status hpc =>
    have hne : s.requests ≠ [] := h.requests_ne (by rw [hpc]; rfl)
    have hframe := h.pc
    rw [hpc] at hframe
    split at hs
    · cases hs
      refine Inv.loop ?_ hne
      exact ⟨fun hnil => absurd hnil hne, h.controllers,
        fun stream hmem => (h.streams stream hmem).congr rfl rfl rfl,
        by show Pc.Ok _ s.pc; rw [hpc]; exact hframe, h.yielded⟩
    · cases hs
      exact h.yieldAborted hne hframe
  · cases hs

theorem Inv.backoff_step {config : Config} {s s' : State Q R} (h : Inv s)
    (hs : step config s .backoff = some s') : Inv s' := by
  unfold step at hs
  dsimp only at hs
  split at hs
  · next hpc =>
    cases hs
    exact h.loop (h.requests_ne (by rw [hpc]; rfl))
  · cases hs

/-- One action that meets `StepOk`. -/
theorem Inv.preserved {config : Config} {s s' : State Q R} {a : Action Q R} (h : Inv s)
    (hok : StepOk config s a) (hs : step config s a = some s') : Inv s' := by
  cases a with
  | setRequest request =>
    cases hs
    exact h.setRequest request
  | abort => exact h.abort_step hs
  | next => exact h.next_step hs
  | wake => exact h.wake_step hs
  | token resolved => exact h.token_step hok hs
  | reject => exact h.reject_step hs
  | connect i => exact h.connect_step hs
  | frame i payload => exact h.frame_step hs
  | close i => exact h.close_step hs
  | error i status => exact h.error_step hs
  | discard i => exact h.discard_step hs
  | read =>
    unfold step at hs
    dsimp only at hs
    split at hs
    · next attempt i hpc => exact h.read (h.requests_ne (by rw [hpc]; rfl)) hs
    · cases hs
  | renewed refreshed => exact h.renewed_step hs
  | backoff => exact h.backoff_step hs

/-- In every run whose actions meet `StepOk` the read is current. -/
theorem reactively_current {config : Config} {request : Option Q} {aborted : Bool} {s : State Q R}
    (h : Reach (step config) (StepOk config) (State.init request aborted) s) : s.Current :=
  (h.invariant Inv (Inv.init request aborted) fun _ _ _ hinv hok hs =>
    hinv.preserved hok hs).current

/-- Over a WebSocket, with a bearer token. -/
def socketConfig : Config := ⟨true, true, false⟩

/-- A response that has arrived is yielded after the next request was set. -/
def setWhileReading : List (Action Nat Nat) :=
  [.next, .wake, .token true, .connect 0, .frame 0 (.response 10), .setRequest 2, .read, .next,
    .close 0, .read, .token true, .connect 1, .frame 1 (.response 20), .read]

theorem reactively_current_setWhileReading :
    (last (step socketConfig) (State.init (some 1) false) setWhileReading).yielded.map Yield.item =
        [.inl 10, .inl 20] ∧
      (last (step socketConfig) (State.init (some 1) false) setWhileReading).Current :=
  ⟨by decide, reactively_current (reach_last setWhileReading .init (by decide))⟩

/-- The next request is set while the bearer token is awaited. -/
def setWhileAwaiting : List (Action Nat Nat) :=
  [.next, .wake, .setRequest 2, .token true, .connect 0, .frame 0 (.response 10), .read]

/-- The read is aborted while the bearer token is awaited. -/
def abortWhileAwaiting : List (Action Nat Nat) :=
  [.next, .wake, .abort, .token true, .connect 0, .frame 0 (.response 10), .read]

/-- A response to the old request is yielded that came after the new one was set, and a stream is
opened and read after the abort. -/
theorem reactively_stale :
    (¬ ∀ s : State Nat Nat,
      Reach (step socketConfig) (fun _ _ => True) (State.init (some 1) false) s →
        ∀ y ∈ s.yielded, y.frame.answers = y.newest ∨ y.frame.arrived = y.frame.answers) ∧
    ¬ ∀ s : State Nat Nat,
      Reach (step socketConfig) (fun _ _ => True) (State.init (some 1) false) s →
        (∀ stream ∈ s.streams, stream.late = false) ∧
          (s.aborted = true → ∀ stream ∈ s.streams, stream.phase = .closed) ∧
          ∀ y ∈ s.yielded, y.frame.late = false := by
  constructor
  · intro h
    have hreach : Reach (step socketConfig) (fun _ _ => True) (State.init (some 1) false)
        (last (step socketConfig) (State.init (some 1) false) setWhileAwaiting) :=
      reach_last setWhileAwaiting .init (by decide)
    exact absurd (h _ hreach) (by decide)
  · intro h
    have hreach : Reach (step socketConfig) (fun _ _ => True) (State.init (some 1) false)
        (last (step socketConfig) (State.init (some 1) false) abortWhileAwaiting) :=
      reach_last abortWhileAwaiting .init (by decide)
    exact absurd (h _ hreach).1 (by decide)

end Reboot.Web.Reactive
