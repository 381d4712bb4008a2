import Reboot.Lib.Run
import Reboot.Lib.Text

/-!
# Mutations of a React instance

One generated instance of the React client (`reboot/templates/reboot_react.ts.j2`) with its reads
and every WebSocket it creates, and the server's end of each socket, `_websocket_mutate`
(`reboot/aio/react.py`). A response does not name its request: `onmessage` resolves the first of
`runningMutates` with it. While a read is loading new mutations are queued, and a read waits for
the running ones before it starts.

> `Instance.ownResponses`: every mutation is resolved with the answer to its own request.

Mirroring notes:

* What runs between two awaits is one action. An event handler of a socket, up to the wait for its
  backoff, is one as well.
* A request is its idempotency key; method, payload and bearer token are only passed on. An answer
  is the key of the request the server answered, and whether the method aborted.
* `_websocket_mutate` answers the messages of a socket one after another. Where it raises, it
  answers nothing more on that socket.
* `send` does not raise on a socket that is open.
* After its error event a socket is closed and delivers nothing; its close event follows later.
  A socket that is closing still delivers.
* A read is only its part in `loadingReaders` and `flushMutates`. What it does with a response
  after the first one does not touch the mutations.
-/

namespace Reboot.Web

open Reboot.Lib

/-- A `reboot_react.Mutate`: which call of `mutate` it is the promise of, and its request. -/
structure Mutate where
  call : Nat
  idempotencyKey : Str
deriving DecidableEq

structure MutateResponse where
  /-- the idempotency key of the request that was answered -/
  answers : Str
  aborted : Bool
deriving DecidableEq

/-- What the `update` of a mutation is called with. -/
structure Update where
  call : Nat
  isLoading : Bool
  error : Option Str
deriving DecidableEq

inductive ReadyState where
  | connecting
  | open
  | closing
  | closed
deriving DecidableEq

structure WebSocket where
  readyState : ReadyState
  /-- whether its close event was dispatched -/
  closeEvent : Bool
  toServer : List Str
  toClient : List MutateResponse
deriving DecidableEq

def WebSocket.fresh : WebSocket := ⟨.connecting, false, [], []⟩

/-- `WebSocket.close` -/
def WebSocket.close (ws : WebSocket) : WebSocket :=
  match ws.readyState with
  | .connecting | .open => { ws with readyState := .closing }
  | .closing | .closed => ws

/-- Where a call of `read` is. -/
inductive Read where
  /-- before an attempt of `retryForever` -/
  | retrying
  /-- awaits this event -/
  | flushing (event : Nat)
  | loading
  | loaded
  | returned
deriving DecidableEq

/-- Whether the read has counted itself in `loadingReaders`. -/
def Read.isLoading : Read → Bool
  | .flushing _ | .loading => true
  | .retrying | .loaded | .returned => false

structure Instance where
  id : Str
  refs : Nat
  loadingReaders : Int
  runningMutates : List Mutate
  queuedMutates : List Mutate
  /-- `flushMutates`, an index of `events` -/
  flushMutates : Option Nat
  /-- `websocket`, an index of `websockets` -/
  websocket : Option Nat
  events : List Bool
  websockets : List WebSocket
  /-- how many handlers await their backoff -/
  backoffs : Nat
  reads : List Read
  /-- how many times `mutate` was called -/
  calls : Nat
  resolved : List (Mutate × MutateResponse)
  updates : List Update
  /-- how many times `onmessage` has found no running mutation -/
  typeErrors : Nat
deriving DecidableEq

inductive Action where
  | mutate (idempotencyKey : Str)
  | read
  /-- the next attempt of a read -/
  | attempt (r : Nat)
  | flushed (r : Nat)
  /-- the first query response of the attempt -/
  | response (r : Nat)
  | fail (r : Nat) (aborted : Bool)
  | open (w : Nat)
  | error (w : Nat)
  | close (w : Nat)
  /-- the closing handshake begins -/
  | closing (w : Nat)
  /-- the server answers the next message of a socket -/
  | answer (w : Nat) (aborted : Bool)
  | message (w : Nat)
  /-- a handler has waited for its backoff -/
  | backoff
  | ref
  | unref
deriving DecidableEq

namespace Instance

/-! ## The socket -/

def initializeWebSocket (s : Instance) : Instance :=
  if s.websocket = none ∧ 0 < s.refs ∧ s.id ≠ [] then
    { s with
      websocket := some s.websockets.length
      websockets := s.websockets ++ [.fresh] }
  else s

/-- The constructor. -/
def new (id : Str) : Instance :=
  initializeWebSocket
    { id := id, refs := 1, loadingReaders := 0, runningMutates := [], queuedMutates := []
      flushMutates := none, websocket := none, events := [], websockets := [], backoffs := 0
      reads := [], calls := 0, resolved := [], updates := [], typeErrors := 0 }

def setWebSocket (s : Instance) (w : Nat) (ws : WebSocket) : Instance :=
  { s with websockets := s.websockets.set w ws }

def update (s : Instance) (ms : List Mutate) (isLoading : Bool) (error : Option Str) :
    Instance :=
  { s with updates := s.updates ++ ms.map fun m => ⟨m.call, isLoading, error⟩ }

/-- Send these mutations if `this.websocket?.readyState === WebSocket.OPEN`. -/
def sendIfOpen (s : Instance) (ms : List Mutate) : Instance :=
  match s.websocket with
  | none => s
  | some w =>
    match s.websockets[w]? with
    | none => s
    | some ws =>
      if ws.readyState = .open then
        (s.update ms true none).setWebSocket w
          { ws with toServer := ws.toServer ++ ms.map Mutate.idempotencyKey }
      else s

def onopen (s : Instance) : Instance := s.sendIfOpen s.runningMutates

/-- What `onerror` and `onclose` do before they await the backoff. -/
def disconnected (s : Instance) : Instance :=
  match s.websocket with
  | none => s
  | some _ =>
    { s.update s.runningMutates false (some "WebSocket disconnected".toList) with
      websocket := none
      backoffs := if 0 < s.refs then s.backoffs + 1 else s.backoffs }

def onerror (s : Instance) : Instance := s.disconnected

def onclose (s : Instance) : Instance := s.disconnected

/-- `Event.set` of `flushMutates`, when the last running mutation is resolved. -/
def setFlushed (s : Instance) : Instance :=
  match s.flushMutates with
  | none => s
  | some e => if s.runningMutates = [] then { s with events := s.events.set e true } else s

def onmessage (s : Instance) (response : MutateResponse) : Instance :=
  match s.runningMutates with
  | [] => { s with typeErrors := s.typeErrors + 1 }
  | m :: ms =>
    { s with runningMutates := ms, resolved := s.resolved ++ [(m, response)] }.setFlushed

def unref (s : Instance) : Instance :=
  let s := { s with refs := s.refs - 1 }
  if s.refs = 0 then
    match s.websocket with
    | none => s
    | some w => { s with websockets := s.websockets.modify w WebSocket.close }
  else s

/-! ## Mutations and reads -/

def mutate (s : Instance) (idempotencyKey : Str) : Instance :=
  let m : Mutate := ⟨s.calls, idempotencyKey⟩
  let s := { s with calls := s.calls + 1 }
  if s.loadingReaders = 0 then
    { s with runningMutates := s.runningMutates ++ [m] }.sendIfOpen [m]
  else { s with queuedMutates := s.queuedMutates ++ [m] }

def readersLoadedOrFailed (s : Instance) : Instance :=
  let s := { s with flushMutates := none }
  if s.queuedMutates ≠ [] then
    { s with runningMutates := s.queuedMutates, queuedMutates := [] }.sendIfOpen s.queuedMutates
  else s

def setRead (s : Instance) (r : Nat) (read : Read) : Instance :=
  { s with reads := s.reads.set r read }

/-- `flushMutations`, up to its await -/
def flushMutations (s : Instance) (r : Nat) : Instance :=
  match s.flushMutates with
  | none =>
    { s with
      flushMutates := some s.events.length
      events := s.events ++ [false] }.setRead r (.flushing s.events.length)
  | some e => s.setRead r (.flushing e)

/-- An attempt of `read`, up to its first await. -/
def attempt (s : Instance) (r : Nat) : Instance :=
  let s := { s with loadingReaders := s.loadingReaders + 1 }
  if s.runningMutates ≠ [] then s.flushMutations r else s.setRead r .loading

/-- The read is not loading any more. -/
def loadedOrFailed (s : Instance) (r : Nat) (read : Read) : Instance :=
  let s := { s with loadingReaders := s.loadingReaders - 1 }.setRead r read
  if s.loadingReaders = 0 then s.readersLoadedOrFailed else s

/-- The `catch` of an attempt. -/
def fail (s : Instance) (r : Nat) (read : Read) (aborted : Bool) : Option Instance :=
  let next : Read := if aborted then .returned else .retrying
  match read with
  | .loading => some (s.loadedOrFailed r next)
  | .loaded => some (s.setRead r next)
  | .retrying | .flushing _ | .returned => none

/-! ## Steps -/

def onRead (s : Instance) (r : Nat) (read : Read) : Action → Option Instance
  | .attempt _ => if read = .retrying then some (s.attempt r) else none
  | .flushed _ =>
    match read with
    | .flushing e => if s.events[e]? = some true then some (s.setRead r .loading) else none
    | _ => none
  | .response _ => if read = .loading then some (s.loadedOrFailed r .loaded) else none
  | .fail _ aborted => s.fail r read aborted
  | _ => none

def onWebSocket (s : Instance) (w : Nat) (ws : WebSocket) : Action → Option Instance
  | .open _ =>
    if ws.readyState = .connecting then
      some (s.setWebSocket w { ws with readyState := .open }).onopen
    else none
  | .error _ =>
    if ws.readyState ≠ .closed then
      some (s.setWebSocket w { ws with readyState := .closed }).onerror
    else none
  | .close _ =>
    if ws.closeEvent = false then
      some (s.setWebSocket w { ws with readyState := .closed, closeEvent := true }).onclose
    else none
  | .closing _ =>
    if ws.readyState = .open then some (s.setWebSocket w { ws with readyState := .closing })
    else none
  | .answer _ aborted =>
    match ws.toServer with
    | [] => none
    | k :: ks =>
      some (s.setWebSocket w
        { ws with toServer := ks, toClient := ws.toClient ++ [⟨k, aborted⟩] })
  | .message _ =>
    match ws.toClient with
    | [] => none
    | response :: rest =>
      if ws.readyState ≠ .closed then
        some ((s.setWebSocket w { ws with toClient := rest }).onmessage response)
      else none
  | _ => none

def step (s : Instance) : Action → Option Instance
  | .mutate idempotencyKey => some (s.mutate idempotencyKey)
  | .read => some { s with reads := s.reads ++ [.retrying] }
  | .attempt r => do s.onRead r (← s.reads[r]?) (.attempt r)
  | .flushed r => do s.onRead r (← s.reads[r]?) (.flushed r)
  | .response r => do s.onRead r (← s.reads[r]?) (.response r)
  | .fail r aborted => do s.onRead r (← s.reads[r]?) (.fail r aborted)
  | .open w => do s.onWebSocket w (← s.websockets[w]?) (.open w)
  | .error w => do s.onWebSocket w (← s.websockets[w]?) (.error w)
  | .close w => do s.onWebSocket w (← s.websockets[w]?) (.close w)
  | .closing w => do s.onWebSocket w (← s.websockets[w]?) (.closing w)
  | .answer w aborted => do s.onWebSocket w (← s.websockets[w]?) (.answer w aborted)
  | .message w => do s.onWebSocket w (← s.websockets[w]?) (.message w)
  | .backoff =>
    if 0 < s.backoffs then some { s with backoffs := s.backoffs - 1 }.initializeWebSocket
    else none
  | .ref => some { s with refs := s.refs + 1 }
  | .unref => if 0 < s.refs then some s.unref else none

/-- Where a mutation can be: queued, running or resolved. -/
def mutates (s : Instance) : List Mutate :=
  s.queuedMutates ++ s.runningMutates ++ s.resolved.map Prod.fst

structure OwnResponses (s : Instance) : Prop where
  /-- every call of `mutate` is in one of the three lists, once -/
  once : (s.mutates.map Mutate.call).Perm (List.range s.calls)
  own : ∀ r ∈ s.resolved, r.2.answers = r.1.idempotencyKey
  found : s.typeErrors = 0
  loading : s.loadingReaders = s.reads.countP Read.isLoading
  queued : s.loadingReaders = 0 → s.queuedMutates = []
  flushing : s.loadingReaders = 0 → ∀ r ∈ s.reads, ∀ e, r ≠ .flushing e

/-- An error or a close event of a socket is handled before the instance has another socket. -/
def HandlesOwn (s : Instance) : Action → Prop
  | .error w | .close w => s.websocket = none ∨ s.websocket = some w
  | _ => True

instance (s : Instance) (a : Action) : Decidable (HandlesOwn s a) :=
  match a with
  | .error w => inferInstanceAs (Decidable (s.websocket = none ∨ s.websocket = some w))
  | .close w => inferInstanceAs (Decidable (s.websocket = none ∨ s.websocket = some w))
  | .mutate _ | .read | .attempt _ | .flushed _ | .response _ | .fail _ _ | .open _
  | .closing _ | .answer _ _ | .message _ | .backoff | .ref | .unref => .isTrue trivial

end Instance

end Reboot.Web
