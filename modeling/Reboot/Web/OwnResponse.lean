import Mathlib.Data.Int.Order.Basic
import Mathlib.Data.List.Basic
import Reboot.Web.Mutations

/-!
# Mutations get their own response

`Instance.ownResponses`: in every run in which no error or close event of a socket is handled
after the instance has created its next socket, the responses that come over a socket are paired
with the mutations that were sent on it.

What is under way on a socket that is open — the answers on their way back, then the requests the
server has not answered — is what is running, in its order (`WiredTo`). For that no read may be
loading while a mutation is running (`Flushes.idle`): otherwise the mutations that were queued
would replace it.

An instance has one field for its socket, and the handlers of every socket it created read that
field. `lateClose_crosses` is a run in which the close event of a socket that had failed takes the
place of its successor's: that one stays connected, both it and the next one are sent the running
mutations, and a mutation is resolved with the answer to another one.
-/

namespace Reboot.Web

open Reboot.Lib

/-! ## What is under way on a socket -/

namespace WebSocket

/-- The keys of what is under way, first the answers and then the requests. -/
def inFlight (ws : WebSocket) : List Str := ws.toClient.map MutateResponse.answers ++ ws.toServer

/-- What is under way is what is running. -/
def Carries (ws : WebSocket) (keys : List Str) : Prop :=
  match ws.readyState with
  | .connecting => ws.inFlight = []
  | .open => ws.inFlight = keys
  -- mutations that are called now are not sent any more
  | .closing => ws.inFlight <+: keys
  | .closed => True

variable {ws : WebSocket} {keys : List Str}

theorem Carries.isPrefix (h : ws.Carries keys) (hs : ws.readyState ≠ .closed) :
    ws.inFlight <+: keys := by
  unfold Carries at h
  split at h
  next => exact h ▸ List.nil_prefix
  next => exact h ▸ List.prefix_rfl
  next => exact h
  next hc => exact absurd hc hs

theorem Carries.close (h : ws.Carries keys) : ws.close.Carries keys := by
  unfold WebSocket.close
  split
  next hc => exact h.isPrefix (by rw [hc]; decide)
  next hc => exact h.isPrefix (by rw [hc]; decide)
  next => exact h
  next => exact h

theorem close_readyState (h : ws.close.readyState ≠ .closed) : ws.readyState ≠ .closed := by
  intro hc
  unfold WebSocket.close at h
  rw [hc] at h
  exact h hc

/-- The server answers the first request. -/
theorem Carries.answer {k : Str} {ks : List Str} (h : ws.Carries keys)
    (hk : ws.toServer = k :: ks) (aborted : Bool) :
    WebSocket.Carries { ws with toServer := ks, toClient := ws.toClient ++ [⟨k, aborted⟩] }
      keys := by
  have hsame : WebSocket.inFlight
      { ws with toServer := ks, toClient := ws.toClient ++ [⟨k, aborted⟩] } = ws.inFlight := by
    simp [inFlight, hk]
  unfold Carries at h ⊢
  dsimp only
  rw [hsame]
  exact h

/-- The first answer is delivered: it belongs to the first key. -/
theorem Carries.deliver {response : MutateResponse} {rest : List MutateResponse}
    (h : ws.Carries keys) (hs : ws.readyState ≠ .closed) (ht : ws.toClient = response :: rest) :
    ∃ ks, keys = response.answers :: ks ∧
      WebSocket.Carries { ws with toClient := rest } ks := by
  have hcons : ws.inFlight =
      response.answers :: WebSocket.inFlight { ws with toClient := rest } := by
    simp [inFlight, ht]
  obtain ⟨more, hmore⟩ := h.isPrefix hs
  rw [hcons, List.cons_append] at hmore
  refine ⟨_, hmore.symm, ?_⟩
  unfold Carries at h ⊢
  split at h
  next =>
    rw [hcons] at h
    cases h
  next hc =>
    rw [hcons, ← hmore] at h
    dsimp only
    rw [hc]
    exact List.tail_eq_of_cons_eq h
  next hc =>
    dsimp only
    rw [hc]
    exact List.prefix_append ..
  next hc => exact absurd hc hs

/-- More is running, and it is sent if the socket is open. -/
theorem Carries.send (h : ws.Carries keys) (more : List Str) (hs : ws.readyState = .open) :
    WebSocket.Carries { ws with toServer := ws.toServer ++ more } (keys ++ more) := by
  unfold Carries at h ⊢
  dsimp only
  rw [hs] at h ⊢
  show WebSocket.inFlight { ws with toServer := ws.toServer ++ more } = keys ++ more
  rw [← h]
  simp [inFlight]

theorem Carries.unsent (h : ws.Carries keys) (more : List Str) (hs : ws.readyState ≠ .open) :
    ws.Carries (keys ++ more) := by
  unfold Carries at h ⊢
  split at h
  next => exact h
  next hc => exact absurd hc hs
  next => exact h.trans (List.prefix_append ..)
  next => trivial

end WebSocket

/-! ## The invariant -/

namespace Instance

variable {s s' : Instance} {w r : Nat} {ws ws' : WebSocket} {ks : List Str}

def keys (ms : List Mutate) : List Str := ms.map Mutate.idempotencyKey

/-- Only the instance's own socket is not closed, and it carries what is running. -/
def WiredTo (s : Instance) (ks : List Str) : Prop :=
  ∀ w ws, s.websockets[w]? = some ws → ws.readyState ≠ .closed →
    s.websocket = some w ∧ ws.Carries ks

/-- The handshake of reads with mutations. -/
structure Flushes (s : Instance) : Prop where
  loading : s.loadingReaders = s.reads.countP Read.isLoading
  queued : s.queuedMutates ≠ [] → 0 < s.loadingReaders
  /-- while a read is loading nothing is running -/
  idle : .loading ∈ s.reads → s.runningMutates = []
  flushing : ∀ e, .flushing e ∈ s.reads → s.flushMutates = some e
  event : ∀ e, s.flushMutates = some e →
    s.events[e]? = some (decide (s.runningMutates = [])) ∧ 0 < s.loadingReaders

structure Settled (s : Instance) : Prop where
  once : (s.mutates.map Mutate.call).Perm (List.range s.calls)
  own : ∀ r ∈ s.resolved, r.2.answers = r.1.idempotencyKey
  found : s.typeErrors = 0

structure Inv (s : Instance) : Prop where
  flushes : s.Flushes
  settled : s.Settled
  wired : s.WiredTo (keys s.runningMutates)

theorem keys_append (ms ns : List Mutate) : keys (ms ++ ns) = keys ms ++ keys ns := by
  simp [keys]

theorem Flushes.mem_loading (h : s.Flushes) {x : Read} (hx : x ∈ s.reads)
    (hl : x.isLoading = true) : 0 < s.loadingReaders := by
  rw [h.loading]
  have hpos : 0 < s.reads.countP Read.isLoading := List.countP_pos_iff.mpr ⟨x, hx, hl⟩
  omega

theorem Inv.toOwnResponses (h : Inv s) : s.OwnResponses where
  once := h.settled.once
  own := h.settled.own
  found := h.settled.found
  loading := h.flushes.loading
  queued h0 := by
    by_contra hne
    have hpos := h.flushes.queued hne
    omega
  flushing h0 r hr e he := by
    have hpos := h.flushes.mem_loading hr (by rw [he]; rfl)
    omega

/-! ## The socket -/

theorem WiredTo.set (h : s.WiredTo ks)
    (hw : ws'.readyState ≠ .closed → s.websocket = some w ∧ ws'.Carries ks) :
    (s.setWebSocket w ws').WiredTo ks := by
  intro w₂ ws₂ hw₂ hs₂
  have hw₂' : (s.websockets.set w ws')[w₂]? = some ws₂ := hw₂
  by_cases heq : w = w₂
  · subst heq
    rw [List.getElem?_set_self'] at hw₂'
    obtain ⟨_, _, rfl⟩ := Option.map_eq_some_iff.mp hw₂'
    exact hw hs₂
  · rw [List.getElem?_set_ne heq] at hw₂'
    exact h w₂ ws₂ hw₂' hs₂

/-- The instance's own socket changes, and with it what is running. -/
theorem WiredTo.setOwn {ks' : List Str} (h : s.WiredTo ks) (hc : s.websocket = some w)
    (hw : ws'.Carries ks') : (s.setWebSocket w ws').WiredTo ks' := by
  intro w₂ ws₂ hw₂ hs₂
  have hw₂' : (s.websockets.set w ws')[w₂]? = some ws₂ := hw₂
  by_cases heq : w = w₂
  · subst heq
    rw [List.getElem?_set_self'] at hw₂'
    obtain ⟨_, _, rfl⟩ := Option.map_eq_some_iff.mp hw₂'
    exact ⟨hc, hw⟩
  · rw [List.getElem?_set_ne heq] at hw₂'
    obtain ⟨hc₂, -⟩ := h w₂ ws₂ hw₂' hs₂
    exact absurd (Option.some.inj (hc.symm.trans hc₂)) heq

theorem WiredTo.sendIfOpen (h : s.WiredTo ks) (ms : List Mutate) :
    (s.sendIfOpen ms).WiredTo (ks ++ keys ms) := by
  have hunsent : (∀ w ws, s.websocket = some w → s.websockets[w]? = some ws →
      ws.readyState ≠ .open) → s.WiredTo (ks ++ keys ms) := by
    intro hno w ws hw hs
    obtain ⟨hc, hcarries⟩ := h w ws hw hs
    exact ⟨hc, hcarries.unsent _ (hno w ws hc hw)⟩
  unfold Instance.sendIfOpen
  split
  next hc => exact hunsent fun w ws hw => nomatch hc.symm.trans hw
  next w hc =>
    split
    next hnone =>
      refine hunsent fun w₂ ws₂ hc₂ hw₂ => ?_
      obtain rfl := Option.some.inj (hc.symm.trans hc₂)
      exact nomatch hnone.symm.trans hw₂
    next ws hw =>
      split
      next hopen =>
        obtain ⟨-, hcarries⟩ := h w ws hw (by rw [hopen]; decide)
        exact WiredTo.setOwn (s := s.update ms true none) h hc (hcarries.send _ hopen)
      next hopen =>
        refine hunsent fun w₂ ws₂ hc₂ hw₂ => ?_
        obtain rfl := Option.some.inj (hc.symm.trans hc₂)
        obtain rfl := Option.some.inj (hw.symm.trans hw₂)
        exact hopen

/-- Sending changes only the sockets, and what is shown of the mutations. -/
theorem sendIfOpen_eq (s : Instance) (ms : List Mutate) :
    s.sendIfOpen ms = { s with
      websockets := (s.sendIfOpen ms).websockets, updates := (s.sendIfOpen ms).updates } := by
  unfold sendIfOpen
  split
  next => rfl
  next =>
    split
    next => rfl
    next => split <;> rfl

theorem Flushes.sendIfOpen (h : s.Flushes) (ms : List Mutate) : (s.sendIfOpen ms).Flushes := by
  rw [sendIfOpen_eq]
  exact { h with }

theorem Settled.sendIfOpen (h : s.Settled) (ms : List Mutate) : (s.sendIfOpen ms).Settled := by
  rw [sendIfOpen_eq]
  exact { h with }

theorem sendIfOpen_runningMutates (s : Instance) (ms : List Mutate) :
    (s.sendIfOpen ms).runningMutates = s.runningMutates := by
  rw [sendIfOpen_eq]

/-- A socket opens, and everything that is running is sent. -/
theorem Inv.open (h : Inv s) (hw : s.websockets[w]? = some ws)
    (hs : ws.readyState = .connecting) :
    Inv (s.setWebSocket w { ws with readyState := .open }).onopen := by
  obtain ⟨hc, hcarries⟩ := h.wired w ws hw (by rw [hs]; decide)
  have hempty : ws.inFlight = [] := by
    unfold WebSocket.Carries at hcarries
    rw [hs] at hcarries
    exact hcarries
  have hflushes : (s.setWebSocket w { ws with readyState := .open }).Flushes :=
    { h.flushes with }
  have hsettled : (s.setWebSocket w { ws with readyState := .open }).Settled :=
    { h.settled with }
  refine ⟨hflushes.sendIfOpen _, hsettled.sendIfOpen _, ?_⟩
  unfold onopen
  rw [sendIfOpen_runningMutates]
  have hwired : (s.setWebSocket w { ws with readyState := .open }).WiredTo [] :=
    h.wired.setOwn hc hempty
  exact hwired.sendIfOpen _

theorem disconnected_eq (s : Instance) :
    s.disconnected = { s with
      websocket := none, updates := s.disconnected.updates, backoffs := s.disconnected.backoffs } := by
  unfold disconnected
  split
  next hc => rw [← hc]
  next => rfl

/-- A socket is closed, while it is the instance's own one or the instance has none. -/
theorem Inv.disconnect (h : Inv s) (hown : s.websocket = none ∨ s.websocket = some w)
    (hs : ws'.readyState = .closed) : Inv (s.setWebSocket w ws').disconnected := by
  rw [disconnected_eq]
  refine ⟨{ h.flushes with }, { h.settled with }, fun w₂ ws₂ hw₂ hs₂ => ?_⟩
  have hset : (s.setWebSocket w ws').WiredTo (keys s.runningMutates) :=
    h.wired.set fun hne => absurd hs hne
  obtain ⟨hc₂, -⟩ := hset w₂ ws₂ hw₂ hs₂
  have hc₂' : s.websocket = some w₂ := hc₂
  rcases hown with hnone | hsome
  · exact nomatch hnone.symm.trans hc₂'
  · obtain rfl := Option.some.inj (hsome.symm.trans hc₂')
    have hself : (s.websockets.set w ws')[w]? = some ws₂ := hw₂
    rw [List.getElem?_set_self'] at hself
    obtain ⟨_, _, rfl⟩ := Option.map_eq_some_iff.mp hself
    exact absurd hs hs₂

theorem Inv.initializeWebSocket (h : Inv s) : Inv s.initializeWebSocket := by
  unfold Instance.initializeWebSocket
  split
  next hguard =>
    refine ⟨{ h.flushes with }, { h.settled with }, fun w ws hw hs => ?_⟩
    have hw' : (s.websockets ++ [.fresh])[w]? = some ws := hw
    rcases Nat.lt_or_ge w s.websockets.length with hlt | hge
    · -- without a socket of its own every socket is closed
      rw [List.getElem?_append_left hlt] at hw'
      obtain ⟨hc, -⟩ := h.wired w ws hw' hs
      exact nomatch hguard.1.symm.trans hc
    · rw [List.getElem?_append_right hge] at hw'
      obtain ⟨hlt, rfl⟩ := List.getElem?_eq_some_iff.mp hw'
      have heq : w = s.websockets.length := by
        simp only [List.length_singleton] at hlt
        omega
      subst heq
      refine ⟨rfl, ?_⟩
      simp [WebSocket.Carries, WebSocket.fresh, WebSocket.inFlight]
  next => exact h

theorem Inv.unref (h : Inv s) : Inv s.unref := by
  have hrefs : Inv { s with refs := s.refs - 1 } := ⟨{ h.flushes with }, { h.settled with }, h.wired⟩
  unfold Instance.unref
  dsimp only
  split
  next =>
    split
    next => exact hrefs
    next w hc =>
      refine ⟨{ h.flushes with }, { h.settled with }, fun w₂ ws₂ hw₂ hs₂ => ?_⟩
      have hw₂' : (s.websockets.modify w WebSocket.close)[w₂]? = some ws₂ := hw₂
      rw [List.getElem?_modify] at hw₂'
      obtain ⟨ws, hws, hmod⟩ := Option.map_eq_some_iff.mp hw₂'
      split at hmod
      next =>
        subst hmod
        obtain ⟨hc₂, hcarries⟩ := h.wired w₂ ws hws (WebSocket.close_readyState hs₂)
        exact ⟨hc₂, hcarries.close⟩
      next =>
        subst hmod
        exact h.wired w₂ ws hws hs₂
  next => exact hrefs

/-! ## A response -/

theorem setFlushed_eq (s : Instance) : s.setFlushed = { s with events := s.setFlushed.events } := by
  unfold setFlushed
  split
  next => rfl
  next => split <;> rfl

/-- The first running mutation is resolved. -/
theorem Flushes.shift {m : Mutate} {ms : List Mutate} (h : s.Flushes)
    (hrun : s.runningMutates = m :: ms) (resolved : List (Mutate × MutateResponse)) :
    ({ s with runningMutates := ms, resolved := resolved }.setFlushed).Flushes := by
  have hidle : .loading ∉ s.reads := by
    intro hmem
    rw [h.idle hmem] at hrun
    cases hrun
  have hevent : ∀ e, s.flushMutates = some e →
      ({ s with runningMutates := ms, resolved := resolved }.setFlushed).events[e]? =
        some (decide (ms = [])) := by
    intro e he
    have hbefore := (h.event e he).1
    rw [hrun, decide_eq_false (by simp)] at hbefore
    unfold setFlushed
    dsimp only
    rw [he]
    by_cases hms : ms = []
    · dsimp only
      rw [if_pos hms, decide_eq_true hms]
      obtain ⟨hlt, -⟩ := List.getElem?_eq_some_iff.mp hbefore
      exact List.getElem?_set_self hlt
    · dsimp only
      rw [if_neg hms, decide_eq_false hms]
      exact hbefore
  rw [setFlushed_eq]
  exact { h with
    idle := fun hmem => absurd hmem hidle
    event := fun e he => ⟨hevent e he, (h.event e he).2⟩ }

theorem Settled.shift {m : Mutate} {ms : List Mutate} {response : MutateResponse} (h : s.Settled)
    (hrun : s.runningMutates = m :: ms) (hown : response.answers = m.idempotencyKey) :
    ({ s with
      runningMutates := ms, resolved := s.resolved ++ [(m, response)] }.setFlushed).Settled := by
  rw [setFlushed_eq]
  refine ⟨?_, fun r hr => ?_, h.found⟩
  · rw [List.perm_iff_count]
    intro a
    have hcount := h.once.count_eq a
    simp only [mutates, hrun, List.map_append, List.map_cons, List.map_nil, List.count_append,
      List.count_cons, List.count_nil] at hcount ⊢
    omega
  · rcases List.mem_append.mp hr with hr | hr
    · exact h.own r hr
    · rw [List.mem_singleton] at hr
      subst hr
      exact hown

theorem Inv.message {response : MutateResponse} {rest : List MutateResponse} (h : Inv s)
    (hw : s.websockets[w]? = some ws) (ht : ws.toClient = response :: rest)
    (hs : ws.readyState ≠ .closed) :
    Inv ((s.setWebSocket w { ws with toClient := rest }).onmessage response) := by
  obtain ⟨hc, hcarries⟩ := h.wired w ws hw hs
  obtain ⟨ks, hks, hrest⟩ := hcarries.deliver hs ht
  unfold onmessage
  split
  next hrun =>
    have hrun' : s.runningMutates = [] := hrun
    rw [hrun'] at hks
    cases hks
  next m ms hrun =>
    have hrun' : s.runningMutates = m :: ms := hrun
    rw [hrun'] at hks
    have hkey : m.idempotencyKey = response.answers := (List.cons.inj hks).1
    have hms : keys ms = ks := (List.cons.inj hks).2
    have hflushes : (s.setWebSocket w { ws with toClient := rest }).Flushes :=
      { h.flushes with }
    have hsettled : (s.setWebSocket w { ws with toClient := rest }).Settled :=
      { h.settled with }
    refine ⟨hflushes.shift hrun _, hsettled.shift hrun hkey.symm, ?_⟩
    rw [setFlushed_eq]
    show (s.setWebSocket w { ws with toClient := rest }).WiredTo (keys ms)
    rw [hms]
    exact h.wired.setOwn hc hrest

/-! ## Mutations and reads -/

theorem Flushes.notMem_loading (h : s.Flushes) (h0 : s.loadingReaders = 0) {x : Read}
    (hl : x.isLoading = true) : x ∉ s.reads := by
  intro hmem
  have hpos := h.mem_loading hmem hl
  omega

theorem Flushes.flushMutates_eq_none (h : s.Flushes) (h0 : s.loadingReaders = 0) :
    s.flushMutates = none := by
  cases he : s.flushMutates with
  | none => rfl
  | some e =>
    have hpos := (h.event e he).2
    omega

theorem Settled.call (h : s.Settled) {m : Mutate} (hm : m.call = s.calls)
    (hp : s'.mutates.Perm (m :: s.mutates)) (hcalls : s'.calls = s.calls + 1)
    (hresolved : s'.resolved = s.resolved) (htype : s'.typeErrors = s.typeErrors) : s'.Settled where
  once := by
    have hmap : (s'.mutates.map Mutate.call).Perm (s.calls :: s.mutates.map Mutate.call) := by
      rw [← hm]
      exact hp.map Mutate.call
    refine hmap.trans ((h.once.cons s.calls).trans ?_)
    rw [hcalls, List.range_succ]
    exact (List.perm_append_singleton ..).symm
  own := by
    rw [hresolved]
    exact h.own
  found := htype.trans h.found

theorem Inv.mutate (h : Inv s) (idempotencyKey : Str) : Inv (s.mutate idempotencyKey) := by
  unfold Instance.mutate
  dsimp only
  split
  next h0 =>
    -- nobody is loading: the mutation is the last one that runs
    refine ⟨Flushes.sendIfOpen ?_ _, Settled.sendIfOpen ?_ _, ?_⟩
    · exact { h.flushes with
        idle := fun hmem => absurd hmem (h.flushes.notMem_loading h0 rfl)
        event := fun e he => nomatch (h.flushes.flushMutates_eq_none h0).symm.trans he }
    · refine h.settled.call (m := ⟨s.calls, idempotencyKey⟩) rfl ?_ rfl rfl rfl
      show (s.queuedMutates ++ (s.runningMutates ++ [_]) ++ s.resolved.map Prod.fst).Perm _
      simp only [mutates, List.append_assoc]
      rw [← List.append_assoc, ← List.append_assoc s.queuedMutates s.runningMutates]
      exact List.perm_middle
    · rw [sendIfOpen_runningMutates, keys_append]
      have hwired : Instance.WiredTo
          { s with
            calls := s.calls + 1, runningMutates := s.runningMutates ++ [⟨s.calls, idempotencyKey⟩] }
          (keys s.runningMutates) := h.wired
      exact hwired.sendIfOpen _
  next hne =>
    have hpos : 0 < s.loadingReaders := by
      have hcount := h.flushes.loading
      omega
    refine ⟨{ h.flushes with queued := fun _ => hpos }, ?_, h.wired⟩
    refine h.settled.call (m := ⟨s.calls, idempotencyKey⟩) rfl ?_ rfl rfl rfl
    show (s.queuedMutates ++ [_] ++ s.runningMutates ++ s.resolved.map Prod.fst).Perm _
    simp only [mutates, List.append_assoc]
    exact List.perm_middle

theorem countP_set {x : Read} (h : s.reads[r]? = some x) (y : Read) :
    ((s.reads.set r y).countP Read.isLoading : Int) =
      s.reads.countP Read.isLoading - (if x.isLoading then 1 else 0) +
        (if y.isLoading then 1 else 0) := by
  obtain ⟨hlt, rfl⟩ := List.getElem?_eq_some_iff.mp h
  rw [List.countP_set hlt]
  by_cases hx : s.reads[r].isLoading = true
  · have hpos : 0 < s.reads.countP Read.isLoading :=
      List.countP_pos_iff.mpr ⟨_, List.getElem_mem hlt, hx⟩
    rw [if_pos hx, if_pos hx]
    split <;> omega
  · rw [if_neg hx, if_neg hx]
    split <;> omega

/-- A read goes on; how many are loading is counted with it. -/
theorem Flushes.setRead (h : s.Flushes) {x y : Read} (hr : s.reads[r]? = some x) {n : Int}
    (hn : n = s.loadingReaders - (if x.isLoading then 1 else 0) + (if y.isLoading then 1 else 0))
    (hqueued : s.queuedMutates ≠ [] → 0 < n)
    (hidle : y = .loading → s.runningMutates = [])
    (hflushing : ∀ e, y = .flushing e → s.flushMutates = some e)
    (hevent : s.flushMutates ≠ none → 0 < n) :
    ({ s with loadingReaders := n }.setRead r y).Flushes where
  loading := by
    show n = ((s.reads.set r y).countP Read.isLoading : Int)
    rw [countP_set hr, ← h.loading]
    exact hn
  queued := hqueued
  idle hmem := by
    rcases List.mem_or_eq_of_mem_set hmem with hmem | hy
    · exact h.idle hmem
    · exact hidle hy.symm
  flushing e hmem := by
    rcases List.mem_or_eq_of_mem_set hmem with hmem | hy
    · exact h.flushing e hmem
    · exact hflushing e hy.symm
  event e he := ⟨(h.event e he).1, hevent (by rw [show s.flushMutates = some e from he]; simp)⟩

/-- The read counts as before. -/
theorem Inv.setRead (h : Inv s) {x y : Read} (hr : s.reads[r]? = some x)
    (hsame : x.isLoading = y.isLoading) (hidle : y = .loading → s.runningMutates = [])
    (hflushing : ∀ e, y ≠ .flushing e) : Inv (s.setRead r y) := by
  refine ⟨?_, { h.settled with }, h.wired⟩
  have hset := h.flushes.setRead (y := y) (n := s.loadingReaders) hr
    (by rw [hsame]; omega) h.flushes.queued hidle (fun e he => absurd he (hflushing e))
    (fun hne => by
      obtain ⟨e, he⟩ := Option.ne_none_iff_exists'.mp hne
      exact (h.flushes.event e he).2)
  exact hset

/-- The first read that waits for the running mutations creates the event. -/
theorem Flushes.createEvent (h : s.Flushes) (hr : s.reads[r]? = some .retrying)
    (hrun : s.runningMutates ≠ []) (hnone : s.flushMutates = none) :
    ({ s with
      loadingReaders := s.loadingReaders + 1
      flushMutates := some s.events.length
      events := s.events ++ [false] }.setRead r (.flushing s.events.length)).Flushes where
  loading := by
    show s.loadingReaders + 1 = ((s.reads.set r _).countP Read.isLoading : Int)
    rw [countP_set hr, ← h.loading]
    show _ = s.loadingReaders - 0 + 1
    omega
  queued _ := by
    show 0 < s.loadingReaders + 1
    have hcount := h.loading
    omega
  idle hmem := by
    rcases List.mem_or_eq_of_mem_set hmem with hmem | hy
    · exact h.idle hmem
    · cases hy
  flushing e hmem := by
    rcases List.mem_or_eq_of_mem_set hmem with hmem | hy
    · exact nomatch hnone.symm.trans (h.flushing e hmem)
    · cases hy
      rfl
  event e he := by
    cases he
    refine ⟨?_, ?_⟩
    · show (s.events ++ [false])[s.events.length]? = some (decide (s.runningMutates = []))
      rw [decide_eq_false hrun, List.getElem?_concat_length]
    · show 0 < s.loadingReaders + 1
      have hcount := h.loading
      omega

theorem Inv.attempt (h : Inv s) (hr : s.reads[r]? = some .retrying) : Inv (s.attempt r) := by
  have hcount := h.flushes.loading
  have hpos : 0 < s.loadingReaders + 1 := by omega
  have hnext : ∀ y : Read, y.isLoading = true → s.loadingReaders + 1 =
      s.loadingReaders - (if Read.isLoading .retrying then 1 else 0) +
        (if y.isLoading then 1 else 0) := by
    intro y hy
    rw [hy]
    show _ = s.loadingReaders - 0 + 1
    omega
  unfold Instance.attempt
  dsimp only
  split
  next hrun =>
    have hrun' : s.runningMutates ≠ [] := hrun
    unfold flushMutations
    split
    next hnone => exact ⟨h.flushes.createEvent hr hrun' hnone, { h.settled with }, h.wired⟩
    next e he =>
      have he' : s.flushMutates = some e := he
      refine ⟨h.flushes.setRead hr (hnext _ rfl) (fun _ => hpos) (nomatch ·) (fun e' hy => ?_)
        fun _ => hpos, { h.settled with }, h.wired⟩
      cases hy
      exact he'
  next hrun =>
    have hrun' : s.runningMutates = [] := by
      by_contra hne
      exact hrun hne
    exact ⟨h.flushes.setRead hr (hnext _ rfl) (fun _ => hpos) (fun _ => hrun')
      (fun e hy => nomatch hy) fun _ => hpos, { h.settled with }, h.wired⟩

theorem Inv.flushed (h : Inv s) {e : Nat} (hr : s.reads[r]? = some (.flushing e))
    (he : s.events[e]? = some true) : Inv (s.setRead r .loading) := by
  refine h.setRead hr rfl (fun _ => ?_) fun e' => (nomatch ·)
  have hflush := h.flushes.flushing e (List.mem_of_getElem? hr)
  have hevent := (h.flushes.event e hflush).1
  exact of_decide_eq_true (Option.some.inj (hevent.symm.trans he))

/-- A read that was loading is not any more. When it was the last one, what is queued runs, and
nothing was running before. -/
theorem Inv.loadedOrFailed (h : Inv s) (hr : s.reads[r]? = some .loading) {y : Read}
    (hy : y.isLoading = false) : Inv (s.loadedOrFailed r y) := by
  have hrun : s.runningMutates = [] := h.flushes.idle (List.mem_of_getElem? hr)
  have hcount := h.flushes.loading
  have hloading : ({ s with loadingReaders := s.loadingReaders - 1 }.setRead r y).loadingReaders =
      ((s.reads.set r y).countP Read.isLoading : Int) := by
    rw [countP_set hr, hy, ← hcount]
    show s.loadingReaders - 1 = s.loadingReaders - 1 + 0
    omega
  have hmem : ∀ x : Read, x.isLoading = true → x ∈ s.reads.set r y → x ∈ s.reads := by
    intro x hx hmem
    rcases List.mem_or_eq_of_mem_set hmem with hmem | rfl
    · exact hmem
    · exact nomatch hy.symm.trans hx
  unfold Instance.loadedOrFailed
  dsimp only
  split
  next h0 =>
    have h0' : s.loadingReaders - 1 = 0 := h0
    have hnone : ∀ x : Read, x.isLoading = true → x ∉ s.reads.set r y := by
      intro x hx hmem
      have hzero : (s.reads.set r y).countP Read.isLoading = 0 := by
        have hzero' := hloading.symm.trans h0
        omega
      have hpos : 0 < (s.reads.set r y).countP Read.isLoading :=
        List.countP_pos_iff.mpr ⟨x, hmem, hx⟩
      omega
    unfold readersLoadedOrFailed
    dsimp only
    split
    next hq =>
      refine ⟨Flushes.sendIfOpen ?_ _, Settled.sendIfOpen ?_ _, ?_⟩
      · exact ⟨hloading, fun hne => absurd rfl hne, fun hmem => absurd hmem (hnone _ rfl),
          fun e hmem => absurd hmem (hnone _ rfl), fun e he => nomatch he⟩
      · refine ⟨?_, h.settled.own, h.settled.found⟩
        have honce := h.settled.once
        unfold mutates at honce ⊢
        rw [hrun, List.append_nil] at honce
        exact honce
      · rw [sendIfOpen_runningMutates]
        have hwired := h.wired
        rw [hrun] at hwired
        show WiredTo _ ([] ++ keys s.queuedMutates)
        refine WiredTo.sendIfOpen ?_ s.queuedMutates
        exact hwired
    next hq =>
      have hq' : s.queuedMutates = [] := by
        by_contra hne
        exact hq hne
      exact ⟨⟨hloading, fun hne => absurd hq' hne, fun hmem => absurd hmem (hnone _ rfl),
        fun e hmem => absurd hmem (hnone _ rfl), fun e he => nomatch he⟩,
        { h.settled with }, h.wired⟩
  next hne =>
    have hpos : 0 < s.loadingReaders - 1 := by
      have hne' : s.loadingReaders - 1 ≠ 0 := hne
      have hloading' : s.loadingReaders - 1 = ((s.reads.set r y).countP Read.isLoading : Int) :=
        hloading
      omega
    exact ⟨⟨hloading, fun _ => hpos, fun _ => hrun,
      fun e he => h.flushes.flushing e (hmem _ rfl he),
      fun e he => ⟨(h.flushes.event e he).1, hpos⟩⟩, { h.settled with }, h.wired⟩

theorem Inv.fail (h : Inv s) {x : Read} (hr : s.reads[r]? = some x) {aborted : Bool}
    (hf : s.fail r x aborted = some s') : Inv s' := by
  have hnext : (if aborted then Read.returned else .retrying).isLoading = false := by
    split <;> rfl
  unfold Instance.fail at hf
  dsimp only at hf
  split at hf
  case h_1 =>
    cases hf
    exact h.loadedOrFailed hr hnext
  case h_2 =>
    cases hf
    exact h.setRead hr hnext.symm (fun hy => by rw [hy] at hnext; cases hnext)
      fun e hy => by rw [hy] at hnext; cases hnext
  all_goals cases hf

theorem Inv.onRead (h : Inv s) {x : Read} (hr : s.reads[r]? = some x) {a : Action}
    (hs : s.onRead r x a = some s') : Inv s' := by
  unfold Instance.onRead at hs
  split at hs
  next =>
    split at hs
    next hx =>
      cases hs
      subst hx
      exact h.attempt hr
    next => cases hs
  next =>
    split at hs
    next e =>
      split at hs
      next he =>
        cases hs
        exact h.flushed hr he
      next => cases hs
    next => cases hs
  next =>
    split at hs
    next hx =>
      cases hs
      subst hx
      exact h.loadedOrFailed hr rfl
    next => cases hs
  next => exact h.fail hr hs
  next => cases hs

theorem Inv.onWebSocket (h : Inv s) {a : Action} (hw : s.websockets[w]? = some ws)
    (hown : ∀ v, a = .error v ∨ a = .close v → s.websocket = none ∨ s.websocket = some w)
    (hs : s.onWebSocket w ws a = some s') : Inv s' := by
  unfold Instance.onWebSocket at hs
  split at hs
  next =>
    split at hs
    next hc =>
      cases hs
      exact h.open hw hc
    next => cases hs
  next =>
    split at hs
    next =>
      cases hs
      exact h.disconnect (hown _ (.inl rfl)) rfl
    next => cases hs
  next =>
    split at hs
    next =>
      cases hs
      exact h.disconnect (hown _ (.inr rfl)) rfl
    next => cases hs
  next =>
    split at hs
    next hopen =>
      cases hs
      refine ⟨{ h.flushes with }, { h.settled with }, h.wired.set fun _ => ?_⟩
      obtain ⟨hc, hcarries⟩ := h.wired w ws hw (by rw [hopen]; decide)
      exact ⟨hc, hcarries.isPrefix (by rw [hopen]; decide)⟩
    next => cases hs
  next aborted =>
    split at hs
    next => cases hs
    next k ks hk =>
      cases hs
      refine ⟨{ h.flushes with }, { h.settled with }, h.wired.set fun hopen => ?_⟩
      obtain ⟨hc, hcarries⟩ := h.wired w ws hw hopen
      exact ⟨hc, hcarries.answer hk aborted⟩
  next =>
    split at hs
    next => cases hs
    next response rest ht =>
      split at hs
      next hopen =>
        cases hs
        exact h.message hw ht hopen
      next => cases hs
  next => cases hs

/-! ## Every run -/

theorem inv_new (id : Str) : Inv (new id) := by
  refine Inv.initializeWebSocket ⟨⟨rfl, fun h => absurd rfl h, fun _ => rfl, ?_, ?_⟩,
    ⟨List.Perm.nil, ?_, rfl⟩, ?_⟩
  · exact fun e h => nomatch h
  · exact fun e h => nomatch h
  · exact fun r h => nomatch h
  · exact fun w ws h => nomatch h

theorem step_inv {a : Action} (h : Inv s) (hok : HandlesOwn s a) (hs : step s a = some s') :
    Inv s' := by
  unfold step at hs
  split at hs
  case h_1 key =>
    cases hs
    exact h.mutate key
  case h_2 =>
    cases hs
    have hread : ∀ x : Read, x.isLoading = true → x ∈ s.reads ++ [.retrying] → x ∈ s.reads := by
      intro x hx hmem
      rcases List.mem_append.mp hmem with hmem | hmem
      · exact hmem
      · rw [List.mem_singleton] at hmem
        subst hmem
        cases hx
    refine ⟨⟨?_, h.flushes.queued, fun hmem => h.flushes.idle (hread _ rfl hmem),
      fun e hmem => h.flushes.flushing e (hread _ rfl hmem), h.flushes.event⟩,
      { h.settled with }, h.wired⟩
    show s.loadingReaders = ((s.reads ++ [Read.retrying]).countP Read.isLoading : Nat)
    rw [List.countP_append, h.flushes.loading]
    rfl
  case h_13 =>
    split at hs
    next =>
      cases hs
      exact Inv.initializeWebSocket ⟨{ h.flushes with }, { h.settled with }, h.wired⟩
    next => cases hs
  case h_14 =>
    cases hs
    exact ⟨{ h.flushes with }, { h.settled with }, h.wired⟩
  case h_15 =>
    split at hs
    next =>
      cases hs
      exact h.unref
    next => cases hs
  case h_8 w =>
    obtain ⟨ws, hw, hs⟩ := Option.bind_eq_some_iff.mp hs
    exact h.onWebSocket hw (fun _ _ => hok) hs
  case h_9 w =>
    obtain ⟨ws, hw, hs⟩ := Option.bind_eq_some_iff.mp hs
    exact h.onWebSocket hw (fun _ _ => hok) hs
  case h_3 r | h_4 r | h_5 r | h_6 r =>
    obtain ⟨x, hr, hs⟩ := Option.bind_eq_some_iff.mp hs
    exact h.onRead hr hs
  all_goals
    obtain ⟨ws, hw, hs⟩ := Option.bind_eq_some_iff.mp hs
    exact h.onWebSocket hw (fun v hv => by simp at hv) hs

/-- As long as every error and close event of a socket comes before the instance has created its
next socket, every mutation is in one place and is resolved with the answer to its own request. -/
theorem ownResponses {id : Str} (h : Reach step HandlesOwn (new id) s) : s.OwnResponses :=
  (h.invariant Inv (inv_new id) fun _ _ _ hi hok hs => step_inv hi hok hs).toOwnResponses

/-- A mutation waits for a read, which waits for another mutation; the socket fails and both are
sent on the next one. -/
def flushedRun : List Action :=
  [.open 0, .mutate ['a'], .read, .attempt 0, .mutate ['b'], .error 0, .close 0, .backoff, .open 1,
    .answer 1 false, .message 1, .flushed 0, .response 0, .answer 1 true, .message 1]

theorem flushedRun_ownResponses :
    (last step (new ['x']) flushedRun).OwnResponses ∧
      (last step (new ['x']) flushedRun).resolved =
        [(⟨0, ['a']⟩, ⟨['a'], false⟩), (⟨1, ['b']⟩, ⟨['b'], true⟩)] :=
  ⟨ownResponses (reach_last flushedRun .init (by decide +kernel)), by decide +kernel⟩

/-- The first socket fails; its close event comes when the second one is open. -/
def lateClose : List Action :=
  [.open 0, .mutate ['a'], .mutate ['b'], .error 0, .backoff, .open 1, .close 0, .backoff, .open 2,
    .answer 1 false, .message 1, .answer 2 false, .message 2]

/-- The second mutation is resolved with the answer to the first one, and the answer to its own
request finds no running mutation. -/
theorem lateClose_crosses :
    (∃ s, exec step (new ['x']) lateClose = some s ∧
      (⟨1, ['b']⟩, ⟨['a'], false⟩) ∈ s.resolved ∧ ¬ s.OwnResponses) ∧
    ∃ s, exec step (new ['x']) (lateClose ++ [.answer 2 false, .message 2]) = some s ∧
      s.typeErrors = 1 := by
  refine ⟨⟨_, exec_eq_last (by decide +kernel), by decide +kernel, fun h => ?_⟩,
    _, exec_eq_last (by decide +kernel), by decide +kernel⟩
  have hown := h.own (⟨1, ['b']⟩, ⟨['a'], false⟩) (by decide +kernel)
  exact absurd hown (by decide)

end Instance

end Reboot.Web
