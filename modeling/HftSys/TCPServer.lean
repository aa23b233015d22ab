import HftSys.Receiving

/-!
# The server's rounds

`utils::TCPServer` under the gateway: `poll` collects the sockets that are ready in two lists, and
`sendAndReceive` calls `sendAndRecv` on those of the first, tells the gateway that all has been
received, and calls `sendAndRecv` on those of the second, which receives as well.

* What `epoll_wait` or `kevent` reports is a list of `PollEvent`s, what happens on the sockets in
  the two passes two functions from sockets to outcomes.
* `arrivals` are the records a pass completes, as a function of the inbound buffers.
* `round_complete_iff`: no request is left waiting after a round exactly when the gate admits none
  of the records the second pass completes.
-/

namespace HftSys

open Exec SequenceGate

/-- An event of `events_`: the socket it is for, and what its flags or its filter say. -/
structure PollEvent where
  socket : SocketPtr
  /-- `EPOLLIN` or `EVFILT_READ`. -/
  readable : Bool
  /-- `EPOLLOUT` or `EVFILT_WRITE`. -/
  writable : Bool
  /-- `EPOLLERR | EPOLLHUP` or `EV_EOF | EV_ERROR`. -/
  failed : Bool
deriving DecidableEq

/-- `utils::TCPServer`. Source: `tcp_server.h` -/
structure TCPServer where
  listenerSocket : SocketPtr
  receiveSockets : List SocketPtr
  sendSockets : List SocketPtr
deriving DecidableEq

namespace TCPServer

/-- A new server. Source: `tcp_server.h` -/
def create (listenerSocket : SocketPtr) : TCPServer := ⟨listenerSocket, [], []⟩

/-- `push_back` unless `find_if` finds the socket. -/
def addSocket (sockets : List SocketPtr) (socket : SocketPtr) : List SocketPtr :=
  if socket ∈ sockets then sockets else sockets ++ [socket]

/-- The body of the loop over the events; the second component is `haveNewConnection`.
Source: `tcp_server.cpp`, `TCPServer::poll` -/
def handleEvent (state : TCPServer × Bool) (event : PollEvent) : TCPServer × Bool :=
  let (server, haveNewConnection) := state
  if event.readable ∧ event.socket = server.listenerSocket then (server, true)
  else
    let server := if event.readable then
      { server with receiveSockets := addSocket server.receiveSockets event.socket } else server
    let server := if event.writable then
      { server with sendSockets := addSocket server.sendSockets event.socket } else server
    let server := if event.failed then
      { server with receiveSockets := addSocket server.receiveSockets event.socket } else server
    (server, haveNewConnection)

/-- `poll`, where `accepted` are the sockets of the connections there are to accept.
Source: `tcp_server.cpp`, `TCPServer::poll` -/
def poll (server : TCPServer) (events : List PollEvent) (accepted : List SocketPtr) : TCPServer :=
  let (server, haveNewConnection) := events.foldl handleEvent (server, false)
  if haveNewConnection then
    { server with receiveSockets := accepted.foldl addSocket server.receiveSockets }
  else server

/-- The server after some calls of `poll`. -/
def polled (listenerSocket : SocketPtr) (polls : List (List PollEvent × List SocketPtr)) :
    TCPServer :=
  polls.foldl (fun server p => server.poll p.1 p.2) (create listenerSocket)

/-! ## The lists -/

/-- Only a socket reported writable is added to the second list. -/
theorem sendSockets_handleEvent (state : TCPServer × Bool) {event : PollEvent}
    (h : event.writable = false) : (handleEvent state event).1.sendSockets = state.1.sendSockets := by
  simp only [handleEvent, h, Bool.false_eq_true, if_false]
  split
  · rfl
  · split <;> split <;> rfl

theorem sendSockets_handleEvents (state : TCPServer × Bool) {events : List PollEvent}
    (h : ∀ event ∈ events, event.writable = false) :
    (events.foldl handleEvent state).1.sendSockets = state.1.sendSockets := by
  induction events generalizing state with
  | nil => rfl
  | cons event events ih =>
    rw [List.foldl_cons, ih _ fun e he => h e (List.mem_cons_of_mem _ he),
      sendSockets_handleEvent state (h event List.mem_cons_self)]

theorem sendSockets_poll (server : TCPServer) {events : List PollEvent}
    (accepted : List SocketPtr) (h : ∀ event ∈ events, event.writable = false) :
    (server.poll events accepted).sendSockets = server.sendSockets := by
  rw [← sendSockets_handleEvents (server, false) h]
  simp only [poll]
  split <;> rfl

end TCPServer

section rounds

variable {B : Build}

/-- `sendAndRecv` on some sockets, one after the other, and whether anything has been received.
Source: `tcp_server.cpp`, `TCPServer::sendAndReceive` -/
def OrderGatewayServer.sendAndRecvAll (outcome : SocketPtr → Outcome) :
    List SocketPtr → OrderGatewayServer B → Except GatewayFault (Bool × OrderGatewayServer B)
  | [], g => .ok (false, g)
  | socket :: sockets, g => do
    let (received, g) ← g.sendAndRecv socket (outcome socket)
    let (recv, g) ← sendAndRecvAll outcome sockets g
    .ok (received || recv, g)

/-- `sendAndReceive`, with what happens on the sockets in the two passes, and with `sort` for
`std::sort`. Source: `tcp_server.cpp`, `TCPServer::sendAndReceive` -/
def TCPServer.sendAndReceive (server : TCPServer) (first second : SocketPtr → Outcome)
    (sort : List PendingClientRequest → List PendingClientRequest) (g : OrderGatewayServer B) :
    Except GatewayFault (OrderGatewayServer B) := do
  let (recv, g) ← g.sendAndRecvAll first server.receiveSockets
  let g := if recv then g.rxDoneCallback (sort g.fifo.pendingRequests) else g
  let (_, g) ← g.sendAndRecvAll second server.sendSockets
  .ok g

/-- The sockets' inbound buffers. -/
def OrderGatewayServer.inbound (g : OrderGatewayServer B) : SocketPtr → List UInt8 :=
  fun socket => (g.sockets socket).inboundData

/-- The inbound buffers after a pass. -/
def inboundAfter (outcome : SocketPtr → Outcome) (inbound : SocketPtr → List UInt8)
    (sockets : List SocketPtr) : SocketPtr → List UInt8 :=
  sockets.foldl
    (fun inbound socket =>
      Function.update inbound socket (leftOver (inbound socket) (outcome socket))) inbound

/-- The records a pass completes. -/
def arrivals (outcome : SocketPtr → Outcome) :
    (SocketPtr → List UInt8) → List SocketPtr → List Arrival
  | _, [] => []
  | inbound, socket :: sockets =>
    completed (inbound socket) socket (outcome socket) ++
      arrivals outcome (Function.update inbound socket (leftOver (inbound socket) (outcome socket)))
        sockets

/-- All that waited has been published, and nothing else has happened. -/
structure AllPublished (g g' : OrderGatewayServer B) : Prop where
  gate : g'.gate = g.gate
  forwarded : g'.forwarded = g.forwarded
  inbound : g'.inbound = g.inbound
  noneWaits : g'.fifo.pendingRequests = []
  published : ∃ sent, g'.published = g.published ++ sent ∧ sent.Perm g.fifo.requests

/-- Nothing waits, and what has been forwarded since `g` has been handed on. -/
structure HandedOver (g g' : OrderGatewayServer B) : Prop where
  noneWaits : g'.fifo.pendingRequests = []
  published : ∃ new sent, g'.forwarded = g.forwarded ++ new ∧ g'.published = g.published ++ sent ∧
    sent.Perm (new.map fun x => x.record.omeRequest)

/-- The gate admits none of the records the second pass of a round completes. -/
def NoneLate (server : TCPServer) (first second : SocketPtr → Outcome) (g : OrderGatewayServer B) :
    Prop :=
  let early := arrivals first g.inbound server.receiveSockets
  let inbound := inboundAfter first g.inbound server.receiveSockets
  ∀ pre x post, arrivals second inbound server.sendSockets = pre ++ x :: post →
    ¬ (gateAfter g.gate (early ++ pre)).Admits x.item

variable {g g' : OrderGatewayServer B} {outcome : SocketPtr → Outcome} {sockets : List SocketPtr}
  {recv : Bool}

/-- The inbound buffers after a call of `sendAndRecv`. -/
theorem inbound_sendAndRecv {socket : SocketPtr} {o : Outcome}
    (h : g.sendAndRecv socket o = .ok (recv, g')) :
    g'.inbound = Function.update g.inbound socket (leftOver (g.inbound socket) o) := by
  obtain ⟨-, -, hsockets⟩ := sendAndRecv_ok h
  funext socket'
  show (g'.sockets socket').inboundData = _
  rw [hsockets]
  by_cases hss : socket' = socket
  · subst hss
    rw [Function.update_self, Function.update_self]
    rfl
  · rw [Function.update_of_ne hss, Function.update_of_ne hss]
    rfl

/-- **A pass** reads the records it completes; when nothing has been received, there are none. -/
theorem sendAndRecvAll_ok (h : g.sendAndRecvAll outcome sockets = .ok (recv, g')) :
    Received g g' (arrivals outcome g.inbound sockets) ∧
      g'.inbound = inboundAfter outcome g.inbound sockets ∧
      (recv = false → arrivals outcome g.inbound sockets = []) := by
  induction sockets generalizing g recv with
  | nil =>
    cases h
    exact ⟨.refl _, rfl, fun _ => rfl⟩
  | cons socket sockets ih =>
    rw [OrderGatewayServer.sendAndRecvAll] at h
    obtain ⟨⟨received, g₁⟩, hone, h⟩ := except_bind_eq_ok.mp h
    obtain ⟨⟨recv', g₂⟩, hrest, h⟩ := except_bind_eq_ok.mp h
    cases h
    obtain ⟨hreceived, hflag, -⟩ := sendAndRecv_ok hone
    have hinbound := inbound_sendAndRecv hone
    obtain ⟨hall, hinbound', hnone⟩ := ih hrest
    rw [hinbound] at hall hinbound' hnone
    refine ⟨hreceived.trans hall, hinbound', ?_⟩
    intro hfalse
    obtain ⟨hfirst, hlater⟩ := Bool.or_eq_false_iff.mp hfalse
    have hbytes : (outcome socket).bytes = [] := by
      rw [hflag] at hfirst
      simpa using hfirst
    rw [arrivals, hnone hlater, completed, if_pos hbytes]
    rfl

theorem allPublished_rxDone {sorted : List PendingClientRequest}
    (hs : SortsTo g.fifo.pendingRequests sorted) : AllPublished g (g.rxDoneCallback sorted) where
  gate := rfl
  forwarded := rfl
  inbound := rfl
  noneWaits := FIFOSequencer.pendingRequests_sequenceAndPublish _ _
  published := ⟨_, rfl, FIFOSequencer.pushed_perm hs⟩

theorem allPublished_of_noneWaits (h : g.fifo.pendingRequests = []) : AllPublished g g where
  gate := rfl
  forwarded := rfl
  inbound := rfl
  noneWaits := h
  published := by
    refine ⟨[], (List.append_nil _).symm, ?_⟩
    rw [FIFOSequencer.requests, h]
    exact .refl _

variable {server : TCPServer} {first second : SocketPtr → Outcome}
  {sort : List PendingClientRequest → List PendingClientRequest}

/-- **A round taken apart**: the records of the first pass are read and published, those of the
second are read. -/
theorem sendAndReceive_ok (hsort : ∀ rs, SortsTo rs (sort rs))
    (hstart : g.fifo.pendingRequests = [])
    (h : server.sendAndReceive first second sort g = .ok g') :
    ∃ g₁ g₂, Received g g₁ (arrivals first g.inbound server.receiveSockets) ∧ AllPublished g₁ g₂ ∧
      Received g₂ g' (arrivals second (inboundAfter first g.inbound server.receiveSockets)
        server.sendSockets) := by
  unfold TCPServer.sendAndReceive at h
  obtain ⟨⟨recv, g₁⟩, hfirst, h⟩ := except_bind_eq_ok.mp h
  obtain ⟨⟨recv', g₃⟩, hsecond, h⟩ := except_bind_eq_ok.mp h
  cases h
  obtain ⟨hearly, hinbound, hnone⟩ := sendAndRecvAll_ok hfirst
  obtain ⟨hlate, -, -⟩ := sendAndRecvAll_ok hsecond
  have hpublished : AllPublished g₁
      (if recv then g₁.rxDoneCallback (sort g₁.fifo.pendingRequests) else g₁) := by
    split
    · exact allPublished_rxDone (hsort _)
    · rename_i hrecv
      have hpending := hearly.pending
      rw [hnone (by simpa using hrecv), hstart] at hpending
      exact allPublished_of_noneWaits hpending
  rw [hpublished.inbound, hinbound] at hlate
  exact ⟨g₁, _, hearly, hpublished, hlate⟩

/-- **No request is left waiting after a round** exactly when the gate admits no record that the
second pass completes. -/
theorem round_complete_iff (hsort : ∀ rs, SortsTo rs (sort rs))
    (hstart : g.fifo.pendingRequests = [])
    (h : server.sendAndReceive first second sort g = .ok g') :
    HandedOver g g' ↔ NoneLate server first second g := by
  obtain ⟨g₁, g₂, hearly, hpublished, hlate⟩ := sendAndReceive_ok hsort hstart h
  have hpending := hlate.pending
  rw [hpublished.noneWaits, List.nil_append, hpublished.gate, hearly.gate] at hpending
  have hnone : NoneLate server first second g ↔ g'.fifo.pendingRequests = [] := by
    rw [hpending, List.map_eq_nil_iff, admitted, Gate.admitted_eq_nil_iff]
    unfold NoneLate
    simp only [gateAfter_append]
  rw [hnone]
  refine ⟨HandedOver.noneWaits, fun hwaits => ⟨hwaits, ?_⟩⟩
  obtain ⟨sent, hsent, hperm⟩ := hpublished.published
  rw [hpending] at hwaits
  refine ⟨admitted g.gate (arrivals first g.inbound server.receiveSockets), sent, ?_, ?_,
    hperm.trans (.of_eq ?_)⟩
  · rw [hlate.forwarded, hpublished.forwarded, hearly.forwarded, hpublished.gate, hearly.gate,
      List.map_eq_nil_iff.mp hwaits, List.append_nil]
  · rw [hlate.published, hsent, hearly.published]
  · rw [FIFOSequencer.requests, hearly.pending, hstart, List.nil_append, List.map_map]
    rfl

/-- A sort that leaves ties in their order. -/
def stableSort : List PendingClientRequest → List PendingClientRequest :=
  Sorting.sort fun r => r.tRx.toInt

theorem sortsTo_stableSort (rs : List PendingClientRequest) : SortsTo rs (stableSort rs) :=
  sortsTo_iff.mpr (Sorting.sorts_sort _ rs)

/-- Nothing is received on a socket. -/
def Outcome.silent : Outcome := ⟨[], 0, none⟩

/-- A new order of client 1 is received on a socket. -/
def Outcome.newOrder : Outcome :=
  ⟨OGSClientRequest.image ⟨1, ⟨.new, 1, 0, 1, .buy, 100, 10⟩⟩, 5, none⟩

/-- A connection is accepted, and the new socket, 0, is reported writable. -/
def writableServer : TCPServer :=
  .polled 99 [([⟨99, true, false, false⟩], [0]), ([⟨0, false, true, false⟩], [])]

/-- An order received in the first pass. -/
theorem round_complete_iff_sample :
    ∃ g' : OrderGatewayServer .production, g'.published.length = 1 ∧
      (HandedOver (.create .production) g' ↔
        NoneLate writableServer (fun _ => .newOrder) (fun _ => .silent) (.create .production)) := by
  have hrun : ((writableServer.sendAndReceive (fun _ => .newOrder) (fun _ => .silent) stableSort
      (.create .production)).toOption.map fun g => g.published.length) = some 1 := by
    decide +kernel
  obtain ⟨g', hg', hlen⟩ := Option.map_eq_some_iff.mp hrun
  exact ⟨g', hlen, round_complete_iff sortsTo_stableSort rfl (toOption_eq_some.mp hg')⟩

/-- An order received in the second pass waits. -/
theorem order_left_waiting :
    ¬ ∀ (listenerSocket : SocketPtr) (polls : List (List PollEvent × List SocketPtr))
      (first second : SocketPtr → Outcome)
      (sort : List PendingClientRequest → List PendingClientRequest)
      (g g' : OrderGatewayServer .production), (∀ rs, SortsTo rs (sort rs)) →
      g.fifo.pendingRequests = [] →
      (TCPServer.polled listenerSocket polls).sendAndReceive first second sort g = .ok g' →
      HandedOver g g' := by
  intro h
  have hrun : ((writableServer.sendAndReceive (fun _ => .silent) (fun _ => .newOrder) stableSort
      (.create .production)).toOption.map fun g => g.fifo.pendingRequests.length) = some 1 := by
    decide +kernel
  obtain ⟨g', hg', hlen⟩ := Option.map_eq_some_iff.mp hrun
  have hwaits := (h 99 _ _ _ stableSort _ g' sortsTo_stableSort rfl (toOption_eq_some.mp hg')).noneWaits
  rw [hwaits] at hlen
  cases hlen

end rounds

end HftSys
