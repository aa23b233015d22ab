import HftSys.FIFOSequencer
import HftSys.Lib.Exec
import HftSys.Lib.Runs
import HftSys.Lib.SequenceGate

/-!
# The order gateway

`Exchange::OrderGatewayServer`: the records that come in on the server's sockets are checked against
two tables per client and forwarded to the sequencer, and the engine's responses are numbered and
sent to the socket of their client.

* A function of the gateway returns the next gateway, or stops with a `GatewayFault`.
* `arrived`, `forwarded` and `published` record what `rxCallback` has read, what it has passed to
  `pushClientRequest` and what the sequencer has passed to `push`.
* `GatewayEvent` and `GatewayStep` are the steps of the gateway's thread. The calls of
  `sendAndRecv`, of `rxDoneCallback` and of the body of `run`'s inner loop may come in any order.

Left out: the thread, its start and stop, the interface and the port, and the log.
-/

namespace HftSys

open Bytes SequenceGate

/-- A `TCPSocket *`. -/
abbrev SocketPtr := ℕ

/-- What ends the process, or what the source leaves undefined. -/
inductive GatewayFault where
  /-- A subscript outside an array with one element a client. -/
  | outOfRange
  /-- `FATAL("<FIFOSequencer> Too many pending requests!")`. -/
  | tooManyPending
  /-- The assertion `"<OGS> missing socket for client: {}"`. -/
  | missingSocket
  /-- A `memcpy` past the end of an outbound buffer. -/
  | bufferOverflow
deriving DecidableEq, Repr

/-- A record `rxCallback` has read. -/
structure Arrival where
  socket : SocketPtr
  tRx : Nanos
  record : OGSClientRequest
deriving DecidableEq

/-- `Exchange::OrderGatewayServer`. Source: `order_gateway_server.h` -/
structure OrderGatewayServer (B : Build) where
  fifo : FIFOSequencer
  mapClientToTxNSeq : ClientID → UInt64
  mapClientToRxNSeq : ClientID → UInt64
  mapClientToSocket : ClientID → Option SocketPtr
  /-- The sockets of `server_`. -/
  sockets : SocketPtr → TCPSocket
  /-- The records read so far. -/
  arrived : List Arrival
  /-- Those passed to `pushClientRequest`. -/
  forwarded : List Arrival
  /-- The requests passed to `rxRequests_.push`. -/
  published : List OMEClientRequest

namespace Arrival

/-- The client a record is from. -/
abbrev clientId (x : Arrival) : ClientID := x.record.omeRequest.clientId

/-- The record as it waits in the sequencer. -/
def pending (x : Arrival) : PendingClientRequest := ⟨x.tRx, x.record.omeRequest⟩

/-- The record as the gate sees it. -/
def item (x : Arrival) : Item ClientID SocketPtr UInt64 := ⟨x.clientId, x.socket, x.record.nSeq⟩

end Arrival

namespace OrderGatewayServer

variable {B : Build}

/-! ## The functions -/

/-- A new gateway. Source: `order_gateway_server.cpp`, `OrderGatewayServer::OrderGatewayServer` -/
def create (B : Build) : OrderGatewayServer B where
  fifo := .create
  mapClientToTxNSeq := fun _ => 1
  mapClientToRxNSeq := fun _ => 1
  mapClientToSocket := fun _ => none
  sockets := fun _ => .create
  arrived := []
  forwarded := []
  published := []

/-- "Client's first order req; start tracking with a new socket mapping".
Source: `order_gateway_server.cpp`, `OrderGatewayServer::rxCallback` -/
def trackClient (g : OrderGatewayServer B) (clientId : ClientID) (socket : SocketPtr) :
    OrderGatewayServer B :=
  if g.mapClientToSocket clientId = none then
    { g with mapClientToSocket := Function.update g.mapClientToSocket clientId (some socket) }
  else g

/-- A socket of the server has become `s`. -/
def setSocket (g : OrderGatewayServer B) (socket : SocketPtr) (s : TCPSocket) :
    OrderGatewayServer B :=
  { g with sockets := Function.update g.sockets socket s }

/-- "Increment client seq number and forward order to the exchange FIFO sequencer", which is `fifo`
afterwards. Source: `order_gateway_server.cpp`, `OrderGatewayServer::rxCallback` -/
def forward (g : OrderGatewayServer B) (x : Arrival) (fifo : FIFOSequencer) :
    OrderGatewayServer B :=
  { g with
    mapClientToRxNSeq :=
      Function.update g.mapClientToRxNSeq x.clientId (g.mapClientToRxNSeq x.clientId + 1)
    fifo
    forwarded := g.forwarded ++ [x] }

/-- One turn of the loop of `rxCallback`.
Source: `order_gateway_server.cpp`, `OrderGatewayServer::rxCallback` -/
def receiveRecord (socket : SocketPtr) (tRx : Nanos) (g : OrderGatewayServer B)
    (req : OGSClientRequest) : Except GatewayFault (OrderGatewayServer B) :=
  let clientId := req.omeRequest.clientId
  let x : Arrival := ⟨socket, tRx, req⟩
  let g := { g with arrived := g.arrived ++ [x] }
  if clientId.toNat < maxNClients B then
    let g := g.trackClient clientId socket
    if g.mapClientToSocket clientId ≠ some socket then .ok g
    else if req.nSeq ≠ g.mapClientToRxNSeq clientId then .ok g
    else
      match g.fifo.pushClientRequest req.omeRequest tRx with
      | none => .error .tooManyPending
      | some fifo => .ok (g.forward x fifo)
  else .error .outOfRange

/-- Source: `order_gateway_server.cpp`, `OrderGatewayServer::rxCallback` -/
def rxCallback (socket : SocketPtr) (tRx : Nanos) (g : OrderGatewayServer B) :
    Except GatewayFault (OrderGatewayServer B) :=
  let inboundData := (g.sockets socket).inboundData
  if sizeofOGSClientRequest ≤ inboundData.length then do
    let g ← ((records sizeofOGSClientRequest inboundData).map OGSClientRequest.ofBytes).foldlM
      (receiveRecord socket tRx) g
    .ok (g.setSocket socket
      { g.sockets socket with inboundData := rest sizeofOGSClientRequest inboundData })
  else .ok g

/-- `TCPSocket::sendAndRecv` on a socket of the server, whose callback is `rxCallback`.
Source: `tcp_socket.cpp`, `TCPSocket::sendAndRecv` -/
def sendAndRecv (g : OrderGatewayServer B) (socket : SocketPtr) (o : Outcome) :
    Except GatewayFault (Bool × OrderGatewayServer B) :=
  if o.bytes = [] then .ok (false, g.setSocket socket ((g.sockets socket).transmit o))
  else do
    let g := g.setSocket socket ((g.sockets socket).receive o)
    let g ← g.rxCallback socket o.kernelTime
    .ok (true, g.setSocket socket ((g.sockets socket).transmit o))

/-- `rxDoneCallback`, where `sorted` is what `std::sort` makes of the waiting requests.
Source: `order_gateway_server.cpp`, `OrderGatewayServer::rxDoneCallback` -/
def rxDoneCallback (g : OrderGatewayServer B) (sorted : List PendingClientRequest) :
    OrderGatewayServer B :=
  let (fifo, requests) := g.fifo.sequenceAndPublish sorted
  { g with fifo, published := g.published ++ requests }

/-- The body of the loop that drains the responses.
Source: `order_gateway_server.cpp`, `OrderGatewayServer::run` -/
def sendResponse (g : OrderGatewayServer B) (res : OMEClientResponse) :
    Except GatewayFault (OrderGatewayServer B) :=
  if res.clientId.toNat < maxNClients B then
    let nSeqTxNext := g.mapClientToTxNSeq res.clientId
    match g.mapClientToSocket res.clientId with
    | none => .error .missingSocket
    | some socket =>
      match (g.sockets socket).send (sizeImage nSeqTxNext) >>= fun s => s.send res.image with
      | none => .error .bufferOverflow
      | some s =>
        let g := g.setSocket socket s
        .ok { g with
          mapClientToTxNSeq := Function.update g.mapClientToTxNSeq res.clientId (nSeqTxNext + 1) }
  else .error .outOfRange

end OrderGatewayServer

/-! ## Runs -/

/-- A step of the gateway's thread. -/
inductive GatewayEvent where
  | sendAndRecv (socket : SocketPtr) (o : Outcome)
  | rxDone
  | respond (res : OMEClientResponse)
deriving DecidableEq

section runs

variable {B : Build}

/-- An event may take the gateway from `g` to `g'`, without a fault. -/
def GatewayStep (g : OrderGatewayServer B) (e : GatewayEvent) (g' : OrderGatewayServer B) : Prop :=
  match e with
  | .sendAndRecv socket o => ∃ received, g.sendAndRecv socket o = .ok (received, g')
  | .rxDone => ∃ sorted, SortsTo g.fifo.pendingRequests sorted ∧ g' = g.rxDoneCallback sorted
  | .respond res => g.sendResponse res = .ok g'

/-- The events may lead from a new gateway to `g`. -/
abbrev GatewayRuns (es : List GatewayEvent) (g : OrderGatewayServer B) : Prop :=
  Runs.Path GatewayStep (.create B) es g

theorem runsOf_gateway (B : Build) :
    Runs.RunsOf GatewayStep (OrderGatewayServer.create B) GatewayRuns :=
  .path GatewayStep (.create B)

/-- The gateway after an event, when sorting leaves ties in their order. -/
def OrderGatewayServer.handle (g : OrderGatewayServer B) :
    GatewayEvent → Option (OrderGatewayServer B)
  | .sendAndRecv socket o => (g.sendAndRecv socket o).toOption.map Prod.snd
  | .rxDone =>
    some (g.rxDoneCallback (Sorting.sort (fun r => r.tRx.toInt) g.fifo.pendingRequests))
  | .respond res => (g.sendResponse res).toOption

theorem gatewayStep_of_handle {g g' : OrderGatewayServer B} {e : GatewayEvent}
    (h : g.handle e = some g') : GatewayStep g e g' := by
  cases e with
  | sendAndRecv socket o =>
    obtain ⟨⟨received, g₁⟩, hcall, rfl⟩ := Option.map_eq_some_iff.mp h
    exact ⟨received, Exec.toOption_eq_some.mp hcall⟩
  | rxDone =>
    cases h
    exact ⟨_, sortsTo_iff.mpr (Sorting.sorts_sort _ _), rfl⟩
  | respond res => exact Exec.toOption_eq_some.mp h

/-- Events handled one after the other make a run. -/
theorem exists_gatewayRuns (B : Build) (es : List GatewayEvent) {α : Type}
    (f : OrderGatewayServer B → α) {a : α}
    (h : (es.foldlM OrderGatewayServer.handle (.create B)).map f = some a) :
    ∃ g : OrderGatewayServer B, GatewayRuns es g ∧ f g = a := by
  obtain ⟨g, hg, hf⟩ := Option.map_eq_some_iff.mp h
  exact ⟨g, .of_foldlM (fun _ _ _ => gatewayStep_of_handle) hg, hf⟩

end runs

end HftSys
