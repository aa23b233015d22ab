import HftSys.Connections
import HftSys.Exchange
import HftSys.Flooding

/-!
# The gateway's thread

`OrderGatewayServer::run`, with its loops in order: `poll`, both passes of `sendAndReceive`, with
`rxDoneCallback` between them if something has been received, and the loop that drains the
responses, which ends when it finds their queue empty. The engine goes on meanwhile.

* `ServerThread.step` takes the thread of the gateway, or another thread of the exchange, one step
  on.
* `Rounds.of_runs`: outside of the draining, only sockets whose turn is still to come hold data;
  within it, a socket holds the responses to its clients that have been sent since it began.
* `sends_fit_iff`: the sends fit as long as what a draining is offered fits. Nothing bounds that:
  while the thread drains, the engine may push more responses than a buffer takes
  (`buffer_overflows`).
-/

namespace HftSys

open Exec

/-! ## The source -/

/-- Where the gateway's thread is. Source: `order_gateway_server.cpp`, `OrderGatewayServer::run` -/
inductive RunPoint where
  /-- At the head of the loop. -/
  | polling
  /-- In the first pass of `sendAndReceive`, with these sockets left. -/
  | receiving (sockets : List SocketPtr) (recv : Bool)
  /-- In `rxDoneCallback`. -/
  | publishing
  /-- In the second pass, with these sockets left. -/
  | sending (sockets : List SocketPtr)
  /-- In the loop over the responses. -/
  | draining
deriving DecidableEq

/-- The gateway's thread in the exchange. -/
structure ServerThread (B : Build) where
  exchange : Exchange B
  server : TCPServer
  point : RunPoint
  /-- The responses sent since the loop over the responses was entered last. -/
  sent : List OMEClientResponse

/-- A step of the gateway's thread, or of another. -/
inductive ThreadAction where
  | poll (events : List PollEvent) (accepted : List SocketPtr)
  /-- `sendAndRecv` on the next socket of a pass. -/
  | sendAndRecv (o : Outcome)
  | rxDone (sorted : List PendingClientRequest)
  /-- The next turn of the loop of `sequenceAndPublish`, or its end. -/
  | publish
  /-- The end of a pass, or of the loop over the responses. -/
  | next
  | respond
  | release
  /-- A step of the engine or of the market data publisher. -/
  | elsewhere (a : ExchangeAction)
deriving DecidableEq

/-- A step that takes a draining on. -/
def ThreadAction.drains : ThreadAction → Bool
  | .respond | .release => true
  | _ => false

/-- A step of another thread than the gateway's. -/
def ExchangeAction.elsewhere : ExchangeAction → Bool
  | .takeRequest | .emit | .popUpdate => true
  | _ => false

namespace ServerThread

variable {B : Build}

/-- A new exchange, the gateway's thread at the head of its loop. -/
def create (B : Build) (listenerSocket : SocketPtr) : ServerThread B where
  exchange := .create B
  server := .create listenerSocket
  point := .polling
  sent := []

/-- The thread after a step, unless it is elsewhere or the step ends in a fault. An empty queue is
what `getNextToRead` sees. Source: `order_gateway_server.cpp`, `OrderGatewayServer::run` -/
def step (stray : Ticker → ℕ → Qty) (s : ServerThread B) : ThreadAction → Option (ServerThread B)
  | .poll events accepted =>
    if s.point = .polling then
      let server := s.server.poll events accepted
      some { s with server, point := .receiving server.receiveSockets false }
    else none
  | .sendAndRecv o =>
    match s.point with
    | .receiving (socket :: sockets) recv =>
      (s.exchange.step stray (.sendAndRecv socket o)).map fun x =>
        { s with exchange := x, point := .receiving sockets (recv || decide (o.bytes ≠ [])) }
    | .sending (socket :: sockets) =>
      (s.exchange.step stray (.sendAndRecv socket o)).map fun x =>
        { s with exchange := x, point := .sending sockets }
    | _ => none
  | .rxDone sorted =>
    if s.point = .receiving [] true then
      (s.exchange.step stray (.rxDone sorted)).map fun x =>
        { s with exchange := x, point := .publishing }
    else none
  | .publish =>
    if s.point = .publishing then
      (s.exchange.step stray .publish).map fun x =>
        { s with
          exchange := x
          point := if x.phase = .polling then .sending s.server.sendSockets else .publishing }
    else none
  | .next =>
    match s.point with
    | .receiving [] false => some { s with point := .sending s.server.sendSockets }
    | .sending [] => some { s with point := .draining, sent := [] }
    | .draining =>
      if s.exchange.phase = .polling ∧ s.exchange.outputs.txResponses.items = [] then
        some { s with point := .polling }
      else none
    | _ => none
  | .respond =>
    match s.point, s.exchange.outputs.txResponses.items with
    | .draining, res :: _ =>
      (s.exchange.step stray .respond).map fun x =>
        { s with exchange := x, sent := s.sent ++ [res] }
    | _, _ => none
  | .release =>
    if s.point = .draining then
      (s.exchange.step stray .release).map fun x => { s with exchange := x }
    else none
  | .elsewhere a =>
    if a.elsewhere = true then (s.exchange.step stray a).map fun x => { s with exchange := x }
    else none

end ServerThread

/-- The steps may lead from a new exchange to `s`. -/
abbrev ThreadRuns {B : Build} (stray : Ticker → ℕ → Qty) (listenerSocket : SocketPtr)
    (actions : List ThreadAction) (s : ServerThread B) : Prop :=
  actions.foldlM (ServerThread.step stray) (.create B listenerSocket) = some s

theorem runsOf_thread (B : Build) (stray : Ticker → ℕ → Qty) (listenerSocket : SocketPtr) :
    Runs.RunsOf (fun s a s' => ServerThread.step stray s a = some s')
      (ServerThread.create B listenerSocket) (ThreadRuns stray listenerSocket) :=
  .ofStep (ServerThread.step stray) (.create B listenerSocket)

/-! ## What a draining sends -/

namespace ServerThread

variable {B : Build}

/-- The responses that wait: the first one in the queue does not if it has been sent already. -/
def waiting (s : ServerThread B) : List OMEClientResponse :=
  if s.exchange.phase = .releasing then s.exchange.outputs.txResponses.items.tail
  else s.exchange.outputs.txResponses.items

/-- The thread is about to send a response. -/
structure AboutToSend (s : ServerThread B) (res : OMEClientResponse) : Prop where
  point : s.point = .draining
  phase : s.exchange.phase = .polling
  head : s.exchange.outputs.txResponses.items.head? = some res

/-- A response about to be sent finds room in the outbound buffer, in both calls of `send`. -/
def FindsRoom (s : ServerThread B) : Prop :=
  ∀ res, s.AboutToSend res → s.exchange.gateway.sendResponse res ≠ .error .bufferOverflow

/-- While responses are drained, those that have been offered to the thread, sent already or
waiting, take no more room on any socket than there is in its buffer. -/
def OffersFit (s : ServerThread B) : Prop :=
  s.point = .draining → ∀ socket, sizeofOGSClientResponse *
    s.exchange.gateway.countTo socket (s.sent ++ s.waiting) ≤ tcpBufferSize

/-- However far the thread goes on with what waits for it, every response finds room. -/
def SendsFit (stray : Ticker → ℕ → Qty) (s : ServerThread B) : Prop :=
  ∀ (more : List ThreadAction) (s' : ServerThread B), (∀ a ∈ more, a.drains = true) →
    more.foldlM (step stray) s = some s' → s'.FindsRoom

end ServerThread

/-! ## The steps taken apart -/

/-- What a step does. -/
inductive Goes {B : Build} (stray : Ticker → ℕ → Qty) (s : ServerThread B) :
    ThreadAction → ServerThread B → Prop
  | poll {events : List PollEvent} {accepted : List SocketPtr} (hpoint : s.point = .polling) :
      Goes stray s (.poll events accepted) { s with
        server := s.server.poll events accepted
        point := .receiving (s.server.poll events accepted).receiveSockets false }
  | receive {socket : SocketPtr} {sockets : List SocketPtr} {recv : Bool} {o : Outcome}
      {x : Exchange B} (hpoint : s.point = .receiving (socket :: sockets) recv)
      (hx : s.exchange.step stray (.sendAndRecv socket o) = some x) :
      Goes stray s (.sendAndRecv o) { s with
        exchange := x, point := .receiving sockets (recv || decide (o.bytes ≠ [])) }
  | transmit {socket : SocketPtr} {sockets : List SocketPtr} {o : Outcome} {x : Exchange B}
      (hpoint : s.point = .sending (socket :: sockets))
      (hx : s.exchange.step stray (.sendAndRecv socket o) = some x) :
      Goes stray s (.sendAndRecv o) { s with exchange := x, point := .sending sockets }
  | rxDone {sorted : List PendingClientRequest} {x : Exchange B}
      (hpoint : s.point = .receiving [] true) (hx : s.exchange.step stray (.rxDone sorted) = some x) :
      Goes stray s (.rxDone sorted) { s with exchange := x, point := .publishing }
  | publish {x : Exchange B} (hpoint : s.point = .publishing)
      (hx : s.exchange.step stray .publish = some x) :
      Goes stray s .publish { s with
        exchange := x
        point := if x.phase = .polling then .sending s.server.sendSockets else .publishing }
  | pass (hpoint : s.point = .receiving [] false) :
      Goes stray s .next { s with point := .sending s.server.sendSockets }
  | enter (hpoint : s.point = .sending []) :
      Goes stray s .next { s with point := .draining, sent := [] }
  | leave (hpoint : s.point = .draining) (hphase : s.exchange.phase = .polling)
      (hempty : s.exchange.outputs.txResponses.items = []) :
      Goes stray s .next { s with point := .polling }
  | respond {res : OMEClientResponse} {rest : List OMEClientResponse} {x : Exchange B}
      (hpoint : s.point = .draining) (hhead : s.exchange.outputs.txResponses.items = res :: rest)
      (hx : s.exchange.step stray .respond = some x) :
      Goes stray s .respond { s with exchange := x, sent := s.sent ++ [res] }
  | release {x : Exchange B} (hpoint : s.point = .draining)
      (hx : s.exchange.step stray .release = some x) : Goes stray s .release { s with exchange := x }
  | elsewhere {a : ExchangeAction} {x : Exchange B} (ha : a.elsewhere = true)
      (hx : s.exchange.step stray a = some x) : Goes stray s (.elsewhere a) { s with exchange := x }

section steps

variable {B : Build} {stray : Ticker → ℕ → Qty} {listenerSocket : SocketPtr}
  {s s' : ServerThread B} {x x' : Exchange B} {a : ThreadAction} {actions : List ThreadAction}

/-- **`step` taken apart.** -/
theorem ServerThread.step_ok (h : s.step stray a = some s') : Goes stray s a s' := by
  cases a with
  | poll events accepted =>
    simp only [ServerThread.step] at h
    split at h
    · cases h
      exact .poll ‹_›
    · cases h
  | sendAndRecv o =>
    simp only [ServerThread.step] at h
    split at h
    · obtain ⟨x, hx, rfl⟩ := Option.map_eq_some_iff.mp h
      exact .receive ‹_› hx
    · obtain ⟨x, hx, rfl⟩ := Option.map_eq_some_iff.mp h
      exact .transmit ‹_› hx
    · cases h
  | rxDone sorted =>
    simp only [ServerThread.step] at h
    split at h
    · obtain ⟨x, hx, rfl⟩ := Option.map_eq_some_iff.mp h
      exact .rxDone ‹_› hx
    · cases h
  | publish =>
    simp only [ServerThread.step] at h
    split at h
    · obtain ⟨x, hx, rfl⟩ := Option.map_eq_some_iff.mp h
      exact .publish ‹_› hx
    · cases h
  | next =>
    simp only [ServerThread.step] at h
    split at h
    · cases h
      exact .pass ‹_›
    · cases h
      exact .enter ‹_›
    · split at h
      · rename_i hpoint hempty
        cases h
        exact .leave hpoint hempty.1 hempty.2
      · cases h
    · cases h
  | respond =>
    simp only [ServerThread.step] at h
    split at h
    · obtain ⟨x, hx, rfl⟩ := Option.map_eq_some_iff.mp h
      exact .respond ‹_› ‹_› hx
    · cases h
  | release =>
    simp only [ServerThread.step] at h
    split at h
    · obtain ⟨x, hx, rfl⟩ := Option.map_eq_some_iff.mp h
      exact .release ‹_› hx
    · cases h
  | elsewhere a =>
    simp only [ServerThread.step] at h
    split at h
    · obtain ⟨x, hx, rfl⟩ := Option.map_eq_some_iff.mp h
      exact .elsewhere ‹_› hx
    · cases h

/-- A step does to the exchange what one of its threads does, or nothing. The other threads go on
only where a step is theirs. -/
theorem Goes.exchange (h : Goes stray s a s') :
    s'.exchange = s.exchange ∨ ∃ b, s.exchange.step stray b = some s'.exchange ∧
      (b.elsewhere = true → a = .elsewhere b) := by
  cases h with
  | poll | pass | enter | leave => exact .inl rfl
  | receive hpoint hx => exact .inr ⟨_, hx, nofun⟩
  | transmit hpoint hx => exact .inr ⟨_, hx, nofun⟩
  | rxDone hpoint hx => exact .inr ⟨_, hx, nofun⟩
  | publish hpoint hx => exact .inr ⟨_, hx, nofun⟩
  | respond hpoint hhead hx => exact .inr ⟨_, hx, nofun⟩
  | release hpoint hx => exact .inr ⟨_, hx, nofun⟩
  | elsewhere ha hx => exact .inr ⟨_, hx, fun _ => rfl⟩

/-- **The exchange of a thread's run** is one that a run of the exchange reaches. -/
theorem ThreadRuns.exchange (h : ThreadRuns stray listenerSocket actions s) :
    ∃ moves, ExchangeRuns stray moves s.exchange := by
  refine (runsOf_thread B stray listenerSocket).induction
    (P := fun _ s => ∃ moves, ExchangeRuns stray moves s.exchange) ⟨[], rfl⟩ ?_ h
  rintro actions a s s' - ⟨moves, hmoves⟩ hstep
  rcases (ServerThread.step_ok hstep).exchange with hsame | ⟨b, hb, -⟩
  · rw [hsame]
    exact ⟨moves, hmoves⟩
  · exact ⟨moves ++ [b], (runsOf_exchange B stray).concat.mpr ⟨_, hmoves, hb⟩⟩

/-- The engine and the publisher leave the gateway alone. -/
theorem Moves.elsewhere {a : ExchangeAction} (h : Moves stray x a x') (ha : a.elsewhere = true) :
    x'.gateway = x.gateway ∧ x'.phase = x.phase := by
  cases h with
  | takeRequest => exact ⟨rfl, rfl⟩
  | emit => exact ⟨rfl, rfl⟩
  | popUpdate => exact ⟨rfl, rfl⟩
  | _ => cases ha

end steps

/-! ## What the sockets hold -/

/-- The sockets in a server's lists. -/
def TCPServer.listed (server : TCPServer) : List SocketPtr :=
  server.receiveSockets ++ server.sendSockets

/-- The sockets whose turn is still to come before responses are drained again. -/
def RunPoint.left (server : TCPServer) : RunPoint → List SocketPtr
  | .polling => server.listed
  | .receiving sockets _ => sockets ++ server.sendSockets
  | .publishing => server.sendSockets
  | .sending sockets => sockets
  | .draining => []

/-- The gateway's phases at a point. -/
def RunPoint.Allows : RunPoint → GatewayPhase → Prop
  | .publishing, _ => True
  | .draining, phase => phase = .polling ∨ phase = .releasing
  | _, phase => phase = .polling

/-- The outbound data of a socket. -/
def ServerThread.outbound {B : Build} (s : ServerThread B) (socket : SocketPtr) : List UInt8 :=
  (s.exchange.gateway.sockets socket).outboundData

/-- The rounds of the thread: clients are bound to sockets in the lists, of which each has its turn
before responses are drained. -/
structure Rounds {B : Build} (s : ServerThread B) : Prop where
  phase : s.point.Allows s.exchange.phase
  bound : ∀ c socket, s.exchange.gateway.mapClientToSocket c = some socket →
    socket ∈ s.server.listed
  left : ∀ socket ∈ s.point.left s.server, socket ∈ s.server.listed
  pending : s.point ≠ .draining → ∀ socket, s.outbound socket ≠ [] →
    socket ∈ s.point.left s.server
  sent : s.point = .draining → ∀ socket, (s.outbound socket).length =
    sizeofOGSClientResponse * s.exchange.gateway.countTo socket s.sent
  fits : ∀ socket, (s.outbound socket).length ≤ tcpBufferSize

section rounds

variable {B : Build} {stray : Ticker → ℕ → Qty} {listenerSocket socket : SocketPtr}
  {server : TCPServer} {events : List PollEvent} {accepted : List SocketPtr}
  {g g' : OrderGatewayServer B} {res : OMEClientResponse} {o : Outcome} {x : Exchange B}
  {s s' : ServerThread B} {point : RunPoint} {a : ThreadAction} {actions : List ThreadAction}

/-- `poll` takes no socket from a list. -/
theorem TCPServer.listed_poll (h : socket ∈ server.listed) :
    socket ∈ (server.poll events accepted).listed := by
  have hadd : ∀ (new sockets : List SocketPtr), socket ∈ sockets →
      socket ∈ new.foldl addSocket sockets := by
    intro new
    induction new with
    | nil => exact fun _ hmem => hmem
    | cons q new ih => exact fun _ hmem => ih _ (mem_addSocket.mpr (.inl hmem))
  obtain ⟨server', hfold, hhears⟩ := handleEvents_hears events server false
  have hpoll : server.poll events accepted =
      if (false || events.any (Announces server.listenerSocket)) = true then
        { server' with receiveSockets := accepted.foldl addSocket server'.receiveSockets }
      else server' := by
    simp only [poll, hfold]
  have hlisted : socket ∈ server'.receiveSockets ∨ socket ∈ server'.sendSockets := by
    rcases List.mem_append.mp h with hreceive | hsend
    · exact .inl ((hhears.mem_receive socket).mpr (.inl hreceive))
    · exact .inr ((hhears.mem_send socket).mpr (.inl hsend))
  rw [hpoll]
  split
  · exact List.mem_append.mpr (hlisted.imp_left (hadd accepted _))
  · exact List.mem_append.mpr hlisted

/-- A call of `sendAndRecv` binds clients to its own socket only. -/
theorem mapClientToSocket_sendAndRecv {received : Bool} {c : ClientID} {socket' : SocketPtr}
    (h : g.sendAndRecv socket o = .ok (received, g'))
    (hc : g'.mapClientToSocket c = some socket') :
    g.mapClientToSocket c = some socket' ∨ socket' = socket := by
  have hgate := (sendAndRecv_ok h).1.gate
  have howner : (gateAfter g.gate (completed (g.sockets socket).inboundData socket o)).owner c =
      some socket' := by
    rw [← hgate]
    exact hc
  rcases SequenceGate.Gate.source_of_owner_afterAll howner with hold | ⟨y, hy, hsource⟩
  · exact .inl hold
  · right
    unfold completed at hy
    split at hy
    · cases hy
    · obtain ⟨bs, -, rfl⟩ := List.mem_map.mp hy
      exact hsource.symm

/-- It empties the socket's outbound buffer, and no other. -/
theorem outboundData_sendAndRecv {received : Bool}
    (h : g.sendAndRecv socket o = .ok (received, g')) (socket' : SocketPtr) :
    (g'.sockets socket').outboundData =
      if socket' = socket then [] else (g.sockets socket').outboundData := by
  rw [(sendAndRecv_ok h).2.2, Function.update_apply]
  split <;> rfl

/-- What has been sent has found room. -/
theorem outboundData_sendResponse_le (h : g.sendResponse res = .ok g')
    (hle : ∀ socket, (g.sockets socket).outboundData.length ≤ tcpBufferSize)
    (socket : SocketPtr) : (g'.sockets socket).outboundData.length ≤ tcpBufferSize := by
  obtain ⟨-, socket', s, -, hsend, rfl⟩ := sendResponse_ok h
  show (Function.update g.sockets socket' s socket).outboundData.length ≤ _
  rw [Function.update_apply]
  split
  · obtain ⟨s₁, -, hlast⟩ := Option.bind_eq_some_iff.mp hsend
    unfold TCPSocket.send at hlast
    split at hlast
    · rename_i hroom
      cases hlast
      rw [List.length_append]
      exact hroom
    · cases hlast
  · exact hle socket

theorem rounds_create (B : Build) (listenerSocket : SocketPtr) :
    Rounds (ServerThread.create B listenerSocket) where
  phase := rfl
  bound _ _ hsocket := nomatch hsocket
  left _ hsocket := hsocket
  pending _ _ hne := absurd rfl hne
  sent hpoint := nomatch hpoint
  fits _ := Nat.zero_le _

namespace Rounds

/-- The thread goes on to where the same sockets are left. -/
theorem goOn (h : Rounds s) (hsockets : x.gateway.sockets = s.exchange.gateway.sockets)
    (hmap : x.gateway.mapClientToSocket = s.exchange.gateway.mapClientToSocket)
    (hfrom : s.point ≠ .draining) (hto : point ≠ .draining) (hphase : point.Allows x.phase)
    (hleft : point.left s.server = s.point.left s.server) :
    Rounds { s with exchange := x, point := point } := by
  have hout : ∀ socket,
      ({ s with exchange := x, point := point } : ServerThread B).outbound socket =
        s.outbound socket := by
    intro socket
    rw [ServerThread.outbound, ServerThread.outbound, hsockets]
  constructor
  · exact hphase
  · intro c socket hc
    rw [hmap] at hc
    exact h.bound c socket hc
  · intro socket hsocket
    rw [hleft] at hsocket
    exact h.left socket hsocket
  · intro _ socket hne
    rw [hout] at hne
    rw [hleft]
    exact h.pending hfrom socket hne
  · exact fun hdraining => absurd hdraining hto
  · intro socket
    rw [hout]
    exact h.fits socket

/-- The next socket has its turn. -/
theorem sendAndRecv (h : Rounds s)
    (hmoves : Moves stray s.exchange (.sendAndRecv socket o) x) (hfrom : s.point ≠ .draining)
    (hto : point ≠ .draining) (hphase : point.Allows .polling)
    (hleft : s.point.left s.server = socket :: point.left s.server) :
    Rounds { s with exchange := x, point := point } := by
  cases hmoves with
  | @sendAndRecv _ _ received g hpolling hcall =>
    have hout := outboundData_sendAndRecv hcall
    constructor
    · rw [hpolling]
      exact hphase
    · intro c socket' hc
      rcases mapClientToSocket_sendAndRecv hcall hc with hold | rfl
      · exact h.bound c socket' hold
      · apply h.left
        rw [hleft]
        exact List.mem_cons_self
    · intro socket' hsocket'
      apply h.left
      rw [hleft]
      exact List.mem_cons_of_mem _ hsocket'
    · intro _ socket' hne
      change (g.sockets socket').outboundData ≠ [] at hne
      rw [hout] at hne
      split at hne
      · exact absurd rfl hne
      · rename_i hother
        have hmem := h.pending hfrom socket' hne
        rw [hleft] at hmem
        exact List.mem_of_ne_of_mem hother hmem
    · exact fun hdraining => absurd hdraining hto
    · intro socket'
      show (g.sockets socket').outboundData.length ≤ _
      rw [hout]
      split
      · exact Nat.zero_le _
      · exact h.fits socket'

/-- The first response is sent to its client's socket. -/
theorem respond {rest : List OMEClientResponse} (h : Rounds s) (hpoint : s.point = .draining)
    (hhead : s.exchange.outputs.txResponses.items = res :: rest)
    (hmoves : Moves stray s.exchange .respond x) :
    Rounds { s with exchange := x, sent := s.sent ++ [res] } := by
  cases hmoves with
  | @respond res' rest' g hphase hhead' hcall =>
    obtain ⟨rfl, rfl⟩ := List.cons.inj (hhead'.symm.trans hhead)
    obtain ⟨-, socket, -, hsocket, -, -⟩ := sendResponse_ok hcall
    have hroom := room_sendResponse hsocket hcall
    have hmap := (hroom socket).1
    constructor
    · rw [hpoint]
      exact .inr rfl
    · intro c socket' hc
      rw [hmap] at hc
      exact h.bound c socket' hc
    · exact h.left
    · exact fun hne => absurd hpoint hne
    · intro _ socket'
      show (g.sockets socket').outboundData.length = _ * g.countTo socket' (s.sent ++ [res'])
      have hbefore := h.sent hpoint socket'
      unfold ServerThread.outbound at hbefore
      have hcount : g.countTo socket' (s.sent ++ [res']) =
          s.exchange.gateway.countTo socket' s.sent + if socket = socket' then 1 else 0 := by
        rw [OrderGatewayServer.countTo, OrderGatewayServer.countTo, List.countP_append, hmap]
        by_cases hss : socket = socket' <;> simp [hsocket, hss]
      rw [(hroom socket').2, hbefore, hcount, Nat.mul_add]
      split <;> simp
    · exact outboundData_sendResponse_le hcall h.fits

/-- Another step that leaves the gateway as it is, while responses are drained or elsewhere. -/
theorem stay (h : Rounds s) (hgateway : x.gateway = s.exchange.gateway)
    (hphase : s.point.Allows x.phase) : Rounds { s with exchange := x } := by
  have hout : ∀ socket, ({ s with exchange := x } : ServerThread B).outbound socket =
      s.outbound socket := by
    intro socket
    rw [ServerThread.outbound, ServerThread.outbound, hgateway]
  constructor
  · exact hphase
  · intro c socket hc
    rw [hgateway] at hc
    exact h.bound c socket hc
  · exact h.left
  · intro hpoint socket hne
    rw [hout] at hne
    exact h.pending hpoint socket hne
  · intro hpoint socket
    rw [hout, hgateway]
    exact h.sent hpoint socket
  · intro socket
    rw [hout]
    exact h.fits socket

/-- The sockets of the lists are all still to come after `poll`. -/
theorem poll (h : Rounds s) (hpoint : s.point = .polling) :
    Rounds { s with
      server := s.server.poll events accepted
      point := .receiving (s.server.poll events accepted).receiveSockets false } := by
  have hphase := h.phase
  rw [hpoint] at hphase
  constructor
  · exact hphase
  · exact fun c socket hc => TCPServer.listed_poll (h.bound c socket hc)
  · exact fun socket hsocket => hsocket
  · intro _ socket hne
    have hmem := h.pending (by simp [hpoint]) socket hne
    rw [hpoint] at hmem
    exact TCPServer.listed_poll hmem
  · exact fun hdraining => nomatch hdraining
  · exact h.fits

/-- No socket holds data when a draining begins. -/
theorem enter (h : Rounds s) (hpoint : s.point = .sending []) :
    Rounds { s with point := .draining, sent := [] } := by
  have hphase := h.phase
  rw [hpoint] at hphase
  have hempty : ∀ socket, s.outbound socket = [] := by
    intro socket
    by_contra hne
    have hmem := h.pending (by simp [hpoint]) socket hne
    rw [hpoint] at hmem
    cases hmem
  constructor
  · exact .inl hphase
  · exact h.bound
  · exact fun _ hnil => absurd hnil List.not_mem_nil
  · exact fun hne => absurd rfl hne
  · intro _ socket
    show (s.outbound socket).length = _
    rw [hempty socket]
    rfl
  · exact h.fits

/-- Only clients' sockets hold data when it ends. -/
theorem leave (h : Rounds s) (hpoint : s.point = .draining)
    (hpolling : s.exchange.phase = .polling) : Rounds { s with point := .polling } := by
  constructor
  · exact hpolling
  · exact h.bound
  · exact fun _ hsocket => hsocket
  · intro _ socket hne
    have hlength := h.sent hpoint socket
    have hcount : s.exchange.gateway.countTo socket s.sent ≠ 0 := by
      intro hzero
      rw [hzero, Nat.mul_zero] at hlength
      exact hne (List.length_eq_zero_iff.mp hlength)
    obtain ⟨r, -, hr⟩ := List.countP_pos_iff.mp (Nat.pos_of_ne_zero hcount)
    exact h.bound _ socket (of_decide_eq_true hr)
  · exact fun hdraining => nomatch hdraining
  · exact h.fits

/-- **A step keeps the rounds.** -/
theorem step (h : Rounds s) (hg : Goes stray s a s') : Rounds s' := by
  have hphase := h.phase
  cases hg with
  | poll hpoint => exact h.poll hpoint
  | @receive socket sockets recv o x hpoint hx =>
    rw [hpoint] at hphase
    exact h.sendAndRecv (Exchange.step_ok hx) (by simp [hpoint]) (by simp) rfl
      (by rw [hpoint]; rfl)
  | @transmit socket sockets o x hpoint hx =>
    exact h.sendAndRecv (Exchange.step_ok hx) (by simp [hpoint]) (by simp) rfl
      (by rw [hpoint]; rfl)
  | @rxDone sorted x hpoint hx =>
    cases Exchange.step_ok hx with
    | rxDone => exact h.goOn rfl rfl (by simp [hpoint]) (by simp) trivial (by rw [hpoint]; rfl)
  | @publish x hpoint hx =>
    cases Exchange.step_ok hx with
    | push =>
      exact h.goOn rfl rfl (by simp [hpoint]) (by simp) trivial (by rw [hpoint]; rfl)
    | leave => exact h.goOn rfl rfl (by simp [hpoint]) (by simp) rfl (by rw [hpoint]; rfl)
  | pass hpoint =>
    rw [hpoint] at hphase
    exact h.goOn rfl rfl (by simp [hpoint]) (by simp) hphase (by rw [hpoint]; rfl)
  | enter hpoint => exact h.enter hpoint
  | leave hpoint hpolling hempty => exact h.leave hpoint hpolling
  | respond hpoint hhead hx => exact h.respond hpoint hhead (Exchange.step_ok hx)
  | release hpoint hx =>
    cases Exchange.step_ok hx with
    | release =>
      apply h.stay
      · rfl
      · rw [hpoint]
        exact .inl rfl
  | elsewhere ha hx =>
    obtain ⟨hgateway, hsame⟩ := (Exchange.step_ok hx).elsewhere ha
    apply h.stay hgateway
    rw [hsame]
    exact hphase

/-- **What the sockets hold in a run.** -/
theorem of_runs (h : ThreadRuns stray listenerSocket actions s) : Rounds s := by
  refine (runsOf_thread B stray listenerSocket).induction (P := fun _ s => Rounds s)
    (rounds_create B listenerSocket) ?_ h
  intro actions a s s' _ hs hstep
  exact hs.step (ServerThread.step_ok hstep)

end Rounds

end rounds

/-! ## The sends of a draining -/

namespace ServerThread

variable {B : Build} {stray : Ticker → ℕ → Qty} {listenerSocket : SocketPtr}
  {s s' : ServerThread B} {res : OMEClientResponse} {a : ThreadAction}
  {actions : List ThreadAction}

/-- The thread once it has sent the first response and released it. -/
def afterSending (s : ServerThread B) (g : OrderGatewayServer B) (res : OMEClientResponse) :
    ServerThread B :=
  { s with
    exchange := { s.exchange with
      gateway := g
      phase := .polling
      outputs := s.exchange.outputs.act .popResponse }
    sent := s.sent ++ [res] }

theorem AboutToSend.items (h : s.AboutToSend res) :
    ∃ rest, s.exchange.outputs.txResponses.items = res :: rest :=
  List.head?_eq_some_iff.mp h.head

/-- The response just sent can be released. -/
theorem step_release (stray : Ticker → ℕ → Qty) (hpoint : s.point = .draining)
    (hphase : s.exchange.phase = .releasing) :
    s.step stray .release = some { s with
      exchange := { s.exchange with
        phase := .polling, outputs := s.exchange.outputs.act .popResponse } } := by
  have hexchange : s.exchange.step stray .release = some { s.exchange with
      phase := .polling, outputs := s.exchange.outputs.act .popResponse } := if_pos hphase
  show (if s.point = .draining then _ else none) = _
  rw [if_pos hpoint, hexchange]
  rfl

/-- **A response that finds room is sent and released.** -/
theorem AboutToSend.send (h : s.AboutToSend res) (hruns : ThreadRuns stray listenerSocket actions s)
    (hroom : s.FindsRoom) :
    ∃ g, s.exchange.gateway.sendResponse res = .ok g ∧
      [.respond, .release].foldlM (step stray) s = some (s.afterSending g res) := by
  obtain ⟨rest, hitems⟩ := h.items
  obtain ⟨moves, hmoves⟩ := hruns.exchange
  have hfault := (responses_addressed hmoves res (by simp [hitems])).2
  cases hcall : s.exchange.gateway.sendResponse res with
  | error fault => exact absurd (hfault fault hcall ▸ hcall) (hroom res h)
  | ok g =>
    refine ⟨g, rfl, ?_⟩
    have hrespond : s.exchange.step stray .respond =
        some { s.exchange with gateway := g, phase := .releasing } := by
      simp only [Exchange.step, h.phase, hitems, hcall]
      rfl
    have hfirst : s.step stray .respond = some { s with
        exchange := { s.exchange with gateway := g, phase := .releasing }
        sent := s.sent ++ [res] } := by
      simp only [step, h.point, hitems, hrespond, Option.map_some]
    have hsecond := step_release (s := { s with
        exchange := { s.exchange with gateway := g, phase := .releasing }
        sent := s.sent ++ [res] }) stray h.point rfl
    rw [List.foldlM_cons, hfirst]
    exact congrArg (· >>= pure) hsecond

/-- **A response finds room** when what is offered fits. -/
theorem OffersFit.findsRoom (h : s.OffersFit)
    (hruns : ThreadRuns stray listenerSocket actions s) : s.FindsRoom := by
  intro res habout hoverflow
  obtain ⟨rest, hitems⟩ := habout.items
  obtain ⟨moves, hmoves⟩ := hruns.exchange
  obtain ⟨es, hes⟩ := hmoves.gateway
  obtain ⟨socket, hsocket⟩ := Option.ne_none_iff_exists'.mp
    (responses_addressed hmoves res (by simp [hitems])).1
  have hheld := (Rounds.of_runs hruns).sent habout.point socket
  have hoffers := h habout.point socket
  have hwaiting : s.waiting = res :: rest := by
    rw [waiting, if_neg (by simp [habout.phase]), hitems]
  have hcount : s.exchange.gateway.countTo socket s.sent + 1 ≤
      s.exchange.gateway.countTo socket (s.sent ++ s.waiting) := by
    rw [hwaiting, OrderGatewayServer.countTo, OrderGatewayServer.countTo, List.countP_append,
      List.countP_cons_of_pos (by simpa using hsocket)]
    omega
  have hmul := Nat.mul_le_mul_left sizeofOGSClientResponse hcount
  rw [Nat.mul_add, Nat.mul_one, ← hheld] at hmul
  obtain ⟨g, hok⟩ := exists_sendResponse (hes.consistent.clientId_lt hsocket) hsocket
    (hmul.trans hoffers)
  rw [hok] at hoverflow
  cases hoverflow

/-- A step of a draining offers nothing new. -/
theorem OffersFit.drains (h : s.OffersFit) (hg : Goes stray s a s') (ha : a.drains = true) :
    s'.OffersFit := by
  cases hg with
  | @respond res rest x hpoint hhead hx =>
    cases Exchange.step_ok hx with
    | @respond res' rest' g hphase hhead' hcall =>
      obtain ⟨-, socket, -, hsocket, -, -⟩ := sendResponse_ok hcall
      have hmap := (room_sendResponse hsocket hcall socket).1
      have hoffered : s.sent ++ s.waiting = (s.sent ++ [res]) ++ rest := by
        rw [waiting, if_neg (by simp [hphase]), hhead, List.append_assoc, List.singleton_append]
      intro _ socket'
      have hbefore := h hpoint socket'
      rw [hoffered, OrderGatewayServer.countTo, ← hmap] at hbefore
      simp only [waiting, if_true, hhead, List.tail_cons]
      exact hbefore
  | release hpoint hx =>
    cases Exchange.step_ok hx with
    | release hphase =>
      intro _ socket
      have hbefore := h hpoint socket
      rw [waiting, if_pos hphase] at hbefore
      exact hbefore
  | _ => cases ha

/-- So does all of a draining that the thread still goes through. -/
theorem OffersFit.sendsFit (h : s.OffersFit)
    (hruns : ThreadRuns stray listenerSocket actions s) : s.SendsFit stray := by
  intro more
  induction more generalizing s actions with
  | nil =>
    rintro s' - hmore
    cases hmore
    exact h.findsRoom hruns
  | cons a more ih =>
    intro s' hdrains hmore
    obtain ⟨ha, hrest⟩ := List.forall_mem_cons.mp hdrains
    rw [List.foldlM_cons] at hmore
    obtain ⟨s₁, hstep, hmore⟩ := Option.bind_eq_some_iff.mp hmore
    exact ih (h.drains (step_ok hstep) ha)
      ((runsOf_thread B stray listenerSocket).concat.mpr ⟨s, hruns, hstep⟩) s' hrest hmore

/-- The runs go on. -/
theorem runs_append {more : List ThreadAction} (h : ThreadRuns stray listenerSocket actions s)
    (hmore : more.foldlM (step stray) s = some s') :
    ThreadRuns stray listenerSocket (actions ++ more) s' := by
  rw [ThreadRuns, List.foldlM_append, h]
  exact hmore

theorem SendsFit.findsRoom (h : s.SendsFit stray) : s.FindsRoom :=
  h [] s (List.forall_mem_nil _) rfl

theorem SendsFit.after {pre : List ThreadAction} (h : s.SendsFit stray)
    (hdrains : ∀ a ∈ pre, a.drains = true) (hpre : pre.foldlM (step stray) s = some s') :
    s'.SendsFit stray := by
  intro more s'' hmore hfold
  apply h (pre ++ more) s'' (List.forall_mem_append.mpr ⟨hdrains, hmore⟩)
  rw [List.foldlM_append, hpre]
  exact hfold

/-- All that waits is sent, if every response finds room. -/
theorem SendsFit.exists_drained (h : s.SendsFit stray)
    (hruns : ThreadRuns stray listenerSocket actions s) (hpoint : s.point = .draining)
    (hphase : s.exchange.phase = .polling) :
    ∃ (more : List ThreadAction) (s' : ServerThread B),
      ThreadRuns stray listenerSocket (actions ++ more) s' ∧ s'.point = .draining ∧
      s'.sent = s.sent ++ s.exchange.outputs.txResponses.items ∧
      s'.exchange.gateway.mapClientToSocket = s.exchange.gateway.mapClientToSocket := by
  generalize hitems : s.exchange.outputs.txResponses.items = items
  induction items generalizing s actions with
  | nil =>
    rw [List.append_nil]
    exact ⟨[], s, (List.append_nil actions).symm ▸ hruns, hpoint, rfl, rfl⟩
  | cons res rest ih =>
    have habout : s.AboutToSend res := ⟨hpoint, hphase, by rw [hitems]; rfl⟩
    obtain ⟨g, hcall, hsend⟩ := habout.send hruns h.findsRoom
    obtain ⟨-, socket, -, hsocket, -, -⟩ := sendResponse_ok hcall
    have hitems' : (s.afterSending g res).exchange.outputs.txResponses.items = rest := by
      show s.exchange.outputs.txResponses.items.tail = rest
      rw [hitems, List.tail_cons]
    obtain ⟨more, s', hmore, hpoint', hsent, hmap⟩ :=
      ih (s := s.afterSending g res) (h.after (by decide) hsend) (runs_append hruns hsend) hpoint rfl
        hitems'
    refine ⟨[.respond, .release] ++ more, s', ?_, hpoint', ?_, ?_⟩
    · rw [← List.append_assoc]
      exact hmore
    · rw [hsent]
      exact List.append_assoc ..
    · rw [hmap]
      exact (room_sendResponse hsocket hcall socket).1

/-- What is offered fits if every response finds room, once none is being released. -/
theorem SendsFit.offered_le (h : s.SendsFit stray)
    (hruns : ThreadRuns stray listenerSocket actions s) (hpoint : s.point = .draining)
    (hphase : s.exchange.phase = .polling) (socket : SocketPtr) :
    sizeofOGSClientResponse * s.exchange.gateway.countTo socket
      (s.sent ++ s.exchange.outputs.txResponses.items) ≤ tcpBufferSize := by
  obtain ⟨more, s', hmore, hpoint', hsent, hmap⟩ := h.exists_drained hruns hpoint hphase
  have hrounds := Rounds.of_runs hmore
  have hfits := hrounds.fits socket
  rw [hrounds.sent hpoint' socket, hsent, OrderGatewayServer.countTo, hmap] at hfits
  exact hfits

/-- What is offered fits, if every response finds room. -/
theorem SendsFit.offersFit (h : s.SendsFit stray)
    (hruns : ThreadRuns stray listenerSocket actions s) : s.OffersFit := by
  intro hpoint socket
  have hphase := (Rounds.of_runs hruns).phase
  rw [hpoint] at hphase
  rcases hphase with hphase | hphase
  · rw [waiting, if_neg (by simp [hphase])]
    exact h.offered_le hruns hpoint hphase socket
  · -- the response just sent is released first
    have hrelease : [ThreadAction.release].foldlM (step stray) s = some _ :=
      congrArg (· >>= pure) (step_release stray hpoint hphase)
    rw [waiting, if_pos hphase]
    exact (h.after (by decide) hrelease).offered_le (runs_append hruns hrelease) hpoint rfl socket

end ServerThread

/-- **The sends fit as long as the offers do**: in a run, every response that is about to be sent,
or would be as the draining it belongs to goes on, finds room in its socket's outbound buffer,
exactly when the responses offered to no draining take more room on a socket than there is. -/
theorem sends_fit_iff {B : Build} (stray : Ticker → ℕ → Qty) (listenerSocket : SocketPtr)
    (actions : List ThreadAction) :
    Runs.Throughout (ThreadRuns (B := B) stray listenerSocket) (ServerThread.SendsFit stray) actions ↔
      Runs.Throughout (ThreadRuns (B := B) stray listenerSocket) ServerThread.OffersFit actions := by
  constructor
  · intro h pre post s heq hruns
    exact (h pre post s heq hruns).offersFit hruns
  · intro h pre post s heq hruns
    exact (h pre post s heq hruns).sendsFit hruns

/-! ## A buffer that overflows -/

section flood

variable {B : Build} {stray : Ticker → ℕ → Qty} {listenerSocket : SocketPtr}
  {x x' : Exchange B} {s s' : ServerThread B} {a : ThreadAction} {actions : List ThreadAction}
  {calls : List Emission}

/-- The engine changes when it takes a request, and only then. -/
theorem Moves.engine_eq {a : ExchangeAction} (h : Moves stray x a x') (ha : a ≠ .takeRequest) :
    x'.engine = x.engine := by
  cases h with
  | takeRequest => exact absurd rfl ha
  | _ => rfl

theorem Goes.engine_eq (h : Goes stray s a s') (ha : a ≠ .elsewhere .takeRequest) :
    s'.exchange.engine = s.exchange.engine := by
  rcases h.exchange with hsame | ⟨b, hb, helsewhere⟩
  · rw [hsame]
  · apply (Exchange.step_ok hb).engine_eq
    rintro rfl
    exact ha (helsewhere rfl)

/-- An engine that has taken no request is as it was. -/
theorem ThreadRuns.engine_eq (h : ThreadRuns stray listenerSocket actions s)
    (hnone : ThreadAction.elsewhere .takeRequest ∉ actions) :
    s.exchange.engine = .create B := by
  refine (runsOf_thread B stray listenerSocket).induction
    (P := fun actions s => ThreadAction.elsewhere .takeRequest ∉ actions →
      s.exchange.engine = .create B) (fun _ => rfl) ?_ h hnone
  intro actions a s s' _ ih hstep hnone
  rw [List.mem_append, List.mem_singleton, not_or] at hnone
  rw [(ServerThread.step_ok hstep).engine_eq (Ne.symm hnone.2)]
  exact ih hnone.1

/-- The thread has found the queue empty, and the engine is still to make some calls. -/
structure CaughtUp (s : ServerThread B) (calls : List Emission) : Prop where
  point : s.point = .draining
  phase : s.exchange.phase = .polling
  items : s.exchange.outputs.txResponses.items = []
  capacity : 0 < s.exchange.outputs.txResponses.capacity
  emitting : s.exchange.emitting = calls

/-- From `s` to `s'`, responses have been sent, and nothing else has happened to the engine, its
requests and the clients' sockets. -/
structure Sends (s s' : ServerThread B) (responses : List OMEClientResponse) : Prop where
  engine : s'.exchange.engine = s.exchange.engine
  rxRequests : s'.exchange.rxRequests = s.exchange.rxRequests
  sockets : s'.exchange.gateway.mapClientToSocket = s.exchange.gateway.mapClientToSocket
  sent : s'.sent = s.sent ++ responses

theorem Sends.trans {s₁ : ServerThread B} {rs rs' : List OMEClientResponse} (h : Sends s s₁ rs)
    (h' : Sends s₁ s' rs') : Sends s s' (rs ++ rs') where
  engine := h'.engine.trans h.engine
  rxRequests := h'.rxRequests.trans h.rxRequests
  sockets := h'.sockets.trans h.sockets
  sent := by rw [h'.sent, h.sent, List.append_assoc]

/-- The engine makes a call, and the thread keeps up with it. -/
theorem CaughtUp.call {c : Emission} (h : CaughtUp s (c :: calls))
    (hruns : ThreadRuns stray listenerSocket actions s)
    (hroom : ∀ (actions : List ThreadAction) (s : ServerThread B),
      ThreadRuns stray listenerSocket actions s → s.FindsRoom) :
    ∃ (more : List ThreadAction) (s' : ServerThread B),
      ThreadRuns stray listenerSocket (actions ++ more) s' ∧ CaughtUp s' calls ∧
        Sends s s' (responsesOf [c]) := by
  have hemit : s.step stray (.elsewhere .emit) = some { s with
      exchange := { s.exchange with
        emitting := calls, outputs := s.exchange.outputs.act (.call c) } } := by
    simp only [ServerThread.step, Exchange.step, h.emitting, ExchangeAction.elsewhere, if_true,
      Option.map_some]
  set s₁ : ServerThread B := { s with
    exchange := { s.exchange with
      emitting := calls, outputs := s.exchange.outputs.act (.call c) } } with hs₁
  have hruns₁ : ThreadRuns stray listenerSocket (actions ++ [.elsewhere .emit]) s₁ :=
    (runsOf_thread B stray listenerSocket).concat.mpr ⟨s, hruns, hemit⟩
  cases c with
  | update u =>
    exact ⟨[.elsewhere .emit], s₁, hruns₁, ⟨h.point, h.phase, h.items, h.capacity, rfl⟩,
      ⟨rfl, rfl, rfl, (List.append_nil _).symm⟩⟩
  | response res =>
    have hitems : s₁.exchange.outputs.txResponses.items = [res] := by
      show (s.exchange.outputs.txResponses.push res).items = _
      rw [Fifo.Queue.items_push (by rw [h.items]; exact h.capacity), h.items, List.nil_append]
    have habout : s₁.AboutToSend res := ⟨h.point, h.phase, by rw [hitems]; rfl⟩
    obtain ⟨g, hcall, hsend⟩ := habout.send hruns₁ (hroom _ _ hruns₁)
    obtain ⟨-, socket, -, hsocket, -, -⟩ := sendResponse_ok hcall
    refine ⟨[.elsewhere .emit] ++ [.respond, .release], s₁.afterSending g res, ?_,
      ⟨h.point, rfl, ?_, ?_, rfl⟩, ⟨rfl, rfl, ?_, rfl⟩⟩
    · rw [← List.append_assoc]
      exact ServerThread.runs_append hruns₁ hsend
    · show s₁.exchange.outputs.txResponses.items.tail = []
      rw [hitems, List.tail_cons]
    · show 0 < (s.exchange.outputs.txResponses.push res).capacity
      rw [Fifo.Queue.capacity_push]
      exact h.capacity
    · exact (room_sendResponse hsocket hcall socket).1

/-- **The thread keeps up with the engine**: all responses to a request are sent in one draining. -/
theorem CaughtUp.all_calls (h : CaughtUp s calls) (hruns : ThreadRuns stray listenerSocket actions s)
    (hroom : ∀ (actions : List ThreadAction) (s : ServerThread B),
      ThreadRuns stray listenerSocket actions s → s.FindsRoom) :
    ∃ (more : List ThreadAction) (s' : ServerThread B),
      ThreadRuns stray listenerSocket (actions ++ more) s' ∧ CaughtUp s' [] ∧
        Sends s s' (responsesOf calls) := by
  induction calls generalizing s actions with
  | nil =>
    exact ⟨[], s, (List.append_nil actions).symm ▸ hruns, h,
      ⟨rfl, rfl, rfl, (List.append_nil _).symm⟩⟩
  | cons c calls ih =>
    obtain ⟨more, s₁, hruns₁, h₁, hsends⟩ := h.call hruns hroom
    obtain ⟨more', s', hruns', h', hsends'⟩ := ih h₁ hruns₁
    refine ⟨more ++ more', s', ?_, h', ?_⟩
    · rw [← List.append_assoc]
      exact hruns'
    · rw [← List.singleton_append, responsesOf_append]
      exact hsends.trans hsends'

/-- The engine takes the next request. -/
theorem CaughtUp.takeRequest {r : OMEClientRequest} {rest : List OMEClientRequest}
    {e : MatchingEngine B} (h : CaughtUp s []) (hitems : s.exchange.rxRequests.items = r :: rest)
    (hcall : s.exchange.engine.handleClientRequest stray r = .ok (e, calls)) :
    ∃ s', s.step stray (.elsewhere .takeRequest) = some s' ∧ CaughtUp s' calls ∧
      s'.exchange.engine = e ∧ s'.exchange.rxRequests.items = rest ∧ s'.sent = s.sent ∧
      s'.exchange.gateway.mapClientToSocket = s.exchange.gateway.mapClientToSocket := by
  refine ⟨{ s with
    exchange := { s.exchange with
      engine := e, emitting := calls, rxRequests := s.exchange.rxRequests.pop } }, ?_,
    ⟨h.point, h.phase, h.items, h.capacity, rfl⟩, rfl, ?_, rfl, rfl⟩
  · simp only [ServerThread.step, Exchange.step, h.emitting, hitems, hcall,
      ExchangeAction.elsewhere, if_true]
    rfl
  · show s.exchange.rxRequests.items.tail = rest
    rw [hitems, List.tail_cons]

/-- A `SELL` of many units. -/
def largeSell : OMEClientRequest := ⟨.new, 1, 0, 1, .sell, 100, 700000⟩

/-- A `BUY` of one unit, of the same client. -/
def smallBuy : OMEClientRequest := ⟨.new, 1, 0, 2, .buy, 100, 1⟩

/-- A connection is accepted, both orders come in on it and are published, and the thread goes on to
the responses before there are any. -/
def floodActions : List ThreadAction :=
  [.poll [⟨99, true, false, false⟩] [0],
    .sendAndRecv ⟨OGSClientRequest.image ⟨1, largeSell⟩ ++ OGSClientRequest.image ⟨2, smallBuy⟩, 5, none⟩,
    .rxDone [⟨5, largeSell⟩, ⟨5, smallBuy⟩], .publish, .publish, .publish, .next]

/-- The book that the `SELL` has come to rest in. -/
abbrev largeAsk : OrderBook .production :=
  bookAfter .production (fun _ => 0) [.new ⟨1, 1, 0, .sell, 100, 700000⟩]

theorem runsTo_largeAsk : RunsTo (fun _ => 0) [.new ⟨1, 1, 0, .sell, 100, 700000⟩] largeAsk :=
  runsTo_bookAfter (by decide +kernel)

theorem handleRequest_largeAsk :
    handleRequest (fun _ => 0) (.new ⟨1, 1, 0, .sell, 100, 700000⟩) (OrderBook.create .production) =
      .ok () largeAsk := by
  have hrun := runsTo_largeAsk
  unfold RunsTo at hrun
  exact handleAll_singleton.mp hrun

/-- Level `l` is the best ask, order `p` the first of it, and each is alone. -/
abbrev AloneAt (b : OrderBook B) (taker : NewOrder) (l : LevelPtr B) (p : OrderPtr) : Prop :=
  (b.opposite taker.side = some l ∧ b.LiveLevel l ∧ (b.level l).order0 = some p ∧ b.LiveOrder p) ∧
    (misses taker.side taker.price (b.order p).price = false ∧ b.Alone p ∧
      (b.order p).side = taker.side.other ∧ (b.order p).clientId = taker.clientId) ∧
    (b.level l).next = some l ∧ (b.level l).prev = some l

theorem AloneAt.loneMatch {b : OrderBook B} {taker : NewOrder} {l : LevelPtr B} {p : OrderPtr}
    {ring : Side → List (LevelPtr B)} (h : AloneAt b taker l p) (htwo : TwoSided b ring)
    (hqty : taker.qty ≠ 0) : LoneMatch b taker ring l p := by
  obtain ⟨⟨hbest, hl, h0, hp⟩, ⟨hprice, halone, hown, hclient⟩, hnext, hprev⟩ := h
  have hside : taker.side.Proper := proper_of_opposite hbest
  refine ⟨⟨hqty, hbest, hl, h0, hp, hprice⟩, htwo, ?_, halone, hown, hclient⟩
  apply htwo.sideRings.ring_eq hside.other_proper
    (Circular.Links.isRing_singleton.mpr ⟨hnext, hprev⟩)
  rw [← opposite_eq b hside, hbest]
  rfl

/-- The `BUY` meets the `SELL` alone. -/
theorem exists_largeAsk :
    ∃ (b : OrderBook .production) (queue : Queues .production)
      (ring : Side → List (LevelPtr .production)) (l : LevelPtr .production) (p : OrderPtr),
      handleRequest (fun _ => 0) (.new ⟨1, 1, 0, .sell, 100, 700000⟩)
        (OrderBook.create .production) = .ok () b ∧
      (Valid b queue ∧ PoolsWellFormed b) ∧ LoneMatch b ⟨1, 2, 0, .buy, 100, 1⟩ ring l p ∧
      (b.order p).qty = 700000 := by
  obtain ⟨queue, hv⟩ := runsTo_largeAsk.valid
  have hempty : HasSides (OrderBook.create .production) :=
    ⟨⟨_, twoSided_create _⟩, properOrders_create _⟩
  obtain ⟨⟨ring, htwo⟩, -⟩ := hempty.request (valid_create _)
    (show KeepsBest _ (.new ⟨1, 1, 0, .sell, 100, 700000⟩) from Or.inr rfl) handleRequest_largeAsk
  have halone : AloneAt largeAsk ⟨1, 2, 0, .buy, 100, 1⟩ ⟨0, by decide⟩ ⟨0, by decide⟩ ∧
      (largeAsk.order ⟨0, by decide⟩).qty = 700000 := by
    decide +kernel
  exact ⟨largeAsk, queue, ring, _, _, handleRequest_largeAsk,
    ⟨hv, pools_wellFormed runsTo_largeAsk⟩, halone.1.loneMatch htwo (by decide), halone.2⟩

/-- The thread has published both orders and waits for responses. -/
theorem exists_published : ∃ s : ServerThread .production,
    ThreadRuns (fun _ _ => 0) 99 floodActions s ∧ CaughtUp s [] ∧
      s.exchange.rxRequests.items = [largeSell, smallBuy] ∧
      s.exchange.gateway.mapClientToSocket 1 = some 0 := by
  have hrun : ((floodActions.foldlM (ServerThread.step fun _ _ => 0)
      (.create .production 99)).map fun s => decide (
        (s.point = .draining ∧ s.exchange.phase = .polling ∧
          s.exchange.outputs.txResponses.items = [] ∧
          0 < s.exchange.outputs.txResponses.capacity ∧ s.exchange.emitting = []) ∧
        s.exchange.rxRequests.items = [largeSell, smallBuy] ∧
        s.exchange.gateway.mapClientToSocket 1 = some 0)) = some true := by
    decide +kernel
  obtain ⟨s, hs, hseen⟩ := Option.map_eq_some_iff.mp hrun
  obtain ⟨⟨hpoint, hphase, hitems, hcapacity, hemitting⟩, hrest⟩ := of_decide_eq_true hseen
  exact ⟨s, hs, ⟨hpoint, hphase, hitems, hcapacity, hemitting⟩, hrest⟩

/-- All responses to a client are added to the client's socket. -/
theorem countFrom_le_countTo {g : OrderGatewayServer B} {c : ClientID} {socket : SocketPtr}
    (hsocket : g.mapClientToSocket c = some socket) (rs : List OMEClientResponse) :
    countFrom c rs ≤ g.countTo socket rs := by
  apply List.countP_mono_left
  intro r _ hr
  rw [of_decide_eq_true hr, hsocket]
  exact decide_eq_true rfl

/-- While responses are drained the engine pushes more of them than a buffer takes. -/
theorem buffer_overflows :
    ¬ ∀ (stray : Ticker → ℕ → Qty) (listenerSocket : SocketPtr) (actions : List ThreadAction),
      Runs.Throughout (ThreadRuns (B := .production) stray listenerSocket) ServerThread.FindsRoom
        actions := by
  intro h
  have hroom : ∀ (actions : List ThreadAction) (s : ServerThread .production),
      ThreadRuns (fun _ _ => 0) 99 actions s → s.FindsRoom :=
    fun actions s hruns => h _ _ actions actions [] s (List.append_nil _).symm hruns
  obtain ⟨s, hruns, hcaught, hrequests, hsocket⟩ := exists_published
  obtain ⟨ask, queue, ring, l, p, hask, ⟨hv, hpools⟩, hlone, hqty⟩ := exists_largeAsk
  have hticker : 0 < maxTickers := by decide
  -- the first order comes to rest
  have hsell : (MatchingEngine.create .production).handleClientRequest (fun _ _ => 0) largeSell =
      .ok (⟨Function.update (fun _ => OrderBook.create .production) ⟨0, hticker⟩ ask⟩, _) :=
    handleClientRequest_of_ok rfl rfl hask
  rw [← hruns.engine_eq (by decide)] at hsell
  obtain ⟨s₁, hstep₁, hcaught₁, hengine₁, hrequests₁, -, hmap₁⟩ :=
    hcaught.takeRequest hrequests hsell
  obtain ⟨more₁, s₂, hruns₂, hcaught₂, hsends₂⟩ := hcaught₁.all_calls
    ((runsOf_thread .production (fun _ _ => 0) 99).concat.mpr ⟨s, hruns, hstep₁⟩) hroom
  have hbook : s₂.exchange.engine.orderBookForTicker ⟨0, hticker⟩ = ask := by
    simp only [hsends₂.engine, hengine₁, Function.update_self]
  -- the second one meets it
  subst hbook
  obtain ⟨e, calls, hbuy, hcount⟩ :=
    hlone.engine_floods (fun _ _ => 0) (r := smallBuy) rfl rfl hv hpools (by decide)
  rw [← hsends₂.rxRequests] at hrequests₁
  obtain ⟨s₃, hstep₃, hcaught₃, -, -, -, hmap₃⟩ := hcaught₂.takeRequest hrequests₁ hbuy
  obtain ⟨more₃, s₄, hruns₄, hcaught₄, hsends₄⟩ := hcaught₃.all_calls
    ((runsOf_thread .production (fun _ _ => 0) 99).concat.mpr ⟨s₂, hruns₂, hstep₃⟩) hroom
  -- and all that is sent on the client's socket has found room
  have hrounds := Rounds.of_runs hruns₄
  have hfits := hrounds.fits 0
  rw [hrounds.sent hcaught₄.point 0] at hfits
  have hbound : s₄.exchange.gateway.mapClientToSocket 1 = some 0 := by
    rw [hsends₄.sockets, hmap₃, hsends₂.sockets, hmap₁]
    exact hsocket
  have hall : countFrom 1 (responsesOf calls) ≤ s₄.exchange.gateway.countTo 0 s₄.sent := by
    refine le_trans ?_ (countFrom_le_countTo hbound s₄.sent)
    rw [hsends₄.sent, countFrom_append]
    exact Nat.le_add_left ..
  rw [hqty] at hcount
  change 2 * 700000 ≤ 1 * countFrom 1 (responsesOf calls) at hcount
  unfold sizeofOGSClientResponse tcpBufferSize at hfits
  omega

end flood

end HftSys
