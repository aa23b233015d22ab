import HftSys.Publishing
import HftSys.Recipients
import HftSys.Responses

/-!
# The exchange

The gateway and the matching engine on their two threads, with the queues between them: `rxRequests`
is written by the gateway and read by the engine, the engine's `txResponses` is the gateway's
`rxResponses_`.

* `ExchangeAction`s are the steps of the threads, taken in any order. The gateway pushes the
  requests it has sorted one by one and releases a response behind the sends; the engine pushes the
  calls of a book one by one. The book itself changes when the request is taken, which no other
  thread can tell.
* The queues are those of `Fifo`; `SingleProducer` shows that `LFQueue` is one.
* `Moves` says what each action does, `Addressed` that all that is under way is about clients with a
  socket.
* `responses_addressed`: every response in the queue has a socket to go to.
-/

namespace HftSys

open Exec SequenceGate

/-- `MAX_MARKET_UPDATES`. Source: `types.h` -/
def maxMarketUpdates (B : Build) : ℕ := omeSize B * 1024

/-- Where the gateway's thread is. -/
inductive GatewayPhase where
  /-- Outside of the loops below. -/
  | polling
  /-- In the loop of `sequenceAndPublish`, with these requests left to push. -/
  | publishing (requests : List OMEClientRequest)
  /-- In the loop of `run`, behind the sends of a response and before `updateReadIndex`. -/
  | releasing
deriving DecidableEq

/-- The requests left to push. -/
def GatewayPhase.requests : GatewayPhase → List OMEClientRequest
  | .publishing requests => requests
  | _ => []

/-- The exchange. Source: `main.cpp` -/
structure Exchange (B : Build) where
  gateway : OrderGatewayServer B
  phase : GatewayPhase
  rxRequests : Fifo.Queue OMEClientRequest
  engine : MatchingEngine B
  /-- The calls of the engine's present request that are still to come. -/
  emitting : List Emission
  outputs : Outputs

/-- A step of one of the threads. -/
inductive ExchangeAction where
  /-- The gateway calls `sendAndRecv` on a socket. -/
  | sendAndRecv (socket : SocketPtr) (o : Outcome)
  /-- The gateway calls `rxDoneCallback`, where `std::sort` makes `sorted` of the waiting requests.
  -/
  | rxDone (sorted : List PendingClientRequest)
  /-- The gateway pushes its next request, or leaves the loop of `sequenceAndPublish`. -/
  | publish
  /-- The gateway sends the first response. -/
  | respond
  /-- The gateway releases it. -/
  | release
  /-- The engine takes the first request. -/
  | takeRequest
  /-- The engine makes the next call. -/
  | emit
  /-- The market data publisher takes an update. -/
  | popUpdate
deriving DecidableEq

namespace Exchange

variable {B : Build}

/-- A new exchange. Source: `main.cpp` -/
def create (B : Build) : Exchange B where
  gateway := .create B
  phase := .polling
  rxRequests := .empty (maxClientUpdates B)
  engine := .create B
  emitting := []
  outputs := ⟨.empty (maxClientUpdates B), .empty (maxMarketUpdates B)⟩

/-- The exchange after an action, unless the thread is elsewhere or the action ends in a fault. -/
def step (stray : Ticker → ℕ → Qty) (x : Exchange B) : ExchangeAction → Option (Exchange B)
  | .sendAndRecv socket o =>
    if x.phase = .polling then
      (x.gateway.sendAndRecv socket o).toOption.map fun result => { x with gateway := result.2 }
    else none
  | .rxDone sorted =>
    if x.phase = .polling ∧ SortsTo x.gateway.fifo.pendingRequests sorted then
      some { x with
        gateway := x.gateway.rxDoneCallback sorted
        phase := .publishing (x.gateway.fifo.sequenceAndPublish sorted).2 }
    else none
  | .publish =>
    match x.phase with
    | .publishing (r :: rs) =>
      some { x with phase := .publishing rs, rxRequests := x.rxRequests.push r }
    | .publishing [] => some { x with phase := .polling }
    | _ => none
  | .respond =>
    match x.phase, x.outputs.txResponses.items with
    | .polling, res :: _ =>
      (x.gateway.sendResponse res).toOption.map fun g => { x with gateway := g, phase := .releasing }
    | _, _ => none
  | .release =>
    if x.phase = .releasing then
      some { x with phase := .polling, outputs := x.outputs.act .popResponse }
    else none
  | .takeRequest =>
    match x.emitting, x.rxRequests.items with
    | [], r :: _ =>
      (x.engine.handleClientRequest stray r).toOption.map fun result =>
        { x with engine := result.1, emitting := result.2, rxRequests := x.rxRequests.pop }
    | _, _ => none
  | .emit =>
    match x.emitting with
    | [] => none
    | c :: cs => some { x with emitting := cs, outputs := x.outputs.act (.call c) }
  | .popUpdate => some { x with outputs := x.outputs.act .popUpdate }

end Exchange

/-- The actions may lead from a new exchange to `x`. -/
abbrev ExchangeRuns {B : Build} (stray : Ticker → ℕ → Qty) (actions : List ExchangeAction)
    (x : Exchange B) : Prop :=
  actions.foldlM (Exchange.step stray) (.create B) = some x

theorem runsOf_exchange (B : Build) (stray : Ticker → ℕ → Qty) :
    Runs.RunsOf (fun x a x' => Exchange.step stray x a = some x') (Exchange.create B)
      (ExchangeRuns stray) :=
  .ofStep (Exchange.step stray) (.create B)

/-- What an action does. -/
inductive Moves {B : Build} (stray : Ticker → ℕ → Qty) (x : Exchange B) :
    ExchangeAction → Exchange B → Prop
  | sendAndRecv {socket : SocketPtr} {o : Outcome} {received : Bool} {g : OrderGatewayServer B}
      (hphase : x.phase = .polling) (hcall : x.gateway.sendAndRecv socket o = .ok (received, g)) :
      Moves stray x (.sendAndRecv socket o) { x with gateway := g }
  | rxDone {sorted : List PendingClientRequest} (hphase : x.phase = .polling)
      (hsort : SortsTo x.gateway.fifo.pendingRequests sorted) :
      Moves stray x (.rxDone sorted) { x with
        gateway := x.gateway.rxDoneCallback sorted
        phase := .publishing (x.gateway.fifo.sequenceAndPublish sorted).2 }
  | push {r : OMEClientRequest} {rs : List OMEClientRequest}
      (hphase : x.phase = .publishing (r :: rs)) :
      Moves stray x .publish { x with phase := .publishing rs, rxRequests := x.rxRequests.push r }
  | leave (hphase : x.phase = .publishing []) : Moves stray x .publish { x with phase := .polling }
  | respond {res : OMEClientResponse} {rest : List OMEClientResponse} {g : OrderGatewayServer B}
      (hphase : x.phase = .polling) (hhead : x.outputs.txResponses.items = res :: rest)
      (hcall : x.gateway.sendResponse res = .ok g) :
      Moves stray x .respond { x with gateway := g, phase := .releasing }
  | release (hphase : x.phase = .releasing) :
      Moves stray x .release { x with phase := .polling, outputs := x.outputs.act .popResponse }
  | takeRequest {r : OMEClientRequest} {rest : List OMEClientRequest} {e : MatchingEngine B}
      {calls : List Emission} (hemitting : x.emitting = [])
      (hhead : x.rxRequests.items = r :: rest)
      (hcall : x.engine.handleClientRequest stray r = .ok (e, calls)) :
      Moves stray x .takeRequest
        { x with engine := e, emitting := calls, rxRequests := x.rxRequests.pop }
  | emit {c : Emission} {cs : List Emission} (hemitting : x.emitting = c :: cs) :
      Moves stray x .emit { x with emitting := cs, outputs := x.outputs.act (.call c) }
  | popUpdate : Moves stray x .popUpdate { x with outputs := x.outputs.act .popUpdate }

section moves

variable {B : Build} {stray : Ticker → ℕ → Qty} {x x' : Exchange B} {a : ExchangeAction}
  {actions : List ExchangeAction}

/-- **`step` taken apart.** -/
theorem Exchange.step_ok (h : x.step stray a = some x') : Moves stray x a x' := by
  cases a with
  | sendAndRecv socket o =>
    simp only [Exchange.step] at h
    split at h
    · rename_i hphase
      obtain ⟨⟨received, g⟩, hcall, rfl⟩ := Option.map_eq_some_iff.mp h
      exact .sendAndRecv hphase (toOption_eq_some.mp hcall)
    · cases h
  | rxDone sorted =>
    simp only [Exchange.step] at h
    split at h
    · rename_i hcond
      cases h
      exact .rxDone hcond.1 hcond.2
    · cases h
  | publish =>
    simp only [Exchange.step] at h
    split at h
    · rename_i r rs hphase
      cases h
      exact .push hphase
    · rename_i hphase
      cases h
      exact .leave hphase
    · cases h
  | respond =>
    simp only [Exchange.step] at h
    split at h
    · rename_i res rest hphase hhead
      obtain ⟨g, hcall, rfl⟩ := Option.map_eq_some_iff.mp h
      exact .respond hphase hhead (toOption_eq_some.mp hcall)
    · cases h
  | release =>
    simp only [Exchange.step] at h
    split at h
    · rename_i hphase
      cases h
      exact .release hphase
    · cases h
  | takeRequest =>
    simp only [Exchange.step] at h
    split at h
    · rename_i r rest hemitting hhead
      obtain ⟨⟨e, calls⟩, hcall, rfl⟩ := Option.map_eq_some_iff.mp h
      exact .takeRequest hemitting hhead (toOption_eq_some.mp hcall)
    · cases h
  | emit =>
    simp only [Exchange.step] at h
    split at h
    · cases h
    · rename_i c cs hemitting
      cases h
      exact .emit hemitting
  | popUpdate =>
    cases h
    exact .popUpdate

/-- The gateway takes its own steps only. -/
theorem Moves.gateway (h : Moves stray x a x') :
    x'.gateway = x.gateway ∨ ∃ e, GatewayStep x.gateway e x'.gateway := by
  cases h with
  | sendAndRecv hphase hcall => exact .inr ⟨.sendAndRecv _ _, _, hcall⟩
  | rxDone hphase hsort => exact .inr ⟨.rxDone, _, hsort, rfl⟩
  | respond hphase hhead hcall => exact .inr ⟨.respond _, hcall⟩
  | _ => exact .inl rfl

/-- The engine takes its own steps only. -/
theorem Moves.engine (h : Moves stray x a x') :
    x'.engine = x.engine ∨ ∃ r, EngineStep stray x.engine r x'.engine := by
  cases h with
  | takeRequest hemitting hhead hcall => exact .inr ⟨_, _, hcall⟩
  | _ => exact .inl rfl

/-- **The gateway of an exchange** is one that a run of the gateway reaches. -/
theorem ExchangeRuns.gateway (h : ExchangeRuns stray actions x) :
    ∃ es, GatewayRuns es x.gateway := by
  refine (runsOf_exchange B stray).induction (P := fun _ x => ∃ es, GatewayRuns es x.gateway)
    ⟨[], rfl⟩ ?_ h
  rintro actions a x x' - ⟨es, hes⟩ hstep
  rcases (Exchange.step_ok hstep).gateway with hsame | ⟨e, he⟩
  · rw [hsame]
    exact ⟨es, hes⟩
  · exact ⟨es ++ [e], (runsOf_gateway B).concat.mpr ⟨_, hes, he⟩⟩

/-- **The engine of an exchange** is one that a run of the engine reaches. -/
theorem ExchangeRuns.engine (h : ExchangeRuns stray actions x) :
    ∃ rs, EngineRuns stray rs x.engine := by
  refine (runsOf_exchange B stray).induction (P := fun _ x => ∃ rs, EngineRuns stray rs x.engine)
    ⟨[], rfl⟩ ?_ h
  rintro actions a x x' - ⟨rs, hrs⟩ hstep
  rcases (Exchange.step_ok hstep).engine with hsame | ⟨r, hr⟩
  · rw [hsame]
    exact ⟨rs, hrs⟩
  · exact ⟨rs ++ [r], (runsOf_engine B stray).concat.mpr ⟨_, hrs, hr⟩⟩

end moves

/-! ## Clients with a socket -/

/-- The client is bound to a socket. -/
def OrderGatewayServer.Knows {B : Build} (g : OrderGatewayServer B) (c : ClientID) : Prop :=
  g.mapClientToSocket c ≠ none

/-- All that is under way, and all orders at rest, are about clients in `K`. -/
structure Exchange.About {B : Build} (K : ClientID → Prop) (x : Exchange B) : Prop where
  waiting : ∀ r ∈ x.gateway.fifo.pendingRequests, K r.request.clientId
  publishing : ∀ r ∈ x.phase.requests, K r.clientId
  rxRequests : ∀ r ∈ x.rxRequests.items, K r.clientId
  serves : x.engine.Serves K
  emitting : ∀ c ∈ x.emitting, c.For K
  txResponses : ∀ r ∈ x.outputs.txResponses.items, K r.clientId

/-- All that is under way is about clients with a socket. -/
def Exchange.Addressed {B : Build} (x : Exchange B) : Prop := x.About x.gateway.Knows

section clients

variable {B : Build} {stray : Ticker → ℕ → Qty} {x x' : Exchange B} {a : ExchangeAction}
  {g g' : OrderGatewayServer B} {e : GatewayEvent} {xs : List Arrival} {y : Arrival} {c : ClientID}
  {K K' : ClientID → Prop} {actions : List ExchangeAction}

/-- Clients keep their sockets, whatever the gateway does. -/
theorem GatewayStep.knows (h : GatewayStep g e g') (hc : g.Knows c) : g'.Knows c := by
  obtain ⟨socket, hsocket⟩ := Option.ne_none_iff_exists'.mp hc
  refine Option.ne_none_iff_exists'.mpr ⟨socket, ?_⟩
  cases e with
  | sendAndRecv socket' o =>
    obtain ⟨received, hcall⟩ := h
    exact (sendAndRecv_ok hcall).1.kept hsocket
  | rxDone =>
    obtain ⟨sorted, -, rfl⟩ := h
    exact hsocket
  | respond res =>
    obtain ⟨-, socket', s, -, -, rfl⟩ := sendResponse_ok h
    exact hsocket

/-- The client of a record that has been forwarded has a socket. -/
theorem Received.knows (hr : Received g g' xs) (hy : y ∈ admitted g.gate xs) :
    g'.Knows y.clientId := by
  have howner := Gate.source_of_mem_admitted hy
  rw [← gateAfter, ← hr.gate] at howner
  exact Option.ne_none_iff_exists'.mpr ⟨_, howner⟩

theorem Exchange.About.mono (h : x.About K) (hk : ∀ c, K c → K' c) : x.About K' where
  waiting r hr := hk _ (h.waiting r hr)
  publishing r hr := hk _ (h.publishing r hr)
  rxRequests r hr := hk _ (h.rxRequests r hr)
  serves := h.serves.mono hk
  emitting c hc := (h.emitting c hc).mono hk
  txResponses r hr := hk _ (h.txResponses r hr)

theorem addressed_create (B : Build) : (Exchange.create B).Addressed where
  waiting _ h := absurd h List.not_mem_nil
  publishing _ h := absurd h List.not_mem_nil
  rxRequests _ h := absurd h List.not_mem_nil
  serves := .create _ B
  emitting _ h := absurd h List.not_mem_nil
  txResponses _ h := absurd h List.not_mem_nil

/-- What a call of a book puts in the queue of responses. -/
theorem forall_txResponses_call {o : Outputs} {call : Emission}
    (h : ∀ r ∈ o.txResponses.items, K r.clientId) (hcall : call.For K) :
    ∀ r ∈ (o.act (.call call)).txResponses.items, K r.clientId := by
  cases call with
  | response r => exact Fifo.Queue.forall_push (P := fun r : OMEClientResponse => K r.clientId) h hcall
  | update u => exact h

/-- **A step keeps every client's address**: what comes in is about clients with a socket, and what
is under way only moves on. -/
theorem Exchange.Addressed.step (h : x.Addressed)
    (hv : ∀ ticker, ∃ queue, Valid (x.engine.orderBookForTicker ticker) queue)
    (hm : Moves stray x a x') : x'.Addressed := by
  have hknows : ∀ c, x.gateway.Knows c → x'.gateway.Knows c := by
    intro c hc
    rcases hm.gateway with hsame | ⟨e, he⟩
    · rw [hsame]
      exact hc
    · exact he.knows hc
  have hall : x.About x'.gateway.Knows := h.mono hknows
  cases hm with
  | @sendAndRecv socket o received g hphase hcall =>
    have hr := (sendAndRecv_ok hcall).1
    refine { hall with waiting := ?_ }
    show ∀ r ∈ g.fifo.pendingRequests, _
    rw [hr.pending]
    refine List.forall_mem_append.mpr ⟨hall.waiting, ?_⟩
    intro r hmem
    obtain ⟨y, hy, rfl⟩ := List.mem_map.mp hmem
    exact hr.knows hy
  | @rxDone sorted hphase hsort =>
    refine { hall with waiting := ?_, publishing := ?_ }
    · show ∀ r ∈ (x.gateway.fifo.sequenceAndPublish sorted).1.pendingRequests, _
      rw [FIFOSequencer.pendingRequests_sequenceAndPublish]
      exact fun _ hr => absurd hr List.not_mem_nil
    · intro r hr
      obtain ⟨p, hp, rfl⟩ := List.mem_map.mp ((FIFOSequencer.pushed_perm hsort).mem_iff.mp hr)
      exact hall.waiting p hp
  | @push r rs hphase =>
    have hpublishing := hall.publishing
    rw [hphase] at hpublishing
    obtain ⟨hfirst, hrest⟩ := List.forall_mem_cons.mp hpublishing
    exact { hall with
      publishing := hrest
      rxRequests := Fifo.Queue.forall_push
        (P := fun r : OMEClientRequest => x.gateway.Knows r.clientId) hall.rxRequests hfirst }
  | leave hphase => exact { hall with publishing := fun _ hr => absurd hr List.not_mem_nil }
  | respond hphase hhead hcall =>
    exact { hall with
      waiting := by
        obtain ⟨-, socket, s, -, -, rfl⟩ := sendResponse_ok hcall
        exact hall.waiting
      publishing := fun _ hr => absurd hr List.not_mem_nil }
  | release hphase =>
    exact { hall with
      publishing := fun _ hr => absurd hr List.not_mem_nil
      txResponses := Fifo.Queue.forall_pop hall.txResponses }
  | @takeRequest r rest e calls hemitting hhead hcall =>
    have hr : x.gateway.Knows r.clientId := hall.rxRequests r (by simp [hhead])
    obtain ⟨hserves, hcalls⟩ := hall.serves.request hv hr hcall
    exact { hall with
      serves := hserves
      emitting := hcalls
      rxRequests := Fifo.Queue.forall_pop hall.rxRequests }
  | @emit call calls hemitting =>
    have hcalls := hall.emitting
    rw [hemitting] at hcalls
    obtain ⟨hfirst, hrest⟩ := List.forall_mem_cons.mp hcalls
    exact { hall with
      emitting := hrest
      txResponses := forall_txResponses_call hall.txResponses hfirst }
  | popUpdate => exact { hall with }

/-- **Every exchange a run reaches is addressed.** -/
theorem ExchangeRuns.addressed (h : ExchangeRuns stray actions x) : x.Addressed := by
  refine (runsOf_exchange B stray).induction (P := fun _ x => x.Addressed) (addressed_create B) ?_ h
  intro actions a x x' hrun hx hstep
  obtain ⟨rs, hrs⟩ := ExchangeRuns.engine hrun
  exact hx.step hrs.valid (Exchange.step_ok hstep)

/-- A response to a client with a socket is sent, or finds no room. -/
theorem fault_of_sendResponse {res : OMEClientResponse} {fault : GatewayFault}
    (hrange : res.clientId.toNat < maxNClients B) (hknows : g.Knows res.clientId)
    (h : g.sendResponse res = .error fault) : fault = .bufferOverflow := by
  obtain ⟨socket, hsocket⟩ := Option.ne_none_iff_exists'.mp hknows
  simp only [OrderGatewayServer.sendResponse] at h
  rw [if_pos hrange, hsocket] at h
  dsimp only at h
  split at h
  · cases h
    rfl
  · cases h

/-- **Every response has a destination**: in every run of the exchange, a response that waits in the
queue is for a client with a socket, so that the gateway does not fail to find one. -/
theorem responses_addressed (h : ExchangeRuns stray actions x) :
    ∀ res ∈ x.outputs.txResponses.items, x.gateway.mapClientToSocket res.clientId ≠ none ∧
      ∀ fault, x.gateway.sendResponse res = .error fault → fault = .bufferOverflow := by
  intro res hres
  have hknows : x.gateway.Knows res.clientId := h.addressed.txResponses res hres
  obtain ⟨socket, hsocket⟩ := Option.ne_none_iff_exists'.mp hknows
  obtain ⟨es, hes⟩ := h.gateway
  exact ⟨hknows, fun fault => fault_of_sendResponse (hes.consistent.clientId_lt hsocket) hknows⟩

/-- A SELL of client 1 that rests, and a BUY of client 2 that takes it. -/
def sampleSell : OMEClientRequest := ⟨.new, 1, 0, 1, .sell, 100, 10⟩

/-- See `sampleSell`. -/
def sampleBuy : OMEClientRequest := ⟨.new, 2, 0, 1, .buy, 100, 10⟩

/-- Both orders come in on sockets of their own, are sequenced and matched. -/
def sampleActions : List ExchangeAction :=
  [.sendAndRecv 0 ⟨OGSClientRequest.image ⟨1, sampleSell⟩, 5, none⟩,
    .sendAndRecv 1 ⟨OGSClientRequest.image ⟨1, sampleBuy⟩, 6, none⟩,
    .rxDone [⟨5, sampleSell⟩, ⟨6, sampleBuy⟩], .publish, .publish, .publish,
    .takeRequest, .emit, .emit, .takeRequest, .emit, .emit, .emit, .emit, .emit]

/-- The response to the passive client is the last of four. -/
theorem responses_addressed_sample :
    ∃ x : Exchange .production,
      x.outputs.txResponses.items.map (·.clientId) = [1, 2, 2, 1] ∧
        ∀ res ∈ x.outputs.txResponses.items, x.gateway.mapClientToSocket res.clientId ≠ none ∧
          ∀ fault, x.gateway.sendResponse res = .error fault → fault = .bufferOverflow := by
  have hrun : ((sampleActions.foldlM (Exchange.step fun _ _ => 0) (.create .production)).map
      fun x => x.outputs.txResponses.items.map (·.clientId)) = some [1, 2, 2, 1] := by
    decide +kernel
  obtain ⟨x, hx, hclients⟩ := Option.map_eq_some_iff.mp hrun
  exact ⟨x, hclients, responses_addressed hx⟩

end clients

end HftSys
