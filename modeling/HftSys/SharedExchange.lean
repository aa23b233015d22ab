import HftSys.Exchange
import HftSys.Linearization

/-!
# The exchange over its lock-free queues

In `Exchange` a queue takes an element, or gives one back, in one step. In the source the three
queues are `LFQueue`s, and the gateway's thread, the engine's and the publisher's may interleave
between any two accesses to one of them.

* `SharedExchange.step` is a step of a thread, which is one access to a queue or all that the thread
  does to what is its own. `SharedMoves` says what it does.
* `SharedExchange.Shows x`: the state looks like state `x` of `Exchange`.
* `Shows.step`: a step shows either nothing or a step of `Exchange`. What follows for runs is in
  `Interleavings`.

The accesses are sequentially consistent.
-/

namespace HftSys

open Exec LFQueue

/-! ## The source -/

/-- `ClientID_INVALID`: the largest id. Source: `types.h` -/
def clientIdInvalid : ClientID := 4294967295

/-- `TickerID_INVALID`: the largest id. Source: `types.h` -/
def tickerIdInvalid : TickerID := 4294967295

/-- A value-initialised request. Source: `order_server_request.h` -/
def OMEClientRequest.blank : OMEClientRequest :=
  ⟨⟨0⟩, clientIdInvalid, tickerIdInvalid, orderIdInvalid, .invalid, priceInvalid, qtyInvalid⟩

/-- A value-initialised response. Source: `order_server_response.h` -/
def OMEClientResponse.blank : OMEClientResponse :=
  ⟨.invalid, clientIdInvalid, tickerIdInvalid, orderIdInvalid, orderIdInvalid, .invalid,
    priceInvalid, qtyInvalid, qtyInvalid⟩

/-- A value-initialised update. Source: `market_data.h` -/
def OMEMarketUpdate.blank : OMEMarketUpdate :=
  ⟨.invalid, orderIdInvalid, tickerIdInvalid, .invalid, priceInvalid, qtyInvalid, priorityInvalid⟩

/-- Where the gateway's thread is. Source: `order_gateway_server.cpp`, `OrderGatewayServer::run`;
`fifo_Sequencer.h`, `FIFOSequencer::sequenceAndPublish` -/
inductive GatewayPoint where
  /-- Outside of the loops below. -/
  | polling
  /-- In the loop of `sequenceAndPublish`, with these requests left to push. -/
  | publishing (requests : List OMEClientRequest)
  /-- In the loop of `run`, inside of `getNextToRead` or behind it. -/
  | reading
  /-- `size()` has been found positive. -/
  | sending
  /-- Behind the sends, in `updateReadIndex`. -/
  | releasing
deriving DecidableEq

/-- The exchange. Source: `main.cpp` -/
structure SharedExchange (B : Build) where
  gateway : OrderGatewayServer B
  point : GatewayPoint
  rxRequests : LFQueue.State Unit OMEClientRequest
  engine : MatchingEngine B
  /-- The request the engine's `pop` has read. -/
  value : Option OMEClientRequest
  /-- The calls of the engine's present request that are still to return. -/
  emitting : List Emission
  txResponses : LFQueue.State Unit OMEClientResponse
  txMarketUpdates : LFQueue.State Unit OMEMarketUpdate

/-- A step of one of the threads. -/
inductive SharedAction where
  /-- The gateway takes a step of `getNextToRead`, or tests `size()`. -/
  | read
  /-- A step on the way to this action. -/
  | act (a : ExchangeAction)
deriving DecidableEq

namespace SharedExchange

variable {B : Build}

/-- A new exchange. Source: `main.cpp` -/
def create (B : Build) : SharedExchange B where
  gateway := .create B
  point := .polling
  rxRequests := .init .blank
  engine := .create B
  value := none
  emitting := []
  txResponses := .init .blank
  txMarketUpdates := .init .blank

/-- The gateway's thread in the loop over the responses, before the sends. -/
def read (f : SharedExchange B) : Option (SharedExchange B) :=
  match f.point, f.txResponses.consumer with
  | .polling, .idle =>
    (LFQueue.step (maxClientUpdates B) f.txResponses .beginPop).map fun q =>
      { f with txResponses := q, point := if q.consumer = .idle then .polling else .reading }
  | .reading, .hasElement =>
    (LFQueue.step (maxClientUpdates B) f.txResponses .pickElement).map fun q =>
      { f with txResponses := q }
  | .reading, .hasSlot _ =>
    if 0 < f.txResponses.numElements then some { f with point := .sending }
    else (LFQueue.step (maxClientUpdates B) f.txResponses .letGo).map fun q =>
      { f with txResponses := q, point := .polling }
  | _, _ => none

/-- The engine's thread in `pop`. When `pop` returns a request, it is handled in the same step: no
other thread looks at the books. -/
def takeRequest (stray : Ticker → ℕ → Qty) (f : SharedExchange B) : Option (SharedExchange B) := do
  let q ← popStep (maxClientUpdates B) f.rxRequests
  match f.rxRequests.consumer with
  | .hasSlot slot => some { f with rxRequests := q, value := some (f.rxRequests.queue slot) }
  | .advanced =>
    let r ← f.value
    let (e, calls) ← (f.engine.handleClientRequest stray r).toOption
    some { f with rxRequests := q, engine := e, emitting := calls, value := none }
  | _ => some { f with rxRequests := q }

/-- The exchange after a step, unless the thread is elsewhere or the step ends in a fault.
Source: `order_gateway_server.cpp`, `OrderGatewayServer::run`; `fifo_Sequencer.h`,
`FIFOSequencer::sequenceAndPublish`; `matching_engine.cpp`, `MatchingEngine::runMatchingEngine` -/
def step (stray : Ticker → ℕ → Qty) (f : SharedExchange B) : SharedAction → Option (SharedExchange B)
  | .read => f.read
  | .act (.sendAndRecv socket o) =>
    if f.point = .polling then
      (f.gateway.sendAndRecv socket o).toOption.map fun result => { f with gateway := result.2 }
    else none
  | .act (.rxDone sorted) =>
    if f.point = .polling ∧ SortsTo f.gateway.fifo.pendingRequests sorted then
      some { f with
        gateway := f.gateway.rxDoneCallback sorted
        point := .publishing (f.gateway.fifo.sequenceAndPublish sorted).2 }
    else none
  | .act .publish =>
    match f.point with
    | .publishing (r :: rs) =>
      (pushStep (maxClientUpdates B) r f.rxRequests).map fun q =>
        { f with
          rxRequests := q
          point := if q.producer () = .idle then .publishing rs else .publishing (r :: rs) }
    | .publishing [] => some { f with point := .polling }
    | _ => none
  | .act .respond =>
    match f.point, f.txResponses.consumer with
    | .sending, .hasSlot slot => do
      let g ← (f.gateway.sendResponse (f.txResponses.queue slot)).toOption
      let q ← popStep (maxClientUpdates B) f.txResponses
      some { f with gateway := g, txResponses := q, point := .releasing }
    | _, _ => none
  | .act .release =>
    if f.point = .releasing then
      (popStep (maxClientUpdates B) f.txResponses).map fun q =>
        { f with txResponses := q, point := if q.consumer = .idle then .polling else .releasing }
    else none
  | .act .takeRequest => if f.emitting = [] then f.takeRequest stray else none
  | .act .emit =>
    match f.emitting with
    | [] => none
    | .response r :: cs =>
      (pushStep (maxClientUpdates B) r f.txResponses).map fun q =>
        { f with
          txResponses := q
          emitting := if q.producer () = .idle then cs else .response r :: cs }
    | .update u :: cs =>
      (pushStep (maxMarketUpdates B) u f.txMarketUpdates).map fun q =>
        { f with
          txMarketUpdates := q
          emitting := if q.producer () = .idle then cs else .update u :: cs }
  | .act .popUpdate =>
    (popStep (maxMarketUpdates B) f.txMarketUpdates).map fun q => { f with txMarketUpdates := q }

end SharedExchange

/-- The actions may lead from a new exchange to `f`. -/
abbrev SharedRuns {B : Build} (stray : Ticker → ℕ → Qty) (actions : List SharedAction)
    (f : SharedExchange B) : Prop :=
  actions.foldlM (SharedExchange.step stray) (.create B) = some f

/-- The runs of the three threads. -/
theorem runsOf_shared (B : Build) (stray : Ticker → ℕ → Qty) :
    Runs.RunsOf (fun f a f' => SharedExchange.step stray f a = some f') (SharedExchange.create B)
      (SharedRuns stray) :=
  .ofStep (SharedExchange.step stray) (.create B)

/-! ## A step taken apart -/

/-- What a step does. -/
inductive SharedMoves {B : Build} (stray : Ticker → ℕ → Qty) (f : SharedExchange B) :
    SharedAction → SharedExchange B → Prop
  | beginRead {q : LFQueue.State Unit OMEClientResponse} (hpoint : f.point = .polling)
      (hidle : f.txResponses.consumer = .idle)
      (hq : popStep (maxClientUpdates B) f.txResponses = some q) :
      SharedMoves stray f .read
        { f with txResponses := q, point := if q.consumer = .idle then .polling else .reading }
  | pickElement {q : LFQueue.State Unit OMEClientResponse} (hpoint : f.point = .reading)
      (hat : f.txResponses.consumer = .hasElement)
      (hq : popStep (maxClientUpdates B) f.txResponses = some q) :
      SharedMoves stray f .read { f with txResponses := q }
  | size {slot : ℕ} (hpoint : f.point = .reading) (hat : f.txResponses.consumer = .hasSlot slot)
      (hpos : 0 < f.txResponses.numElements) :
      SharedMoves stray f .read { f with point := .sending }
  | letGo {slot : ℕ} {q : LFQueue.State Unit OMEClientResponse} (hpoint : f.point = .reading)
      (hat : f.txResponses.consumer = .hasSlot slot) (hzero : ¬ 0 < f.txResponses.numElements)
      (hq : LFQueue.step (maxClientUpdates B) f.txResponses .letGo = some q) :
      SharedMoves stray f .read { f with txResponses := q, point := .polling }
  | sendAndRecv {socket : SocketPtr} {o : Outcome} {received : Bool} {g : OrderGatewayServer B}
      (hpoint : f.point = .polling) (hcall : f.gateway.sendAndRecv socket o = .ok (received, g)) :
      SharedMoves stray f (.act (.sendAndRecv socket o)) { f with gateway := g }
  | rxDone {sorted : List PendingClientRequest} (hpoint : f.point = .polling)
      (hsort : SortsTo f.gateway.fifo.pendingRequests sorted) :
      SharedMoves stray f (.act (.rxDone sorted)) { f with
        gateway := f.gateway.rxDoneCallback sorted
        point := .publishing (f.gateway.fifo.sequenceAndPublish sorted).2 }
  | push {r : OMEClientRequest} {rs : List OMEClientRequest}
      {q : LFQueue.State Unit OMEClientRequest} (hpoint : f.point = .publishing (r :: rs))
      (hq : pushStep (maxClientUpdates B) r f.rxRequests = some q) :
      SharedMoves stray f (.act .publish) { f with
        rxRequests := q
        point := if q.producer () = .idle then .publishing rs else .publishing (r :: rs) }
  | leave (hpoint : f.point = .publishing []) :
      SharedMoves stray f (.act .publish) { f with point := .polling }
  | respond {slot : ℕ} {g : OrderGatewayServer B} {q : LFQueue.State Unit OMEClientResponse}
      (hpoint : f.point = .sending) (hat : f.txResponses.consumer = .hasSlot slot)
      (hcall : f.gateway.sendResponse (f.txResponses.queue slot) = .ok g)
      (hq : popStep (maxClientUpdates B) f.txResponses = some q) :
      SharedMoves stray f (.act .respond)
        { f with gateway := g, txResponses := q, point := .releasing }
  | release {q : LFQueue.State Unit OMEClientResponse} (hpoint : f.point = .releasing)
      (hq : popStep (maxClientUpdates B) f.txResponses = some q) :
      SharedMoves stray f (.act .release)
        { f with txResponses := q, point := if q.consumer = .idle then .polling else .releasing }
  | pop {q : LFQueue.State Unit OMEClientRequest} (hemitting : f.emitting = [])
      (hunread : ∀ slot, f.rxRequests.consumer ≠ .hasSlot slot)
      (hcounted : f.rxRequests.consumer ≠ .advanced)
      (hq : popStep (maxClientUpdates B) f.rxRequests = some q) :
      SharedMoves stray f (.act .takeRequest) { f with rxRequests := q }
  | copy {slot : ℕ} {q : LFQueue.State Unit OMEClientRequest} (hemitting : f.emitting = [])
      (hat : f.rxRequests.consumer = .hasSlot slot)
      (hq : popStep (maxClientUpdates B) f.rxRequests = some q) :
      SharedMoves stray f (.act .takeRequest)
        { f with rxRequests := q, value := some (f.rxRequests.queue slot) }
  | handle {r : OMEClientRequest} {e : MatchingEngine B} {calls : List Emission}
      {q : LFQueue.State Unit OMEClientRequest} (hemitting : f.emitting = [])
      (hat : f.rxRequests.consumer = .advanced) (hvalue : f.value = some r)
      (hcall : f.engine.handleClientRequest stray r = .ok (e, calls))
      (hq : popStep (maxClientUpdates B) f.rxRequests = some q) :
      SharedMoves stray f (.act .takeRequest)
        { f with rxRequests := q, engine := e, emitting := calls, value := none }
  | respondTo {r : OMEClientResponse} {cs : List Emission}
      {q : LFQueue.State Unit OMEClientResponse} (hemitting : f.emitting = .response r :: cs)
      (hq : pushStep (maxClientUpdates B) r f.txResponses = some q) :
      SharedMoves stray f (.act .emit) { f with
        txResponses := q
        emitting := if q.producer () = .idle then cs else .response r :: cs }
  | update {u : OMEMarketUpdate} {cs : List Emission}
      {q : LFQueue.State Unit OMEMarketUpdate} (hemitting : f.emitting = .update u :: cs)
      (hq : pushStep (maxMarketUpdates B) u f.txMarketUpdates = some q) :
      SharedMoves stray f (.act .emit) { f with
        txMarketUpdates := q
        emitting := if q.producer () = .idle then cs else .update u :: cs }
  | popUpdate {q : LFQueue.State Unit OMEMarketUpdate}
      (hq : popStep (maxMarketUpdates B) f.txMarketUpdates = some q) :
      SharedMoves stray f (.act .popUpdate) { f with txMarketUpdates := q }

section moves

variable {B : Build} {stray : Ticker → ℕ → Qty} {f f' : SharedExchange B} {a : SharedAction}

/-- `read` taken apart. -/
theorem SharedExchange.read_ok (h : f.read = some f') : SharedMoves stray f .read f' := by
  unfold SharedExchange.read at h
  split at h
  · rename_i hpoint hidle
    obtain ⟨q, hq, rfl⟩ := Option.map_eq_some_iff.mp h
    refine .beginRead hpoint hidle ?_
    simp only [popStep, hidle, Consumer.nextStep]
    exact hq
  · rename_i hpoint hat
    obtain ⟨q, hq, rfl⟩ := Option.map_eq_some_iff.mp h
    refine .pickElement hpoint hat ?_
    simp only [popStep, hat, Consumer.nextStep]
    exact hq
  · rename_i slot hpoint hat
    split at h
    · rename_i hpos
      cases h
      exact .size hpoint hat hpos
    · rename_i hzero
      obtain ⟨q, hq, rfl⟩ := Option.map_eq_some_iff.mp h
      exact .letGo hpoint hat hzero hq
  · cases h

/-- `takeRequest` taken apart. -/
theorem SharedExchange.takeRequest_ok (hemitting : f.emitting = [])
    (h : f.takeRequest stray = some f') : SharedMoves stray f (.act .takeRequest) f' := by
  obtain ⟨q, hq, hrest⟩ := Option.bind_eq_some_iff.mp h
  split at hrest
  · rename_i slot hat
    cases hrest
    exact .copy hemitting hat hq
  · rename_i hat
    obtain ⟨r, hvalue, hrest⟩ := Option.bind_eq_some_iff.mp hrest
    obtain ⟨⟨e, calls⟩, hcall, hrest⟩ := Option.bind_eq_some_iff.mp hrest
    cases hrest
    exact .handle hemitting hat hvalue (toOption_eq_some.mp hcall) hq
  · rename_i hunread hcounted
    cases hrest
    exact .pop hemitting hunread hcounted hq

/-- **`step` taken apart.** -/
theorem SharedExchange.step_ok (h : f.step stray a = some f') : SharedMoves stray f a f' := by
  cases a with
  | read => exact read_ok h
  | act a =>
    cases a with
    | sendAndRecv socket o =>
      simp only [SharedExchange.step] at h
      split at h
      · rename_i hpoint
        obtain ⟨⟨received, g⟩, hcall, rfl⟩ := Option.map_eq_some_iff.mp h
        exact .sendAndRecv hpoint (toOption_eq_some.mp hcall)
      · cases h
    | rxDone sorted =>
      simp only [SharedExchange.step] at h
      split at h
      · rename_i hcond
        cases h
        exact .rxDone hcond.1 hcond.2
      · cases h
    | publish =>
      simp only [SharedExchange.step] at h
      split at h
      · rename_i r rs hpoint
        obtain ⟨q, hq, rfl⟩ := Option.map_eq_some_iff.mp h
        exact .push hpoint hq
      · rename_i hpoint
        cases h
        exact .leave hpoint
      · cases h
    | respond =>
      simp only [SharedExchange.step] at h
      split at h
      · rename_i slot hpoint hat
        obtain ⟨g, hcall, hrest⟩ := Option.bind_eq_some_iff.mp h
        obtain ⟨q, hq, hrest⟩ := Option.bind_eq_some_iff.mp hrest
        cases hrest
        exact .respond hpoint hat (toOption_eq_some.mp hcall) hq
      · cases h
    | release =>
      simp only [SharedExchange.step] at h
      split at h
      · rename_i hpoint
        obtain ⟨q, hq, rfl⟩ := Option.map_eq_some_iff.mp h
        exact .release hpoint hq
      · cases h
    | takeRequest =>
      simp only [SharedExchange.step] at h
      split at h
      · rename_i hemitting
        exact takeRequest_ok hemitting h
      · cases h
    | emit =>
      simp only [SharedExchange.step] at h
      split at h
      · cases h
      · rename_i r cs hemitting
        obtain ⟨q, hq, rfl⟩ := Option.map_eq_some_iff.mp h
        exact .respondTo hemitting hq
      · rename_i u cs hemitting
        obtain ⟨q, hq, rfl⟩ := Option.map_eq_some_iff.mp h
        exact .update hemitting hq
    | popUpdate =>
      obtain ⟨q, hq, rfl⟩ := Option.map_eq_some_iff.mp h
      exact .popUpdate hq

end moves

/-! ## What a state shows -/

/-- The phase of `Exchange`. -/
def GatewayPoint.phase : GatewayPoint → GatewayPhase
  | .publishing requests => .publishing requests
  | .releasing => .releasing
  | _ => .polling

/-- The action of `Exchange` that a step may be. -/
def SharedAction.shown : SharedAction → Option ExchangeAction
  | .read => none
  | .act a => some a

/-- **What a state shows** of the exchange. An element counts as pushed with the count, and as
popped with the count. -/
structure SharedExchange.Shows {B : Build} (f : SharedExchange B) (x : Exchange B) : Prop where
  gateway : f.gateway = x.gateway
  phase : f.point.phase = x.phase
  engine : f.engine = x.engine
  emitting : f.emitting = x.emitting
  rxRequests : Holds (maxClientUpdates B) f.rxRequests x.rxRequests
  txResponses : Holds (maxClientUpdates B) f.txResponses x.outputs.txResponses
  txMarketUpdates : Holds (maxMarketUpdates B) f.txMarketUpdates x.outputs.txMarketUpdates
  /-- A request under way is the first one left to push. -/
  publishing : ∀ r, (f.rxRequests.producer ()).value = some r →
    f.point.phase.requests.head? = some r
  /-- A response under way is the next call. -/
  responding : ∀ r, (f.txResponses.producer ()).value = some r →
    f.emitting.head? = some (.response r)
  /-- An update under way is the next call. -/
  updating : ∀ u, (f.txMarketUpdates.producer ()).value = some u →
    f.emitting.head? = some (.update u)
  /-- What `pop` has read is the first request. -/
  value : f.rxRequests.consumer.uncounted = 1 → f.value = x.rxRequests.items.head?
  /-- The gateway releases a response it has read. -/
  releasing : f.point = .releasing → f.txResponses.consumer ≠ .idle

/-- A new exchange shows a new one. -/
theorem shows_create (B : Build) : (SharedExchange.create B).Shows (.create B) where
  gateway := rfl
  phase := rfl
  engine := rfl
  emitting := rfl
  rxRequests := holds_init _ _
  txResponses := holds_init _ _
  txMarketUpdates := holds_init _ _
  publishing := by rintro r ⟨⟩
  responding := by rintro r ⟨⟩
  updating := by rintro u ⟨⟩
  value := by rintro ⟨⟩
  releasing := by rintro ⟨⟩

section shows

variable {B : Build} {stray : Ticker → ℕ → Qty} {f f' : SharedExchange B} {x x' : Exchange B}
  {a : SharedAction}

namespace SharedExchange

/-! ### The gateway -/

/-- A step of `push` in `sequenceAndPublish`. -/
theorem Shows.push (h : f.Shows x) {r : OMEClientRequest} {rs : List OMEClientRequest}
    (hpoint : f.point = .publishing (r :: rs)) {q : LFQueue.State Unit OMEClientRequest}
    (hq : pushStep (maxClientUpdates B) r f.rxRequests = some q) :
    q.consumer = f.rxRequests.consumer ∧
      (q.producer () ≠ .idle ∧ (q.producer ()).ahead < (f.rxRequests.producer ()).ahead ∧
          { f with rxRequests := q, point := .publishing (r :: rs) }.Shows x ∨
        q.producer () = .idle ∧
          { f with rxRequests := q, point := .publishing rs }.Shows
            { x with phase := .publishing rs, rxRequests := x.rxRequests.push r }) := by
  have hvalue : ∀ v, (f.rxRequests.producer ()).value = some v → v = r := by
    intro v hv
    have hfirst := h.publishing v hv
    rw [hpoint] at hfirst
    exact (Option.some.inj hfirst).symm
  obtain ⟨hconsumer, ⟨hsome, hahead, hholds⟩ | ⟨hidle, hholds⟩⟩ := h.rxRequests.pushStep hvalue hq
  · refine ⟨hconsumer, .inl ⟨?_, hahead, ?_⟩⟩
    · intro hidle
      rw [hidle] at hsome
      cases hsome
    · exact { h with
        phase := by rw [← h.phase, hpoint]
        rxRequests := hholds
        publishing := fun v hv => hsome.symm.trans hv
        value := by
          rw [hconsumer]
          exact h.value
        releasing := by rintro ⟨⟩ }
  · refine ⟨hconsumer, .inr ⟨hidle, ?_⟩⟩
    exact { h with
      phase := rfl
      rxRequests := hholds
      publishing := by
        intro v hv
        rw [hidle] at hv
        cases hv
      value := by
        intro hread
        rw [hconsumer] at hread
        have hne : x.rxRequests.items ≠ [] := by
          intro hnil
          have hle := h.rxRequests.uncounted_le
          rw [hread, hnil] at hle
          exact absurd hle (by simp)
        rw [Fifo.Queue.head?_push hne]
        exact h.value hread
      releasing := by rintro ⟨⟩ }

/-- No push is under way when the gateway's thread is elsewhere. -/
theorem Shows.noPush (h : f.Shows x) (hnone : f.point.phase.requests = [])
    (rs : List OMEClientRequest) :
    ∀ r, (f.rxRequests.producer ()).value = some r → rs.head? = some r := by
  intro r hr
  have hfirst := h.publishing r hr
  rw [hnone] at hfirst
  cases hfirst

/-- The gateway goes on outside of the loop over the requests. -/
theorem Shows.goOn (h : f.Shows x) (hnone : f.point.phase.requests = []) (g : OrderGatewayServer B)
    {point : GatewayPoint} (hpoint : point ≠ .releasing) :
    { f with gateway := g, point := point }.Shows { x with gateway := g, phase := point.phase } :=
  { h with
    gateway := rfl
    phase := rfl
    publishing := h.noPush hnone _
    releasing := fun heq => absurd heq hpoint }

/-- A step of `getNextToRead`, or of the test of `size()`. -/
theorem Shows.read (h : f.Shows x) (hm : SharedMoves stray f .read f') : f'.Shows x := by
  cases hm with
  | @beginRead q hpoint hidle hq =>
    obtain ⟨hproducer, hpops⟩ := h.txResponses.popStep hq
    have hholds : Holds (maxClientUpdates B) q x.outputs.txResponses := by
      cases hpops with
      | empty _ hsame => exact hsame ▸ h.txResponses
      | goOn _ _ _ _ _ hholds => exact hholds
      | read hat => exact absurd hidle (by simp [hat])
      | finish hat => exact absurd hidle (by simp [hat])
    have hphase : x.phase = .polling := by rw [← h.phase, hpoint]; rfl
    exact { h with
      phase := by split <;> exact hphase.symm
      txResponses := hholds
      publishing := h.noPush (by rw [hpoint]; rfl) _
      responding := by
        rw [hproducer]
        exact h.responding
      releasing := by split <;> rintro ⟨⟩ }
  | @pickElement q hpoint hat hq =>
    obtain ⟨hproducer, hpops⟩ := h.txResponses.popStep hq
    have hholds : Holds (maxClientUpdates B) q x.outputs.txResponses := by
      cases hpops with
      | empty hidle => exact absurd hat (by simp [hidle])
      | goOn _ _ _ _ _ hholds => exact hholds
      | read hread => exact absurd hat (by simp [hread])
      | finish hadvanced => exact absurd hat (by simp [hadvanced])
    exact { h with
      txResponses := hholds
      responding := by
        rw [hproducer]
        exact h.responding
      releasing := by
        rw [hpoint]
        rintro ⟨⟩ }
  | size hpoint hat hpos =>
    have hphase := h.phase
    rw [hpoint] at hphase
    exact { h with
      phase := hphase
      publishing := h.noPush (by rw [hpoint]; rfl) _
      releasing := by rintro ⟨⟩ }
  | letGo hpoint hat hzero hq =>
    -- the count is positive as long as the gateway has a pointer
    exact absurd (h.txResponses.inv.busy (by simp [hat])) hzero

/-- The response read is the first one, and goes to its client. -/
theorem Shows.respond (stray : Ticker → ℕ → Qty) (h : f.Shows x) {slot : ℕ} {g : OrderGatewayServer B}
    {q : LFQueue.State Unit OMEClientResponse} (hpoint : f.point = .sending)
    (hat : f.txResponses.consumer = .hasSlot slot)
    (hcall : f.gateway.sendResponse (f.txResponses.queue slot) = .ok g)
    (hq : popStep (maxClientUpdates B) f.txResponses = some q) :
    q.consumer = .copied slot ∧
      x.step stray .respond = some { x with gateway := g, phase := .releasing } ∧
        { f with gateway := g, txResponses := q, point := .releasing }.Shows
          { x with gateway := g, phase := .releasing } := by
  have hphase : x.phase = .polling := by rw [← h.phase, hpoint]; rfl
  obtain ⟨hproducer, hpops⟩ := h.txResponses.popStep hq
  cases hpops with
  | empty hidle => exact absurd hat (by simp [hidle])
  | goOn _ _ hunread => exact absurd hat (hunread slot)
  | finish hadvanced => exact absurd hat (by simp [hadvanced])
  | @read slot' rest hread hitems hcopied hholds =>
    cases hat.symm.trans hread
    refine ⟨hcopied, ?_, ?_⟩
    · rw [h.gateway] at hcall
      simp [Exchange.step, hphase, hitems, hcall, Except.toOption]
    · exact { h with
        gateway := rfl
        phase := rfl
        txResponses := hholds
        publishing := h.noPush (by rw [hpoint]; rfl) _
        responding := by
          rw [hproducer]
          exact h.responding
        releasing := by
          rw [hcopied]
          rintro - ⟨⟩ }

/-- A step of `updateReadIndex`. -/
theorem Shows.release (h : f.Shows x) {q : LFQueue.State Unit OMEClientResponse}
    (hpoint : f.point = .releasing) (hq : popStep (maxClientUpdates B) f.txResponses = some q) :
    q.producer = f.txResponses.producer ∧
      (q.consumer ≠ .idle ∧ q.consumer.ahead < f.txResponses.consumer.ahead ∧
          { f with txResponses := q, point := .releasing }.Shows x ∨
        q.consumer = .idle ∧
          { f with txResponses := q, point := .polling }.Shows
            { x with phase := .polling, outputs := x.outputs.act .popResponse }) := by
  have hbusy := h.releasing hpoint
  have hnone : f.point.phase.requests = [] := by rw [hpoint]; rfl
  have hphase := h.phase
  rw [hpoint] at hphase
  obtain ⟨hproducer, hpops⟩ := h.txResponses.popStep hq
  refine ⟨hproducer, ?_⟩
  have hgoesOn : q.consumer ≠ .idle → Holds (maxClientUpdates B) q x.outputs.txResponses →
      { f with txResponses := q, point := .releasing }.Shows x := fun hne hholds =>
    { h with
      phase := hphase
      txResponses := hholds
      publishing := h.noPush hnone _
      responding := by
        rw [hproducer]
        exact h.responding
      releasing := fun _ => hne }
  cases hpops with
  | empty hidle => exact absurd hidle hbusy
  | goOn hcontinues _ _ _ hahead hholds => exact .inl ⟨hcontinues, hahead, hgoesOn hcontinues hholds⟩
  | read hread _ hcopied hholds =>
    have hcontinues : q.consumer ≠ .idle := by simp [hcopied]
    exact .inl ⟨hcontinues, by simp [hread, hcopied, Consumer.ahead], hgoesOn hcontinues hholds⟩
  | finish _ hidle hholds =>
    refine .inr ⟨hidle, ?_⟩
    exact { h with
      phase := rfl
      txResponses := hholds
      publishing := h.noPush hnone _
      responding := by
        rw [hproducer]
        exact h.responding
      releasing := by rintro ⟨⟩ }

/-! ### The engine -/

/-- A step of `pop` before it returns a request. -/
theorem Shows.pop (h : f.Shows x) {q : LFQueue.State Unit OMEClientRequest}
    (hunread : ∀ slot, f.rxRequests.consumer ≠ .hasSlot slot)
    (hcounted : f.rxRequests.consumer ≠ .advanced)
    (hq : popStep (maxClientUpdates B) f.rxRequests = some q) :
    q.producer = f.rxRequests.producer ∧
      (x.rxRequests.items ≠ [] → q.consumer.ahead < f.rxRequests.consumer.ahead) ∧
        { f with rxRequests := q }.Shows x := by
  obtain ⟨hproducer, hpops⟩ := h.rxRequests.popStep hq
  cases hpops with
  | empty hidle hsame hitems =>
    rw [hsame]
    exact ⟨rfl, fun hne => absurd hitems hne, h⟩
  | read hat => exact absurd hat (hunread _)
  | finish hat => exact absurd hat hcounted
  | goOn hcontinues huncounted _ _ hahead hholds =>
    refine ⟨hproducer, fun _ => hahead, ?_⟩
    exact { h with
      rxRequests := hholds
      publishing := by
        rw [hproducer]
        exact h.publishing
      value := by
        rw [huncounted]
        exact h.value }

/-- `pop` reads the first request. -/
theorem Shows.copy (h : f.Shows x) {slot : ℕ} {q : LFQueue.State Unit OMEClientRequest}
    (hat : f.rxRequests.consumer = .hasSlot slot)
    (hq : popStep (maxClientUpdates B) f.rxRequests = some q) :
    q.producer = f.rxRequests.producer ∧ q.consumer.ahead < f.rxRequests.consumer.ahead ∧
      { f with rxRequests := q, value := some (f.rxRequests.queue slot) }.Shows x := by
  obtain ⟨hproducer, hpops⟩ := h.rxRequests.popStep hq
  cases hpops with
  | empty hidle => exact absurd hat (by simp [hidle])
  | goOn _ _ hunread => exact absurd hat (hunread slot)
  | finish hadvanced => exact absurd hat (by simp [hadvanced])
  | @read slot' rest hread hitems hcopied hholds =>
    cases hat.symm.trans hread
    refine ⟨hproducer, by simp [hat, hcopied, Consumer.ahead], ?_⟩
    exact { h with
      rxRequests := hholds
      publishing := by
        rw [hproducer]
        exact h.publishing
      value := by
        rw [hitems]
        exact fun _ => rfl }

/-- `pop` returns the first request, and the engine handles it. -/
theorem Shows.handle (h : f.Shows x) {r : OMEClientRequest} {e : MatchingEngine B}
    {calls : List Emission} {q : LFQueue.State Unit OMEClientRequest} (hemitting : f.emitting = [])
    (hat : f.rxRequests.consumer = .advanced) (hvalue : f.value = some r)
    (hcall : f.engine.handleClientRequest stray r = .ok (e, calls))
    (hq : popStep (maxClientUpdates B) f.rxRequests = some q) :
    q.producer = f.rxRequests.producer ∧ q.consumer = .idle ∧
      x.step stray .takeRequest =
          some { x with engine := e, emitting := calls, rxRequests := x.rxRequests.pop } ∧
        { f with rxRequests := q, engine := e, emitting := calls, value := none }.Shows
          { x with engine := e, emitting := calls, rxRequests := x.rxRequests.pop } := by
  have hfirst := h.value (by rw [hat]; rfl)
  rw [hvalue] at hfirst
  obtain ⟨rest, hitems⟩ : ∃ rest, x.rxRequests.items = r :: rest :=
    List.head?_eq_some_iff.mp hfirst.symm
  have hnone : x.emitting = [] := h.emitting.symm.trans hemitting
  obtain ⟨hproducer, hpops⟩ := h.rxRequests.popStep hq
  cases hpops with
  | empty hidle => exact absurd hat (by simp [hidle])
  | goOn _ _ _ hcounted => exact absurd hat hcounted
  | read hread => exact absurd hat (by simp [hread])
  | finish _ hidle hholds =>
    refine ⟨hproducer, hidle, ?_, ?_⟩
    · rw [h.engine] at hcall
      simp [Exchange.step, hnone, hitems, hcall, Except.toOption]
    · exact { h with
        engine := rfl
        emitting := rfl
        rxRequests := hholds
        publishing := by
          rw [hproducer]
          exact h.publishing
        responding := by
          intro v hv
          have hnext := h.responding v hv
          rw [hemitting] at hnext
          cases hnext
        updating := by
          intro v hv
          have hnext := h.updating v hv
          rw [hemitting] at hnext
          cases hnext
        value := by
          rw [hidle]
          rintro ⟨⟩ }

/-- A step of `push` in `dispatchClientResponse`. -/
theorem Shows.respondTo (h : f.Shows x) {r : OMEClientResponse} {cs : List Emission}
    {q : LFQueue.State Unit OMEClientResponse} (hemitting : f.emitting = .response r :: cs)
    (hq : pushStep (maxClientUpdates B) r f.txResponses = some q) :
    q.consumer = f.txResponses.consumer ∧
      (q.producer () ≠ .idle ∧ (q.producer ()).ahead < (f.txResponses.producer ()).ahead ∧
          { f with txResponses := q, emitting := .response r :: cs }.Shows x ∨
        q.producer () = .idle ∧
          { f with txResponses := q, emitting := cs }.Shows
            { x with emitting := cs, outputs := x.outputs.act (.call (.response r)) }) := by
  have hvalue : ∀ v, (f.txResponses.producer ()).value = some v → v = r := by
    intro v hv
    have hnext := h.responding v hv
    rw [hemitting] at hnext
    cases hnext
    rfl
  have hnone : ∀ u, (f.txMarketUpdates.producer ()).value ≠ some u := by
    intro u hu
    have hnext := h.updating u hu
    rw [hemitting] at hnext
    cases hnext
  obtain ⟨hconsumer, ⟨hsome, hahead, hholds⟩ | ⟨hidle, hholds⟩⟩ := h.txResponses.pushStep hvalue hq
  · refine ⟨hconsumer, .inl ⟨?_, hahead, ?_⟩⟩
    · intro hidle
      rw [hidle] at hsome
      cases hsome
    · exact { h with
        emitting := hemitting.symm.trans h.emitting
        txResponses := hholds
        responding := by
          intro v hv
          rw [hsome] at hv
          cases hv
          rfl
        updating := fun u hu => absurd hu (hnone u)
        releasing := by
          rw [hconsumer]
          exact h.releasing }
  · refine ⟨hconsumer, .inr ⟨hidle, ?_⟩⟩
    exact { h with
      emitting := rfl
      txResponses := hholds
      responding := by
        intro v hv
        rw [hidle] at hv
        cases hv
      updating := fun u hu => absurd hu (hnone u)
      releasing := by
        rw [hconsumer]
        exact h.releasing }

/-- A step of `push` in `publishMarketUpdate`. -/
theorem Shows.update (h : f.Shows x) {u : OMEMarketUpdate} {cs : List Emission}
    {q : LFQueue.State Unit OMEMarketUpdate} (hemitting : f.emitting = .update u :: cs)
    (hq : pushStep (maxMarketUpdates B) u f.txMarketUpdates = some q) :
    q.consumer = f.txMarketUpdates.consumer ∧
      (q.producer () ≠ .idle ∧ (q.producer ()).ahead < (f.txMarketUpdates.producer ()).ahead ∧
          { f with txMarketUpdates := q, emitting := .update u :: cs }.Shows x ∨
        q.producer () = .idle ∧
          { f with txMarketUpdates := q, emitting := cs }.Shows
            { x with emitting := cs, outputs := x.outputs.act (.call (.update u)) }) := by
  have hvalue : ∀ v, (f.txMarketUpdates.producer ()).value = some v → v = u := by
    intro v hv
    have hnext := h.updating v hv
    rw [hemitting] at hnext
    cases hnext
    rfl
  have hnone : ∀ r, (f.txResponses.producer ()).value ≠ some r := by
    intro r hr
    have hnext := h.responding r hr
    rw [hemitting] at hnext
    cases hnext
  obtain ⟨hconsumer, ⟨hsome, hahead, hholds⟩ | ⟨hidle, hholds⟩⟩ :=
    h.txMarketUpdates.pushStep hvalue hq
  · refine ⟨hconsumer, .inl ⟨?_, hahead, ?_⟩⟩
    · intro hidle
      rw [hidle] at hsome
      cases hsome
    · exact { h with
        emitting := hemitting.symm.trans h.emitting
        txMarketUpdates := hholds
        responding := fun r hr => absurd hr (hnone r)
        updating := by
          intro v hv
          rw [hsome] at hv
          cases hv
          rfl }
  · refine ⟨hconsumer, .inr ⟨hidle, ?_⟩⟩
    exact { h with
      emitting := rfl
      txMarketUpdates := hholds
      responding := fun r hr => absurd hr (hnone r)
      updating := by
        intro v hv
        rw [hidle] at hv
        cases hv }

/-! ### The publisher of market data -/

/-- A step of `pop`. -/
theorem Shows.popUpdate (h : f.Shows x) {q : LFQueue.State Unit OMEMarketUpdate}
    (hq : popStep (maxMarketUpdates B) f.txMarketUpdates = some q) :
    q.producer = f.txMarketUpdates.producer ∧
      (q.consumer.ahead < f.txMarketUpdates.consumer.ahead ∧
          { f with txMarketUpdates := q }.Shows x ∨
        q.consumer = .idle ∧
          { f with txMarketUpdates := q }.Shows
            { x with outputs := x.outputs.act .popUpdate }) := by
  obtain ⟨hproducer, hpops⟩ := h.txMarketUpdates.popStep hq
  refine ⟨hproducer, ?_⟩
  have hupdating : ∀ u, (q.producer ()).value = some u → f.emitting.head? = some (.update u) := by
    rw [hproducer]
    exact h.updating
  cases hpops with
  | empty hidle hsame hitems =>
    have hnothing : x.outputs.txMarketUpdates.pop = x.outputs.txMarketUpdates :=
      Fifo.Queue.pop_of_nil hitems
    refine .inr ⟨by rw [hsame]; exact hidle, ?_⟩
    exact { h with
      txMarketUpdates := by
        show Holds _ q x.outputs.txMarketUpdates.pop
        rw [hsame, hnothing]
        exact h.txMarketUpdates
      updating := hupdating }
  | goOn _ _ _ _ hahead hholds =>
    exact .inl ⟨hahead, { h with txMarketUpdates := hholds, updating := hupdating }⟩
  | read hread _ hcopied hholds =>
    refine .inl ⟨by simp [hread, hcopied, Consumer.ahead], ?_⟩
    exact { h with txMarketUpdates := hholds, updating := hupdating }
  | finish _ hidle hholds =>
    exact .inr ⟨hidle, { h with txMarketUpdates := hholds, updating := hupdating }⟩

/-! ### Every step -/

/-- **A step shows nothing, or a step of `Exchange`.** -/
theorem Shows.step (h : f.Shows x) (hstep : f.step stray a = some f') :
    f'.Shows x ∨ ∃ b x', a.shown = some b ∧ x.step stray b = some x' ∧ f'.Shows x' := by
  rcases a with - | b
  · exact .inl (h.read (step_ok hstep))
  cases step_ok hstep with
  | @sendAndRecv socket o received g hpoint hcall =>
    have hphase : x.phase = .polling := by rw [← h.phase, hpoint]; rfl
    have hkeeps : f.point ≠ .releasing := by simp [hpoint]
    refine .inr ⟨_, _, rfl, ?_, h.goOn (by rw [hpoint]; rfl) g hkeeps⟩
    rw [h.gateway] at hcall
    simp [Exchange.step, hphase, hcall, Except.toOption, h.phase]
  | @rxDone sorted hpoint hsort =>
    have hphase : x.phase = .polling := by rw [← h.phase, hpoint]; rfl
    have hloop : GatewayPoint.publishing (f.gateway.fifo.sequenceAndPublish sorted).2 ≠ .releasing := by
      simp
    refine .inr ⟨_, _, rfl, ?_, h.goOn (by rw [hpoint]; rfl) _ hloop⟩
    rw [h.gateway] at hsort ⊢
    simp [Exchange.step, hphase, hsort, GatewayPoint.phase]
  | @push r rs q hpoint hq =>
    have hphase : x.phase = .publishing (r :: rs) := by rw [← h.phase, hpoint]; rfl
    obtain ⟨-, ⟨hbusy, -, hshows⟩ | ⟨hidle, hshows⟩⟩ := h.push hpoint hq
    · rw [if_neg hbusy]
      exact .inl hshows
    · rw [if_pos hidle]
      refine .inr ⟨_, _, rfl, ?_, hshows⟩
      simp [Exchange.step, hphase]
  | leave hpoint =>
    have hphase : x.phase = .publishing [] := by rw [← h.phase, hpoint]; rfl
    have hleft : GatewayPoint.polling ≠ .releasing := by simp
    refine .inr ⟨_, _, rfl, ?_, h.goOn (by rw [hpoint]; rfl) f.gateway hleft⟩
    simp [Exchange.step, hphase, h.gateway, GatewayPoint.phase]
  | respond hpoint hat hcall hq =>
    obtain ⟨-, hrespond, hshows⟩ := h.respond stray hpoint hat hcall hq
    exact .inr ⟨_, _, rfl, hrespond, hshows⟩
  | release hpoint hq =>
    have hphase : x.phase = .releasing := by rw [← h.phase, hpoint]; rfl
    obtain ⟨-, ⟨hbusy, -, hshows⟩ | ⟨hidle, hshows⟩⟩ := h.release hpoint hq
    · rw [if_neg hbusy]
      exact .inl hshows
    · rw [if_pos hidle]
      refine .inr ⟨_, _, rfl, ?_, hshows⟩
      simp [Exchange.step, hphase]
  | pop hemitting hunread hcounted hq => exact .inl (h.pop hunread hcounted hq).2.2
  | copy hemitting hat hq => exact .inl (h.copy hat hq).2.2
  | handle hemitting hat hvalue hcall hq =>
    obtain ⟨-, -, htake, hshows⟩ := h.handle hemitting hat hvalue hcall hq
    exact .inr ⟨_, _, rfl, htake, hshows⟩
  | respondTo hemitting hq =>
    have hnext := h.emitting.symm.trans hemitting
    obtain ⟨-, ⟨hbusy, -, hshows⟩ | ⟨hidle, hshows⟩⟩ := h.respondTo hemitting hq
    · rw [if_neg hbusy]
      exact .inl hshows
    · rw [if_pos hidle]
      refine .inr ⟨_, _, rfl, ?_, hshows⟩
      simp [Exchange.step, hnext]
  | update hemitting hq =>
    have hnext := h.emitting.symm.trans hemitting
    obtain ⟨-, ⟨hbusy, -, hshows⟩ | ⟨hidle, hshows⟩⟩ := h.update hemitting hq
    · rw [if_neg hbusy]
      exact .inl hshows
    · rw [if_pos hidle]
      refine .inr ⟨_, _, rfl, ?_, hshows⟩
      simp [Exchange.step, hnext]
  | popUpdate hq =>
    obtain ⟨-, ⟨-, hshows⟩ | ⟨-, hshows⟩⟩ := h.popUpdate hq
    · exact .inl hshows
    · exact .inr ⟨_, _, rfl, rfl, hshows⟩

end SharedExchange

end shows

end HftSys
