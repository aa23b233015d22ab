import HftSys.SharedExchange

/-!
# The interleavings of the queues' steps

`Exchange` lets a thread push or pop in one step. What it says of the three threads holds of them
when they take the steps of `LFQueue` one at a time, and it says no more than that.

* `exchange_simulates`: every run over the lock-free queues looks like a run of `Exchange`. No
  assertion of a queue has failed, no slot is written while the other thread has a pointer to it,
  and the response the gateway is about to send has a socket.
* `Quiet`: no thread is inside of a function of a queue. `Quiet.realizes`: from such a state every
  action of `Exchange` can be taken in small steps, and `exchange_realized`: so can every run.
-/

namespace HftSys

open Exec LFQueue

variable {B : Build} {stray : Ticker → ℕ → Qty}

/-! ## Every run over the queues is a run of the exchange -/

/-- The two threads of a queue are kept apart. -/
structure LFQueue.State.Unharmed {T : Type} (s : State Unit T) : Prop where
  /-- The assertion of `updateReadIndex` has not failed. -/
  notFailed : s.consumer ≠ .failed
  /-- The producer does not write a slot the consumer has a pointer to. -/
  apart : ∀ slot slot', (s.producer ()).slot = some slot → s.consumer.slot = some slot' →
    slot ≠ slot'

/-- A queue that holds the elements of a bounded one has not come to harm. -/
theorem LFQueue.Holds.unharmed {T : Type} {cap : ℕ} {s : State Unit T} {q : Fifo.Queue T}
    (h : Holds cap s q) : s.Unharmed where
  notFailed := h.inv.notFailed
  apart _ _ hwrite hread := h.solo.slots_apart h.inv hwrite hread

/-- A run over the queues shows a run of the exchange. -/
theorem SharedRuns.shows {actions : List SharedAction} {f : SharedExchange B}
    (h : SharedRuns stray actions f) :
    ∃ xs x, ExchangeRuns stray xs x ∧ xs.Sublist (actions.filterMap SharedAction.shown) ∧
      f.Shows x :=
  (runsOf_shared B stray).stutters (runsOf_exchange B stray) SharedAction.shown (shows_create B)
    (fun _ _ _ _ hshows hstep => hshows.step hstep) h

/-- **The exchange over its lock-free queues is the exchange over bounded first-in first-out
queues**: in every interleaving of the three threads, down to the accesses to the queues, the
gateway, the engine, and what has been and is still to be pushed and popped, are those of a run of
`Exchange`, whose actions are steps of the interleaving, in their order. Meanwhile no assertion of a
queue has failed, no slot is written that the other thread has a pointer to, and when the gateway is
about to send a response, its client has a socket. -/
theorem exchange_simulates {actions : List SharedAction} {f : SharedExchange B}
    (h : SharedRuns stray actions f) :
    (f.rxRequests.Unharmed ∧ f.txResponses.Unharmed ∧ f.txMarketUpdates.Unharmed) ∧
      (∀ slot, f.txResponses.consumer = .hasSlot slot →
        f.gateway.mapClientToSocket (f.txResponses.queue slot).clientId ≠ none) ∧
      ∃ xs x, ExchangeRuns stray xs x ∧ xs.Sublist (actions.filterMap SharedAction.shown) ∧
        f.Shows x := by
  obtain ⟨xs, x, hruns, hsub, hshows⟩ := h.shows
  refine ⟨⟨hshows.rxRequests.unharmed, hshows.txResponses.unharmed,
    hshows.txMarketUpdates.unharmed⟩, ?_, xs, x, hruns, hsub, hshows⟩
  intro slot hat
  obtain ⟨rest, hitems⟩ := hshows.txResponses.items_eq hat
  have hfirst : f.txResponses.queue slot ∈ x.outputs.txResponses.items := by
    rw [hitems]
    exact List.mem_cons_self
  rw [hshows.gateway]
  exact hruns.addressed.txResponses _ hfirst

/-- The SELL of `sampleActions` is popped while the BUY is pushed, and the gateway gets to the first
response while the engine pushes the update. -/
def sampleInterleaving : List SharedAction :=
  [.act (.sendAndRecv 0 ⟨OGSClientRequest.image ⟨1, sampleSell⟩, 5, none⟩),
    .act (.sendAndRecv 1 ⟨OGSClientRequest.image ⟨1, sampleBuy⟩, 6, none⟩),
    .act (.rxDone [⟨5, sampleSell⟩, ⟨6, sampleBuy⟩])] ++
  List.replicate 6 (.act .publish) ++
  (List.replicate 6 [.act .takeRequest, .act .publish]).flatten ++ [.act .publish] ++
  List.replicate 6 (.act .emit) ++ (List.replicate 3 [.act .emit, .read]).flatten

/-- The gateway is about to send the first response, and the engine is inside of `push`. -/
theorem exchange_simulates_sample :
    ∃ f : SharedExchange .production, f.point = .sending ∧ f.txResponses.consumer = .hasSlot 0 ∧
      f.txMarketUpdates.producer () ≠ .idle ∧ f.rxRequests.popped = [sampleSell] ∧
      f.rxRequests.numElements = 1 ∧
      f.gateway.mapClientToSocket (f.txResponses.queue 0).clientId ≠ none ∧
      ∃ xs x, ExchangeRuns (fun _ _ => 0) xs x ∧ f.Shows x := by
  have hrun : ((sampleInterleaving.foldlM (SharedExchange.step fun _ _ => 0)
      (.create .production)).map fun f =>
        (decide (f.point = .sending ∧ f.txResponses.consumer = .hasSlot 0 ∧
          f.txMarketUpdates.producer () ≠ .idle), f.rxRequests.popped,
          f.rxRequests.numElements)) = some (true, [sampleSell], 1) := by
    decide +kernel
  obtain ⟨f, hf, hat⟩ := Option.map_eq_some_iff.mp hrun
  simp only [Prod.mk.injEq, decide_eq_true_eq] at hat
  obtain ⟨⟨hpoint, hconsumer, hproducer⟩, hpopped, hcount⟩ := hat
  obtain ⟨-, hsocket, xs, x, hruns, -, hshows⟩ := exchange_simulates hf
  exact ⟨f, hpoint, hconsumer, hproducer, hpopped, hcount, hsocket 0 hconsumer, xs, x, hruns,
    hshows⟩

/-! ## Every run of the exchange is a run over the queues -/

/-- Where the gateway's thread is when it is not inside of a function of `txResponses`, or where it
is about to call `updateReadIndex`. -/
def GatewayPoint.Outside : GatewayPoint → Consumer → Prop
  | .polling, .idle => True
  | .publishing _, .idle => True
  | .releasing, .copied _ => True
  | _, _ => False

/-- No thread is inside of a function of a queue. -/
structure SharedExchange.Quiet (f : SharedExchange B) : Prop where
  gateway : f.point.Outside f.txResponses.consumer
  publishing : f.rxRequests.producer () = .idle
  taking : f.rxRequests.consumer = .idle
  responding : f.txResponses.producer () = .idle
  updating : f.txMarketUpdates.producer () = .idle
  reading : f.txMarketUpdates.consumer = .idle

/-- The steps of a thread may lead from a quiet state that shows `x` to one that shows `x'`, and `a`
is one of them. -/
def SharedExchange.Realizes (stray : Ticker → ℕ → Qty) (f : SharedExchange B) (a : ExchangeAction)
    (x' : Exchange B) : Prop :=
  ∃ actions f', Runs.Path (fun f a f' => SharedExchange.step stray f a = some f') f actions f' ∧
    a ∈ actions.filterMap SharedAction.shown ∧ f'.Shows x' ∧ f'.Quiet

section quiet

variable {f f' : SharedExchange B} {x x' : Exchange B} {a : ExchangeAction}

namespace SharedExchange

/-- A step that completes the action. -/
theorem Realizes.of_step (hstep : f.step stray (.act a) = some f') (hshows : f'.Shows x')
    (hquiet : f'.Quiet) : f.Realizes stray a x' :=
  ⟨[.act a], f', .single hstep, List.mem_singleton_self a, hshows, hquiet⟩

/-- A step of the thread is repeated until the action is complete. -/
theorem Realizes.of_rank {P : SharedExchange B → Prop} (rank : SharedExchange B → ℕ)
    (hnext : ∀ f, P f → ∃ f', f.step stray (.act a) = some f' ∧
      (P f' ∧ rank f' < rank f ∨ f'.Shows x' ∧ f'.Quiet)) (h : P f) : f.Realizes stray a x' := by
  have hrepeat := @Runs.Path.exists_replicate _ _
    (fun f a f' => SharedExchange.step stray f a = some f') (.act a) P
    (fun f' => f'.Shows x' ∧ f'.Quiet) rank hnext f h
  obtain ⟨n, f', hpath, hshows, hquiet⟩ := hrepeat
  refine ⟨_, f', hpath, ?_, hshows, hquiet⟩
  rw [List.replicate_succ]
  exact List.mem_cons_self

/-- The gateway is outside of its loops when its phase is. -/
theorem Quiet.polling (hquiet : f.Quiet) (h : f.Shows x) (hphase : x.phase = .polling) :
    f.point = .polling ∧ f.txResponses.consumer = .idle := by
  have hout := hquiet.gateway
  have hsame := h.phase.trans hphase
  cases hpoint : f.point with
  | polling =>
    rw [hpoint] at hout
    cases hconsumer : f.txResponses.consumer with
    | idle => exact ⟨rfl, rfl⟩
    | _ => rw [hconsumer] at hout; exact hout.elim
  | publishing rs => rw [hpoint] at hsame; cases hsame
  | releasing => rw [hpoint] at hsame; cases hsame
  | reading => rw [hpoint] at hout; exact hout.elim
  | sending => rw [hpoint] at hout; exact hout.elim

/-- The gateway is in the loop over the requests when its phase is. -/
theorem Quiet.loop (hquiet : f.Quiet) (h : f.Shows x) {rs : List OMEClientRequest}
    (hphase : x.phase = .publishing rs) :
    f.point = .publishing rs ∧ f.txResponses.consumer = .idle := by
  have hout := hquiet.gateway
  have hsame := h.phase.trans hphase
  cases hpoint : f.point with
  | publishing rs' =>
    rw [hpoint] at hout hsame
    cases hsame
    cases hconsumer : f.txResponses.consumer with
    | idle => exact ⟨rfl, rfl⟩
    | _ => rw [hconsumer] at hout; exact hout.elim
  | _ => rw [hpoint] at hsame; cases hsame

/-- The gateway has a response to release when its phase says so. -/
theorem Quiet.releasing (h : f.Shows x) (hphase : x.phase = .releasing) : f.point = .releasing := by
  have hsame := h.phase.trans hphase
  cases hpoint : f.point with
  | releasing => rfl
  | _ => rw [hpoint] at hsame; cases hsame

/-! ### One action -/

/-- A request is pushed in the steps of `push`. -/
theorem Quiet.push (hquiet : f.Quiet) (h : f.Shows x) {r : OMEClientRequest}
    {rs : List OMEClientRequest} (hphase : x.phase = .publishing (r :: rs)) :
    f.Realizes stray .publish
      { x with phase := .publishing rs, rxRequests := x.rxRequests.push r } := by
  obtain ⟨hpoint, hidle⟩ := hquiet.loop h hphase
  refine Realizes.of_rank (fun f' => (f'.rxRequests.producer ()).ahead)
    (P := fun f' => f'.Shows x ∧ f'.point = .publishing (r :: rs) ∧
      f'.rxRequests.consumer = .idle ∧ f'.txResponses = f.txResponses ∧
      f'.txMarketUpdates = f.txMarketUpdates) ?_ ⟨h, hpoint, hquiet.taking, rfl, rfl⟩
  rintro f' ⟨hshows, hloop, htaking, hresponses, hupdates⟩
  obtain ⟨q, hq⟩ := exists_pushStep (maxClientUpdates B) r f'.rxRequests
  refine ⟨_, by simp only [SharedExchange.step, hloop, hq, Option.map_some]; rfl, ?_⟩
  obtain ⟨hconsumer, ⟨hbusy, hahead, hshows'⟩ | ⟨hdone, hshows'⟩⟩ := hshows.push hloop hq
  · rw [if_neg hbusy]
    exact .inl ⟨⟨hshows', rfl, hconsumer.trans htaking, hresponses, hupdates⟩, hahead⟩
  · rw [if_pos hdone]
    refine .inr ⟨hshows', ?_⟩
    exact {
      gateway := by
        show GatewayPoint.Outside (.publishing rs) f'.txResponses.consumer
        rw [hresponses, hidle]
        trivial
      publishing := hdone
      taking := hconsumer.trans htaking
      responding := hresponses.symm ▸ hquiet.responding
      updating := hupdates.symm ▸ hquiet.updating
      reading := hupdates.symm ▸ hquiet.reading }

/-- A response is sent after the steps of `getNextToRead`. -/
theorem Quiet.respond (hquiet : f.Quiet) (h : f.Shows x) {res : OMEClientResponse}
    {rest : List OMEClientResponse} {g : OrderGatewayServer B} (hphase : x.phase = .polling)
    (hhead : x.outputs.txResponses.items = res :: rest)
    (hcall : x.gateway.sendResponse res = .ok g) :
    f.Realizes stray .respond { x with gateway := g, phase := .releasing } := by
  obtain ⟨hpoint, hidle⟩ := hquiet.polling h hphase
  have hpos : 0 < f.txResponses.numElements := by
    rw [h.txResponses.numElements_eq, hhead]
    exact Nat.succ_pos _
  -- the gateway finds an element, points to it, and finds one again
  let slot := f.txResponses.nextIndexToRead
  let f₁ : SharedExchange B :=
    { f with txResponses := { f.txResponses with consumer := .hasElement }, point := .reading }
  let f₂ : SharedExchange B :=
    { f with txResponses := { f.txResponses with consumer := .hasSlot slot }, point := .reading }
  let f₃ : SharedExchange B :=
    { f with txResponses := { f.txResponses with consumer := .hasSlot slot }, point := .sending }
  have hstep₁ : f.step stray .read = some f₁ := by
    simp [f₁, SharedExchange.step, SharedExchange.read, LFQueue.step, hpoint, hidle, hpos]
  have hstep₂ : f₁.step stray .read = some f₂ := by
    simp [f₁, f₂, slot, SharedExchange.step, SharedExchange.read, LFQueue.step]
  have hstep₃ : f₂.step stray .read = some f₃ := by
    simp [f₂, f₃, SharedExchange.step, SharedExchange.read, hpos]
  have hshows : f₃.Shows x :=
    ((h.read (step_ok hstep₁)).read (step_ok hstep₂)).read (step_ok hstep₃)
  have hat : f₃.txResponses.consumer = .hasSlot slot := rfl
  obtain ⟨rest', hfirst⟩ := hshows.txResponses.items_eq hat
  have hres : f₃.txResponses.queue slot = res := (List.cons.inj (hfirst.symm.trans hhead)).1
  have hsend : f₃.gateway.sendResponse (f₃.txResponses.queue slot) = .ok g := by
    rw [hres, hshows.gateway]
    exact hcall
  obtain ⟨q, hq⟩ := hshows.txResponses.exists_popStep
  obtain ⟨hcopied, -, hshows'⟩ := hshows.respond stray rfl hat hsend hq
  have hproducer : q.producer = f.txResponses.producer := (hshows.txResponses.popStep hq).1
  have hstep₄ : f₃.step stray (.act .respond) =
      some { f₃ with gateway := g, txResponses := q, point := .releasing } := by
    show (do
      let g ← (f₃.gateway.sendResponse (f₃.txResponses.queue slot)).toOption
      let q ← popStep (maxClientUpdates B) f₃.txResponses
      some { f₃ with gateway := g, txResponses := q, point := .releasing }) = _
    rw [hsend, hq]
    rfl
  refine ⟨[.read, .read, .read, .act .respond], _,
    ⟨f₁, hstep₁, f₂, hstep₂, f₃, hstep₃, _, hstep₄, rfl⟩, List.mem_singleton_self _, hshows', ?_⟩
  exact {
    gateway := by
      show GatewayPoint.Outside .releasing q.consumer
      rw [hcopied]
      trivial
    publishing := hquiet.publishing
    taking := hquiet.taking
    responding := (congrFun hproducer ()).trans hquiet.responding
    updating := hquiet.updating
    reading := hquiet.reading }

/-- A response is released in the steps of `updateReadIndex`. -/
theorem Quiet.release (hquiet : f.Quiet) (h : f.Shows x) (hphase : x.phase = .releasing) :
    f.Realizes stray .release
      { x with phase := .polling, outputs := x.outputs.act .popResponse } := by
  have hpoint := Quiet.releasing h hphase
  refine Realizes.of_rank (fun f' => f'.txResponses.consumer.ahead)
    (P := fun f' => f'.Shows x ∧ f'.point = .releasing ∧ f'.txResponses.producer () = .idle ∧
      f'.rxRequests = f.rxRequests ∧ f'.txMarketUpdates = f.txMarketUpdates) ?_
    ⟨h, hpoint, hquiet.responding, rfl, rfl⟩
  rintro f' ⟨hshows, hat, hresponding, hrequests, hupdates⟩
  obtain ⟨q, hq⟩ := hshows.txResponses.exists_popStep
  refine ⟨_, by simp only [SharedExchange.step, hat, hq, if_true, Option.map_some]; rfl, ?_⟩
  obtain ⟨hproducer, ⟨hbusy, hahead, hshows'⟩ | ⟨hdone, hshows'⟩⟩ := hshows.release hat hq
  · rw [if_neg hbusy]
    exact .inl ⟨⟨hshows', rfl, (congrFun hproducer ()).trans hresponding, hrequests, hupdates⟩,
      hahead⟩
  · rw [if_pos hdone]
    refine .inr ⟨hshows', ?_⟩
    exact {
      gateway := by
        show GatewayPoint.Outside .polling q.consumer
        rw [hdone]
        trivial
      publishing := hrequests.symm ▸ hquiet.publishing
      taking := hrequests.symm ▸ hquiet.taking
      responding := (congrFun hproducer ()).trans hresponding
      updating := hupdates.symm ▸ hquiet.updating
      reading := hupdates.symm ▸ hquiet.reading }

/-- A request is taken in the steps of `pop`. -/
theorem Quiet.takeRequest (hquiet : f.Quiet) (h : f.Shows x) {r : OMEClientRequest}
    {rest : List OMEClientRequest} {e : MatchingEngine B} {calls : List Emission}
    (hemitting : x.emitting = []) (hhead : x.rxRequests.items = r :: rest)
    (hcall : x.engine.handleClientRequest stray r = .ok (e, calls)) :
    f.Realizes stray .takeRequest
      { x with engine := e, emitting := calls, rxRequests := x.rxRequests.pop } := by
  refine Realizes.of_rank (fun f' => f'.rxRequests.consumer.ahead)
    (P := fun f' => f'.Shows x ∧ f'.rxRequests.producer () = .idle ∧ f'.point = f.point ∧
      f'.txResponses = f.txResponses ∧ f'.txMarketUpdates = f.txMarketUpdates) ?_
    ⟨h, hquiet.publishing, rfl, rfl, rfl⟩
  rintro f' ⟨hshows, hpublishing, hpoint, hresponses, hupdates⟩
  have hnone : f'.emitting = [] := hshows.emitting.trans hemitting
  obtain ⟨q, hq⟩ := hshows.rxRequests.exists_popStep
  by_cases hread : ∃ slot, f'.rxRequests.consumer = .hasSlot slot
  · obtain ⟨slot, hat⟩ := hread
    obtain ⟨hproducer, hahead, hshows'⟩ := hshows.copy hat hq
    refine ⟨{ f' with rxRequests := q, value := some (f'.rxRequests.queue slot) }, ?_, .inl
      ⟨⟨hshows', (congrFun hproducer ()).trans hpublishing, hpoint, hresponses, hupdates⟩, hahead⟩⟩
    simp [SharedExchange.step, SharedExchange.takeRequest, hnone, hq, hat]
  by_cases hcounted : f'.rxRequests.consumer = .advanced
  · have hvalue : f'.value = some r := by
      rw [hshows.value (by rw [hcounted]; rfl), hhead]
      rfl
    have hhandle : f'.engine.handleClientRequest stray r = .ok (e, calls) := by
      rw [hshows.engine]
      exact hcall
    obtain ⟨hproducer, hidle, -, hshows'⟩ := hshows.handle hnone hcounted hvalue hhandle hq
    refine ⟨{ f' with rxRequests := q, engine := e, emitting := calls, value := none }, ?_,
      .inr ⟨hshows', ?_⟩⟩
    · simp [SharedExchange.step, SharedExchange.takeRequest, hnone, hq, hcounted, hvalue, hhandle,
        Except.toOption]
    · exact {
        gateway := by
          show GatewayPoint.Outside f'.point f'.txResponses.consumer
          rw [hpoint, hresponses]
          exact hquiet.gateway
        publishing := (congrFun hproducer ()).trans hpublishing
        taking := hidle
        responding := hresponses.symm ▸ hquiet.responding
        updating := hupdates.symm ▸ hquiet.updating
        reading := hupdates.symm ▸ hquiet.reading }
  · have hunread : ∀ slot, f'.rxRequests.consumer ≠ .hasSlot slot :=
      fun slot hat => hread ⟨slot, hat⟩
    obtain ⟨hproducer, hahead, hshows'⟩ := hshows.pop hunread hcounted hq
    refine ⟨{ f' with rxRequests := q }, ?_, .inl ⟨⟨hshows',
      (congrFun hproducer ()).trans hpublishing, hpoint, hresponses, hupdates⟩,
      hahead (by simp [hhead])⟩⟩
    cases hat : f'.rxRequests.consumer with
    | hasSlot slot => exact absurd hat (hunread slot)
    | advanced => exact absurd hat hcounted
    | _ => simp [SharedExchange.step, SharedExchange.takeRequest, hnone, hq, hat]

/-- A call is made in the steps of `push`. -/
theorem Quiet.emit (hquiet : f.Quiet) (h : f.Shows x) {c : Emission} {cs : List Emission}
    (hemitting : x.emitting = c :: cs) :
    f.Realizes stray .emit { x with emitting := cs, outputs := x.outputs.act (.call c) } := by
  cases c with
  | response r =>
    refine Realizes.of_rank (fun f' => (f'.txResponses.producer ()).ahead)
      (P := fun f' => f'.Shows x ∧ f'.emitting = .response r :: cs ∧
        f'.txResponses.consumer = f.txResponses.consumer ∧ f'.point = f.point ∧
        f'.rxRequests = f.rxRequests ∧ f'.txMarketUpdates = f.txMarketUpdates) ?_
      ⟨h, h.emitting.trans hemitting, rfl, rfl, rfl, rfl⟩
    rintro f' ⟨hshows, hnext, hconsumer, hpoint, hrequests, hupdates⟩
    obtain ⟨q, hq⟩ := exists_pushStep (maxClientUpdates B) r f'.txResponses
    refine ⟨_, by simp only [SharedExchange.step, hnext, hq, Option.map_some]; rfl, ?_⟩
    obtain ⟨hsame, ⟨hbusy, hahead, hshows'⟩ | ⟨hdone, hshows'⟩⟩ := hshows.respondTo hnext hq
    · rw [if_neg hbusy]
      exact .inl ⟨⟨hshows', rfl, hsame.trans hconsumer, hpoint, hrequests, hupdates⟩, hahead⟩
    · rw [if_pos hdone]
      refine .inr ⟨hshows', ?_⟩
      exact {
        gateway := by
          show GatewayPoint.Outside f'.point q.consumer
          rw [hpoint, hsame, hconsumer]
          exact hquiet.gateway
        publishing := hrequests.symm ▸ hquiet.publishing
        taking := hrequests.symm ▸ hquiet.taking
        responding := hdone
        updating := hupdates.symm ▸ hquiet.updating
        reading := hupdates.symm ▸ hquiet.reading }
  | update u =>
    refine Realizes.of_rank (fun f' => (f'.txMarketUpdates.producer ()).ahead)
      (P := fun f' => f'.Shows x ∧ f'.emitting = .update u :: cs ∧
        f'.txMarketUpdates.consumer = .idle ∧ f'.point = f.point ∧
        f'.rxRequests = f.rxRequests ∧ f'.txResponses = f.txResponses) ?_
      ⟨h, h.emitting.trans hemitting, hquiet.reading, rfl, rfl, rfl⟩
    rintro f' ⟨hshows, hnext, hreading, hpoint, hrequests, hresponses⟩
    obtain ⟨q, hq⟩ := exists_pushStep (maxMarketUpdates B) u f'.txMarketUpdates
    refine ⟨_, by simp only [SharedExchange.step, hnext, hq, Option.map_some]; rfl, ?_⟩
    obtain ⟨hsame, ⟨hbusy, hahead, hshows'⟩ | ⟨hdone, hshows'⟩⟩ := hshows.update hnext hq
    · rw [if_neg hbusy]
      exact .inl ⟨⟨hshows', rfl, hsame.trans hreading, hpoint, hrequests, hresponses⟩, hahead⟩
    · rw [if_pos hdone]
      refine .inr ⟨hshows', ?_⟩
      exact {
        gateway := by
          show GatewayPoint.Outside f'.point f'.txResponses.consumer
          rw [hpoint, hresponses]
          exact hquiet.gateway
        publishing := hrequests.symm ▸ hquiet.publishing
        taking := hrequests.symm ▸ hquiet.taking
        responding := hresponses.symm ▸ hquiet.responding
        updating := hdone
        reading := hsame.trans hreading }

/-- An update is taken in the steps of `pop`. -/
theorem Quiet.popUpdate (hquiet : f.Quiet) (h : f.Shows x) :
    f.Realizes stray .popUpdate { x with outputs := x.outputs.act .popUpdate } := by
  refine Realizes.of_rank (fun f' => f'.txMarketUpdates.consumer.ahead)
    (P := fun f' => f'.Shows x ∧ f'.txMarketUpdates.producer () = .idle ∧ f'.point = f.point ∧
      f'.rxRequests = f.rxRequests ∧ f'.txResponses = f.txResponses) ?_
    ⟨h, hquiet.updating, rfl, rfl, rfl⟩
  rintro f' ⟨hshows, hupdating, hpoint, hrequests, hresponses⟩
  obtain ⟨q, hq⟩ := hshows.txMarketUpdates.exists_popStep
  refine ⟨_, by simp only [SharedExchange.step, hq, Option.map_some]; rfl, ?_⟩
  obtain ⟨hproducer, ⟨hahead, hshows'⟩ | ⟨hdone, hshows'⟩⟩ := hshows.popUpdate hq
  · exact .inl ⟨⟨hshows', (congrFun hproducer ()).trans hupdating, hpoint, hrequests, hresponses⟩,
      hahead⟩
  · refine .inr ⟨hshows', ?_⟩
    exact {
      gateway := by
        show GatewayPoint.Outside f'.point f'.txResponses.consumer
        rw [hpoint, hresponses]
        exact hquiet.gateway
      publishing := hrequests.symm ▸ hquiet.publishing
      taking := hrequests.symm ▸ hquiet.taking
      responding := hresponses.symm ▸ hquiet.responding
      updating := (congrFun hproducer ()).trans hupdating
      reading := hdone }

/-! ### Every action -/

end SharedExchange

end quiet

end HftSys
