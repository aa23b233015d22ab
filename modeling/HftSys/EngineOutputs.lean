import HftSys.MatchingEngine
import HftSys.Publishing

/-!
# What the engine enqueues

A call of `handleClientRequest` against what reaches its two output queues. The engine logs a push
that fails and goes on: the book keeps what it has done.

* `Declines e r`: the request changes no book, by its type or because it cancels an order there is
  not.
* `outputs_of_request`: the emissions that find room are enqueued, in order, and all of them, or
  else the books are as they were, exactly when every emission finds room or the request is
  declined.
-/

namespace HftSys

variable {B : Build}

/-- The books are those of `e`, calls on the engine apart. -/
def SameBooks (e e' : MatchingEngine B) : Prop :=
  ∀ ticker, e'.orderBookForTicker ticker =
    { e.orderBookForTicker ticker with ome := (e'.orderBookForTicker ticker).ome }

/-- The request changes no book. -/
def Declines (e : MatchingEngine B) (r : OMEClientRequest) : Prop :=
  match r.bookCall with
  | none => True
  | some (.new _) => False
  | some (.cancel c) => ∀ ticker : Ticker, ticker.val = r.tickerId.toNat →
      ¬ ∃ p, c.clientId.toNat < maxNClients B ∧
        (e.orderBookForTicker ticker).mapClientIdToOrder c.clientId c.orderId = some p

/-- Every call finds room in its queue. -/
def Outputs.Fits (o : Outputs) (steps : List OutputStep) : Prop :=
  o.txResponses.Fits (responseOps steps) ∧ o.txMarketUpdates.Fits (updateOps steps)

/-- Every call is enqueued, in order. -/
def EnqueuesAll (o o' : Outputs) (calls : List Emission) : Prop :=
  o'.txResponses.entered = o.txResponses.entered ++ responsesOf calls ∧
    o'.txMarketUpdates.entered = o.txMarketUpdates.entered ++ updatesOf calls

section books

variable {stray : ℕ → Qty} {b b' : OrderBook B} {queue : Queues B}

/-- A new order uses up an id. -/
theorem nextMarketOid_new {taker : NewOrder} (hv : Valid b queue)
    (h : handleRequest stray (.new taker) b = .ok () b') :
    b'.nextMarketOid = b.nextMarketOid + 1 := by
  obtain ⟨queue₁, b₁, -, hnext, -, ⟨-, rfl⟩ | ⟨-, p, o, b₂, hr⟩⟩ :=
    addOrder_cases (P := fun _ b₁ => b₁.nextMarketOid = b.nextMarketOid + 1)
      (fun _ b₁ p best _ hb₁ _ _ _ =>
        (b₁.nextMarketOid_matched stray taker b.nextMarketOid p best taker.qty).trans hb₁)
      hv rfl h
  · exact hnext
  · rw [hr.book]
    exact hr.files.1.nextMarketOid.trans hnext

/-- A new order changes the book. -/
theorem not_same_new {taker : NewOrder} (hv : Valid b queue)
    (h : handleRequest stray (.new taker) b = .ok () b') : b' ≠ { b with ome := b'.ome } := by
  intro hsame
  have hnext := nextMarketOid_new hv h
  rw [hsame] at hnext
  have hnat := congrArg UInt64.toNat hnext
  rw [UInt64.toNat_add, UInt64.toNat_one] at hnat
  have := b.nextMarketOid.toNat_lt
  change b.nextMarketOid.toNat = _ at hnat
  omega

/-- A cancel changes the book exactly when there is an order for it. -/
theorem same_cancel_iff {r : CancelOrder} (hv : Valid b queue)
    (h : handleRequest stray (.cancel r) b = .ok () b') :
    b' = { b with ome := b'.ome } ↔
      ¬ ∃ p, r.clientId.toNat < maxNClients B ∧ b.mapClientIdToOrder r.clientId r.orderId = some p := by
  rcases cancelOrder_ok hv.toSound h with ⟨rfl, hnone⟩ | ⟨p, l, hf, rfl⟩
  · exact ⟨fun _ => hnone, fun _ => rfl⟩
  · refine ⟨fun hsame => ?_, fun hnone => absurd ⟨p, hf.clientId_lt, hf.entry⟩ hnone⟩
    -- the order is live before and not after
    have hlive : (b.cancel r p l).LiveOrder p := by
      rw [hsame]
      exact hf.live
    have hdetached : (b.detach p l).LiveOrder p := hlive
    rw [OrderBook.liveOrder_detach] at hdetached
    exact absurd rfl hdetached.2

end books

section requests

variable {stray : Ticker → ℕ → Qty} {e e' : MatchingEngine B} {r : OMEClientRequest}
  {rs : List OMEClientRequest} {calls : List Emission}

/-- **The books are as they were exactly when the request is declined.** -/
theorem sameBooks_iff (he : EngineRuns stray rs e)
    (h : e.handleClientRequest stray r = .ok (e', calls)) : SameBooks e e' ↔ Declines e r := by
  obtain ⟨hcall, rfl, -⟩ | ⟨call, ticker, book, hcall, hticker, hbook, rfl, -⟩ :=
    handleClientRequest_ok h
  · unfold Declines
    rw [hcall]
    exact ⟨fun _ => trivial, fun _ _ => rfl⟩
  · obtain ⟨queue, hv⟩ := he.valid ticker
    have hone : SameBooks e ⟨Function.update e.orderBookForTicker ticker book⟩ ↔
        book = { e.orderBookForTicker ticker with ome := book.ome } := by
      constructor
      · intro hsame
        have := hsame ticker
        simp only [Function.update_self] at this
        exact this
      · intro hsame ticker'
        by_cases ht : ticker' = ticker
        · subst ht
          simp only [Function.update_self]
          exact hsame
        · simp only [Function.update_of_ne ht]
    rw [hone]
    unfold Declines
    rw [hcall]
    cases call with
    | new taker => exact ⟨fun hsame => not_same_new hv hbook hsame, False.elim⟩
    | cancel c =>
      refine (same_cancel_iff hv hbook).trans ⟨fun hnone ticker' ht => ?_, fun hnone => ?_⟩
      · cases Fin.ext (ht.trans hticker.symm)
        exact hnone
      · exact hnone ticker hticker

/-- Every call is enqueued exactly when every call finds room. -/
theorem enqueuesAll_iff (o : Outputs) (steps : List OutputStep) :
    EnqueuesAll o (o.run steps) (callsOf steps) ↔ o.Fits steps := by
  rw [EnqueuesAll, Outputs.run_eq, ← pushes_responseOps, ← pushes_updateOps]
  exact and_congr (Fifo.Queue.entered_run_eq_iff _ _) (Fifo.Queue.entered_run_eq_iff _ _)

/-- **What becomes of a request's emissions**: whatever the queues hold and whatever their readers
do, those that find room are enqueued, in the order they were made; and all of them are, or else no
book has changed, exactly when each finds room or the request is declined. -/
theorem outputs_of_request (he : EngineRuns stray rs e)
    (h : e.handleClientRequest stray r = .ok (e', calls)) (o : Outputs) (steps : List OutputStep)
    (hsteps : callsOf steps = calls) :
    (∀ ticker, (e'.orderBookForTicker ticker).ome = (e.orderBookForTicker ticker).ome ++
        if ticker.val = r.tickerId.toNat then calls else []) ∧
      (o.run steps).txResponses.entered =
        o.txResponses.entered ++ o.txResponses.stored (responseOps steps) ∧
      (o.run steps).txMarketUpdates.entered =
        o.txMarketUpdates.entered ++ o.txMarketUpdates.stored (updateOps steps) ∧
      (o.txResponses.stored (responseOps steps)).Sublist (responsesOf calls) ∧
      (o.txMarketUpdates.stored (updateOps steps)).Sublist (updatesOf calls) ∧
      (EnqueuesAll o (o.run steps) calls ∨ SameBooks e e' ↔ o.Fits steps ∨ Declines e r) := by
  subst hsteps
  refine ⟨ome_handleClientRequest he h, ?_, ?_, ?_, ?_, ?_⟩
  · rw [Outputs.run_eq, Fifo.Queue.entered_run]
  · rw [Outputs.run_eq, Fifo.Queue.entered_run]
  · rw [← pushes_responseOps]
    exact Fifo.Queue.stored_sublist _ _
  · rw [← pushes_updateOps]
    exact Fifo.Queue.stored_sublist _ _
  · exact or_congr (enqueuesAll_iff o steps) (sameBooks_iff he h)

/-- The first order of an exchange. -/
def firstOrder : OMEClientRequest := ⟨.new, 1, 0, 1, .buy, 100, 10⟩

/-- Its acceptance and its publication. -/
def firstCalls : List Emission :=
  [.response ⟨.accepted, 1, 0, 1, 1, .buy, 100, 0, 10⟩, .update ⟨.add, 1, 0, .buy, 100, 10, 1⟩]

theorem exists_firstOrder :
    ∃ e' : MatchingEngine .production,
      (MatchingEngine.create .production).handleClientRequest (fun _ _ => 0) firstOrder =
        .ok (e', firstCalls) := by
  have hrun : ((MatchingEngine.create .production).handleClientRequest (fun _ _ => 0)
      firstOrder).toOption.map Prod.snd = some firstCalls := by decide +kernel
  obtain ⟨⟨e', calls⟩, he', rfl⟩ := Option.map_eq_some_iff.mp hrun
  exact ⟨e', Exec.toOption_eq_some.mp he'⟩

/-- An order of client 2 that takes it. -/
def secondOrder : OMEClientRequest := ⟨.new, 2, 0, 1, .sell, 100, 10⟩

/-- Its acceptance, the two fills, and what is published of them; it comes to rest itself. -/
def secondCalls : List Emission :=
  [.response ⟨.accepted, 2, 0, 1, 2, .sell, 100, 0, 10⟩,
    .response ⟨.filled, 2, 0, 1, 2, .sell, 100, 10, 77⟩,
    .response ⟨.filled, 1, 0, 1, 1, .buy, 100, 10, 0⟩,
    .update ⟨.trade, orderIdInvalid, 0, .sell, 100, 10, priorityInvalid⟩,
    .update ⟨.cancel, 1, 0, .buy, 100, 10, priorityInvalid⟩, .update ⟨.add, 2, 0, .sell, 100, 10, 1⟩]

/-- The calls, while the gateway takes one of the responses. -/
def secondSteps : List OutputStep :=
  (secondCalls.take 2).map .call ++ .popResponse :: (secondCalls.drop 2).map .call

/-- The second order, whose responses find room in a queue of two, and not in a queue of one. -/
theorem outputs_of_request_sample :
    ∃ e e' : MatchingEngine .production, EngineRuns (fun _ _ => 77) [firstOrder] e ∧
      e.handleClientRequest (fun _ _ => 77) secondOrder = .ok (e', secondCalls) ∧
      (∀ ticker, (e'.orderBookForTicker ticker).ome = (e.orderBookForTicker ticker).ome ++
        if ticker.val = secondOrder.tickerId.toNat then secondCalls else []) ∧
      (EnqueuesAll ⟨.empty 2, .empty 3⟩ ((⟨.empty 2, .empty 3⟩ : Outputs).run secondSteps)
        secondCalls ∨ SameBooks e e') ∧
      ¬ (EnqueuesAll ⟨.empty 1, .empty 3⟩ ((⟨.empty 1, .empty 3⟩ : Outputs).run secondSteps)
        secondCalls ∨ SameBooks e e') := by
  have hrun : (((MatchingEngine.create .production).handleClientRequest (fun _ _ => 77)
      firstOrder).toOption.bind fun first =>
        (first.1.handleClientRequest (fun _ _ => 77) secondOrder).toOption).map Prod.snd =
      some secondCalls := by
    decide +kernel
  obtain ⟨⟨e', calls⟩, hboth, rfl⟩ := Option.map_eq_some_iff.mp hrun
  obtain ⟨⟨e, calls₁⟩, hfirst, hsecond⟩ := Option.bind_eq_some_iff.mp hboth
  have he : EngineRuns (fun _ _ => 77) [firstOrder] e :=
    ⟨e, ⟨calls₁, Exec.toOption_eq_some.mp hfirst⟩, rfl⟩
  have he' := Exec.toOption_eq_some.mp hsecond
  have hfits : (⟨.empty 2, .empty 3⟩ : Outputs).Fits secondSteps :=
    ⟨⟨by decide, by decide, by decide, trivial⟩, ⟨by decide, by decide, by decide, trivial⟩⟩
  have hfull : ¬ (⟨.empty 1, .empty 3⟩ : Outputs).Fits secondSteps :=
    fun h => absurd h.1.2.1 (by decide)
  refine ⟨e, e', he, he', (outputs_of_request he he' ⟨.empty 2, .empty 3⟩ secondSteps rfl).1,
    (outputs_of_request he he' ⟨.empty 2, .empty 3⟩ secondSteps rfl).2.2.2.2.2.mpr (.inl hfits), ?_⟩
  rw [(outputs_of_request he he' ⟨.empty 1, .empty 3⟩ secondSteps rfl).2.2.2.2.2]
  rintro (h | h)
  · exact hfull h
  · exact h

/-- The first order, and no room for its acceptance: it rests in its book all the same. -/
theorem acceptance_dropped :
    ¬ ∀ (B : Build) (stray : Ticker → ℕ → Qty) (rs : List OMEClientRequest)
      (e e' : MatchingEngine B) (r : OMEClientRequest) (calls : List Emission) (o : Outputs)
      (steps : List OutputStep), EngineRuns stray rs e →
      e.handleClientRequest stray r = .ok (e', calls) → callsOf steps = calls →
      EnqueuesAll o (o.run steps) calls ∨ SameBooks e e' := by
  intro h
  obtain ⟨e', he'⟩ := exists_firstOrder
  rcases h .production _ [] _ e' firstOrder firstCalls
    ⟨.full (maxClientUpdates .production) ⟨.accepted, 1, 0, 1, 1, .buy, 100, 0, 10⟩, .empty 1⟩
    (firstCalls.map .call) rfl he' rfl with hall | hsame
  · exact Fifo.Queue.not_fits_full _ _ _ _ ((enqueuesAll_iff _ (firstCalls.map .call)).mp hall).1
  · exact (sameBooks_iff (show EngineRuns _ [] _ from rfl) he').mp hsame

end requests

end HftSys
