import HftSys.ClientOrder
import HftSys.Conveyance
import HftSys.MarketData
import HftSys.Refinement
import HftSys.StrayReads

/-!
# The exchange from end to end

What `Conveyed` means for those outside: the exchange behaves as one market a ticker, to which
the requests come one after the other, and whose messages the clients and the subscribers get.

* `exchange_refines_markets`: the books are the abstract markets' books after the requests taken,
  and the calls of the engine, ticker by ticker, are the markets' messages.
* `tickers_do_not_interfere`: what is said about a ticker depends on the requests for it only.
* `accepted_requests_answered`: the requests accepted are those taken and those under way, exactly
  when every push to `rxRequests` found room, and those taken have been answered one by one.
* `responses_delivered`: the bytes on the sockets are numbered records of a part of the engine's
  responses, and of a prefix of them if none was refused.
* `feed_replays`: the market data of a ticker, as read and as waiting, replay to its book.
-/

namespace HftSys

variable {B : Build} {stray : Ticker → ℕ → Qty} {actions : List ExchangeAction} {x : Exchange B}

/-! ## The markets -/

/-- The market of a ticker after some requests. -/
def marketAfter (stray : Ticker → ℕ → Qty) (rs : List OMEClientRequest) (ticker : Ticker) :
    Market :=
  Market.empty.handleAll (stray ticker) (callsFor ticker rs)

/-- The markets admit the requests. -/
def MarketsAdmit (B : Build) (stray : Ticker → ℕ → Qty) (rs : List OMEClientRequest) : Prop :=
  ∀ ticker, Market.empty.AdmitsAll B (stray ticker) (callsFor ticker rs)

instance (B : Build) (stray : Ticker → ℕ → Qty) (rs : List OMEClientRequest) :
    Decidable (MarketsAdmit B stray rs) := inferInstanceAs (Decidable (∀ _, _))

/-- **The engine refines its markets**: from requests the markets admit, each with a ticker in
range, the engine gets to books that are the markets', and nothing else. -/
theorem engine_refines_markets {e : MatchingEngine B} {rs : List OMEClientRequest}
    (h : EngineRuns stray rs e) (hadm : MarketsAdmit B stray rs) (ticker : Ticker) :
    (e.orderBookForTicker ticker).market = marketAfter stray rs ticker := by
  obtain ⟨b, hb, -, -, hmarket⟩ := exists_regular (hadm ticker)
  rw [(h.callsFor ticker).unique hb, hmarket, marketAfter]

/-- **The exchange refines a market for each ticker**: in every run, whatever the interleaving of
its threads, if the markets admit the requests taken then the books are the markets' after these
requests, and the calls made and to come are, ticker by ticker, the markets' messages; the output
queues have been given the calls made. -/
theorem exchange_refines_markets (h : ExchangeRuns stray actions x)
    (hadm : MarketsAdmit B stray x.rxRequests.taken) :
    ∃ emitted, Conveyed stray actions x emitted ∧
      ∀ ticker, (x.engine.orderBookForTicker ticker).market =
          marketAfter stray x.rxRequests.taken ticker ∧
        ofTicker ticker (emitted ++ x.emitting) =
          (marketAfter stray x.rxRequests.taken ticker).ome := by
  obtain ⟨emitted, hconv⟩ := h.conveyed
  refine ⟨emitted, hconv, fun ticker => ?_⟩
  have hmarket := engine_refines_markets hconv.engine.engine hadm ticker
  refine ⟨hmarket, ?_⟩
  rw [hconv.engine.ofTicker ticker, ← hmarket]
  rfl

/-- A SELL that rests and a BUY that takes it, both admitted. -/
theorem exchange_refines_markets_sample :
    ∃ (x : Exchange .production) (emitted : List Emission),
      x.rxRequests.taken = [sampleSell, sampleBuy] ∧
        ∀ ticker, (x.engine.orderBookForTicker ticker).market =
            marketAfter (fun _ _ => 0) x.rxRequests.taken ticker ∧
          ofTicker ticker (emitted ++ x.emitting) =
            (marketAfter (fun _ _ => 0) x.rxRequests.taken ticker).ome := by
  have hrun : ((sampleActions.foldlM (Exchange.step fun _ _ => 0) (.create .production)).map
      fun x => x.rxRequests.taken) = some [sampleSell, sampleBuy] := by
    decide +kernel
  obtain ⟨x, hx, htaken⟩ := Option.map_eq_some_iff.mp hrun
  have hadm : MarketsAdmit .production (fun _ _ => 0) x.rxRequests.taken := by
    rw [htaken]
    decide +kernel
  obtain ⟨emitted, -, hmarkets⟩ := exchange_refines_markets hx hadm
  exact ⟨x, emitted, htaken, hmarkets⟩

/-! ## Tickers -/

/-- **Tickers do not interfere**: in any two runs of the exchange, of whatever lengths and
interleavings, each with its own memory behind the pointer that `matchOrder` moves, in which the
engine has taken the same requests for a ticker, it has the same book for it, and has made, or is
about to make, the same calls about it, up to the remainder reported in a `FILLED`. -/
theorem tickers_do_not_interfere {stray' : Ticker → ℕ → Qty} {actions' : List ExchangeAction}
    {x' : Exchange B} (h : ExchangeRuns stray actions x) (h' : ExchangeRuns stray' actions' x')
    (ticker : Ticker)
    (hsame : callsFor ticker x.rxRequests.taken = callsFor ticker x'.rxRequests.taken) :
    (x.engine.orderBookForTicker ticker).UpToRemain (x'.engine.orderBookForTicker ticker) ∧
      ∃ emitted emitted', Conveyed stray actions x emitted ∧ Conveyed stray' actions' x' emitted' ∧
        List.Forall₂ Emission.UpToRemain (ofTicker ticker (emitted ++ x.emitting))
          (ofTicker ticker (emitted' ++ x'.emitting)) := by
  obtain ⟨emitted, hconv⟩ := h.conveyed
  obtain ⟨emitted', hconv'⟩ := h'.conveyed
  have hbook := hconv.engine.engine.callsFor ticker
  rw [hsame] at hbook
  have halike := hbook.upToRemain (hconv'.engine.engine.callsFor ticker)
  refine ⟨halike, emitted, emitted', hconv, hconv', ?_⟩
  rw [hconv.engine.ofTicker ticker, hconv'.engine.ofTicker ticker]
  exact halike.calls

/-- The orders of `sampleActions` with another one for ticker 3 between them, in another
interleaving, up to the `FILLED` of the BUY. -/
def otherActions : List ExchangeAction :=
  [.sendAndRecv 0 ⟨OGSClientRequest.image ⟨1, sampleSell⟩, 5, none⟩, .rxDone [⟨5, sampleSell⟩],
    .publish, .publish, .takeRequest, .emit, .emit,
    .sendAndRecv 1 ⟨OGSClientRequest.image ⟨1, { sampleBuy with tickerId := 3 }⟩ ++
      OGSClientRequest.image ⟨2, sampleBuy⟩, 6, none⟩,
    .rxDone [⟨6, { sampleBuy with tickerId := 3 }⟩, ⟨6, sampleBuy⟩], .publish, .publish, .publish,
    .takeRequest, .emit, .emit, .takeRequest, .emit, .emit]

/-- Both runs have matched the same two orders for ticker 0; one of them has read 0 through the
moved pointer, the other 77. -/
theorem tickers_do_not_interfere_sample :
    ∃ x x' : Exchange .production, x.rxRequests.taken = [sampleSell, sampleBuy] ∧
      x'.rxRequests.taken = [sampleSell, { sampleBuy with tickerId := 3 }, sampleBuy] ∧
      x.outputs.txResponses.items.map (·.qtyRemain) = [10, 10, 0, 0] ∧
      x'.outputs.txResponses.items.map (·.qtyRemain) = [10, 10, 10, 77] ∧
      (x.engine.orderBookForTicker ⟨0, by decide⟩).UpToRemain
        (x'.engine.orderBookForTicker ⟨0, by decide⟩) := by
  have hrun : ((sampleActions.foldlM (Exchange.step fun _ _ => 0) (.create .production)).map
      fun x => (x.rxRequests.taken, x.outputs.txResponses.items.map (·.qtyRemain))) =
      some ([sampleSell, sampleBuy], [10, 10, 0, 0]) := by
    decide +kernel
  have hrun' : ((otherActions.foldlM (Exchange.step fun _ _ => 77) (.create .production)).map
      fun x => (x.rxRequests.taken, x.outputs.txResponses.items.map (·.qtyRemain))) =
      some ([sampleSell, { sampleBuy with tickerId := 3 }, sampleBuy], [10, 10, 10, 77]) := by
    decide +kernel
  obtain ⟨x, hx, hat⟩ := Option.map_eq_some_iff.mp hrun
  obtain ⟨x', hx', hat'⟩ := Option.map_eq_some_iff.mp hrun'
  obtain ⟨htaken, hremain⟩ := Prod.mk.inj hat
  obtain ⟨htaken', hremain'⟩ := Prod.mk.inj hat'
  have hsame : callsFor ⟨0, by decide⟩ x.rxRequests.taken =
      callsFor ⟨0, by decide⟩ x'.rxRequests.taken := by
    rw [htaken, htaken']
    decide
  exact ⟨x, x', htaken, htaken', hremain, hremain', (tickers_do_not_interfere hx hx' _ hsame).1⟩

/-! ## Requests -/

/-- The requests the gateway has accepted and the engine has not taken. -/
def Exchange.underWay (x : Exchange B) : List OMEClientRequest :=
  x.rxRequests.items ++ x.phase.requests ++ x.gateway.fifo.requests

/-- The requests taken and those under way are the requests accepted, unless a push found no
room. -/
theorem requests_kept (h : ExchangeRuns stray actions x) :
    (x.rxRequests.taken ++ x.underWay).Perm x.gateway.accepted ↔
      ExchangeMeets (B := B) stray Exchange.RequestFits actions := by
  obtain ⟨emitted, hconv⟩ := h.conveyed
  obtain ⟨pushed, hpub, hfed⟩ := hconv.requests
  obtain ⟨es, hes, -⟩ := hconv.sent
  -- What has been accepted has been published or waits in the sequencer.
  have hperm : (x.gateway.published ++ x.gateway.fifo.requests).Perm x.gateway.accepted :=
    hes.consistent.published_append_requests
  rw [hpub] at hperm
  have hall : x.rxRequests.taken ++ x.underWay =
      x.rxRequests.entered ++ x.phase.requests ++ x.gateway.fifo.requests := by
    simp [Exchange.underWay, Fifo.Queue.entered]
  rw [hall, ← hfed.all_iff]
  constructor
  · intro hkept
    have hlen := hkept.length_eq.trans hperm.length_eq.symm
    simp only [List.length_append] at hlen
    exact hfed.sublist.eq_of_length (by omega)
  · intro hentered
    rw [hentered]
    exact hperm

/-- **Accepted requests are answered**: in every run the requests the engine has taken have been
answered one by one, in the order they were taken, a new order with `ACCEPTED`, a cancel with
`CANCELLED` or `CANCEL_REJECTED`; and with those under way they are the requests accepted, each of
them once, exactly when every push to `rxRequests` found room. -/
theorem accepted_requests_answered (h : ExchangeRuns stray actions x) :
    (∃ log, EngineLogs stray x.rxRequests.taken x.engine log ∧
        List.Forall₂ Answer.To (answersOf log) (bookCalls x.rxRequests.taken)) ∧
      ((x.rxRequests.taken ++ x.underWay).Perm x.gateway.accepted ↔
        ExchangeMeets (B := B) stray Exchange.RequestFits actions) := by
  obtain ⟨emitted, hconv⟩ := h.conveyed
  exact ⟨⟨_, hconv.engine, hconv.engine.answers⟩, requests_kept h⟩

/-- Both requests of the sample are accepted, taken and answered. -/
theorem accepted_requests_answered_sample :
    ∃ x : Exchange .production, x.rxRequests.taken = [sampleSell, sampleBuy] ∧
      ∃ log, EngineLogs (fun _ _ => 0) x.rxRequests.taken x.engine log ∧
        List.Forall₂ Answer.To (answersOf log) (bookCalls x.rxRequests.taken) := by
  have hrun : ((sampleActions.foldlM (Exchange.step fun _ _ => 0) (.create .production)).map
      fun x => x.rxRequests.taken) = some [sampleSell, sampleBuy] := by
    decide +kernel
  obtain ⟨x, hx, htaken⟩ := Option.map_eq_some_iff.mp hrun
  exact ⟨x, htaken, (accepted_requests_answered hx).1⟩

/-! ## Responses -/

/-- The responses the gateway has sent. -/
def Exchange.delivered (x : Exchange B) : List OMEClientResponse :=
  x.outputs.txResponses.taken ++ x.sending

/-- What has been sent has been in the queue. -/
theorem prefix_of_delivered (x : Exchange B) : x.delivered <+: x.outputs.txResponses.entered := by
  rw [Exchange.delivered, Fifo.Queue.entered]
  apply (List.prefix_append_right_inj _).mpr
  unfold Exchange.sending
  split
  · cases x.outputs.txResponses.items with
    | nil => exact List.nil_prefix
    | cons r rest => exact ⟨rest, rfl⟩
  · exact List.nil_prefix

/-- What a gateway has passed to its sockets is framed. -/
theorem framed_drained {es : List GatewayEvent} {g : OrderGatewayServer B} (h : GatewayRuns es g)
    (hn : (drained es).length < 2 ^ 64 - 1) : Framed (drained es) g := by
  have hsent := h.sent
  refine ⟨hsent.bound, hsent.stream, fun socket => ?_, numbers_numbered hn, h.buffered⟩
  rw [hsent.stream, Bytes.records_flatMap (by decide) OGSClientResponse.length_image, List.map_map]
  apply List.map_congr_left
  intro r _
  simpa using OGSClientResponse.ofBytes_image r []

/-- **Responses are delivered**: in every run in which fewer than `2 ^ 64 - 1` responses have been
sent, the bytes on every socket are the records of the responses to its clients, numbered 1, 2, 3, …
for each client; the responses sent are some of those of the engine's books, in the order in which
the requests were handled; and if none was refused by the queue they are the first of these. -/
theorem responses_delivered (h : ExchangeRuns stray actions x)
    (hn : x.delivered.length < 2 ^ 64 - 1) :
    ∃ log, EngineLogs stray x.rxRequests.taken x.engine log ∧ Framed x.delivered x.gateway ∧
      x.delivered.Sublist (responsesOf log) ∧
      (ExchangeMeets (B := B) stray Exchange.ResponseFits actions →
        x.delivered <+: responsesOf log) := by
  obtain ⟨emitted, hconv⟩ := h.conveyed
  obtain ⟨es, hes, hdrained⟩ := hconv.sent
  have hsent : drained es = x.delivered := hdrained
  have hframed := framed_drained hes (by rw [hsent]; exact hn)
  rw [hsent] at hframed
  refine ⟨_, hconv.engine, hframed, ?_, fun hfits => ?_⟩
  · rw [responsesOf_append]
    exact ((prefix_of_delivered x).sublist.trans hconv.responses.sublist).trans
      (List.sublist_append_left _ _)
  · rw [responsesOf_append, ← hconv.responses.all_iff.mpr hfits]
    exact (prefix_of_delivered x).trans (List.prefix_append _ _)

/-- The first response of the sample has been sent and released, the second sent. -/
theorem responses_delivered_sample :
    ∃ x : Exchange .production, x.delivered.length = 2 ∧
      ∃ log, EngineLogs (fun _ _ => 0) x.rxRequests.taken x.engine log ∧
        x.delivered.Sublist (responsesOf log) := by
  have hrun : (((sampleActions ++ [ExchangeAction.respond, .release, .respond]).foldlM
      (Exchange.step fun _ _ => 0) (Exchange.create .production)).map
        fun x => x.delivered.length) = some 2 := by
    decide +kernel
  obtain ⟨x, hx, hlen⟩ := Option.map_eq_some_iff.mp hrun
  obtain ⟨log, hlog, -, hsub, -⟩ := responses_delivered hx (by rw [hlen]; decide)
  exact ⟨x, hlen, log, hlog, hsub⟩

/-! ## Market data -/

/-- The updates about a ticker. -/
def updatesFor (ticker : Ticker) (us : List OMEMarketUpdate) : List OMEMarketUpdate :=
  us.filter fun u => decide (u.tickerId.toNat = ticker.val)

/-- The updates among the calls about a ticker. -/
theorem updatesOf_ofTicker (ticker : Ticker) (log : List Emission) :
    updatesOf (ofTicker ticker log) = updatesFor ticker (updatesOf log) := by
  induction log with
  | nil => rfl
  | cons c log ih =>
    rw [ofTicker, List.filter_cons, ← ofTicker]
    cases c with
    | response r =>
      have hskip : updatesOf (Emission.response r :: log) = updatesOf log := rfl
      rw [hskip, ← ih]
      split <;> rfl
    | update u =>
      have hcons : updatesOf (Emission.update u :: log) = u :: updatesOf log := rfl
      rw [hcons, updatesFor, List.filter_cons, ← updatesFor, ← ih]
      show updatesOf (if decide (u.tickerId.toNat = ticker.val) = true then
        Emission.update u :: ofTicker ticker log else ofTicker ticker log) = _
      split <;> rfl

/-- **The feed replays to the books**: in every run in which no update was refused and fewer than `2
^ 64` orders of a ticker have been accepted, the updates about the ticker, those the publisher has
taken, those that wait and those the engine has still to push, replay to the ticker's book. -/
theorem feed_replays (h : ExchangeRuns stray actions x)
    (hfits : ExchangeMeets (B := B) stray Exchange.UpdateFits actions) (ticker : Ticker)
    (hn : accepted (callsFor ticker x.rxRequests.taken) < 2 ^ 64) :
    Shows (replay (updatesFor ticker
        (x.outputs.txMarketUpdates.entered ++ updatesOf x.emitting)))
      (x.engine.orderBookForTicker ticker) := by
  obtain ⟨emitted, hconv⟩ := h.conveyed
  obtain ⟨queue, -, hreplayed⟩ := (preserved_replayed (stray ticker) B).run hn (replayed_create B)
    (hconv.engine.engine.callsFor ticker)
  rw [hconv.updates.all_iff.mpr hfits, ← updatesOf_append, ← updatesOf_ofTicker,
    hconv.engine.ofTicker ticker]
  exact hreplayed.shows

/-- All of the sample: an order has come to rest, traded and gone, and another one has come to rest
in a call that is still to be made. -/
theorem feed_replays_sample :
    ∃ x : Exchange .production, x.rxRequests.taken = [sampleSell, sampleBuy] ∧
      x.outputs.txMarketUpdates.entered.map (·.type) = [.add, .trade, .cancel] ∧
      (updatesOf x.emitting).map (·.type) = [.add] ∧
      ∀ ticker, Shows (replay (updatesFor ticker
          (x.outputs.txMarketUpdates.entered ++ updatesOf x.emitting)))
        (x.engine.orderBookForTicker ticker) := by
  have hrun : ((sampleActions.foldlM (Exchange.step fun _ _ => 0) (.create .production)).map
      fun x => (x.rxRequests.taken, x.outputs.txMarketUpdates.entered.map (·.type),
        (updatesOf x.emitting).map (·.type))) =
      some ([sampleSell, sampleBuy], [.add, .trade, .cancel], [.add]) := by
    decide +kernel
  obtain ⟨x, hx, hat⟩ := Option.map_eq_some_iff.mp hrun
  simp only [Prod.mk.injEq] at hat
  obtain ⟨htaken, hentered, hemitting⟩ := hat
  obtain ⟨-, hfits⟩ := @fits_of_length_le .production (fun _ _ => 0) sampleActions (by decide)
    (by decide)
  refine ⟨x, htaken, hentered, hemitting, fun ticker => feed_replays hx hfits ticker ?_⟩
  rw [htaken]
  revert ticker
  decide

end HftSys
