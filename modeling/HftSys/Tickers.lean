import HftSys.Lib.Product
import HftSys.MatchingEngine

/-!
# The engine is its books

`handleClientRequest` sends a request to the book of its ticker and to no other, and the calls of
that book are all that comes of it.

* `engineRuns_iff`: the runs of the engine are those whose books' requests have a ticker in range
  and, taken ticker by ticker, are runs of the books (`Product`).
* `EngineLogs`: the runs of the engine with the calls it makes, those of all books in one log.
* `log_demultiplexes`: every message carries the ticker of its book, so that the log falls apart
  into the logs of the books.
* `requests_answered`: the log has one piece for each request, in order, with one response other
  than `FILLED`, whose type answers it (`Answer.To`).
-/

namespace HftSys

open Runs

variable {B : Build}

/-! ## The engine as a product -/

/-- The book's call and its ticker, if the ticker is one of the engine's. -/
def OMEClientRequest.route (r : OMEClientRequest) : Option (Ticker × Request) :=
  r.bookCall.bind fun call =>
    if h : r.tickerId.toNat < maxTickers then some (⟨r.tickerId.toNat, h⟩, call) else none

/-- A request that leads to a call on a book has a ticker in range. -/
def OMEClientRequest.TickerInRange (r : OMEClientRequest) : Prop :=
  r.bookCall ≠ none → r.tickerId.toNat < maxTickers

instance (r : OMEClientRequest) : Decidable r.TickerInRange := inferInstanceAs (Decidable (_ → _))

/-- The calls some requests make on the book of a ticker. -/
def callsFor (ticker : Ticker) (rs : List OMEClientRequest) : List Request :=
  rs.filterMap (Product.routeTo OMEClientRequest.route ticker)

section product

variable {stray : Ticker → ℕ → Qty} {e e' : MatchingEngine B} {r : OMEClientRequest}
  {rs : List OMEClientRequest}

/-- A book, by its steps. -/
abbrev BookStep (stray : ℕ → Qty) (b : OrderBook B) (call : Request) (b' : OrderBook B) : Prop :=
  handleRequest stray call b = .ok () b'

/-- The runs of a book as paths. -/
theorem path_bookStep {stray : ℕ → Qty} {calls : List Request} {b : OrderBook B} :
    Path (BookStep stray) (.create B) calls b ↔ RunsTo stray calls b := by
  induction calls using List.reverseRecOn generalizing b with
  | nil =>
    rw [(runsOf_book B stray).nil]
    rfl
  | append_singleton calls call ih =>
    rw [RunsOf.path_concat, (runsOf_book B stray).concat]
    exact exists_congr fun b₁ => and_congr_left fun _ => ih

/-- A step of the engine is one of the product of its books. -/
theorem engineStep_iff :
    EngineStep stray e r e' ↔
      Product.Step (fun ticker => BookStep (stray ticker)) OMEClientRequest.TickerInRange
        OMEClientRequest.route e.orderBookForTicker r e'.orderBookForTicker := by
  constructor
  · rintro ⟨calls, h⟩
    obtain ⟨hcall, rfl, -⟩ | ⟨call, ticker, book, hcall, hticker, hbook, rfl, -⟩ :=
      handleClientRequest_ok h
    · refine ⟨fun hne => absurd hcall hne, ?_⟩
      simp [OMEClientRequest.route, hcall]
    · have hlt : r.tickerId.toNat < maxTickers := hticker ▸ ticker.isLt
      have hindex : (⟨r.tickerId.toNat, hlt⟩ : Ticker) = ticker := Fin.ext hticker.symm
      refine ⟨fun _ => hlt, ?_⟩
      simp only [OMEClientRequest.route, hcall, Option.bind_some, hlt, dif_pos, hindex]
      exact ⟨book, hbook, rfl⟩
  · rintro ⟨hrange, hstep⟩
    cases hcall : r.bookCall with
    | none =>
      simp only [OMEClientRequest.route, hcall, Option.bind_none] at hstep
      refine ⟨[], ?_⟩
      have hsame : e' = e := by
        cases e'
        cases e
        exact congrArg MatchingEngine.mk hstep
      rw [MatchingEngine.handleClientRequest, hcall, hsame]
    | some call =>
      have hlt : r.tickerId.toNat < maxTickers := hrange (by simp [hcall])
      simp only [OMEClientRequest.route, hcall, Option.bind_some, hlt, dif_pos] at hstep
      obtain ⟨book, hbook, heq⟩ := hstep
      have hsame : e' = ⟨Function.update e.orderBookForTicker ⟨r.tickerId.toNat, hlt⟩ book⟩ := by
        cases e'
        exact congrArg MatchingEngine.mk heq
      rw [hsame]
      exact ⟨_, handleClientRequest_of_ok hcall rfl hbook⟩

/-- The runs of the engine are those of the product of its books. -/
theorem engineRuns_iff_path :
    EngineRuns stray rs e ↔
      Path (Product.Step (fun ticker => BookStep (stray ticker)) OMEClientRequest.TickerInRange
        OMEClientRequest.route) (MatchingEngine.create B).orderBookForTicker rs
        e.orderBookForTicker := by
  induction rs using List.reverseRecOn generalizing e with
  | nil =>
    constructor
    · rintro rfl
      rfl
    · intro h
      cases e
      exact congrArg MatchingEngine.mk h
  | append_singleton rs r ih =>
    rw [EngineRuns, RunsOf.path_concat, RunsOf.path_concat]
    constructor
    · rintro ⟨e₁, hrun, hstep⟩
      exact ⟨e₁.orderBookForTicker, ih.mp hrun, engineStep_iff.mp hstep⟩
    · rintro ⟨books, hrun, hstep⟩
      exact ⟨⟨books⟩, (ih (e := ⟨books⟩)).mpr hrun, engineStep_iff.mpr hstep⟩

/-- The book of a ticker, after a run of the engine. -/
theorem EngineRuns.callsFor (h : EngineRuns stray rs e) (ticker : Ticker) :
    RunsTo (stray ticker) (HftSys.callsFor ticker rs) (e.orderBookForTicker ticker) :=
  path_bookStep.mp ((Product.path_iff.mp (engineRuns_iff_path.mp h)).2 ticker)

/-- **The runs of the engine are those of its books**: requests lead to an engine exactly when those
that lead to a call on a book have a ticker in range and, for every ticker, the calls on its book,
those on other books left out, are a run to that book. -/
theorem engineRuns_iff (stray : Ticker → ℕ → Qty) (rs : List OMEClientRequest)
    (e : MatchingEngine B) :
    EngineRuns stray rs e ↔ (∀ r ∈ rs, r.TickerInRange) ∧
      ∀ ticker, RunsTo (stray ticker) (callsFor ticker rs) (e.orderBookForTicker ticker) := by
  rw [engineRuns_iff_path, Product.path_iff]
  exact and_congr_right fun _ => forall_congr' fun ticker => path_bookStep

end product

/-! ## What one call on a book says -/

/-- The ticker of a call on the engine. -/
def Emission.tickerId : Emission → TickerID
  | .response r => r.tickerId
  | .update u => u.tickerId

/-- The ticker of a call on a book. -/
def Request.tickerId : Request → TickerID
  | .new taker => taker.tickerId
  | .cancel r => r.tickerId

/-- What a response other than `FILLED` says to whom. -/
structure Answer where
  type : ResponseType
  clientId : ClientID
  orderId : OrderID
  tickerId : TickerID
deriving DecidableEq, Repr

/-- The answer is one to the call: `ACCEPTED` to a new order, `CANCELLED` or `CANCEL_REJECTED` to a
cancel, with the ids of the call. -/
def Answer.To (answer : Answer) : Request → Prop
  | .new taker => answer = ⟨.accepted, taker.clientId, taker.clientOid, taker.tickerId⟩
  | .cancel r => answer = ⟨.cancelled, r.clientId, r.orderId, r.tickerId⟩ ∨
      answer = ⟨.cancelRejected, r.clientId, r.orderId, r.tickerId⟩

/-- The answer in a response. -/
def OMEClientResponse.answer (r : OMEClientResponse) : Option Answer :=
  if r.type = .filled then none
  else some ⟨r.type, r.clientId, r.clientOrderId, r.tickerId⟩

/-- The answers in a log. -/
def answersOf (log : List Emission) : List Answer := (responsesOf log).filterMap (·.answer)

/-- The log is that of a call on a book: about its ticker throughout, with one answer. -/
structure Replies (call : Request) (log : List Emission) : Prop where
  tickers : ∀ c ∈ log, c.tickerId = call.tickerId
  answered : ∃ answer, answersOf log = [answer] ∧ answer.To call

section replies

variable {stray : ℕ → Qty} {b b' : OrderBook B} {queue : Queues B} {call : Request}
  {log log' : List Emission}

theorem answersOf_append (log log' : List Emission) :
    answersOf (log ++ log') = answersOf log ++ answersOf log' := by
  simp [answersOf, responsesOf_append]

/-- More calls about the ticker that answer nothing. -/
theorem Replies.append (h : Replies call log) (htickers : ∀ c ∈ log', c.tickerId = call.tickerId)
    (hnone : answersOf log' = []) : Replies call (log ++ log') where
  tickers := List.forall_mem_append.mpr ⟨h.tickers, htickers⟩
  answered := by
    obtain ⟨answer, hanswers, hto⟩ := h.answered
    exact ⟨answer, by rw [answersOf_append, hanswers, hnone, List.append_nil], hto⟩

/-- A fill answers nothing, and is about the incoming order's ticker. -/
theorem matchEvents_silent (taker : NewOrder) (newMarketOid : OrderID) (reported : Qty) (o : Order)
    (fillQty : Qty) :
    answersOf (matchEvents taker newMarketOid reported o fillQty) = [] ∧
      ∀ c ∈ matchEvents taker newMarketOid reported o fillQty, c.tickerId = taker.tickerId := by
  unfold matchEvents
  constructor
  · split <;> rfl
  · split <;> simp [Emission.tickerId]

/-- **A call on a book is answered once.** -/
theorem replies_of_request (hv : Valid b queue) (h : handleRequest stray call b = .ok () b') :
    ∃ log, b'.ome = b.ome ++ log ∧ Replies call log := by
  cases call with
  | new taker =>
    obtain ⟨queue₁, b₁, -, ⟨log, hlog, hreplies⟩, -, ⟨-, rfl⟩ | ⟨-, p, o, b₂, hr⟩⟩ :=
      addOrder_cases
        (P := fun _ b₁ => ∃ log, b₁.ome = b.ome ++ log ∧ Replies (.new taker) log)
        (fun _ b₁ p best _ h₁ _ _ _ => by
          obtain ⟨log, hlog, hreplies⟩ := h₁
          obtain ⟨hnone, htickers⟩ := matchEvents_silent taker b.nextMarketOid
            (b₁.reported stray p taker.qty) (b₁.orderAfter p taker.qty) (b₁.fillQty p taker.qty)
          refine ⟨log ++ b₁.matchLog stray taker b.nextMarketOid p taker.qty, ?_,
            hreplies.append htickers hnone⟩
          rw [OrderBook.ome_matched, hlog, List.append_assoc])
        hv ⟨[.response (taker.acceptance b.nextMarketOid)], rfl, by simp [Emission.tickerId,
          NewOrder.acceptance, Request.tickerId], _, rfl, rfl⟩ h
    · exact ⟨log, hlog, hreplies⟩
    · refine ⟨log ++ [.update o.added], ?_, hreplies.append ?_ rfl⟩
      · rw [hr.book]
        show b₂.ome ++ _ = _
        rw [hr.files.1.ome, hlog, List.append_assoc]
      · rw [hr.order]
        simp [Emission.tickerId, Order.added, NewOrder.toOrder, Request.tickerId]
  | cancel r =>
    rcases cancelOrder_ok hv.toSound h with ⟨rfl, -⟩ | ⟨p, l, -, rfl⟩
    · exact ⟨_, rfl, by simp [Emission.tickerId, CancelOrder.rejection, Request.tickerId], _, rfl,
        .inr rfl⟩
    · exact ⟨_, rfl, by simp [Emission.tickerId, CancelOrder.events, Request.tickerId], _, rfl,
        .inl rfl⟩

end replies

/-! ## The log of a run -/

/-- A request may take the engine with its log so far from one state to another, without a fault. -/
def LoggedStep (stray : Ticker → ℕ → Qty) (s : MatchingEngine B × List Emission)
    (r : OMEClientRequest) (s' : MatchingEngine B × List Emission) : Prop :=
  ∃ calls, s.1.handleClientRequest stray r = .ok (s'.1, calls) ∧ s'.2 = s.2 ++ calls

/-- The requests may lead from a new engine to `e`, whose books make the calls `log` on it. -/
abbrev EngineLogs (stray : Ticker → ℕ → Qty) (rs : List OMEClientRequest) (e : MatchingEngine B)
    (log : List Emission) : Prop :=
  Path (LoggedStep stray) (.create B, []) rs (e, log)

/-- The calls about a ticker. -/
def ofTicker (ticker : Ticker) (log : List Emission) : List Emission :=
  log.filter fun c => decide (c.tickerId.toNat = ticker.val)

/-- The calls on books that some requests make. -/
def bookCalls (rs : List OMEClientRequest) : List Request := rs.filterMap (·.bookCall)

section logs

variable {stray : Ticker → ℕ → Qty} {e e' : MatchingEngine B} {r : OMEClientRequest}
  {rs : List OMEClientRequest} {log calls : List Emission} {call : Request}

theorem OMEClientRequest.tickerId_bookCall (h : r.bookCall = some call) :
    call.tickerId = r.tickerId := by
  unfold OMEClientRequest.bookCall at h
  split at h
  · cases h
    rfl
  · split at h
    · cases h
      rfl
    · cases h

/-- **A request is answered once** if it makes a call on a book, and the calls it leads to are about
its ticker. -/
theorem replies_of_handleClientRequest (he : EngineRuns stray rs e)
    (h : e.handleClientRequest stray r = .ok (e', calls)) :
    r.bookCall = none ∧ calls = [] ∨
      ∃ call, r.bookCall = some call ∧ Replies call calls ∧ r.tickerId.toNat < maxTickers := by
  obtain ⟨hcall, -, hnil⟩ | ⟨call, ticker, book, hcall, hticker, hbook, -, rfl⟩ :=
    handleClientRequest_ok h
  · exact .inl ⟨hcall, hnil⟩
  · obtain ⟨queue, hv⟩ := he.valid ticker
    obtain ⟨new, hnew, hreplies⟩ := replies_of_request hv hbook
    rw [hnew, List.drop_left]
    exact .inr ⟨call, hcall, hreplies, hticker ▸ ticker.isLt⟩

/-- The engine of a logged run. -/
theorem EngineLogs.engine (h : EngineLogs stray rs e log) : EngineRuns stray rs e := by
  induction rs using List.reverseRecOn generalizing e log with
  | nil =>
    cases h
    rfl
  | append_singleton rs r ih =>
    obtain ⟨⟨e₁, log₁⟩, hrun, calls, hcall, -⟩ := RunsOf.path_concat.mp h
    exact RunsOf.path_concat.mpr ⟨e₁, ih hrun, calls, hcall⟩

/-- The engine and its log after some requests. -/
def MatchingEngine.handleAll (stray : Ticker → ℕ → Qty) (rs : List OMEClientRequest) :
    Option (MatchingEngine B × List Emission) :=
  rs.foldlM (fun s r => (s.1.handleClientRequest stray r).toOption.map fun x => (x.1, s.2 ++ x.2))
    (.create B, [])

theorem engineLogs_of_handleAll (h : MatchingEngine.handleAll (B := B) stray rs = some (e, log)) :
    EngineLogs stray rs e log := by
  refine Path.of_foldlM (fun s r s' hstep => ?_) h
  obtain ⟨⟨e₁, calls⟩, hcall, rfl⟩ := Option.map_eq_some_iff.mp hstep
  exact ⟨calls, Exec.toOption_eq_some.mp hcall, rfl⟩

/-- Requests for two tickers, one of them of no known type: a BUY takes the SELL of its ticker and
comes to rest, a SELL of the other ticker is cancelled. -/
def twoTickers : List OMEClientRequest :=
  [⟨.new, 1, 0, 1, .sell, 100, 10⟩, ⟨.new, 1, 3, 2, .sell, 100, 10⟩, ⟨.new, 2, 0, 1, .buy, 100, 10⟩,
    ⟨⟨7⟩, 2, 0, 1, .buy, 100, 10⟩, ⟨.cancel, 1, 3, 2, .sell, 100, 10⟩]

/-- The calls a request leads to carry its ticker, which is a book's. -/
theorem tickers_of_handleClientRequest (he : EngineRuns stray rs e)
    (h : e.handleClientRequest stray r = .ok (e', calls)) :
    ∀ c ∈ calls, c.tickerId = r.tickerId ∧ r.tickerId.toNat < maxTickers := by
  rcases replies_of_handleClientRequest he h with ⟨-, rfl⟩ | ⟨call, hr, hreplies, hlt⟩
  · exact fun c hc => absurd hc List.not_mem_nil
  · intro c hc
    rw [hreplies.tickers c hc, OMEClientRequest.tickerId_bookCall hr]
    exact ⟨rfl, hlt⟩

/-- The calls about a ticker are those of its book. -/
theorem EngineLogs.ofTicker (h : EngineLogs stray rs e log) (ticker : Ticker) :
    HftSys.ofTicker ticker log = (e.orderBookForTicker ticker).ome := by
  induction rs using List.reverseRecOn generalizing e log with
  | nil =>
    cases h
    rfl
  | append_singleton rs r ih =>
    obtain ⟨⟨e₁, log₁⟩, hrun, calls, hcall, hlog⟩ := RunsOf.path_concat.mp h
    obtain rfl : log = log₁ ++ calls := hlog
    have hengine : EngineRuns stray rs e₁ := EngineLogs.engine hrun
    have htickers := tickers_of_handleClientRequest hengine hcall
    rw [ome_handleClientRequest hengine hcall ticker, ← ih hrun, HftSys.ofTicker,
      List.filter_append]
    congr 1
    split
    · rename_i heq
      apply List.filter_eq_self.mpr
      intro c hc
      rw [(htickers c hc).1]
      exact decide_eq_true heq.symm
    · rename_i hne
      apply List.filter_eq_nil_iff.mpr
      intro c hc
      rw [(htickers c hc).1]
      simpa using Ne.symm hne

/-- **The log falls apart into those of the books**: in every run of the engine, every call carries
the ticker of a book, and those that carry a book's are the calls of that book, in order. -/
theorem log_demultiplexes (h : EngineLogs stray rs e log) :
    (∀ c ∈ log, c.tickerId.toNat < maxTickers) ∧
      ∀ ticker, ofTicker ticker log = (e.orderBookForTicker ticker).ome := by
  refine ⟨?_, h.ofTicker⟩
  induction rs using List.reverseRecOn generalizing e log with
  | nil =>
    cases h
    exact fun c hc => absurd hc List.not_mem_nil
  | append_singleton rs r ih =>
    obtain ⟨⟨e₁, log₁⟩, hrun, calls, hcall, hlog⟩ := RunsOf.path_concat.mp h
    obtain rfl : log = log₁ ++ calls := hlog
    refine List.forall_mem_append.mpr ⟨ih hrun, fun c hc => ?_⟩
    obtain ⟨hticker, hlt⟩ := tickers_of_handleClientRequest (EngineLogs.engine hrun) hcall c hc
    rw [hticker]
    exact hlt

/-- Eight calls about one ticker and four about another. -/
theorem log_demultiplexes_sample :
    ∃ (e : MatchingEngine .production) (log : List Emission),
      log.map (·.tickerId) = [0, 0, 3, 3, 0, 0, 0, 0, 0, 0, 3, 3] ∧
        (∀ c ∈ log, c.tickerId.toNat < maxTickers) ∧
          ∀ ticker, ofTicker ticker log = (e.orderBookForTicker ticker).ome := by
  have hrun : (MatchingEngine.handleAll (B := .production) (fun _ _ => 0) twoTickers).map
      (fun s => s.2.map (·.tickerId)) = some [0, 0, 3, 3, 0, 0, 0, 0, 0, 0, 3, 3] := by
    decide +kernel
  obtain ⟨⟨e, log⟩, hlog, htickers⟩ := Option.map_eq_some_iff.mp hrun
  exact ⟨e, log, htickers, log_demultiplexes (engineLogs_of_handleAll hlog)⟩

/-- The responses other than `FILLED` are the answers to the calls on the books, one by one. -/
theorem EngineLogs.answers (h : EngineLogs stray rs e log) :
    List.Forall₂ Answer.To (answersOf log) (bookCalls rs) := by
  induction rs using List.reverseRecOn generalizing e log with
  | nil =>
    cases h
    exact .nil
  | append_singleton rs r ih =>
    obtain ⟨⟨e₁, log₁⟩, hrun, calls, hcall, hlog⟩ := RunsOf.path_concat.mp h
    obtain rfl : log = log₁ ++ calls := hlog
    rw [answersOf_append, bookCalls, List.filterMap_append]
    refine List.rel_append (ih hrun) ?_
    rcases replies_of_handleClientRequest (EngineLogs.engine hrun) hcall with
      ⟨hnone, rfl⟩ | ⟨call, hr, hreplies, -⟩
    · simp [hnone, answersOf, responsesOf]
    · obtain ⟨answer, hanswers, hto⟩ := hreplies.answered
      rw [hanswers, List.filterMap_cons_some hr]
      exact .cons hto .nil

/-- What a request leads to: nothing if it makes no call on a book, or the log of that call. -/
def OMEClientRequest.LeadsTo (r : OMEClientRequest) (calls : List Emission) : Prop :=
  match r.bookCall with
  | none => calls = []
  | some call => Replies call calls

/-- **Every request is answered once, in its place**: the log of a run is made of one piece for each
request, in the order of the requests; the piece of a request of type `NEW` or `CANCEL` is about the
request's ticker throughout and has one response other than `FILLED`, with the request's client,
order id and ticker: `ACCEPTED` for a new order, `CANCELLED` or `CANCEL_REJECTED` for a cancel;
other requests lead to nothing. -/
theorem requests_answered (h : EngineLogs stray rs e log) :
    ∃ pieces, log = pieces.flatten ∧ List.Forall₂ OMEClientRequest.LeadsTo rs pieces := by
  induction rs using List.reverseRecOn generalizing e log with
  | nil =>
    cases h
    exact ⟨[], rfl, .nil⟩
  | append_singleton rs r ih =>
    obtain ⟨⟨e₁, log₁⟩, hrun, calls, hcall, hlog⟩ := RunsOf.path_concat.mp h
    obtain ⟨pieces, hpieces, hall⟩ := ih hrun
    refine ⟨pieces ++ [calls], ?_, List.rel_append hall (.cons ?_ .nil)⟩
    · rw [List.flatten_append, List.flatten_singleton, ← hpieces]
      exact hlog
    · unfold OMEClientRequest.LeadsTo
      rcases replies_of_handleClientRequest (EngineLogs.engine hrun) hcall with
        ⟨hnone, hnil⟩ | ⟨call, hr, hreplies, -⟩
      · rw [hnone]
        exact hnil
      · rw [hr]
        exact hreplies

/-- The calls of `twoTickers` and of a cancel without an order, in six pieces. -/
theorem requests_answered_sample :
    ∃ (log : List Emission) (pieces : List (List Emission)), log.length = 13 ∧
      (answersOf log).map (·.type) =
        [.accepted, .accepted, .accepted, .cancelled, .cancelRejected] ∧
      log = pieces.flatten ∧ List.Forall₂ OMEClientRequest.LeadsTo
        (twoTickers ++ [⟨.cancel, 5, 0, 9, .sell, 100, 10⟩]) pieces := by
  have hrun : (MatchingEngine.handleAll (B := .production) (fun _ _ => 0)
      (twoTickers ++ [⟨.cancel, 5, 0, 9, .sell, 100, 10⟩])).map
        (fun s => (s.2.length, (answersOf s.2).map (·.type))) =
      some (13, [.accepted, .accepted, .accepted, .cancelled, .cancelRejected]) := by
    decide +kernel
  obtain ⟨⟨e, log⟩, hlog, heq⟩ := Option.map_eq_some_iff.mp hrun
  obtain ⟨hlen, htypes⟩ := Prod.mk.inj heq
  obtain ⟨pieces, hpieces, hall⟩ := requests_answered (engineLogs_of_handleAll hlog)
  exact ⟨log, pieces, hlen, htypes, hpieces, hall⟩

end logs

end HftSys
