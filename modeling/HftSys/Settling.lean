import HftSys.EndToEnd
import HftSys.ExecutionReports
import HftSys.Lib.Settling
import Mathlib.Data.Prod.Lex

/-!
# The exchange comes to rest

When nothing more comes in on the sockets, the threads work off what is there. `Own` are the actions
they have left to take, turns in which they find nothing to do left out.

* `Exchange.work` is the work that is left: the requests on their way to the engine, the calls of
  the engine's present request, and what waits in the output queues, in this order, since a request
  that is taken may lead to any number of calls.
* `exchange_settles`: every action of its own leaves the exchange with less work, so that it
  settles, whatever the order of the actions.
* `settled_delivers`: then everything accepted has been handled and everything said has been sent,
  exactly as far as the queues have had room.
* `settled_feeds_agree`: if they have, the clients and the subscribers know the same orders.
-/

namespace HftSys

open Runs Settling

variable {B : Build} {stray : Ticker → ℕ → Qty} {actions : List ExchangeAction} {x x' : Exchange B}
  {a : ExchangeAction}

/-! ## Work -/

/-- The action is one of the exchange's own, and finds something to do. -/
def Exchange.Own (x : Exchange B) : ExchangeAction → Prop
  | .sendAndRecv _ _ => False
  | .rxDone _ => x.gateway.fifo.pendingRequests ≠ []
  | .popUpdate => x.outputs.txMarketUpdates.items ≠ []
  | _ => True

/-- An action of the exchange's own may lead from one state to another. -/
def OwnStep (stray : Ticker → ℕ → Qty) (x : Exchange B) (a : ExchangeAction) (x' : Exchange B) :
    Prop :=
  x.Own a ∧ x.step stray a = some x'

/-- The turns the gateway still takes to get from one release to the next. -/
def GatewayPhase.turns : GatewayPhase → ℕ
  | .publishing _ => 2
  | .polling => 1
  | .releasing => 0

/-- The work on requests: to sort them, to push them, and to take them. -/
def Exchange.incoming (x : Exchange B) : ℕ :=
  3 * x.gateway.fifo.pendingRequests.length + 2 * x.phase.requests.length +
    x.rxRequests.items.length

/-- The work on responses, which are sent and released, and on updates. -/
def Exchange.outgoing (x : Exchange B) : ℕ :=
  2 * x.outputs.txResponses.items.length + x.phase.turns + x.outputs.txMarketUpdates.items.length

/-- The work that is left. -/
def Exchange.work (x : Exchange B) : ℕ ×ₗ ℕ ×ₗ ℕ :=
  toLex (x.incoming, toLex (x.emitting.length, x.outgoing))

theorem work_lt_of_incoming (h : x'.incoming < x.incoming) : x'.work < x.work :=
  Prod.Lex.toLex_lt_toLex.mpr (.inl h)

theorem work_lt_of_emitting (h : x'.incoming = x.incoming)
    (hemitting : x'.emitting.length < x.emitting.length) : x'.work < x.work :=
  Prod.Lex.toLex_lt_toLex.mpr (.inr ⟨h, Prod.Lex.toLex_lt_toLex.mpr (.inl hemitting)⟩)

theorem work_lt_of_outgoing (h : x'.incoming = x.incoming) (hemitting : x'.emitting = x.emitting)
    (houtgoing : x'.outgoing < x.outgoing) : x'.work < x.work :=
  Prod.Lex.toLex_lt_toLex.mpr (.inr ⟨h, Prod.Lex.toLex_lt_toLex.mpr
    (.inr ⟨congrArg List.length hemitting, houtgoing⟩)⟩)

/-- **An action of its own leaves the exchange with less work**, if a response that is about to be
released waits in its queue. -/
theorem Moves.work_lt (hm : Moves stray x a x') (hown : x.Own a)
    (hreleasing : x.phase = .releasing → x.outputs.txResponses.items ≠ []) : x'.work < x.work := by
  cases hm with
  | sendAndRecv hphase hcall => exact hown.elim
  | @rxDone sorted hphase hsort =>
    apply work_lt_of_incoming
    have hsome : 0 < x.gateway.fifo.pendingRequests.length := List.length_pos_iff.mpr hown
    have hpushed : (x.gateway.fifo.sequenceAndPublish sorted).2.length =
        x.gateway.fifo.pendingRequests.length := by
      simpa [FIFOSequencer.requests] using (FIFOSequencer.pushed_perm hsort).length_eq
    have hafter : (x.gateway.rxDoneCallback sorted).fifo.pendingRequests = [] :=
      FIFOSequencer.pendingRequests_sequenceAndPublish _ _
    simp only [Exchange.incoming, hafter, hphase, GatewayPhase.requests, hpushed, List.length_nil]
    omega
  | @push r rs hphase =>
    apply work_lt_of_incoming
    have hroom := x.rxRequests.length_push_le r
    simp only [Exchange.incoming, hphase, GatewayPhase.requests, List.length_cons]
    omega
  | leave hphase =>
    apply work_lt_of_outgoing
    · simp [Exchange.incoming, hphase, GatewayPhase.requests]
    · rfl
    · simp [Exchange.outgoing, hphase, GatewayPhase.turns]
  | @respond res rest g hphase hhead hcall =>
    obtain ⟨-, socket, s, -, -, rfl⟩ := sendResponse_ok hcall
    apply work_lt_of_outgoing
    · have hfifo : (x.gateway.setSocket socket s).fifo = x.gateway.fifo := rfl
      simp [Exchange.incoming, hphase, GatewayPhase.requests, hfifo]
    · rfl
    · simp [Exchange.outgoing, hphase, GatewayPhase.turns]
  | release hphase =>
    have hsome : 0 < x.outputs.txResponses.items.length :=
      List.length_pos_iff.mpr (hreleasing hphase)
    apply work_lt_of_outgoing
    · simp [Exchange.incoming, hphase, GatewayPhase.requests]
    · rfl
    · show 2 * x.outputs.txResponses.items.tail.length + 1 +
        x.outputs.txMarketUpdates.items.length < x.outgoing
      simp only [Exchange.outgoing, hphase, GatewayPhase.turns, List.length_tail]
      omega
  | @takeRequest r rest e calls hemitting hhead hcall =>
    apply work_lt_of_incoming
    show _ + _ + x.rxRequests.items.tail.length < x.incoming
    simp [Exchange.incoming, hhead]
  | @emit c cs hemitting =>
    apply work_lt_of_emitting
    · rfl
    · simp [hemitting]
  | popUpdate =>
    have hsome : 0 < x.outputs.txMarketUpdates.items.length := List.length_pos_iff.mpr hown
    apply work_lt_of_outgoing
    · rfl
    · rfl
    · show 2 * x.outputs.txResponses.items.length + x.phase.turns +
        x.outputs.txMarketUpdates.items.tail.length < x.outgoing
      simp only [Exchange.outgoing, List.length_tail]
      omega

/-- Some run leads to the exchange. -/
def Exchange.Reached (stray : Ticker → ℕ → Qty) (x : Exchange B) : Prop :=
  ∃ actions, ExchangeRuns stray actions x

/-- The exchange works its work off. -/
theorem lowers_work (stray : Ticker → ℕ → Qty) (B : Build) :
    Lowers (OwnStep (B := B) stray) (Exchange.Reached stray) Exchange.work where
  kept := by
    rintro x a x' ⟨actions, h⟩ ⟨-, hstep⟩
    exact ⟨actions ++ [a], (runsOf_exchange B stray).concat.mpr ⟨x, h, hstep⟩⟩
  lowers := by
    rintro x a x' ⟨actions, h⟩ ⟨hown, hstep⟩
    obtain ⟨emitted, hconv⟩ := h.conveyed
    exact (Exchange.step_ok hstep).work_lt hown hconv.releasing

/-! ## Rest -/

/-- Nothing is left to do: what still waits is a request that the engine cannot handle, and those
behind it, or a response that finds no room on its socket, and those behind it. -/
structure Exchange.Settled (stray : Ticker → ℕ → Qty) (x : Exchange B) : Prop where
  phase : x.phase = .polling
  sequenced : x.gateway.fifo.pendingRequests = []
  emitted : x.emitting = []
  read : x.outputs.txMarketUpdates.items = []
  faults : ∀ r rest, x.rxRequests.items = r :: rest →
    ∃ fault, x.engine.handleClientRequest stray r = .error fault
  blocked : ∀ res rest, x.outputs.txResponses.items = res :: rest →
    x.gateway.sendResponse res = .error .bufferOverflow

/-- A response at the head of its queue is sent, or finds no room on its socket. -/
theorem sendResponse_head {res : OMEClientResponse} {rest : List OMEClientResponse}
    (h : ExchangeRuns stray actions x) (hhead : x.outputs.txResponses.items = res :: rest) :
    (∃ g, x.gateway.sendResponse res = .ok g) ∨
      x.gateway.sendResponse res = .error .bufferOverflow := by
  have hknows : x.gateway.Knows res.clientId := h.addressed.txResponses res (by simp [hhead])
  obtain ⟨socket, hsocket⟩ := Option.ne_none_iff_exists'.mp hknows
  obtain ⟨es, hes⟩ := h.gateway
  cases hcall : x.gateway.sendResponse res with
  | ok g => exact .inl ⟨g, rfl⟩
  | error fault =>
    rw [fault_of_sendResponse (hes.consistent.clientId_lt hsocket) hknows hcall]
    exact .inr rfl

/-- A run and a path behind it make a run. -/
theorem ExchangeRuns.append {more : List ExchangeAction} (h : ExchangeRuns stray actions x)
    (hpath : Path (OwnStep stray) x more x') : ExchangeRuns stray (actions ++ more) x' := by
  induction more generalizing actions x with
  | nil =>
    cases hpath
    rw [List.append_nil]
    exact h
  | cons a more ih =>
    obtain ⟨x₁, ⟨-, hstep⟩, hrest⟩ := hpath
    have hrun : ExchangeRuns stray (actions ++ [a]) x₁ :=
      (runsOf_exchange B stray).concat.mpr ⟨x, h, hstep⟩
    have hall := ih hrun hrest
    rwa [List.append_assoc] at hall

/-- **A settled exchange has delivered**: in a run that ends with the exchange settled and both
queues behind the gateway worked off, the requests taken are those accepted, each of them once, the
responses sent are those of the books, and the updates read are those of the books, exactly when
every push to the queue in question found room. -/
theorem settled_delivers (h : ExchangeRuns stray actions x) (hs : x.Settled stray)
    (hrequests : x.rxRequests.items = []) (hresponses : x.outputs.txResponses.items = []) :
    ∃ log, EngineLogs stray x.rxRequests.taken x.engine log ∧
      (x.rxRequests.taken.Perm x.gateway.accepted ↔
        ExchangeMeets (B := B) stray Exchange.RequestFits actions) ∧
      (x.delivered = responsesOf log ↔
        ExchangeMeets (B := B) stray Exchange.ResponseFits actions) ∧
      (x.outputs.txMarketUpdates.taken = updatesOf log ↔
        ExchangeMeets (B := B) stray Exchange.UpdateFits actions) := by
  obtain ⟨emitted, hconv⟩ := h.conveyed
  have hlog := hconv.engine
  rw [hs.emitted, List.append_nil] at hlog
  refine ⟨emitted, hlog, ?_, ?_, ?_⟩
  · have hunder : x.underWay = [] := by
      simp [Exchange.underWay, hrequests, hs.phase, GatewayPhase.requests, FIFOSequencer.requests,
        hs.sequenced]
    rw [← requests_kept h, hunder, List.append_nil]
  · have hall : x.delivered = x.outputs.txResponses.entered := by
      simp [Exchange.delivered, Exchange.sending, Fifo.Queue.entered, hresponses, hs.phase]
    rw [hall]
    exact hconv.responses.all_iff
  · have hall : x.outputs.txMarketUpdates.taken = x.outputs.txMarketUpdates.entered := by
      simp [Fifo.Queue.entered, hs.read]
    rw [hall]
    exact hconv.updates.all_iff

/-- Client 2 takes its BUY out of the book. -/
def sampleWithdrawal : OMEClientRequest := ⟨.cancel, 2, 0, 1, .buy, 100, 10⟩

/-- Client 1 places another SELL. -/
def sampleSecondSell : OMEClientRequest := ⟨.new, 1, 0, 2, .sell, 105, 4⟩

/-- The sample goes on: the BUY that has come to rest is withdrawn, another SELL comes to rest, and
all that is said about the four requests is sent and published. -/
def sampleDelivery : List ExchangeAction :=
  sampleActions ++ [.emit,
    .sendAndRecv 1 ⟨OGSClientRequest.image ⟨2, sampleWithdrawal⟩, 7, none⟩,
    .sendAndRecv 0 ⟨OGSClientRequest.image ⟨2, sampleSecondSell⟩, 8, none⟩,
    .rxDone [⟨7, sampleWithdrawal⟩, ⟨8, sampleSecondSell⟩], .publish, .publish, .publish,
    .takeRequest, .emit, .emit, .takeRequest, .emit, .emit] ++
  (List.replicate 6 [.respond, .release]).flatten ++ List.replicate 6 .popUpdate

/-- The requests of `sampleDelivery`. -/
def sampleRequests : List OMEClientRequest :=
  [sampleSell, sampleBuy, sampleWithdrawal, sampleSecondSell]

/-- Nothing of it is left. -/
theorem sampleDelivery_settled :
    ∃ x : Exchange .production, ExchangeRuns (fun _ _ => 0) sampleDelivery x ∧
      (x.Settled fun _ _ => 0) ∧ x.rxRequests.items = [] ∧ x.outputs.txResponses.items = [] ∧
        x.rxRequests.taken = sampleRequests ∧ x.gateway.accepted = sampleRequests ∧
        x.delivered.map (·.type) = [.accepted, .accepted, .filled, .filled, .cancelled, .accepted] ∧
        x.outputs.txMarketUpdates.taken.map (·.type) =
          [.add, .trade, .cancel, .add, .cancel, .add] := by
  have hrun : ((sampleDelivery.foldlM (Exchange.step fun _ _ => 0)
      (Exchange.create .production)).map fun x =>
        (x.phase, [x.gateway.fifo.pendingRequests.length, x.emitting.length,
          x.outputs.txMarketUpdates.items.length, x.rxRequests.items.length,
          x.outputs.txResponses.items.length])) = some (.polling, [0, 0, 0, 0, 0]) := by
    decide +kernel
  have hrun' : ((sampleDelivery.foldlM (Exchange.step fun _ _ => 0)
      (Exchange.create .production)).map fun x =>
        ([x.rxRequests.taken, x.gateway.accepted], x.delivered.map (·.type),
          x.outputs.txMarketUpdates.taken.map (·.type))) =
      some ([sampleRequests, sampleRequests],
        [.accepted, .accepted, .filled, .filled, .cancelled, .accepted],
        [.add, .trade, .cancel, .add, .cancel, .add]) := by
    decide +kernel
  obtain ⟨x, hx, hat⟩ := Option.map_eq_some_iff.mp hrun
  obtain ⟨x', hx', hat'⟩ := Option.map_eq_some_iff.mp hrun'
  obtain rfl : x' = x := Option.some.inj (hx'.symm.trans hx)
  simp only [Prod.mk.injEq, List.cons.injEq, List.length_eq_zero_iff, and_true] at hat
  obtain ⟨hphase, hpending, hemitting, hupdates, hrequests, hresponses⟩ := hat
  simp only [Prod.mk.injEq, List.cons.injEq, and_true] at hat'
  obtain ⟨⟨htaken, haccepted⟩, hdelivered, hread⟩ := hat'
  exact ⟨x', hx, ⟨hphase, hpending, hemitting, hupdates, by simp [hrequests],
    by simp [hresponses]⟩, hrequests, hresponses, htaken, haccepted, hdelivered, hread⟩

/-- The sample is short enough for its queues. -/
theorem sampleDelivery_fits :
    ExchangeMeets (B := .production) (fun _ _ => 0) Exchange.ResponseFits sampleDelivery ∧
      ExchangeMeets (B := .production) (fun _ _ => 0) Exchange.UpdateFits sampleDelivery :=
  fits_of_length_le (by decide) (by decide)

/-- Four requests, six responses and six updates: everything has been handled, sent and read. -/
theorem settled_delivers_sample :
    ∃ (x : Exchange .production) (log : List Emission), x.rxRequests.taken = sampleRequests ∧
      x.delivered.length = 6 ∧ x.outputs.txMarketUpdates.taken.length = 6 ∧
      EngineLogs (fun _ _ => 0) x.rxRequests.taken x.engine log ∧
      ExchangeMeets (B := .production) (fun _ _ => 0) Exchange.RequestFits sampleDelivery ∧
      x.delivered = responsesOf log ∧ x.outputs.txMarketUpdates.taken = updatesOf log := by
  obtain ⟨x, hx, hsettled, hrequests, hresponses, htaken, haccepted, hdelivered, hread⟩ :=
    sampleDelivery_settled
  obtain ⟨log, hlog, hkept, hsent, hpublished⟩ :=
    settled_delivers hx hsettled hrequests hresponses
  refine ⟨x, log, htaken, ?_, ?_, hlog, hkept.mp ?_, hsent.mpr sampleDelivery_fits.1,
    hpublished.mpr sampleDelivery_fits.2⟩
  · simpa using congrArg List.length hdelivered
  · simpa using congrArg List.length hread
  · rw [htaken, haccepted]

/-! ## What clients and subscribers know -/

/-- The responses about a ticker. -/
def responsesFor (ticker : Ticker) (rs : List OMEClientResponse) : List OMEClientResponse :=
  rs.filter fun r => decide (r.tickerId.toNat = ticker.val)

/-- The responses among the calls about a ticker. -/
theorem responsesOf_ofTicker (ticker : Ticker) (log : List Emission) :
    responsesOf (ofTicker ticker log) = responsesFor ticker (responsesOf log) := by
  induction log with
  | nil => rfl
  | cons c log ih =>
    rw [ofTicker, List.filter_cons, ← ofTicker]
    cases c with
    | update u =>
      have hskip : responsesOf (Emission.update u :: log) = responsesOf log := rfl
      rw [hskip, ← ih]
      split <;> rfl
    | response r =>
      have hcons : responsesOf (Emission.response r :: log) = r :: responsesOf log := rfl
      rw [hcons, responsesFor, List.filter_cons, ← responsesFor, ← ih]
      show responsesOf (if decide (r.tickerId.toNat = ticker.val) = true then
        Emission.response r :: ofTicker ticker log else ofTicker ticker log) = _
      split <;> rfl

/-- What clients and subscribers are both told of an order. -/
structure Terms where
  side : Side
  price : Price
  qty : Qty
deriving DecidableEq, Repr

def OpenOrder.terms (o : OpenOrder) : Terms := ⟨o.side, o.price, o.qty⟩

def PublicOrder.terms (o : PublicOrder) : Terms := ⟨o.side, o.price, o.qty⟩

/-- In every run of a book its responses and its updates tell of the same orders. -/
theorem RunsTo.terms_eq {stray : ℕ → Qty} {calls : List Request} {b : OrderBook B}
    (h : RunsTo stray calls b) (hn : accepted calls < 2 ^ 64) (m : OrderID) :
    ((DropCopy.empty.after (responsesOf b.ome)).orders m).map OpenOrder.terms =
      (replay (updatesOf b.ome) m).map PublicOrder.terms := by
  obtain ⟨queue, -, hreplayed⟩ := (preserved_replayed stray B).run hn (replayed_create B) h
  exact (h.reported hn).shows.map_eq hreplayed.shows (fun p _ => rfl) m

/-- **Clients and subscribers know the same orders**: when the exchange has settled with all
responses sent, and no push of a response or an update has been refused, then for every ticker the
responses sent and the updates read, each replayed by those that get them, agree on which orders are
open, on which side, at which price and with which quantity, if fewer than `2 ^ 64` orders of the
ticker have been accepted. -/
theorem settled_feeds_agree (h : ExchangeRuns stray actions x) (hs : x.Settled stray)
    (hall : x.outputs.txResponses.items = [])
    (hresponses : ExchangeMeets (B := B) stray Exchange.ResponseFits actions)
    (hupdates : ExchangeMeets (B := B) stray Exchange.UpdateFits actions) (ticker : Ticker)
    (hn : accepted (callsFor ticker x.rxRequests.taken) < 2 ^ 64) (m : OrderID) :
    ((DropCopy.empty.after (responsesFor ticker x.delivered)).orders m).map OpenOrder.terms =
      (replay (updatesFor ticker x.outputs.txMarketUpdates.taken) m).map PublicOrder.terms := by
  obtain ⟨emitted, hconv⟩ := h.conveyed
  have hlog := hconv.engine
  rw [hs.emitted, List.append_nil] at hlog
  have hbook := hlog.ofTicker ticker
  have hdelivered : x.delivered = responsesOf emitted := by
    rw [← hconv.responses.all_iff.mpr hresponses]
    simp [Exchange.delivered, Exchange.sending, Fifo.Queue.entered, hall, hs.phase]
  have hread : x.outputs.txMarketUpdates.taken = updatesOf emitted := by
    rw [← hconv.updates.all_iff.mpr hupdates]
    simp [Fifo.Queue.entered, hs.read]
  rw [hdelivered, hread, ← responsesOf_ofTicker, ← updatesOf_ofTicker, hbook]
  exact (hlog.engine.callsFor ticker).terms_eq hn m

/-- After `sampleDelivery` both sides know of one order, the second SELL. -/
theorem settled_feeds_agree_sample :
    ∃ x : Exchange .production,
      x.delivered.map (·.type) = [.accepted, .accepted, .filled, .filled, .cancelled, .accepted] ∧
      x.outputs.txMarketUpdates.taken.map (·.type) = [.add, .trade, .cancel, .add, .cancel, .add] ∧
      ∀ ticker m, ((DropCopy.empty.after (responsesFor ticker x.delivered)).orders m).map
        OpenOrder.terms =
          (replay (updatesFor ticker x.outputs.txMarketUpdates.taken) m).map PublicOrder.terms := by
  obtain ⟨x, hx, hsettled, -, hresponses, htaken, -, hdelivered, hread⟩ := sampleDelivery_settled
  refine ⟨x, hdelivered, hread, fun ticker m => settled_feeds_agree hx hsettled hresponses
    sampleDelivery_fits.1 sampleDelivery_fits.2 ticker ?_ m⟩
  rw [htaken]
  revert ticker
  decide

end HftSys
