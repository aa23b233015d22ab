import HftSys.Lib.Fifo
import HftSys.Messages
import HftSys.Runs

/-!
# The matching engine

`MatchingEngine::MatchingEngine`: one order book a ticker, and two bounded queues for what the books
hand to it.

* `handleClientRequest` returns the next engine and, in order, the calls of `dispatchClientResponse`
  and `publishMarketUpdate` that its book has made. The books do not read the queues, so that the
  calls can be looked at after the book has changed.
* `Outputs` are the two queues. A list of `OutputStep`s is an interleaving of the calls with the
  pops of the queues' readers.
* `EngineRuns.book`: every book of an engine is one that a run of the book reaches.

Left out: the thread, its start and stop, and the log.
-/

namespace HftSys

open Exec

/-- `MAX_TICKERS`. Source: `types.h` -/
def maxTickers : ℕ := 8

/-- An index of `orderBookForTicker_`. -/
abbrev Ticker := Fin maxTickers

/-- `MatchingEngine::MatchingEngine`. Source: `matching_engine.h` -/
structure MatchingEngine (B : Build) where
  orderBookForTicker : Ticker → OrderBook B

/-- The call on an order book that a request leads to, if its type is `NEW` or `CANCEL`.
Source: `matching_engine.cpp`, `MatchingEngine::handleClientRequest` -/
def OMEClientRequest.bookCall (r : OMEClientRequest) : Option Request :=
  if r.type = .new then
    some (.new ⟨r.clientId, r.orderId, r.tickerId, r.side, r.price, r.qty⟩)
  else if r.type = .cancel then some (.cancel ⟨r.clientId, r.orderId, r.tickerId⟩)
  else none

namespace MatchingEngine

variable {B : Build}

/-- A new engine. Source: `matching_engine.cpp`, `MatchingEngine::MatchingEngine` -/
def create (B : Build) : MatchingEngine B := ⟨fun _ => .create B⟩

/-- The engine after a request, and the calls the request's book has made on it. The ticker is a
subscript that is not checked.
Source: `matching_engine.cpp`, `MatchingEngine::handleClientRequest` -/
def handleClientRequest (stray : Ticker → ℕ → Qty) (e : MatchingEngine B)
    (request : OMEClientRequest) : Except Fault (MatchingEngine B × List Emission) :=
  match request.bookCall with
  | none => .ok (e, [])
  | some call =>
    if h : request.tickerId.toNat < maxTickers then
      let ticker : Ticker := ⟨request.tickerId.toNat, h⟩
      match handleRequest (stray ticker) call (e.orderBookForTicker ticker) with
      | .ok _ book =>
        .ok (⟨Function.update e.orderBookForTicker ticker book⟩,
          book.ome.drop (e.orderBookForTicker ticker).ome.length)
      | .error fault _ => .error fault
    else .error .outOfRange

end MatchingEngine

/-! ## The queues -/

/-- The engine's output queues. Source: `matching_engine.h` -/
structure Outputs where
  txResponses : Fifo.Queue OMEClientResponse
  txMarketUpdates : Fifo.Queue OMEMarketUpdate

/-- A step on the output queues: a call of a book, or a reader's pop. -/
inductive OutputStep where
  | call (c : Emission)
  | popResponse
  | popUpdate
deriving DecidableEq

namespace Outputs

/-- `push` on the queue for the call; a failure is only logged.
Source: `matching_engine.cpp`, `MatchingEngine::dispatchClientResponse` and `publishMarketUpdate` -/
def push (o : Outputs) : Emission → Outputs
  | .response r => { o with txResponses := o.txResponses.push r }
  | .update u => { o with txMarketUpdates := o.txMarketUpdates.push u }

/-- One step. -/
def act (o : Outputs) : OutputStep → Outputs
  | .call c => o.push c
  | .popResponse => { o with txResponses := o.txResponses.pop }
  | .popUpdate => { o with txMarketUpdates := o.txMarketUpdates.pop }

/-- The steps, one after the other. -/
def run (o : Outputs) (steps : List OutputStep) : Outputs := steps.foldl act o

end Outputs

namespace OutputStep

/-- The call made in a step. -/
def emission : OutputStep → Option Emission
  | .call c => some c
  | _ => none

/-- A step as the queue of responses sees it. -/
def responseOp : OutputStep → Option (Fifo.Op OMEClientResponse)
  | .call (.response r) => some (.push r)
  | .popResponse => some .pop
  | _ => none

/-- A step as the queue of updates sees it. -/
def updateOp : OutputStep → Option (Fifo.Op OMEMarketUpdate)
  | .call (.update u) => some (.push u)
  | .popUpdate => some .pop
  | _ => none

end OutputStep

/-- The calls made in some steps. -/
def callsOf (steps : List OutputStep) : List Emission := steps.filterMap (·.emission)

/-- The operations on the queue of responses. -/
def responseOps (steps : List OutputStep) : List (Fifo.Op OMEClientResponse) :=
  steps.filterMap (·.responseOp)

/-- The operations on the queue of updates. -/
def updateOps (steps : List OutputStep) : List (Fifo.Op OMEMarketUpdate) :=
  steps.filterMap (·.updateOp)

section outputs

variable {o : Outputs} {steps : List OutputStep}

/-- **The two queues** see their own operations only. -/
theorem Outputs.run_eq (o : Outputs) (steps : List OutputStep) :
    o.run steps =
      ⟨o.txResponses.run (responseOps steps), o.txMarketUpdates.run (updateOps steps)⟩ := by
  induction steps generalizing o with
  | nil => rfl
  | cons s steps ih =>
    rw [Outputs.run, List.foldl_cons]
    apply (ih _).trans
    cases s with
    | call c => cases c <;> rfl
    | popResponse => rfl
    | popUpdate => rfl

/-- What is pushed to the queue of responses. -/
theorem pushes_responseOps (steps : List OutputStep) :
    Fifo.pushes (responseOps steps) = responsesOf (callsOf steps) := by
  induction steps with
  | nil => rfl
  | cons s steps ih =>
    cases s with
    | call c =>
      cases c with
      | response r => exact congrArg (r :: ·) ih
      | update u => exact ih
    | popResponse => exact ih
    | popUpdate => exact ih

/-- What is pushed to the queue of updates. -/
theorem pushes_updateOps (steps : List OutputStep) :
    Fifo.pushes (updateOps steps) = updatesOf (callsOf steps) := by
  induction steps with
  | nil => rfl
  | cons s steps ih =>
    cases s with
    | call c =>
      cases c with
      | response r => exact ih
      | update u => exact congrArg (u :: ·) ih
    | popResponse => exact ih
    | popUpdate => exact ih

end outputs

/-! ## Runs -/

section runs

variable {B : Build} {stray : Ticker → ℕ → Qty} {e e' : MatchingEngine B} {r : OMEClientRequest}
  {rs : List OMEClientRequest} {calls : List Emission}

/-- A request may take the engine from `e` to `e'`, without a fault. -/
def EngineStep (stray : Ticker → ℕ → Qty) (e : MatchingEngine B) (r : OMEClientRequest)
    (e' : MatchingEngine B) : Prop :=
  ∃ calls, e.handleClientRequest stray r = .ok (e', calls)

/-- The requests may lead from a new engine to `e`. -/
abbrev EngineRuns (stray : Ticker → ℕ → Qty) (rs : List OMEClientRequest) (e : MatchingEngine B) :
    Prop :=
  Runs.Path (EngineStep stray) (.create B) rs e

theorem runsOf_engine (B : Build) (stray : Ticker → ℕ → Qty) :
    Runs.RunsOf (EngineStep stray) (MatchingEngine.create B) (EngineRuns stray) :=
  .path (EngineStep stray) (.create B)

/-- **`handleClientRequest` taken apart.** -/
theorem handleClientRequest_ok (h : e.handleClientRequest stray r = .ok (e', calls)) :
    r.bookCall = none ∧ e' = e ∧ calls = [] ∨
      ∃ call ticker book, r.bookCall = some call ∧ ticker.val = r.tickerId.toNat ∧
        handleRequest (stray ticker) call (e.orderBookForTicker ticker) = .ok () book ∧
        e' = ⟨Function.update e.orderBookForTicker ticker book⟩ ∧
        calls = book.ome.drop (e.orderBookForTicker ticker).ome.length := by
  unfold MatchingEngine.handleClientRequest at h
  split at h
  · rename_i hcall
    cases h
    exact .inl ⟨hcall, rfl, rfl⟩
  · rename_i call hcall
    split at h
    · dsimp only at h
      split at h
      · rename_i book hbook
        cases h
        exact .inr ⟨call, _, book, hcall, rfl, hbook, rfl, rfl⟩
      · cases h
    · cases h

/-- A request whose book handles it. -/
theorem handleClientRequest_of_ok {call : Request} {ticker : Ticker} {book : OrderBook B}
    (hcall : r.bookCall = some call) (hticker : ticker.val = r.tickerId.toNat)
    (hbook : handleRequest (stray ticker) call (e.orderBookForTicker ticker) = .ok () book) :
    e.handleClientRequest stray r = .ok (⟨Function.update e.orderBookForTicker ticker book⟩,
      book.ome.drop (e.orderBookForTicker ticker).ome.length) := by
  have hlt : r.tickerId.toNat < maxTickers := hticker ▸ ticker.isLt
  have hindex : (⟨r.tickerId.toNat, hlt⟩ : Ticker) = ticker := Fin.ext hticker.symm
  unfold MatchingEngine.handleClientRequest
  rw [hcall]
  simp only [dif_pos hlt, hindex, hbook]

/-- A request only adds calls to those a book has made. -/
theorem ome_prefix {stray : ℕ → Qty} {b b' : OrderBook B} {queue : Queues B} {call : Request}
    (hv : Valid b queue) (h : handleRequest stray call b = .ok () b') : b.ome <+: b'.ome := by
  cases call with
  | new taker =>
    obtain ⟨queue₁, b₁, -, hlog, -, ⟨-, rfl⟩ | ⟨-, p, o, b₂, hr⟩⟩ :=
      addOrder_cases (P := fun _ b₁ => b.ome <+: b₁.ome)
        (fun _ b₁ p best _ hb₁ _ _ _ => by
          rw [OrderBook.ome_matched]
          exact hb₁.trans (List.prefix_append _ _))
        hv (List.prefix_append _ _) h
    · exact hlog
    · rw [hr.book]
      show b.ome <+: b₂.ome ++ _
      rw [hr.files.1.ome]
      exact hlog.trans (List.prefix_append _ _)
  | cancel r =>
    rcases cancelOrder_ok hv.toSound h with ⟨rfl, -⟩ | ⟨p, l, -, rfl⟩
    · exact List.prefix_append _ _
    · exact List.prefix_append _ _

/-- **Every book of an engine** is one that a run of the book reaches. -/
theorem EngineRuns.book (h : EngineRuns stray rs e) (ticker : Ticker) :
    ∃ calls, RunsTo (stray ticker) calls (e.orderBookForTicker ticker) := by
  refine (runsOf_engine B stray).induction
    (P := fun _ e => ∃ calls, RunsTo (stray ticker) calls (e.orderBookForTicker ticker))
    ⟨[], rfl⟩ ?_ h
  rintro rs r e e' - ⟨past, hpast⟩ ⟨calls, hstep⟩
  obtain ⟨-, rfl, -⟩ | ⟨call, ticker', book, -, -, hbook, rfl, -⟩ := handleClientRequest_ok hstep
  · exact ⟨past, hpast⟩
  · by_cases ht : ticker = ticker'
    · subst ht
      refine ⟨past ++ [call], ?_⟩
      show RunsTo _ _ (Function.update e.orderBookForTicker ticker book ticker)
      rw [Function.update_self]
      exact runsTo_concat.mpr ⟨_, hpast, hbook⟩
    · refine ⟨past, ?_⟩
      show RunsTo _ _ (Function.update e.orderBookForTicker ticker' book ticker)
      rw [Function.update_of_ne ht]
      exact hpast

theorem EngineRuns.valid (h : EngineRuns stray rs e) (ticker : Ticker) :
    ∃ queue, Valid (e.orderBookForTicker ticker) queue := by
  obtain ⟨calls, hrun⟩ := h.book ticker
  exact hrun.valid

/-- **The calls of a request** are what its book adds to its log. -/
theorem ome_handleClientRequest (he : EngineRuns stray rs e)
    (h : e.handleClientRequest stray r = .ok (e', calls)) (ticker : Ticker) :
    (e'.orderBookForTicker ticker).ome = (e.orderBookForTicker ticker).ome ++
      if ticker.val = r.tickerId.toNat then calls else [] := by
  obtain ⟨-, rfl, rfl⟩ | ⟨call, ticker', book, -, hticker, hbook, rfl, rfl⟩ :=
    handleClientRequest_ok h
  · rw [ite_self, List.append_nil]
  · show (Function.update e.orderBookForTicker ticker' book ticker).ome = _
    by_cases ht : ticker = ticker'
    · subst ht
      obtain ⟨queue, hv⟩ := he.valid ticker
      obtain ⟨new, hnew⟩ := ome_prefix hv hbook
      rw [Function.update_self, if_pos hticker, ← hnew, List.drop_left]
    · have hne : ticker.val ≠ r.tickerId.toNat := fun heq => ht (Fin.ext (heq.trans hticker.symm))
      rw [Function.update_of_ne ht, if_neg hne, List.append_nil]

end runs

end HftSys
