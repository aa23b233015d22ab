import HftSys.MatchingEngine

/-!
# Whom the books answer

A response of a book goes to the client whose request it handles, or to a client whose order rests
in it. `OrderBook.Serves K` says that all these are among the clients `K`, and a request of a client
in `K` keeps it that way, whatever blocks of the pool its order and the orders it meets are in.

* `OrderBook.Serves.request`: one book and one request.
* `MatchingEngine.Serves.request`: all books of an engine, and the calls the request leads to.
-/

namespace HftSys

/-- The client a request comes from. -/
def Request.clientId : Request → ClientID
  | .new taker => taker.clientId
  | .cancel r => r.clientId

/-- A call on the engine is no response to a client outside `K`. -/
def Emission.For (K : ClientID → Prop) : Emission → Prop
  | .response r => K r.clientId
  | .update _ => True

/-- The book's orders at rest belong to clients in `K`, and its responses were for clients in
`K`. -/
structure OrderBook.Serves {B : Build} (K : ClientID → Prop) (b : OrderBook B) : Prop where
  resting : ∀ p, b.LiveOrder p → K (b.order p).clientId
  answered : ∀ c ∈ b.ome, c.For K

/-- All books of the engine. -/
def MatchingEngine.Serves {B : Build} (K : ClientID → Prop) (e : MatchingEngine B) : Prop :=
  ∀ ticker, (e.orderBookForTicker ticker).Serves K

/-- A call for some clients is one for more of them. -/
theorem Emission.For.mono {K K' : ClientID → Prop} {c : Emission} (h : c.For K)
    (hk : ∀ c, K c → K' c) : c.For K' := by
  cases c with
  | response r => exact hk _ h
  | update u => trivial

section books

variable {B : Build} {K K' : ClientID → Prop} {stray : ℕ → Qty} {b b' b₁ : OrderBook B}
  {queue : Queues B} {taker : NewOrder} {newMarketOid : OrderID} {qtyRemains : Qty} {p : OrderPtr}
  {l : LevelPtr B} {o : Order} {r : CancelOrder}

/-- A fill is reported to both its clients and to nobody else. -/
theorem for_matchEvents {reported fillQty : Qty} (htaker : K taker.clientId)
    (hresting : K o.clientId) :
    ∀ c ∈ matchEvents taker newMarketOid reported o fillQty, c.For K := by
  intro c hc
  simp only [matchEvents, List.mem_cons, List.not_mem_nil, or_false] at hc
  rcases hc with rfl | rfl | rfl | rfl
  · exact htaker
  · exact hresting
  · trivial
  · split <;> trivial

/-- A cancel is reported to the client it comes from. -/
theorem CancelOrder.for_events (hk : K r.clientId) (o : Order) : ∀ c ∈ r.events o, c.For K := by
  intro c hc
  simp only [CancelOrder.events, List.mem_cons, List.not_mem_nil, or_false] at hc
  rcases hc with rfl | rfl
  · trivial
  · exact hk

namespace OrderBook.Serves

/-- A book that serves some clients serves more of them. -/
theorem mono (h : b.Serves K) (hk : ∀ c, K c → K' c) : b.Serves K' :=
  ⟨fun p hp => hk _ (h.resting p hp), fun c hc => (h.answered c hc).mono hk⟩

/-- A new book has nobody's orders. -/
theorem create (K : ClientID → Prop) (B : Build) : (OrderBook.create B).Serves K :=
  ⟨fun p hp => absurd hp (not_liveOrder_create p), fun _ hc => absurd hc List.not_mem_nil⟩

/-- Accepting an order is said to its client. -/
theorem accept (h : b.Serves K) (hk : K taker.clientId) : (b.accept taker).Serves K where
  resting := h.resting
  answered := List.forall_mem_append.mpr ⟨h.answered, List.forall_mem_singleton.mpr hk⟩

/-- A fill reports to the client of an order at rest and to the taker's. -/
theorem matched (h : b.Serves K) (hk : K taker.clientId) (hp : b.LiveOrder p) :
    (b.matched stray taker newMarketOid p l qtyRemains).Serves K where
  resting q hq := by
    rw [OrderBook.clientId_matched]
    exact h.resting q ((OrderBook.liveOrder_matched ..).mp hq).1
  answered := by
    rw [OrderBook.ome_matched]
    exact List.forall_mem_append.mpr ⟨h.answered, for_matchEvents hk (h.resting p hp)⟩

/-- The remainder of an order of a client in `K` comes to rest. -/
theorem rests (h : b.Serves K) (hk : K taker.clientId)
    (hr : Rests b b' queue taker newMarketOid p o b₁) : b'.Serves K := by
  have hf := hr.files.1
  rw [hr.book]
  constructor
  · apply hf.forall_live (P := fun o => K o.clientId) _ h.resting
    rw [hr.order]
    exact hk
  · rw [hf.ome]
    exact List.forall_mem_append.mpr ⟨h.answered, List.forall_mem_singleton.mpr trivial⟩

/-- So is rejecting a cancel, -/
theorem reject (h : b.Serves K) (hk : K r.clientId) : (b.reject r).Serves K where
  resting := h.resting
  answered := List.forall_mem_append.mpr ⟨h.answered, List.forall_mem_singleton.mpr hk⟩

/-- and carrying it out. -/
theorem cancel (h : b.Serves K) (hk : K r.clientId) : (b.cancel r p l).Serves K where
  resting q hq := b.forall_live_detach p q l (P := fun o => K o.clientId) h.resting hq
  answered := List.forall_mem_append.mpr ⟨h.answered, CancelOrder.for_events hk _⟩

/-- **A request of a client in `K`** leads to responses for clients in `K` only. -/
theorem request {call : Request} (h : b.Serves K) (hv : Valid b queue) (hk : K call.clientId)
    (hcall : handleRequest stray call b = .ok () b') : b'.Serves K := by
  cases call with
  | new taker =>
    obtain ⟨queue₁, b₁, -, hserves, -, ⟨-, rfl⟩ | ⟨-, p, o, b₂, hr⟩⟩ :=
      addOrder_cases (P := fun _ b₁ => b₁.Serves K)
        (fun _ _ _ _ _ hserves hreach _ _ => hserves.matched hk hreach.live) hv (h.accept hk) hcall
    · exact hserves
    · exact hserves.rests hk hr
  | cancel r =>
    rcases cancelOrder_ok hv.toSound hcall with ⟨rfl, -⟩ | ⟨p, l, -, rfl⟩
    · exact h.reject hk
    · exact h.cancel hk

end OrderBook.Serves

end books

/-! ## All books -/

section engine

variable {B : Build} {K K' : ClientID → Prop} {stray : Ticker → ℕ → Qty} {e e' : MatchingEngine B}
  {r : OMEClientRequest} {calls : List Emission}

/-- The call on a book is made for the client of the request. -/
theorem OMEClientRequest.clientId_bookCall {call : Request} (h : r.bookCall = some call) :
    call.clientId = r.clientId := by
  unfold OMEClientRequest.bookCall at h
  split at h
  · cases h
    rfl
  · split at h
    · cases h
      rfl
    · cases h

namespace MatchingEngine.Serves

/-- An engine that serves some clients serves more of them. -/
theorem mono (h : e.Serves K) (hk : ∀ c, K c → K' c) : e.Serves K' :=
  fun ticker => (h ticker).mono hk

/-- A new engine has new books. -/
theorem create (K : ClientID → Prop) (B : Build) : (MatchingEngine.create B).Serves K :=
  fun _ => .create K B

/-- **A request of a client in `K`** leads to calls about clients in `K` only, whatever its
ticker. -/
theorem request (h : e.Serves K) (hv : ∀ ticker, ∃ queue, Valid (e.orderBookForTicker ticker) queue)
    (hk : K r.clientId) (hreq : e.handleClientRequest stray r = .ok (e', calls)) :
    e'.Serves K ∧ ∀ c ∈ calls, c.For K := by
  obtain ⟨-, rfl, rfl⟩ | ⟨call, ticker, book, hcall, -, hbook, rfl, rfl⟩ :=
    handleClientRequest_ok hreq
  · exact ⟨h, fun c hc => absurd hc List.not_mem_nil⟩
  · obtain ⟨queue, hvalid⟩ := hv ticker
    have hserves : book.Serves K :=
      (h ticker).request hvalid (OMEClientRequest.clientId_bookCall hcall ▸ hk) hbook
    refine ⟨fun ticker' => ?_, fun c hc => hserves.answered c (List.mem_of_mem_drop hc)⟩
    show OrderBook.Serves K (Function.update e.orderBookForTicker ticker book ticker')
    by_cases ht : ticker' = ticker
    · rw [ht, Function.update_self]
      exact hserves
    · rw [Function.update_of_ne ht]
      exact h ticker'

end MatchingEngine.Serves

end engine

end HftSys
