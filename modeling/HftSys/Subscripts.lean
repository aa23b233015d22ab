import HftSys.AddCancel
import HftSys.Exchange
import HftSys.Overload
import HftSys.Walk

/-!
# Ids as subscripts

The client id, the ticker id and the order id of a request are bytes a client has chosen. They go
through the gateway, the sequencer, the queue and the engine as they are, and each is a subscript of
an array of its own somewhere on the way: the client id of the gateway's tables and of the client
map, the ticker id of the books, the order id of the client map.

* `Avoids .outOfRange`: the accesses of a book that do not go through the client map have no
  subscript that could be out of range.
* `addOrder_error`: on a valid book, a new order's own key is the only one that can be.
* `subscripts_in_range_iff`: in every state of the exchange all subscripts taken from a record are
  in range exactly when the record's ids are. Nothing on the way refuses those that are not.
-/

namespace HftSys

open Bytes Exec SequenceGate

variable {B : Build}

/-! ## The accesses of a book -/

section accesses

/-- An access through a pointer: it finds no object, or one that has been freed. -/
theorem MemoryPool.deref_ne_outOfRange {T : Type} {size : ℕ} {pool : MemoryPool T size}
    {q : Option (Fin size)} : pool.deref q ≠ .error .outOfRange := by
  intro h
  cases q with
  | none => cases h
  | some i =>
    simp only [MemoryPool.deref] at h
    split at h <;> cases h

/-- An assignment through a pointer: see `deref_ne_outOfRange`. -/
theorem MemoryPool.store_ne_outOfRange {T : Type} {size : ℕ} {pool : MemoryPool T size} {f : T → T}
    {q : Option (Fin size)} : pool.store f q ≠ .error .outOfRange := by
  intro h
  cases q with
  | none => cases h
  | some i =>
    simp only [MemoryPool.store] at h
    split at h <;> cases h

/-- The scan for a free block stays inside the vector. -/
theorem MemoryPool.scanNextFree_ne_outOfRange {T : Type} {size : ℕ} {pool : MemoryPool T size}
    {startIndex i : Fin size} {fuel : ℕ} :
    pool.scanNextFree startIndex fuel i ≠ .error .outOfRange := by
  induction fuel generalizing i with
  | zero => exact nofun
  | succ fuel ih =>
    intro h
    unfold MemoryPool.scanNextFree at h
    split at h
    · cases h
    · split at h
      · cases h
      · exact ih h

/-- The cursor stays inside the vector: it stays where it is, or goes to where the scan ends. -/
theorem MemoryPool.updateNextFreeIndex_ne_outOfRange {T : Type} {size : ℕ}
    {pool : MemoryPool T size} : pool.updateNextFreeIndex ≠ .error .outOfRange := by
  intro h
  unfold MemoryPool.updateNextFreeIndex at h
  split at h
  · cases h
  · rcases except_bind_eq_error.mp h with hscan | ⟨_, _, hok⟩
    · exact scanNextFree_ne_outOfRange hscan
    · cases hok

/-- `allocate` takes the block at the cursor, moves the cursor on, and may fail only in its
assertion. -/
theorem MemoryPool.allocate_ne_outOfRange {T : Type} {size : ℕ} {pool : MemoryPool T size} {x : T} :
    pool.allocate x ≠ .error .outOfRange := by
  intro h
  unfold MemoryPool.allocate at h
  split at h
  · cases h
  · split at h
    · cases h
    · dsimp only at h
      split at h
      · rcases except_bind_eq_error.mp h with hcursor | ⟨_, _, hok⟩
        · exact updateNextFreeIndex_ne_outOfRange hcursor
        · cases hok
      · cases h

/-- A read through a pointer to an order. -/
@[simp] theorem avoids_derefOrder (q : Option OrderPtr) :
    Avoids .outOfRange (derefOrder (B := B) q) := by
  intro b b' h
  unfold derefOrder at h
  split at h
  · cases h
  · rename_i e he
    cases h
    exact MemoryPool.deref_ne_outOfRange he

/-- A read through a pointer to a level. -/
@[simp] theorem avoids_derefLevel (q : Option (LevelPtr B)) :
    Avoids .outOfRange (derefLevel q) := by
  intro b b' h
  unfold derefLevel at h
  split at h
  · cases h
  · rename_i e he
    cases h
    exact MemoryPool.deref_ne_outOfRange he

/-- A write through a pointer to an order. -/
@[simp] theorem avoids_storeOrder (q : Option OrderPtr) (f : Order → Order) :
    Avoids .outOfRange (storeOrder (B := B) q f) := by
  intro b b' h
  unfold storeOrder at h
  split at h
  · cases h
  · rename_i e he
    cases h
    exact MemoryPool.store_ne_outOfRange he

/-- A write through a pointer to a level. -/
@[simp] theorem avoids_storeLevel (q : Option (LevelPtr B)) (f : OrdersAtPrice B → OrdersAtPrice B) :
    Avoids .outOfRange (storeLevel q f) := by
  intro b b' h
  unfold storeLevel at h
  split at h
  · cases h
  · rename_i e he
    cases h
    exact MemoryPool.store_ne_outOfRange he

/-- A block asked from the pool of orders. -/
@[simp] theorem avoids_allocateOrder (o : Order) :
    Avoids .outOfRange (allocateOrder (B := B) o) := by
  intro b b' h
  unfold allocateOrder at h
  split at h
  · cases h
  · rename_i e he
    cases h
    exact MemoryPool.allocate_ne_outOfRange he

/-- A block asked from the pool of levels. -/
@[simp] theorem avoids_allocateLevel (l : OrdersAtPrice B) :
    Avoids .outOfRange (allocateLevel l) := by
  intro b b' h
  unfold allocateLevel at h
  split at h
  · cases h
  · rename_i e he
    cases h
    exact MemoryPool.allocate_ne_outOfRange he

/-- The best pointer of a side has no subscript. -/
@[simp] theorem avoids_setBest (side : Side) (p : Option (LevelPtr B)) :
    Avoids .outOfRange (setBest side p) :=
  avoids_modify _

/-- The slot of a price is the price modulo the size of the table, so that it is in range. -/
@[simp] theorem avoids_setLevelForPrice (price : Price) (p : Option (LevelPtr B)) :
    Avoids .outOfRange (setLevelForPrice price p) :=
  avoids_modify _

/-- **No access by which levels are opened and orders are found has a subscript out of range.** -/
theorem avoidsOutOfRange (B : Build) : LevelWalk (B := B) fun x => Avoids .outOfRange x where
  pure := avoids_pure
  diverges := avoids_throw (by simp)
  bind := .bind
  get_bind hf _ := .get_bind hf
  derefOrder := avoids_derefOrder
  derefLevel := avoids_derefLevel
  storeOrder := avoids_storeOrder
  storeLevel := avoids_storeLevel
  allocateOrder := avoids_allocateOrder
  allocateLevel := avoids_allocateLevel
  setBest := avoids_setBest
  setLevelForPrice := avoids_setLevelForPrice

end accesses

/-! ## A request on a book -/

section requests

variable {b b' b₁ : OrderBook B} {queue : Queues B} {taker : NewOrder} {newMarketOid : OrderID}
  {qty : Qty} {stray : ℕ → Qty} {o : Order} {q : Option OrderPtr} {r : CancelOrder}

/-- On a valid book the loop of `findMatch` takes out the keys of orders at rest only. -/
theorem Valid.matchLoop_ne_outOfRange {fuel : ℕ} (hv : Valid b queue) :
    matchLoop stray taker newMarketOid qty fuel b ≠ .error .outOfRange b' := by
  induction fuel generalizing b queue with
  | zero => exact avoids_throw (by simp) b b'
  | succ fuel ih =>
    intro h
    unfold matchLoop at h
    rcases bind_eq_error.mp h with hnext | ⟨next, b₁, hnext, hturn⟩
    · exact (avoidsOutOfRange B).nextMatch taker qty b b' hnext
    · clear h
      cases next with
      | none => cases hturn
      | some p =>
        obtain ⟨rfl, best, hr⟩ := nextMatch_some hnext
        obtain ⟨hp, hslot, -⟩ := hv.head_of_level hr.liveLevel hr.order0
        have hmatch := matchOrder_eq hv.toSound stray taker newMarketOid qty hp hslot
        simp only [] at hturn
        rw [bind_of_ok hmatch] at hturn
        exact ih (hv.matched stray taker newMarketOid qty hp hslot) hturn

/-- `addOrderToBook` on an order just allocated: the subscripts that can be out of range are those
of the order's entry in the client map. -/
theorem addOrderToBook_error (h : Rings b queue) (hc : b.levelLinks.Closed b.LiveLevel)
    (halloc : allocateOrder o b = .ok q b₁) (hrun : addOrderToBook q b₁ = .error .outOfRange b') :
    ¬ InClientMap B o.clientId o.clientOrderId := by
  intro hin
  unfold addOrderToBook at hrun
  rcases allocateOrder_ok halloc with rfl | ⟨p, rfl, hp⟩
  · -- the pool of orders is full: the order is read through a null pointer
    rcases bind_eq_error.mp hrun with hderef | ⟨_, _, hderef, -⟩
    · exact avoids_derefOrder _ _ _ hderef
    · obtain ⟨_, hsome, -⟩ := derefOrder_eq_ok.mp hderef
      cases hsome
  have hlive : b₁.LiveOrder p := (hp.liveOrder p).mpr (.inl rfl)
  have hslots : b₁.getLevelForPrice o.price = b.getLevelForPrice o.price := by
    rw [OrderBook.getLevelForPrice, hp.rest, OrderBook.getLevelForPrice]
  have ho₁ : b₁.order p = o := by rw [hp.order, if_pos rfl]
  rw [bind_of_ok (derefOrder_of_live hlive), ho₁, get_bind, hslots] at hrun
  cases hslot : b.getLevelForPrice o.price with
  | none =>
    rw [hslot, if_pos rfl] at hrun
    rcases bind_eq_error.mp hrun with hopen | ⟨_, b₂, hopen, htail⟩
    · exact (avoidsOutOfRange B).openLevel _ _ _ hopen
    · obtain ⟨hsame, -⟩ := hp.open_ok hc hslot hopen
      have hwrite := (hp.tail_eq hsame).symm.trans htail
      rw [setClientOrder_of_mem _ hin] at hwrite
      cases hwrite
  | some l =>
    obtain ⟨x, y, -, -, -, happend⟩ := hp.appendOrder_eq h hslot
    rw [hslot, if_neg (by simp), bind_of_ok happend] at hrun
    have hwrite := (hp.tail_eq (sameOrders_setOrderLinks _ _)).symm.trans hrun
    rw [setClientOrder_of_mem _ hin] at hwrite
    cases hwrite

/-- What is left of a new order comes to rest: the subscripts that can be out of range are those of
its entry in the client map. -/
theorem restOrder_error (hs : Sound b queue)
    (h : restOrder taker newMarketOid qty b = .error .outOfRange b') :
    ¬ InClientMap B taker.clientId taker.clientOid := by
  unfold restOrder at h
  rw [bind_of_ok (getNextPriority_eq hs.rings taker.price)] at h
  rcases bind_eq_error.mp h with halloc | ⟨q, b₁, halloc, h⟩
  · exact absurd halloc (avoids_allocateOrder _ _ _)
  · rcases bind_eq_error.mp h with hadd | ⟨_, b₂, -, hpub⟩
    · exact addOrderToBook_error hs.rings hs.levels_closed halloc hadd
    · cases hpub

/-- **What a new order can index out of range** on a valid book is its own entry in the client map,
when it comes to rest. -/
theorem addOrder_error (hv : Valid b queue) (h : addOrder stray taker b = .error .outOfRange b') :
    taker.qty ≠ 0 ∧ ¬ InClientMap B taker.clientId taker.clientOid := by
  unfold addOrder at h
  have hid : getNewMarketOrderId b =
      .ok b.nextMarketOid { b with nextMarketOid := b.nextMarketOid + 1 } := rfl
  rw [bind_of_ok hid, bind_of_ok (dispatchClientResponse_apply _ _)] at h
  have hv₁ : Valid (b.accept taker) queue := hv.accept taker
  rcases bind_eq_error.mp h with hloop | ⟨r, b₁, hloop, h⟩
  · exact absurd hloop hv₁.matchLoop_ne_outOfRange
  · obtain ⟨rfl, hfills⟩ := matchLoop_ok hloop
    obtain ⟨queue₁, hv₂⟩ := hfills.valid hv₁
    split at h
    · cases h
    · rename_i hqty
      exact ⟨hqty, restOrder_error hv₂.toSound h⟩

/-- A cancel checks its key. -/
theorem Valid.cancelOrder_ne_outOfRange (hv : Valid b queue) :
    cancelOrder r b ≠ .error .outOfRange b' := by
  intro h
  have hrun := h
  unfold cancelOrder at h
  rcases bind_eq_error.mp h with hlookup | ⟨found, b₁, hlookup, h⟩
  · unfold lookupOrder at hlookup
    split at hlookup
    · split at hlookup <;> cases hlookup
    · cases hlookup
  · unfold lookupOrder at hlookup
    split at hlookup
    · rename_i hclient
      split at hlookup
      · rename_i horder
        cases hlookup
        cases hentry : b.mapClientIdToOrder r.clientId r.orderId with
        | none =>
          rw [hentry] at h
          cases h
        | some p =>
          obtain ⟨hp, -⟩ := hv.clientMap _ _ _ hentry
          obtain ⟨l, hl⟩ := hv.toSound.exists_level hp
          rw [cancelOrder_found hv.toSound ⟨hclient, horder, hentry, hp, hl⟩] at hrun
          cases hrun
      · cases hlookup
    · cases hlookup
      cases h

/-- A new order whose key is outside the client map: the first one on a book writes there. -/
theorem addOrder_create_outOfRange (stray : ℕ → Qty) (taker : NewOrder) (hqty : taker.qty ≠ 0)
    (hout : ¬ InClientMap B taker.clientId taker.clientOid) :
    ∃ b', addOrder stray taker (OrderBook.create B) = .error .outOfRange b' := by
  obtain ⟨horders, hlevels⟩ := poolsWellFormed_create B
  have hstanding := (standing_create B).restored (restored_accept _ taker) ⟨horders, hlevels⟩
  have hfree : ∃ p, ¬ ((OrderBook.create B).accept taker).LiveOrder p :=
    ⟨⟨0, maxOrderIds_pos⟩, not_liveOrder_create (B := B) _⟩
  obtain ⟨p, b₂, u, hrest⟩ : ∃ p b₂ u, restOrder taker (OrderBook.create B).nextMarketOid taker.qty
      ((OrderBook.create B).accept taker) =
        (do setClientOrder taker.clientId taker.clientOid (some p)
            publishMarketUpdate u : BookM B Unit) b₂ :=
    hstanding.restOrder_eq hfree _ _
  have hreach : OutOfReach (OrderBook.create B) taker := by
    intro best p hopposite
    unfold OrderBook.opposite at hopposite
    split at hopposite
    · cases hopposite
    · split at hopposite <;> cases hopposite
  rw [(standing_create B).toLinked.addOrder_outOfReach hreach hqty, hrest]
  refine ⟨b₂, bind_eq_error.mpr (.inl ?_)⟩
  unfold setClientOrder
  rw [if_neg hout]

end requests

/-! ## The way of a record -/

/-- The ids of a request are inside the arrays they are subscripts of: the client id whatever the
request is, the ticker id when it selects a book, the order id when a new order comes to rest. -/
structure IdsInRange (B : Build) (r : OMEClientRequest) : Prop where
  clientId : r.clientId.toNat < maxNClients B
  tickerId : r.type = .new ∨ r.type = .cancel → r.tickerId.toNat < maxTickers
  orderId : r.type = .new → r.qty ≠ 0 → r.orderId.toNat < maxOrderIds

/-- In a state of the exchange no subscript is out of range when a record comes in, when the engine
takes its request, or when a response is sent. -/
structure SubscriptsInRange (stray : Ticker → ℕ → Qty) (x : Exchange B) (req : OGSClientRequest) :
    Prop where
  rxCallback : ∀ socket tRx,
    OrderGatewayServer.receiveRecord socket tRx x.gateway req ≠ .error .outOfRange
  handleClientRequest : x.rxRequests.items.head? = some req.omeRequest →
    x.engine.handleClientRequest stray req.omeRequest ≠ .error .outOfRange
  run : ∀ res ∈ x.outputs.txResponses.items, x.gateway.sendResponse res ≠ .error .outOfRange

/-- A record makes no subscript go out of range, in any state of the exchange. -/
def StaysInRange (B : Build) (stray : Ticker → ℕ → Qty) (req : OGSClientRequest) : Prop :=
  ∀ actions (x : Exchange B), ExchangeRuns stray actions x → SubscriptsInRange stray x req

section records

variable {stray : Ticker → ℕ → Qty} {x : Exchange B} {e : MatchingEngine B}
  {r : OMEClientRequest} {g : OrderGatewayServer B} {actions : List ExchangeAction}

/-- The gateway looks a client up before anything else. -/
theorem receiveRecord_outOfRange_iff {socket : SocketPtr} {tRx : Nanos} {req : OGSClientRequest} :
    OrderGatewayServer.receiveRecord socket tRx g req = .error .outOfRange ↔
      ¬ req.omeRequest.clientId.toNat < maxNClients B := by
  rw [receiveRecord_eq]
  split
  · rename_i hrange
    refine iff_of_false ?_ (not_not.mpr hrange)
    intro h
    split at h
    · split at h <;> cases h
    · cases h
  · rename_i hrange
    exact iff_of_true rfl hrange

/-- The engine does not go out of range on ids that are in range. -/
theorem IdsInRange.handleClientRequest (h : IdsInRange B r)
    (hv : ∀ ticker, ∃ queue, Valid (e.orderBookForTicker ticker) queue) :
    e.handleClientRequest stray r ≠ .error .outOfRange := by
  intro hfault
  unfold MatchingEngine.handleClientRequest at hfault
  split at hfault
  · cases hfault
  · rename_i call hcall
    have htype : r.type = .new ∨ r.type = .cancel := by
      by_contra hneither
      obtain ⟨hnew, hcancel⟩ := not_or.mp hneither
      rw [OMEClientRequest.bookCall, if_neg hnew, if_neg hcancel] at hcall
      cases hcall
    rw [dif_pos (h.tickerId htype)] at hfault
    dsimp only at hfault
    split at hfault
    · cases hfault
    · rename_i fault book hbook
      cases hfault
      obtain ⟨queue, hvalid⟩ := hv ⟨r.tickerId.toNat, h.tickerId htype⟩
      unfold OMEClientRequest.bookCall at hcall
      split at hcall
      · rename_i hnew
        cases hcall
        obtain ⟨hqty, hout⟩ := addOrder_error hvalid hbook
        exact hout ⟨h.clientId, h.orderId hnew hqty⟩
      · split at hcall
        · cases hcall
          exact hvalid.cancelOrder_ne_outOfRange hbook
        · cases hcall

/-- A new engine does go out of range on ids that are not. -/
theorem IdsInRange.of_handleClientRequest (hclient : r.clientId.toNat < maxNClients B)
    (h : (MatchingEngine.create B).handleClientRequest stray r ≠ .error .outOfRange) :
    IdsInRange B r := by
  have hticker : r.type = .new ∨ r.type = .cancel → r.tickerId.toNat < maxTickers := by
    intro htype
    by_contra hout
    obtain ⟨call, hcall⟩ : ∃ call, r.bookCall = some call := by
      unfold OMEClientRequest.bookCall
      rcases htype with hnew | hcancel
      · exact ⟨_, if_pos hnew⟩
      · by_cases hnew : r.type = .new
        · exact ⟨_, if_pos hnew⟩
        · rw [if_neg hnew, if_pos hcancel]
          exact ⟨_, rfl⟩
    apply h
    simp only [MatchingEngine.handleClientRequest, hcall, dif_neg hout]
  refine ⟨hclient, hticker, ?_⟩
  intro hnew hqty
  by_contra hout
  have hcall : r.bookCall =
      some (.new ⟨r.clientId, r.orderId, r.tickerId, r.side, r.price, r.qty⟩) := if_pos hnew
  obtain ⟨b', hbook⟩ := addOrder_create_outOfRange (B := B)
    (stray ⟨r.tickerId.toNat, hticker (.inl hnew)⟩)
    ⟨r.clientId, r.orderId, r.tickerId, r.side, r.price, r.qty⟩ hqty (fun hin => hout hin.2)
  apply h
  simp only [MatchingEngine.handleClientRequest, hcall, dif_pos (hticker (.inl hnew)),
    handleRequest, MatchingEngine.create, hbook]

/-- A new gateway takes the first record of a client. -/
theorem exists_received (hclient : r.clientId.toNat < maxNClients B) :
    ∃ g : OrderGatewayServer B,
      (OrderGatewayServer.create B).sendAndRecv 0 ⟨OGSClientRequest.image ⟨1, r⟩, 0, none⟩ =
        .ok (true, g) ∧ g.fifo.pendingRequests = [⟨0, r⟩] := by
  set o : Outcome := ⟨OGSClientRequest.image ⟨1, r⟩, 0, none⟩ with ho
  have hcompleted : completed ((OrderGatewayServer.create B).sockets 0).inboundData 0 o =
      [⟨0, 0, ⟨1, r⟩⟩] := by
    have himages := completed_images 0 0 none [⟨1, r⟩] (by simp)
    rw [List.flatMap_singleton] at himages
    exact himages
  have hadmitted : admitted (OrderGatewayServer.create B).gate [⟨0, 0, ⟨1, r⟩⟩] =
      [⟨0, 0, ⟨1, r⟩⟩] := by
    rw [admitted_singleton, if_pos]
    refine ⟨?_, rfl⟩
    rw [Gate.owner_claim, if_pos rfl]
    rfl
  cases hcall : (OrderGatewayServer.create B).sendAndRecv 0 o with
  | error fault =>
    have hstop := sendAndRecv_error hcall
    rw [hcompleted] at hstop
    rcases hstop with ⟨-, hfull⟩ | ⟨-, hrange⟩
    · refine absurd ?_ hfull
      unfold OrderGatewayServer.HasRoom
      rw [hadmitted, List.length_singleton]
      show 0 + 1 ≤ maxPendingOrderRequests
      decide
    · refine absurd ?_ hrange
      intro y hy
      rw [List.mem_singleton.mp hy]
      exact hclient
  | ok result =>
    obtain ⟨received, g⟩ := result
    obtain ⟨hreceived, hflag, -⟩ := sendAndRecv_ok hcall
    rw [hcompleted] at hreceived
    have hbytes : o.bytes ≠ [] := by
      intro hnil
      have hlength := OGSClientRequest.length_image ⟨1, r⟩
      rw [show OGSClientRequest.image ⟨1, r⟩ = [] from hnil] at hlength
      cases hlength
    refine ⟨g, ?_, ?_⟩
    · rw [hflag, decide_eq_true hbytes]
    · rw [hreceived.pending, hadmitted]
      rfl

/-- **Every request of a client of the exchange gets to the engine**, whatever its other ids. -/
theorem exists_delivered (stray : Ticker → ℕ → Qty) (hclient : r.clientId.toNat < maxNClients B) :
    ∃ actions, ∃ x : Exchange B, ExchangeRuns stray actions x ∧
      x.rxRequests.items.head? = some r ∧ x.engine = .create B := by
  obtain ⟨g, hcall, hpending⟩ := exists_received hclient
  have hsort : SortsTo g.fifo.pendingRequests [⟨0, r⟩] := by
    rw [hpending]
    exact ⟨.refl _, List.pairwise_singleton _ _⟩
  set x₁ : Exchange B := { Exchange.create B with gateway := g } with hx₁
  set x₂ : Exchange B := { x₁ with
    gateway := g.rxDoneCallback [⟨0, r⟩]
    phase := .publishing [r] } with hx₂
  have hreceive : (Exchange.create B).step stray
      (.sendAndRecv 0 ⟨OGSClientRequest.image ⟨1, r⟩, 0, none⟩) = some x₁ := by
    simp only [Exchange.step]
    rw [if_pos (show (Exchange.create B).phase = .polling from rfl)]
    rw [show (Exchange.create B).gateway = OrderGatewayServer.create B from rfl, hcall]
    rfl
  have hdone : x₁.step stray (.rxDone [⟨0, r⟩]) = some x₂ := by
    simp only [Exchange.step]
    rw [if_pos ⟨rfl, hsort⟩, show x₁.gateway = g from rfl, FIFOSequencer.pushed_eq hsort]
    rfl
  have hpublish : x₂.step stray .publish =
      some { x₂ with phase := .publishing [], rxRequests := x₂.rxRequests.push r } := rfl
  have hrun₀ : ExchangeRuns stray [] (Exchange.create B) := rfl
  have hrun₁ : ExchangeRuns stray _ x₁ := (runsOf_exchange B stray).concat.mpr ⟨_, hrun₀, hreceive⟩
  have hrun₂ : ExchangeRuns stray _ x₂ := (runsOf_exchange B stray).concat.mpr ⟨_, hrun₁, hdone⟩
  refine ⟨_, _, (runsOf_exchange B stray).concat.mpr ⟨_, hrun₂, hpublish⟩, ?_, rfl⟩
  have hroom : (Fifo.Queue.empty (α := OMEClientRequest) (maxClientUpdates B)).items.length <
      maxClientUpdates B := by
    cases B <;> decide
  show ((Fifo.Queue.empty (maxClientUpdates B)).push r).items.head? = some r
  rw [Fifo.Queue.items_push hroom]
  rfl

/-- A response that waits is for a client of the exchange. -/
theorem ExchangeRuns.sendResponse_ne_outOfRange (h : ExchangeRuns stray actions x) :
    ∀ res ∈ x.outputs.txResponses.items, x.gateway.sendResponse res ≠ .error .outOfRange := by
  intro res hres hfault
  have hknows : x.gateway.Knows res.clientId := h.addressed.txResponses res hres
  obtain ⟨socket, hsocket⟩ := Option.ne_none_iff_exists'.mp hknows
  obtain ⟨es, hes⟩ := h.gateway
  cases fault_of_sendResponse (hes.consistent.clientId_lt hsocket) hknows hfault

/-- Ids that are in range stay so on the whole way. -/
theorem IdsInRange.staysInRange {req : OGSClientRequest} (h : IdsInRange B req.omeRequest) :
    StaysInRange B stray req := by
  intro actions x hrun
  obtain ⟨rs, hrs⟩ := hrun.engine
  refine ⟨?_, ?_, hrun.sendResponse_ne_outOfRange⟩
  · exact fun socket tRx hfault => receiveRecord_outOfRange_iff.mp hfault h.clientId
  · exact fun _ => h.handleClientRequest hrs.valid

/-- Ids that are out of range are used on the way: nothing refuses them. -/
theorem StaysInRange.idsInRange {req : OGSClientRequest} (h : StaysInRange B stray req) :
    IdsInRange B req.omeRequest := by
  have hclient : req.omeRequest.clientId.toNat < maxNClients B := by
    by_contra hout
    exact (h [] (.create B) rfl).rxCallback 0 0 (receiveRecord_outOfRange_iff.mpr hout)
  obtain ⟨actions, x, hrun, hhead, hengine⟩ := exists_delivered stray hclient
  have hhandled := (h actions x hrun).handleClientRequest hhead
  rw [hengine] at hhandled
  exact .of_handleClientRequest hclient hhandled

/-- **When the ids of a record never index out of range**: in every state the exchange can be in,
exactly when the client id and the ticker id are below the sizes of their arrays, and so is the
order id of a new order that has a quantity. -/
theorem subscripts_in_range_iff (B : Build) (stray : Ticker → ℕ → Qty) (bytes : List UInt8) :
    StaysInRange B stray (OGSClientRequest.ofBytes bytes) ↔
      IdsInRange B (OGSClientRequest.ofBytes bytes).omeRequest :=
  ⟨StaysInRange.idsInRange, IdsInRange.staysInRange⟩

/-- Client 256, ticker 8 and order 1048576 are one too many each. -/
theorem ids_not_refused :
    ¬ StaysInRange .production (fun _ _ => 0) (OGSClientRequest.ofBytes
        (OGSClientRequest.image ⟨1, ⟨.new, 256, 0, 1, .buy, 100, 10⟩⟩)) ∧
      ¬ StaysInRange .production (fun _ _ => 0) (OGSClientRequest.ofBytes
        (OGSClientRequest.image ⟨1, ⟨.new, 1, 8, 1, .buy, 100, 10⟩⟩)) ∧
      ¬ StaysInRange .production (fun _ _ => 0) (OGSClientRequest.ofBytes
        (OGSClientRequest.image ⟨1, ⟨.new, 1, 0, 1048576, .buy, 100, 10⟩⟩)) := by
  refine ⟨fun h => ?_, fun h => ?_, fun h => ?_⟩
  · exact absurd h.idsInRange.clientId (by decide +kernel)
  · exact absurd (h.idsInRange.tickerId (by decide +kernel)) (by decide +kernel)
  · exact absurd (h.idsInRange.orderId (by decide +kernel) (by decide +kernel)) (by decide +kernel)

end records

end HftSys
