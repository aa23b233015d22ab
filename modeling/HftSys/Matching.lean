import HftSys.Lib.Sums
import HftSys.Removal
import Mathlib.Algebra.Order.BigOperators.Group.Finset

/-!
# Matching

What `matchOrder` and the loop of `findMatch` do.

* `traded` is the book after one fill and the messages about it, `matched` the book after
  `matchOrder`: an order left with quantity `0` is taken out of the book. `matchOrder_eq` says that
  on a sound book the source function ends there, without a fault.
* `nextMatch_some` and `nextMatch_none` say what the head of a turn has found.
* `Fills` is the loop as a relation between books, and `matchLoop_ok` takes a successful run of the
  source's loop apart into it; `matchLoop_ne_diverges` says that the bound on the turns is never
  used up.
* `matchCalls` lists the `matchOrder` calls of a run of the loop.
-/

namespace HftSys

open Circular Exec Sums

variable {B : Build}

/-! ## One fill -/

/-- `fillQty`: the quantity `matchOrder` moves. -/
def OrderBook.fillQty (b : OrderBook B) (p : OrderPtr) (qtyRemains : Qty) : Qty :=
  min qtyRemains (b.order p).qty

/-- The calls `matchOrder` makes on the engine about a fill, `o` being the resting order after
it. -/
def matchEvents (taker : NewOrder) (newMarketOid : OrderID) (reported : Qty) (o : Order)
    (fillQty : Qty) : List Emission :=
  [.response ⟨.filled, taker.clientId, taker.tickerId, taker.clientOid, newMarketOid, taker.side,
      o.price, fillQty, reported⟩,
    .response ⟨.filled, o.clientId, taker.tickerId, o.clientOrderId, o.marketOrderId, o.side,
      o.price, fillQty, o.qty⟩,
    .update ⟨.trade, orderIdInvalid, taker.tickerId, taker.side, o.price, fillQty, priorityInvalid⟩,
    if o.qty = 0 then
      .update ⟨.cancel, o.marketOrderId, taker.tickerId, o.side, o.price, fillQty, priorityInvalid⟩
    else
      .update ⟨.modify, o.marketOrderId, taker.tickerId, o.side, o.price, o.qty, o.priority⟩]

/-- The resting order after a fill. -/
def OrderBook.orderAfter (b : OrderBook B) (p : OrderPtr) (qtyRemains : Qty) : Order :=
  { b.order p with qty := (b.order p).qty - b.fillQty p qtyRemains }

/-- The quantity `matchOrder` reports as the incoming order's remainder. -/
def OrderBook.reported (b : OrderBook B) (stray : ℕ → Qty) (p : OrderPtr) (qtyRemains : Qty) : Qty :=
  if b.fillQty p qtyRemains = 0 then qtyRemains else stray b.ome.length

section traded

variable (b : OrderBook B) (stray : ℕ → Qty) (taker : NewOrder) (newMarketOid : OrderID)
  (p : OrderPtr) (l : LevelPtr B) (qtyRemains : Qty)

/-- The messages of one `matchOrder` call. -/
def OrderBook.matchLog : List Emission :=
  matchEvents taker newMarketOid (b.reported stray p qtyRemains) (b.orderAfter p qtyRemains)
    (b.fillQty p qtyRemains)

/-- The book after the fill and its messages, before an empty order is taken out. -/
def OrderBook.traded : OrderBook B :=
  { b with
    orderPool := b.orderPool.set p (b.orderAfter p qtyRemains)
    ome := b.ome ++ b.matchLog stray taker newMarketOid p qtyRemains }

/-- The book after `matchOrder`, `l` being the level in the resting order's slot. -/
def OrderBook.matched : OrderBook B :=
  if (b.orderAfter p qtyRemains).qty = 0 then
    (b.traded stray taker newMarketOid p qtyRemains).detach p l
  else b.traded stray taker newMarketOid p qtyRemains

end traded

namespace OrderBook

section frame

variable (b : OrderBook B) (stray : ℕ → Qty) (taker : NewOrder) (newMarketOid : OrderID)
  (p q : OrderPtr) (qtyRemains : Qty)

/-- A trade takes no order out of use. An order that is filled is removed afterwards. -/
@[simp] theorem liveOrder_traded :
    (b.traded stray taker newMarketOid p qtyRemains).LiveOrder q ↔ b.LiveOrder q :=
  MemoryPool.live_set _ _ _ _

/-- The resting order loses what has been traded. -/
theorem order_traded :
    (b.traded stray taker newMarketOid p qtyRemains).order q =
      if q = p then b.orderAfter p qtyRemains else b.order q :=
  MemoryPool.get_set _ _ _ _

/-- No other order does. -/
theorem order_traded_of_ne {q : OrderPtr} (h : q ≠ p) :
    (b.traded stray taker newMarketOid p qtyRemains).order q = b.order q := by
  rw [order_traded, if_neg h]

/-- A fill changes nothing about an order but its quantity. -/
theorem order_traded_eq :
    (b.traded stray taker newMarketOid p qtyRemains).order q =
      { b.order q with
        qty := ((b.traded stray taker newMarketOid p qtyRemains).order q).qty } := by
  rw [order_traded]
  by_cases h : q = p
  · rw [if_pos h, h]
    rfl
  · rw [if_neg h]

/-- See `order_traded_eq`, for the price. -/
@[simp] theorem price_traded :
    ((b.traded stray taker newMarketOid p qtyRemains).order q).price = (b.order q).price := by
  rw [order_traded_eq]

/-- See `order_traded_eq`, for the side. -/
@[simp] theorem side_traded :
    ((b.traded stray taker newMarketOid p qtyRemains).order q).side = (b.order q).side := by
  rw [order_traded_eq]

/-- See `order_traded_eq`, for the client. -/
@[simp] theorem clientId_traded :
    ((b.traded stray taker newMarketOid p qtyRemains).order q).clientId =
      (b.order q).clientId := by
  rw [order_traded_eq]

/-- See `order_traded_eq`, for the client's own id. -/
@[simp] theorem clientOrderId_traded :
    ((b.traded stray taker newMarketOid p qtyRemains).order q).clientOrderId =
      (b.order q).clientOrderId := by
  rw [order_traded_eq]

/-- See `order_traded_eq`, for the market order id. -/
@[simp] theorem marketOrderId_traded :
    ((b.traded stray taker newMarketOid p qtyRemains).order q).marketOrderId =
      (b.order q).marketOrderId := by
  rw [order_traded_eq]

/-- See `order_traded_eq`, for the priority. -/
@[simp] theorem priority_traded :
    ((b.traded stray taker newMarketOid p qtyRemains).order q).priority =
      (b.order q).priority := by
  rw [order_traded_eq]

/-- A trade moves no order in its queue. -/
@[simp] theorem orderLinks_traded :
    (b.traded stray taker newMarketOid p qtyRemains).orderLinks = b.orderLinks := by
  unfold orderLinks
  congr 1
  all_goals
    funext z
    rw [order_traded_eq]

end frame

end OrderBook

/-- A fill keeps a book sound. -/
theorem Sound.traded {b : OrderBook B} {queue : Queues B} (h : Sound b queue) (stray : ℕ → Qty)
    (taker : NewOrder) (newMarketOid : OrderID) (p : OrderPtr) (qtyRemains : Qty) :
    Sound (b.traded stray taker newMarketOid p qtyRemains) queue where
  liveLevel_iff := h.liveLevel_iff
  slot_price := h.slot_price
  levels_closed := h.levels_closed
  queue_nil := h.queue_nil
  queue_head := h.queue_head
  queue_ring s := by
    rw [OrderBook.orderLinks_traded]
    exact h.queue_ring s
  mem_queue s q := by
    rw [OrderBook.liveOrder_traded, OrderBook.price_traded]
    exact h.mem_queue s q
  clientMap c k q hq := by
    rw [OrderBook.liveOrder_traded, OrderBook.clientId_traded, OrderBook.clientOrderId_traded]
    exact h.clientMap c k q hq
  inClientMap q hq := by
    rw [OrderBook.clientId_traded, OrderBook.clientOrderId_traded]
    exact h.inClientMap q (by simpa using hq)

/-- **`matchOrder` on a sound book** ends in `matched`, without a fault. -/
theorem matchOrder_eq {b : OrderBook B} {queue : Queues B} (h : Sound b queue) (stray : ℕ → Qty)
    (taker : NewOrder) (newMarketOid : OrderID) {p : OrderPtr} {l : LevelPtr B} (qtyRemains : Qty)
    (hp : b.LiveOrder p) (hslot : b.getLevelForPrice (b.order p).price = some l) :
    matchOrder stray taker newMarketOid (some p) qtyRemains b =
      .ok () (b.matched stray taker newMarketOid p l qtyRemains) := by
  have hs := h.traded stray taker newMarketOid p qtyRemains
  -- the book after the quantity of the resting order has been assigned
  set b₁ : OrderBook B := { b with orderPool := b.orderPool.set p (b.orderAfter p qtyRemains) }
    with hb₁
  have hp₁ : b₁.LiveOrder p := (MemoryPool.live_set _ _ _ _).mpr hp
  have ho₁ : b₁.order p = b.orderAfter p qtyRemains :=
    (MemoryPool.get_set _ _ _ _).trans (if_pos rfl)
  unfold matchOrder
  rw [bind_of_ok (derefOrder_of_live hp)]
  have hstore : storeOrder (some p)
      (fun o => { o with qty := o.qty - min qtyRemains (b.order p).qty }) b = .ok () b₁ :=
    storeOrder_of_live _ hp
  rw [bind_of_ok hstore, bind_of_ok (derefOrder_of_live hp₁), ho₁,
    bind_of_ok (show readMovedQty stray qtyRemains (min qtyRemains (b.order p).qty) b₁ =
      .ok (b.reported stray p qtyRemains) b₁ from rfl),
    bind_of_ok (dispatchClientResponse_apply _ _), bind_of_ok (dispatchClientResponse_apply _ _),
    bind_of_ok (publishMarketUpdate_apply _ _)]
  -- the four calls on the engine are those of `matchLog`
  have hlog : ∀ u, (if (b.orderAfter p qtyRemains).qty = 0 then
      Emission.update ⟨.cancel, (b.orderAfter p qtyRemains).marketOrderId, taker.tickerId,
        (b.orderAfter p qtyRemains).side, (b.orderAfter p qtyRemains).price,
        b.fillQty p qtyRemains, priorityInvalid⟩
      else .update ⟨.modify, (b.orderAfter p qtyRemains).marketOrderId, taker.tickerId,
        (b.orderAfter p qtyRemains).side, (b.orderAfter p qtyRemains).price,
        (b.orderAfter p qtyRemains).qty, (b.orderAfter p qtyRemains).priority⟩) = .update u →
      b.traded stray taker newMarketOid p qtyRemains =
        { b₁ with ome := b.ome ++ [.response ⟨.filled, taker.clientId, taker.tickerId,
              taker.clientOid, newMarketOid, taker.side, (b.orderAfter p qtyRemains).price,
              b.fillQty p qtyRemains, b.reported stray p qtyRemains⟩] ++
            [.response ⟨.filled, (b.orderAfter p qtyRemains).clientId, taker.tickerId,
              (b.orderAfter p qtyRemains).clientOrderId,
              (b.orderAfter p qtyRemains).marketOrderId, (b.orderAfter p qtyRemains).side,
              (b.orderAfter p qtyRemains).price, b.fillQty p qtyRemains,
              (b.orderAfter p qtyRemains).qty⟩] ++
            [.update ⟨.trade, orderIdInvalid, taker.tickerId, taker.side,
              (b.orderAfter p qtyRemains).price, b.fillQty p qtyRemains, priorityInvalid⟩] ++
            [.update u] } := by
    intro u hu
    simp only [OrderBook.traded, OrderBook.matchLog, matchEvents, hu, List.append_assoc,
      List.cons_append, List.nil_append, hb₁]
  unfold OrderBook.matched
  by_cases hzero : (b.orderAfter p qtyRemains).qty = 0
  · rw [if_pos hzero, if_pos hzero, bind_of_ok (publishMarketUpdate_apply _ _),
      ← removeOrderFromBook_eq hs (by simpa using hp) (by rw [OrderBook.price_traded]; exact hslot),
      hlog _ (if_pos hzero)]
    rfl
  · rw [if_neg hzero, if_neg hzero, hlog _ (if_neg hzero), publishMarketUpdate_apply]
    rfl

/-! ## The book after `matchOrder` -/

namespace OrderBook

section matched

variable (b : OrderBook B) (stray : ℕ → Qty) (taker : NewOrder) (newMarketOid : OrderID)
  (p q : OrderPtr) (l : LevelPtr B) (qtyRemains : Qty)

/-- The fill uses the resting order up. -/
def Exhausts (b : OrderBook B) (p : OrderPtr) (qtyRemains : Qty) : Prop :=
  (b.orderAfter p qtyRemains).qty = 0

/-- The code tests the quantity that is left. -/
instance : Decidable (b.Exhausts p qtyRemains) := inferInstanceAs (Decidable (_ = _))

/-- An order that is filled is removed, -/
theorem matched_of_exhausts (h : b.Exhausts p qtyRemains) :
    b.matched stray taker newMarketOid p l qtyRemains =
      (b.traded stray taker newMarketOid p qtyRemains).detach p l := if_pos h

/-- and one that is not stays. -/
theorem matched_of_not_exhausts (h : ¬ b.Exhausts p qtyRemains) :
    b.matched stray taker newMarketOid p l qtyRemains =
      b.traded stray taker newMarketOid p qtyRemains := if_neg h

/-- A match takes the resting order out of use when it is filled, and no other one. -/
theorem liveOrder_matched :
    (b.matched stray taker newMarketOid p l qtyRemains).LiveOrder q ↔
      b.LiveOrder q ∧ ¬ (b.Exhausts p qtyRemains ∧ q = p) := by
  by_cases h : b.Exhausts p qtyRemains
  · rw [matched_of_exhausts b stray taker newMarketOid p l qtyRemains h]
    simp [h]
  · rw [matched_of_not_exhausts b stray taker newMarketOid p l qtyRemains h]
    simp [h]

/-- Removing the order leaves everyone's data as the trade has left it. -/
theorem data_matched :
    (b.matched stray taker newMarketOid p l qtyRemains).data q =
      (b.traded stray taker newMarketOid p qtyRemains).data q := by
  unfold matched
  split
  · exact data_detach _ _ _ _
  · rfl

/-- The other orders keep theirs altogether. -/
theorem data_matched_of_ne {q : OrderPtr} (h : q ≠ p) :
    (b.matched stray taker newMarketOid p l qtyRemains).data q = b.data q := by
  rw [data_matched, data, order_traded_of_ne b stray taker newMarketOid p qtyRemains h, data]

/-- `matchOrder` changes nothing about an order but its quantity. -/
theorem data_matched_eq :
    (b.matched stray taker newMarketOid p l qtyRemains).data q =
      { b.data q with
        qty := ((b.matched stray taker newMarketOid p l qtyRemains).order q).qty } := by
  rw [data_matched, qty_of_data (data_matched b stray taker newMarketOid p q l qtyRemains), data,
    order_traded_eq, data]

/-- See `data_matched_eq`, for the price. -/
@[simp] theorem price_matched :
    ((b.matched stray taker newMarketOid p l qtyRemains).order q).price = (b.order q).price := by
  rw [price_of_data (data_matched b stray taker newMarketOid p q l qtyRemains), price_traded]

/-- See `data_matched_eq`, for the market order id. -/
@[simp] theorem marketOrderId_matched :
    ((b.matched stray taker newMarketOid p l qtyRemains).order q).marketOrderId =
      (b.order q).marketOrderId := by
  rw [marketOrderId_of_data (data_matched b stray taker newMarketOid p q l qtyRemains),
    marketOrderId_traded]

/-- See `data_matched_eq`, for the priority. -/
@[simp] theorem priority_matched :
    ((b.matched stray taker newMarketOid p l qtyRemains).order q).priority =
      (b.order q).priority := by
  rw [priority_of_data (data_matched b stray taker newMarketOid p q l qtyRemains),
    priority_traded]

/-- See `data_matched_eq`, for the client. -/
@[simp] theorem clientId_matched :
    ((b.matched stray taker newMarketOid p l qtyRemains).order q).clientId =
      (b.order q).clientId := by
  rw [clientId_of_data (data_matched b stray taker newMarketOid p q l qtyRemains),
    clientId_traded]

/-- See `data_matched_eq`, for the client's own id. -/
@[simp] theorem clientOrderId_matched :
    ((b.matched stray taker newMarketOid p l qtyRemains).order q).clientOrderId =
      (b.order q).clientOrderId := by
  rw [clientOrderId_of_data (data_matched b stray taker newMarketOid p q l qtyRemains),
    clientOrderId_traded]

/-- The quantity an order has after the fill. -/
theorem qty_matched :
    ((b.matched stray taker newMarketOid p l qtyRemains).order q).qty =
      if q = p then (b.orderAfter p qtyRemains).qty else (b.order q).qty := by
  rw [qty_of_data (data_matched b stray taker newMarketOid p q l qtyRemains), order_traded]
  split <;> rfl

/-- The calls on the engine are those of the trade; the removal adds none. -/
@[simp] theorem ome_matched :
    (b.matched stray taker newMarketOid p l qtyRemains).ome =
      b.ome ++ b.matchLog stray taker newMarketOid p qtyRemains := by
  unfold matched
  split
  · rw [ome_detach]
    rfl
  · rfl

/-- No market order id is used up: the incoming order has had its own since it was accepted. -/
@[simp] theorem nextMarketOid_matched :
    (b.matched stray taker newMarketOid p l qtyRemains).nextMarketOid = b.nextMarketOid := by
  unfold matched
  split
  · rw [nextMarketOid_detach]
    rfl
  · rfl

/-- The entry of a resting order is cleared when it is filled. -/
theorem clientMap_matched :
    (b.matched stray taker newMarketOid p l qtyRemains).mapClientIdToOrder =
      if b.Exhausts p qtyRemains then
        b.mapWith (b.order p).clientId (b.order p).clientOrderId none
      else b.mapClientIdToOrder := by
  by_cases h : b.Exhausts p qtyRemains
  · rw [matched_of_exhausts b stray taker newMarketOid p l qtyRemains h, if_pos h,
      mapClientIdToOrder_detach, clientId_traded, clientOrderId_traded]
    rfl
  · rw [matched_of_not_exhausts b stray taker newMarketOid p l qtyRemains h, if_neg h]
    rfl

end matched

/-- `std::min` on quantities. -/
theorem fillQty_toNat (b : OrderBook B) (p : OrderPtr) (qtyRemains : Qty) :
    (b.fillQty p qtyRemains).toNat = min qtyRemains.toNat (b.order p).qty.toNat := by
  show (if qtyRemains ≤ (b.order p).qty then qtyRemains else (b.order p).qty).toNat = _
  split
  · rename_i h
    exact (min_eq_left (UInt32.le_iff_toNat_le.mp h)).symm
  · rename_i h
    have hlt : (b.order p).qty.toNat < qtyRemains.toNat := by
      rw [UInt32.le_iff_toNat_le] at h
      omega
    exact (min_eq_right hlt.le).symm

/-- The subtraction in `matchOrder` does not wrap. -/
theorem orderAfter_qty_toNat (b : OrderBook B) (p : OrderPtr) (qtyRemains : Qty) :
    (b.orderAfter p qtyRemains).qty.toNat =
      (b.order p).qty.toNat - (b.fillQty p qtyRemains).toNat := by
  apply UInt32.toNat_sub_of_le _ _
  rw [UInt32.le_iff_toNat_le, fillQty_toNat]
  omega

/-- A fill uses a resting order up when the incoming one asks for all of it. -/
theorem exhausts_iff (b : OrderBook B) (p : OrderPtr) (qtyRemains : Qty) :
    b.Exhausts p qtyRemains ↔ (b.order p).qty ≤ qtyRemains := by
  rw [Exhausts, ← UInt32.toNat_inj, orderAfter_qty_toNat, fillQty_toNat, UInt32.le_iff_toNat_le]
  simp only [UInt32.toNat_zero]
  omega

/-- Every order in use has a quantity. -/
def QtyPos (b : OrderBook B) : Prop := ∀ p, b.LiveOrder p → (b.order p).qty ≠ 0

end OrderBook

/-- The queues after `matchOrder`. -/
def OrderBook.queuesAfter (b : OrderBook B) (queue : Queues B) (p : OrderPtr) (qtyRemains : Qty) :
    Queues B :=
  if b.Exhausts p qtyRemains then
    Function.update queue (slotOf B (b.order p).price)
      ((queue (slotOf B (b.order p).price)).erase p)
  else queue

/-- **The book stays sound** when an order is matched. -/
theorem Sound.matched {b : OrderBook B} {queue : Queues B} (h : Sound b queue) (stray : ℕ → Qty)
    (taker : NewOrder) (newMarketOid : OrderID) {p : OrderPtr} {l : LevelPtr B} (qtyRemains : Qty)
    (hp : b.LiveOrder p) (hslot : b.getLevelForPrice (b.order p).price = some l) :
    Sound (b.matched stray taker newMarketOid p l qtyRemains)
      (b.queuesAfter queue p qtyRemains) := by
  have hs := h.traded stray taker newMarketOid p qtyRemains
  by_cases hx : b.Exhausts p qtyRemains
  · rw [OrderBook.matched_of_exhausts b stray taker newMarketOid p l qtyRemains hx,
      OrderBook.queuesAfter, if_pos hx]
    have hd := hs.detach (p := p) (l := l) (by simpa using hp)
      (by rw [OrderBook.price_traded]; exact hslot)
    rwa [OrderBook.price_traded] at hd
  · rw [OrderBook.matched_of_not_exhausts b stray taker newMarketOid p l qtyRemains hx,
      OrderBook.queuesAfter, if_neg hx]
    exact hs

/-- An order that is matched and stays has a quantity left. -/
theorem OrderBook.QtyPos.matched {b : OrderBook B} (h : b.QtyPos) (stray : ℕ → Qty)
    (taker : NewOrder) (newMarketOid : OrderID) (p : OrderPtr) (l : LevelPtr B)
    (qtyRemains : Qty) : (b.matched stray taker newMarketOid p l qtyRemains).QtyPos := by
  intro q hq
  rw [OrderBook.liveOrder_matched] at hq
  rw [OrderBook.qty_matched]
  by_cases hqp : q = p
  · rw [if_pos hqp]
    exact fun hx => hq.2 ⟨hx, hqp⟩
  · rw [if_neg hqp]
    exact h q hq.1

/-- A sound book in which every order has a quantity: what the books between two steps are. -/
structure Valid (b : OrderBook B) (queue : Queues B) : Prop extends Sound b queue where
  qtyPos : b.QtyPos

/-- **A match keeps a book valid.** -/
theorem Valid.matched {b : OrderBook B} {queue : Queues B} (h : Valid b queue) (stray : ℕ → Qty)
    (taker : NewOrder) (newMarketOid : OrderID) {p : OrderPtr} {l : LevelPtr B} (qtyRemains : Qty)
    (hp : b.LiveOrder p) (hslot : b.getLevelForPrice (b.order p).price = some l) :
    Valid (b.matched stray taker newMarketOid p l qtyRemains)
      (b.queuesAfter queue p qtyRemains) :=
  ⟨h.toSound.matched stray taker newMarketOid qtyRemains hp hslot,
    h.qtyPos.matched stray taker newMarketOid p l qtyRemains⟩

/-! ## The head of a turn -/

section head

variable {b b' : OrderBook B} {queue : Queues B} {taker : NewOrder} {qtyRemains : Qty}
  {p : OrderPtr} {best : LevelPtr B}

/-- The first order of a level in use. -/
theorem Sound.head_of_level (h : Sound b queue) (hl : b.LiveLevel best)
    (h0 : (b.level best).order0 = some p) :
    b.LiveOrder p ∧ b.getLevelForPrice (b.order p).price = some best ∧
      (queue (slotOf B (b.order p).price)).head? = some p := by
  have hslot := h.slot_of_live hl
  have hhead : (queue (slotOf B (b.level best).price)).head? = some p := by
    rw [← h.queue_head _ best hslot, h0]
  obtain ⟨hp, hprice⟩ := (h.mem_queue _ p).mp (List.mem_of_head? hhead)
  refine ⟨hp, ?_, ?_⟩
  · rw [OrderBook.getLevelForPrice, hprice]
    exact hslot
  · rw [hprice]
    exact hhead

/-- Order `p` heads the best level of the side a taker looks at, and the taker's price reaches
it. -/
structure Reaches (b : OrderBook B) (taker : NewOrder) (qtyRemains : Qty) (best : LevelPtr B)
    (p : OrderPtr) : Prop where
  qty : qtyRemains ≠ 0
  opposite : b.opposite taker.side = some best
  liveLevel : b.LiveLevel best
  order0 : (b.level best).order0 = some p
  live : b.LiveOrder p
  price : misses taker.side taker.price (b.order p).price = false

/-- The loop goes on: the best level's first order is reached. -/
theorem nextMatch_some (h : nextMatch taker qtyRemains b = .ok (some p) b') :
    b' = b ∧ ∃ best, Reaches b taker qtyRemains best p := by
  unfold nextMatch at h
  split at h
  · cases h
  · rename_i hqty
    rw [get_bind] at h
    cases hbest : b.opposite taker.side with
    | none =>
      rw [hbest] at h
      cases h
    | some best =>
      rw [hbest] at h
      obtain ⟨level, _, hlevel, h⟩ := bind_eq_ok.mp h
      obtain ⟨_, hsome, hl, rfl, rfl⟩ := derefLevel_eq_ok.mp hlevel
      cases hsome
      obtain ⟨resting, _, horder, h⟩ := bind_eq_ok.mp h
      obtain ⟨q, h0, hq, rfl, rfl⟩ := derefOrder_eq_ok.mp horder
      split at h
      · cases h
      · rename_i hprice
        rw [h0] at h
        cases h
        exact ⟨rfl, best, hqty, hbest, hl, h0, hq, by simpa using hprice⟩

/-- What is reached is matched next. -/
theorem Reaches.next (hr : Reaches b taker qtyRemains best p) :
    nextMatch taker qtyRemains b = .ok (some p) b := by
  unfold nextMatch
  rw [if_neg hr.qty, get_bind, hr.opposite]
  simp only []
  rw [bind_of_ok (derefLevel_of_live hr.liveLevel), hr.order0,
    bind_of_ok (derefOrder_of_live hr.live), hr.price]
  rfl

/-- The loop ends: nothing is left, the side is empty, or its first order is not reached. -/
theorem nextMatch_none (h : nextMatch taker qtyRemains b = .ok none b') :
    b' = b ∧ (qtyRemains = 0 ∨ b.opposite taker.side = none ∨
      ∃ best p, b.opposite taker.side = some best ∧ b.LiveLevel best ∧
        (b.level best).order0 = some p ∧ b.LiveOrder p ∧
        misses taker.side taker.price (b.order p).price = true) := by
  unfold nextMatch at h
  split at h
  · rename_i hqty
    cases h
    exact ⟨rfl, .inl hqty⟩
  · rw [get_bind] at h
    cases hbest : b.opposite taker.side with
    | none =>
      rw [hbest] at h
      cases h
      exact ⟨rfl, .inr (.inl rfl)⟩
    | some best =>
      rw [hbest] at h
      obtain ⟨level, _, hlevel, h⟩ := bind_eq_ok.mp h
      obtain ⟨_, hsome, hl, rfl, rfl⟩ := derefLevel_eq_ok.mp hlevel
      cases hsome
      obtain ⟨resting, _, horder, h⟩ := bind_eq_ok.mp h
      obtain ⟨q, h0, hq, rfl, rfl⟩ := derefOrder_eq_ok.mp horder
      split at h
      · rename_i hprice
        cases h
        exact ⟨rfl, .inr (.inr ⟨best, q, rfl, hl, h0, hq, hprice⟩)⟩
      · rw [h0] at h
        cases h

end head

/-! ## The loop -/

section loop

variable {stray : ℕ → Qty} {taker : NewOrder} {newMarketOid : OrderID} {qtyRemains : Qty}
  {b b' b₁ : OrderBook B} {queue : Queues B} {p : OrderPtr}

/-- What a turn of the loop does to a sound book. -/
theorem Sound.turn (h : Sound b queue)
    (hnext : nextMatch taker qtyRemains b = .ok (some p) b)
    (hmatch : matchOrder stray taker newMarketOid (some p) qtyRemains b = .ok () b₁) :
    ∃ best, Reaches b taker qtyRemains best p ∧
      b.getLevelForPrice (b.order p).price = some best ∧
      (queue (slotOf B (b.order p).price)).head? = some p ∧
      b₁ = b.matched stray taker newMarketOid p best qtyRemains := by
  obtain ⟨-, best, hr⟩ := nextMatch_some hnext
  obtain ⟨hp, hslot, hhead⟩ := h.head_of_level hr.liveLevel hr.order0
  rw [matchOrder_eq h stray taker newMarketOid qtyRemains hp hslot] at hmatch
  cases hmatch
  exact ⟨best, hr, hslot, hhead, rfl⟩

variable (stray taker newMarketOid qtyRemains) in
/-- A complete run of `findMatch`'s loop from one book to another; the list holds its `matchOrder`
calls, each with the book it is made on. -/
inductive Fills : OrderBook B → List (OrderBook B × OrderPtr) → OrderBook B → Prop where
  | done {b : OrderBook B} (hnext : nextMatch taker qtyRemains b = .ok none b) : Fills b [] b
  | step {b b₁ b' : OrderBook B} {p : OrderPtr} {calls : List (OrderBook B × OrderPtr)}
    (hnext : nextMatch taker qtyRemains b = .ok (some p) b)
    (hmatch : matchOrder stray taker newMarketOid (some p) qtyRemains b = .ok () b₁)
    (hrest : Fills b₁ calls b') : Fills b ((b, p) :: calls) b'

variable (stray taker newMarketOid qtyRemains) in
/-- The `matchOrder` calls of at most `fuel` turns of `findMatch`'s loop. -/
def matchCalls : ℕ → OrderBook B → List (OrderBook B × OrderPtr)
  | 0, _ => []
  | fuel + 1, b =>
    match nextMatch taker qtyRemains b with
    | .ok (some p) b₁ =>
      (b₁, p) ::
        match matchOrder stray taker newMarketOid (some p) qtyRemains b₁ with
        | .ok _ b₂ => matchCalls fuel b₂
        | .error _ _ => []
    | _ => []

/-- **`findMatch`'s loop taken apart**: it returns the quantity it was given. -/
theorem matchLoop_ok {fuel : ℕ} {r : Qty}
    (h : matchLoop stray taker newMarketOid qtyRemains fuel b = .ok r b') :
    r = qtyRemains ∧ Fills stray taker newMarketOid qtyRemains b
      (matchCalls stray taker newMarketOid qtyRemains fuel b) b' := by
  induction fuel generalizing b with
  | zero => exact absurd h throw_ne_ok
  | succ fuel ih =>
    unfold matchLoop at h
    obtain ⟨next, b₁, hnext, hturn⟩ := bind_eq_ok.mp h
    clear h
    cases next with
    | none =>
      obtain ⟨rfl, -⟩ := nextMatch_none hnext
      obtain ⟨rfl, rfl⟩ := pure_eq_ok.mp hturn
      refine ⟨rfl, ?_⟩
      rw [matchCalls, hnext]
      exact .done hnext
    | some p =>
      obtain ⟨rfl, -⟩ := nextMatch_some hnext
      obtain ⟨_, b₂, hmatch, hrest⟩ := bind_eq_ok.mp hturn
      obtain ⟨rfl, hfills⟩ := ih hrest
      refine ⟨rfl, ?_⟩
      rw [matchCalls, hnext]
      simp only [hmatch]
      exact .step hnext hmatch hfills

/-- **The loop rule**: a property of valid books that every turn keeps holds at every call and at
the end. -/
theorem Fills.carries {P : Queues B → OrderBook B → Prop} {calls : List (OrderBook B × OrderPtr)}
    (hturn : ∀ queue b p best, Valid b queue → P queue b → Reaches b taker qtyRemains best p →
      b.getLevelForPrice (b.order p).price = some best →
      (queue (slotOf B (b.order p).price)).head? = some p →
      P (b.queuesAfter queue p qtyRemains)
        (b.matched stray taker newMarketOid p best qtyRemains))
    (h : Fills stray taker newMarketOid qtyRemains b calls b') (hv : Valid b queue)
    (hP : P queue b) :
    (∃ queue', Valid b' queue' ∧ P queue' b') ∧
      ∀ c ∈ calls, ∃ queue', Valid c.1 queue' ∧ P queue' c.1 := by
  induction h generalizing queue with
  | done => exact ⟨⟨queue, hv, hP⟩, by simp⟩
  | step hnext hmatch _ ih =>
    obtain ⟨best, hr, hslot, hhead, rfl⟩ := hv.turn hnext hmatch
    obtain ⟨hend, hcalls⟩ := ih (hv.matched stray taker newMarketOid qtyRemains hr.live hslot)
      (hturn queue _ _ best hv hP hr hslot hhead)
    refine ⟨hend, ?_⟩
    intro c hc
    rcases List.mem_cons.mp hc with rfl | hc
    · exact ⟨queue, hv, hP⟩
    · exact hcalls c hc

/-- The rule at the calls alone, of a loop that need not come to an end. -/
theorem matchCalls_carries {P : Queues B → OrderBook B → Prop} {fuel : ℕ}
    (hturn : ∀ queue b p best, Valid b queue → P queue b → Reaches b taker qtyRemains best p →
      b.getLevelForPrice (b.order p).price = some best →
      (queue (slotOf B (b.order p).price)).head? = some p →
      P (b.queuesAfter queue p qtyRemains)
        (b.matched stray taker newMarketOid p best qtyRemains))
    (hv : Valid b queue) (hP : P queue b) {c : OrderBook B × OrderPtr}
    (hc : c ∈ matchCalls stray taker newMarketOid qtyRemains fuel b) :
    nextMatch taker qtyRemains c.1 = .ok (some c.2) c.1 ∧
      ∃ queue', Valid c.1 queue' ∧ P queue' c.1 := by
  induction fuel generalizing b queue with
  | zero => simp [matchCalls] at hc
  | succ fuel ih =>
    unfold matchCalls at hc
    split at hc
    · rename_i p b₁ hnext
      obtain ⟨rfl, best, hr⟩ := nextMatch_some hnext
      obtain ⟨hp, hslot, hhead⟩ := hv.head_of_level hr.liveLevel hr.order0
      rw [matchOrder_eq hv.toSound stray taker newMarketOid qtyRemains hp hslot] at hc
      rcases List.mem_cons.mp hc with rfl | hc
      · exact ⟨hnext, queue, hv, hP⟩
      · exact ih (hv.matched stray taker newMarketOid qtyRemains hp hslot)
          (hturn queue _ _ best hv hP hr hslot hhead) hc
    · simp at hc

/-- Every call is made on the first order of the best level. -/
theorem Fills.mem {calls : List (OrderBook B × OrderPtr)}
    (h : Fills stray taker newMarketOid qtyRemains b calls b') {c : OrderBook B × OrderPtr}
    (hc : c ∈ calls) : nextMatch taker qtyRemains c.1 = .ok (some c.2) c.1 := by
  induction h with
  | done => simp at hc
  | step hnext _ _ ih =>
    rcases List.mem_cons.mp hc with rfl | hc
    · exact hnext
    · exact ih hc

/-- The loop ends where it finds nothing to match. -/
theorem Fills.last {calls : List (OrderBook B × OrderPtr)}
    (h : Fills stray taker newMarketOid qtyRemains b calls b') :
    nextMatch taker qtyRemains b' = .ok none b' := by
  induction h with
  | done hnext => exact hnext
  | step _ _ _ ih => exact ih

/-- The loop goes on from every call. -/
theorem Fills.after {calls : List (OrderBook B × OrderPtr)}
    (h : Fills stray taker newMarketOid qtyRemains b calls b') {c : OrderBook B × OrderPtr}
    (hc : c ∈ calls) :
    ∃ b₁ calls', matchOrder stray taker newMarketOid (some c.2) qtyRemains c.1 = .ok () b₁ ∧
      Fills stray taker newMarketOid qtyRemains b₁ calls' b' := by
  induction h with
  | done => simp at hc
  | step _ hmatch hrest ih =>
    rcases List.mem_cons.mp hc with rfl | hc
    · exact ⟨_, _, hmatch, hrest⟩
    · exact ih hc

/-- The loop keeps a book valid. -/
theorem Fills.valid {calls : List (OrderBook B × OrderPtr)}
    (h : Fills stray taker newMarketOid qtyRemains b calls b') (hv : Valid b queue) :
    ∃ queue', Valid b' queue' := by
  obtain ⟨⟨queue', hv', -⟩, -⟩ :=
    h.carries (P := fun _ _ => True) (fun _ _ _ _ _ _ _ _ _ => trivial) hv trivial
  exact ⟨queue', hv'⟩

end loop

/-! ## The bound on the turns -/

section bound

variable {stray : ℕ → Qty} {taker : NewOrder} {newMarketOid : OrderID} {qtyRemains : Qty}
  {b b' : OrderBook B} {queue : Queues B}

/-- The quantity of an order in use. -/
def OrderBook.liveQty (b : OrderBook B) (p : OrderPtr) : ℕ :=
  if b.LiveOrder p then (b.order p).qty.toNat else 0

/-- The quantity of all orders in use. -/
def OrderBook.totalQty (b : OrderBook B) : ℕ := ∑ p, b.liveQty p

/-- An order in use counts with its quantity, -/
theorem OrderBook.liveQty_of_live {b : OrderBook B} {p : OrderPtr} (h : b.LiveOrder p) :
    b.liveQty p = (b.order p).qty.toNat := if_pos h

/-- and a free block with none. -/
theorem OrderBook.liveQty_of_not_live {b : OrderBook B} {p : OrderPtr} (h : ¬ b.LiveOrder p) :
    b.liveQty p = 0 := if_neg h

/-- The orders that are not matched count as before. -/
theorem OrderBook.liveQty_matched_of_ne (b : OrderBook B) (stray : ℕ → Qty) (taker : NewOrder)
    (newMarketOid : OrderID) {p q : OrderPtr} (l : LevelPtr B) (qtyRemains : Qty) (h : q ≠ p) :
    (b.matched stray taker newMarketOid p l qtyRemains).liveQty q = b.liveQty q := by
  have hlive : (b.matched stray taker newMarketOid p l qtyRemains).LiveOrder q ↔
      b.LiveOrder q := by
    simp [OrderBook.liveOrder_matched, h]
  by_cases hq : b.LiveOrder q
  · rw [liveQty_of_live (hlive.mpr hq), liveQty_of_live hq, qty_matched, if_neg h]
  · rw [liveQty_of_not_live (fun e => hq (hlive.mp e)), liveQty_of_not_live hq]

/-- A turn takes what it fills from the resting order. -/
theorem OrderBook.liveQty_matched_self (stray : ℕ → Qty) (taker : NewOrder)
    (newMarketOid : OrderID) {p : OrderPtr} (l : LevelPtr B) (qtyRemains : Qty)
    (hp : b.LiveOrder p) :
    (b.matched stray taker newMarketOid p l qtyRemains).liveQty p +
      (b.fillQty p qtyRemains).toNat = b.liveQty p := by
  have hfill := b.fillQty_toNat p qtyRemains
  have hafter := b.orderAfter_qty_toNat p qtyRemains
  rw [liveQty_of_live hp]
  by_cases hx : b.Exhausts p qtyRemains
  · -- the order goes, with nothing left
    have hzero : (b.orderAfter p qtyRemains).qty.toNat = 0 := by
      rw [show (b.orderAfter p qtyRemains).qty = 0 from hx]
      rfl
    rw [liveQty_of_not_live]
    · omega
    · rw [liveOrder_matched]
      exact fun h => h.2 ⟨hx, rfl⟩
  · rw [liveQty_of_live, qty_matched, if_pos rfl]
    · omega
    · rw [liveOrder_matched]
      exact ⟨hp, fun h => hx h.1⟩

/-- A fill moves some quantity. -/
theorem OrderBook.QtyPos.fillQty_pos (h : b.QtyPos) {p : OrderPtr} (hp : b.LiveOrder p)
    (hqty : qtyRemains ≠ 0) : 0 < (b.fillQty p qtyRemains).toNat := by
  have horder := h p hp
  rw [Ne, ← UInt32.toNat_inj, UInt32.toNat_zero] at horder hqty
  rw [OrderBook.fillQty_toNat]
  omega

/-- A turn takes what it fills out of the book. -/
theorem OrderBook.totalQty_matched (stray : ℕ → Qty) (taker : NewOrder) (newMarketOid : OrderID)
    {p : OrderPtr} (best : LevelPtr B) (qtyRemains : Qty) (hp : b.LiveOrder p) :
    (b.matched stray taker newMarketOid p best qtyRemains).totalQty +
      (b.fillQty p qtyRemains).toNat = b.totalQty :=
  sum_add_of_eq_off
    (fun _ hq => b.liveQty_matched_of_ne stray taker newMarketOid best qtyRemains hq)
    (OrderBook.liveQty_matched_self stray taker newMarketOid best qtyRemains hp)

/-- A turn takes some quantity out of the book. -/
theorem OrderBook.QtyPos.totalQty_lt (h : b.QtyPos) (stray : ℕ → Qty) (taker : NewOrder)
    (newMarketOid : OrderID) {p : OrderPtr} (best : LevelPtr B) (hp : b.LiveOrder p)
    (hqty : qtyRemains ≠ 0) :
    (b.matched stray taker newMarketOid p best qtyRemains).totalQty < b.totalQty := by
  have hfill := h.fillQty_pos hp hqty
  have htotal := OrderBook.totalQty_matched stray taker newMarketOid best qtyRemains hp
  omega

/-- The pool's orders hold less than the bound on the turns. -/
theorem OrderBook.totalQty_lt_matchFuel (b : OrderBook B) : b.totalQty < matchFuel := by
  have hle : b.totalQty ≤ ∑ _p : OrderPtr, 2 ^ 32 := by
    apply Finset.sum_le_sum
    intro p _
    rw [OrderBook.liveQty]
    split
    · exact (UInt32.toNat_lt _).le
    · exact Nat.zero_le _
  have hcard : ∑ _p : OrderPtr, 2 ^ 32 = maxOrderIds * 2 ^ 32 := by
    rw [Finset.sum_const, Finset.card_univ, Fintype.card_fin, smul_eq_mul]
  rw [hcard] at hle
  exact Nat.lt_succ_of_le hle

/-- The head of a turn does not loop. -/
theorem nextMatch_ne_diverges : nextMatch taker qtyRemains b ≠ .error .diverges b' := by
  intro h
  unfold nextMatch at h
  split at h
  · cases h
  · rw [get_bind] at h
    cases hbest : b.opposite taker.side with
    | none =>
      rw [hbest] at h
      cases h
    | some best =>
      rw [hbest] at h
      rcases bind_eq_error.mp h with hlevel | ⟨level, b₁, -, h⟩
      · exact derefLevel_ne_diverges hlevel
      · rcases bind_eq_error.mp h with horder | ⟨resting, b₂, -, h⟩
        · exact derefOrder_ne_diverges horder
        · split at h <;> cases h

/-- **The loop ends**: on a sound book the bound on its turns is never used up. -/
theorem matchLoop_ne_diverges {fuel : ℕ} (hv : Valid b queue)
    (hfuel : b.totalQty < fuel) :
    matchLoop stray taker newMarketOid qtyRemains fuel b ≠ .error .diverges b' := by
  induction fuel generalizing b queue with
  | zero => exact absurd hfuel (Nat.not_lt_zero _)
  | succ fuel ih =>
    intro h
    unfold matchLoop at h
    rcases bind_eq_error.mp h with hnext | ⟨next, b₁, hnext, hturn⟩
    · exact nextMatch_ne_diverges hnext
    · clear h
      cases next with
      | none => cases hturn
      | some p =>
        obtain ⟨rfl, best, hr⟩ := nextMatch_some hnext
        obtain ⟨hp, hslot, -⟩ := hv.head_of_level hr.liveLevel hr.order0
        have hmatch := matchOrder_eq hv.toSound stray taker newMarketOid qtyRemains hp hslot
        simp only [] at hturn
        rw [bind_of_ok hmatch] at hturn
        have hless := hv.qtyPos.totalQty_lt stray taker newMarketOid best hp hr.qty
        exact ih (hv.matched stray taker newMarketOid qtyRemains hp hslot) (by omega) hturn

/-- **`findMatch` ends** on a sound book. -/
theorem findMatch_ne_diverges (hv : Valid b queue) :
    findMatch stray taker newMarketOid b ≠ .error .diverges b' :=
  matchLoop_ne_diverges hv b.totalQty_lt_matchFuel

end bound

end HftSys
