import HftSys.MemoryPool

/-!
# The limit order book

`MatchingEngine::OrderBook`, function by function, over the pointers the source uses: the price
levels of a side form a circular doubly-linked list headed by the side's best pointer, the orders
of a level another one headed by `order0`, and both kinds of node live in memory pools.

* A book operation is a program in `BookM`: it returns a value and the next book, or stops with a
  `Fault` and the book as it stood there.
* `ome` records, in order, every call the book makes on its matching engine.
* `matchOrder` contains `qtyRemains -= fillQty` on a *pointer*: the caller's quantity keeps its
  value, and the next read through the pointer is outside the variable. What that read returns is
  a parameter, `stray`, indexed by the length of the log so that no two reads are tied together.
* The two loops carry a bound on their turns, `Fault.diverges` when it is used up.

Left out: `assignedTicker_` (only printed), and the scratch members `clientResponse_` and
`marketUpdate_`, which are overwritten before every use.
-/

namespace HftSys

/-! ## The nodes -/

/-- A non-null `Order *`. -/
abbrev OrderPtr := Fin maxOrderIds

/-- A non-null `OrdersAtPrice *`. -/
abbrev LevelPtr (B : Build) := Fin (maxPriceLevels B)

/-- An index of `mapPriceToPriceLevel_`. -/
abbrev PriceSlot (B : Build) := Fin (maxPriceLevels B)

/-- `Exchange::Order`. Source: `matching_engine_order.h` -/
structure Order where
  tickerId : TickerID
  clientId : ClientID
  clientOrderId : OrderID
  marketOrderId : OrderID
  side : Side
  price : Price
  qty : Qty
  priority : Priority
  prev : Option OrderPtr
  next : Option OrderPtr
deriving DecidableEq

/-- The default member values of `Order`. Source: `matching_engine_order.h` -/
def Order.blank : Order where
  tickerId := 4294967295
  clientId := 4294967295
  clientOrderId := orderIdInvalid
  marketOrderId := orderIdInvalid
  side := .invalid
  price := priceInvalid
  qty := qtyInvalid
  priority := priorityInvalid
  prev := none
  next := none

/-- `Exchange::OrdersAtPrice`: one price level. Source: `matching_engine_order.h` -/
structure OrdersAtPrice (B : Build) where
  side : Side
  price : Price
  order0 : Option OrderPtr
  prev : Option (LevelPtr B)
  next : Option (LevelPtr B)
deriving DecidableEq

/-- The default member values of `OrdersAtPrice`. Source: `matching_engine_order.h` -/
def OrdersAtPrice.blank (B : Build) : OrdersAtPrice B where
  side := .invalid
  price := priceInvalid
  order0 := none
  prev := none
  next := none

/-! ## The book -/

/-- `MatchingEngine::OrderBook`. Source: `order_book.h` -/
structure OrderBook (B : Build) where
  mapClientIdToOrder : ClientID → OrderID → Option OrderPtr
  bidsByPrice : Option (LevelPtr B)
  asksByPrice : Option (LevelPtr B)
  mapPriceToPriceLevel : PriceSlot B → Option (LevelPtr B)
  ordersAtPricePool : MemoryPool (OrdersAtPrice B) (maxPriceLevels B)
  orderPool : MemoryPool Order maxOrderIds
  nextMarketOid : OrderID
  /-- The calls made on the matching engine so far. -/
  ome : List Emission

/-- A new book. Source: `order_book.h` (member initialisers) -/
def OrderBook.create (B : Build) : OrderBook B where
  mapClientIdToOrder := fun _ _ => none
  bidsByPrice := none
  asksByPrice := none
  mapPriceToPriceLevel := fun _ => none
  ordersAtPricePool := .create _ (maxPriceLevels_pos B) (.blank B)
  orderPool := .create _ maxOrderIds_pos .blank
  nextMarketOid := 1
  ome := []

/-- A program on a book. -/
abbrev BookM (B : Build) := EStateM Fault (OrderBook B)

/-- The arguments of `addOrder`. Source: `order_book.h` -/
structure NewOrder where
  clientId : ClientID
  clientOid : OrderID
  tickerId : TickerID
  side : Side
  price : Price
  qty : Qty
deriving DecidableEq, Repr

/-- The arguments of `cancelOrder`. Source: `order_book.h` -/
structure CancelOrder where
  clientId : ClientID
  orderId : OrderID
  tickerId : TickerID
deriving DecidableEq, Repr

section accessors

variable {B : Build}

/-! ## Reading and writing through pointers -/

/-- `*p` for an `Order *`. -/
def derefOrder (p : Option OrderPtr) : BookM B Order := fun b =>
  match b.orderPool.deref p with
  | .ok o => .ok o b
  | .error e => .error e b

/-- `*p` for an `OrdersAtPrice *`. -/
def derefLevel (p : Option (LevelPtr B)) : BookM B (OrdersAtPrice B) := fun b =>
  match b.ordersAtPricePool.deref p with
  | .ok l => .ok l b
  | .error e => .error e b

/-- An assignment to members of `*p` for an `Order *`. -/
def storeOrder (p : Option OrderPtr) (f : Order → Order) : BookM B Unit := fun b =>
  match b.orderPool.store f p with
  | .ok pool => .ok () { b with orderPool := pool }
  | .error e => .error e b

/-- An assignment to members of `*p` for an `OrdersAtPrice *`. -/
def storeLevel (p : Option (LevelPtr B)) (f : OrdersAtPrice B → OrdersAtPrice B) :
    BookM B Unit := fun b =>
  match b.ordersAtPricePool.store f p with
  | .ok pool => .ok () { b with ordersAtPricePool := pool }
  | .error e => .error e b

/-- `orderPool_.allocate`. -/
def allocateOrder (o : Order) : BookM B (Option OrderPtr) := fun b =>
  match b.orderPool.allocate o with
  | .ok (p, pool) => .ok p { b with orderPool := pool }
  | .error e => .error e b

/-- `ordersAtPricePool_.allocate`. -/
def allocateLevel (l : OrdersAtPrice B) : BookM B (Option (LevelPtr B)) := fun b =>
  match b.ordersAtPricePool.allocate l with
  | .ok (p, pool) => .ok p { b with ordersAtPricePool := pool }
  | .error e => .error e b

/-- `orderPool_.deallocate`. -/
def deallocateOrder (p : Option OrderPtr) : BookM B Unit := fun b =>
  match b.orderPool.deallocate p with
  | .ok pool => .ok () { b with orderPool := pool }
  | .error e => .error e b

/-- `ordersAtPricePool_.deallocate`. -/
def deallocateLevel (p : Option (LevelPtr B)) : BookM B Unit := fun b =>
  match b.ordersAtPricePool.deallocate p with
  | .ok pool => .ok () { b with ordersAtPricePool := pool }
  | .error e => .error e b

/-- Both subscripts of `mapClientIdToOrder_` are inside their arrays. -/
def InClientMap (B : Build) (clientId : ClientID) (orderId : OrderID) : Prop :=
  clientId.toNat < maxNClients B ∧ orderId.toNat < maxOrderIds

instance (clientId : ClientID) (orderId : OrderID) : Decidable (InClientMap B clientId orderId) :=
  inferInstanceAs (Decidable (_ ∧ _))

/-- `mapClientIdToOrder_[clientId][orderId] = p`, both subscripts unchecked. -/
def setClientOrder (clientId : ClientID) (orderId : OrderID) (p : Option OrderPtr) :
    BookM B Unit := fun b =>
  if InClientMap B clientId orderId then
    .ok () { b with
      mapClientIdToOrder := Function.update b.mapClientIdToOrder clientId
        (Function.update (b.mapClientIdToOrder clientId) orderId p) }
  else .error .outOfRange b

/-- The `bestOrdersByPrice` reference: the bids for a BUY, the asks for any other side. -/
def OrderBook.bestOf (b : OrderBook B) (side : Side) : Option (LevelPtr B) :=
  if side = .buy then b.bidsByPrice else b.asksByPrice

/-- An assignment through `bestOrdersByPrice`. -/
def setBest (side : Side) (p : Option (LevelPtr B)) : BookM B Unit :=
  modify fun b => if side = .buy then { b with bidsByPrice := p } else { b with asksByPrice := p }

/-- `priceToIndex`: the price is converted to `std::size_t` by the unsigned modulus.
Source: `order_book.h`, `OrderBook::priceToIndex` -/
def priceToIndex (B : Build) (price : Price) : ℕ := price.toUInt64.toNat % maxPriceLevels B

theorem priceToIndex_lt (B : Build) (price : Price) : priceToIndex B price < maxPriceLevels B :=
  Nat.mod_lt _ (maxPriceLevels_pos B)

/-- The subscript `priceToIndex(price)`, which is always inside the table. -/
def slotOf (B : Build) (price : Price) : PriceSlot B := ⟨priceToIndex B price, priceToIndex_lt B price⟩

/-- `getLevelForPrice`. Source: `order_book.h`, `OrderBook::getLevelForPrice` -/
def OrderBook.getLevelForPrice (b : OrderBook B) (price : Price) : Option (LevelPtr B) :=
  b.mapPriceToPriceLevel (slotOf B price)

/-- `mapPriceToPriceLevel_[priceToIndex(price)] = p`. -/
def setLevelForPrice (price : Price) (p : Option (LevelPtr B)) : BookM B Unit :=
  modify fun b => { b with
    mapPriceToPriceLevel := Function.update b.mapPriceToPriceLevel (slotOf B price) p }

/-- `ome_.dispatchClientResponse`, as seen by the book. -/
def dispatchClientResponse (r : OMEClientResponse) : BookM B Unit :=
  modify fun b => { b with ome := b.ome ++ [.response r] }

/-- `ome_.publishMarketUpdate`, as seen by the book. -/
def publishMarketUpdate (u : OMEMarketUpdate) : BookM B Unit :=
  modify fun b => { b with ome := b.ome ++ [.update u] }

/-- `getNewMarketOrderId`: `nextMarketOid_++`. Source: `order_book.h` -/
def getNewMarketOrderId : BookM B OrderID := fun b =>
  .ok b.nextMarketOid { b with nextMarketOid := b.nextMarketOid + 1 }

/-- `getNextPriority`: one more than the last order of the slot's level, `1` when there is none.
Source: `order_book.h`, `OrderBook::getNextPriority` -/
def getNextPriority (price : Price) : BookM B Priority := do
  match (← get).getLevelForPrice price with
  | none => pure 1
  | some ordersAtPrice =>
    let level ← derefLevel (some ordersAtPrice)
    let first ← derefOrder level.order0
    let last ← derefOrder first.prev
    pure (last.priority + 1)

end accessors

section levels

variable {B : Build}

/-! ## Price levels -/

/-- The comparison that sets `shouldAddAfter`: a level at `price` belongs behind one at `other`.
Source: `order_book.cpp`, `OrderBook::addPriceLevel` -/
def addsAfter (side : Side) (price other : Price) : Bool :=
  if side = .sell then other < price else price < other

/-- A level at `price` is to become the best of its side in front of one at `best`.
Source: `order_book.cpp`, `OrderBook::addPriceLevel` -/
def becomesBest (side : Side) (price best : Price) : Bool :=
  (side = .buy ∧ best < price) ∨ (side = .sell ∧ price < best)

/-- The `do … while (shouldAddAfter && target != bestOrdersByPrice)` walk, at most `fuel` turns.
Source: `order_book.cpp`, `OrderBook::addPriceLevel` -/
def searchTarget (side : Side) (price : Price) (best : Option (LevelPtr B)) :
    ℕ → Option (LevelPtr B) → BookM B (Option (LevelPtr B) × Bool)
  | 0, _ => throw .diverges
  | fuel + 1, target => do
    let here ← derefLevel target
    let there ← derefLevel here.next
    if addsAfter side price there.price ∧ here.next ≠ best then
      searchTarget side price best fuel here.next
    else pure (here.next, addsAfter side price there.price)

/-- The insertion point: the best level itself, or where the walk from it stops. -/
def findTarget (side : Side) (price : Price) (best : Option (LevelPtr B)) :
    BookM B (Option (LevelPtr B) × Bool) := do
  let level ← derefLevel best
  if addsAfter side price level.price then searchTarget side price best (maxPriceLevels B) best
  else pure (best, false)

/-- The four assignments of "Insert after target". -/
def insertAfter (newOrdersAtPrice target : Option (LevelPtr B)) : BookM B Unit := do
  storeLevel newOrdersAtPrice fun l => { l with prev := target }
  let t ← derefLevel target
  storeLevel newOrdersAtPrice fun l => { l with next := t.next }
  let t ← derefLevel target
  storeLevel t.next fun l => { l with prev := newOrdersAtPrice }
  storeLevel target fun l => { l with next := newOrdersAtPrice }

/-- The four assignments of "Insert before target". -/
def insertBefore (newOrdersAtPrice target : Option (LevelPtr B)) : BookM B Unit := do
  storeLevel newOrdersAtPrice fun l => { l with next := target }
  let t ← derefLevel target
  storeLevel newOrdersAtPrice fun l => { l with prev := t.prev }
  let t ← derefLevel target
  storeLevel t.prev fun l => { l with next := newOrdersAtPrice }
  storeLevel target fun l => { l with prev := newOrdersAtPrice }

/-- "Insert new price level", and "Check if this new level becomes the best price". -/
def insertLevel (newOrdersAtPrice best target : Option (LevelPtr B)) (side : Side) (price : Price)
    (shouldAddAfter : Bool) : BookM B Unit := do
  if shouldAddAfter then insertAfter newOrdersAtPrice target
  else
    insertBefore newOrdersAtPrice target
    let bestLevel ← derefLevel best
    if becomesBest side price bestLevel.price then setBest side newOrdersAtPrice

/-- Source: `order_book.cpp`, `OrderBook::addPriceLevel` -/
def addPriceLevel (newOrdersAtPrice : Option (LevelPtr B)) : BookM B Unit := do
  let level ← derefLevel newOrdersAtPrice
  setLevelForPrice level.price newOrdersAtPrice
  match (← get).bestOf level.side with
  | none =>
    setBest level.side newOrdersAtPrice
    storeLevel newOrdersAtPrice fun l => { l with prev := newOrdersAtPrice, next := newOrdersAtPrice }
  | some best =>
    let (target, shouldAddAfter) ← findTarget level.side level.price (some best)
    insertLevel newOrdersAtPrice (some best) target level.side level.price shouldAddAfter

/-- The branch of `removePriceLevel` for a side with other levels left. -/
def unlinkLevel (side : Side) (ordersAtPrice : Option (LevelPtr B)) : BookM B Unit := do
  let l ← derefLevel ordersAtPrice
  storeLevel l.prev fun x => { x with next := l.next }
  let l ← derefLevel ordersAtPrice
  storeLevel l.next fun x => { x with prev := l.prev }
  let l ← derefLevel ordersAtPrice
  if ordersAtPrice = (← get).bestOf side then setBest side l.next
  storeLevel ordersAtPrice fun x => { x with prev := none, next := none }

/-- Source: `order_book.cpp`, `OrderBook::removePriceLevel` -/
def removePriceLevel (side : Side) (price : Price) : BookM B Unit := do
  let ordersAtPrice := (← get).getLevelForPrice price
  let l ← derefLevel ordersAtPrice
  if l.next = ordersAtPrice then setBest side none
  else unlinkLevel side ordersAtPrice
  setLevelForPrice price none
  deallocateLevel ordersAtPrice

end levels

section orders

variable {B : Build}

/-! ## Orders in the book -/

/-- The branch of `addOrderToBook` that appends to the level in the slot. -/
def appendOrder (order : Option OrderPtr) (priceLevel : Option (LevelPtr B)) : BookM B Unit := do
  let level ← derefLevel priceLevel
  let firstOrder ← derefOrder level.order0
  storeOrder order fun o => { o with prev := firstOrder.prev }
  storeOrder order fun o => { o with next := level.order0 }
  let firstOrder ← derefOrder level.order0
  storeOrder firstOrder.prev fun o => { o with next := order }
  storeOrder level.order0 fun o => { o with prev := order }

/-- The branch of `addOrderToBook` that opens a level. -/
def openLevel (order : Option OrderPtr) : BookM B Unit := do
  storeOrder order fun o => { o with next := order, prev := order }
  let o ← derefOrder order
  let newPriceLevel ← allocateLevel ⟨o.side, o.price, order, none, none⟩
  addPriceLevel newPriceLevel

/-- Source: `order_book.cpp`, `OrderBook::addOrderToBook` -/
def addOrderToBook (order : Option OrderPtr) : BookM B Unit := do
  let o ← derefOrder order
  let priceLevel := (← get).getLevelForPrice o.price
  if priceLevel = none then openLevel order
  else appendOrder order priceLevel
  let o ← derefOrder order
  setClientOrder o.clientId o.clientOrderId order

/-- The branch of `removeOrderFromBook` for a level with other orders left. -/
def unlinkOrder (order : Option OrderPtr) (ordersAtPrice : Option (LevelPtr B)) : BookM B Unit := do
  let o ← derefOrder order
  storeOrder o.prev fun x => { x with next := o.next }
  let o ← derefOrder order
  storeOrder o.next fun x => { x with prev := o.prev }
  let level ← derefLevel ordersAtPrice
  let o ← derefOrder order
  if level.order0 = order then storeLevel ordersAtPrice fun l => { l with order0 := o.next }
  storeOrder order fun x => { x with prev := none, next := none }

/-- Source: `order_book.cpp`, `OrderBook::removeOrderFromBook` -/
def removeOrderFromBook (order : Option OrderPtr) : BookM B Unit := do
  let o ← derefOrder order
  let ordersAtPrice := (← get).getLevelForPrice o.price
  if o.prev = order then removePriceLevel o.side o.price
  else unlinkOrder order ordersAtPrice
  let o ← derefOrder order
  setClientOrder o.clientId o.clientOrderId none
  deallocateOrder order

end orders

section matching

variable {B : Build}

/-! ## Matching -/

/-- `*qtyRemains` after `qtyRemains -= fillQty`: the pointer has moved `fillQty` elements away from
the caller's variable. Source: `order_book.cpp`, `OrderBook::matchOrder` -/
def readMovedQty (stray : ℕ → Qty) (qtyRemains fillQty : Qty) : BookM B Qty := fun b =>
  .ok (if fillQty = 0 then qtyRemains else stray b.ome.length) b

/-- Source: `order_book.cpp`, `OrderBook::matchOrder` -/
def matchOrder (stray : ℕ → Qty) (taker : NewOrder) (newMarketOid : OrderID)
    (orderMatched : Option OrderPtr) (qtyRemains : Qty) : BookM B Unit := do
  let fillQty := min qtyRemains (← derefOrder orderMatched).qty
  storeOrder orderMatched fun o => { o with qty := o.qty - fillQty }
  let o ← derefOrder orderMatched
  let reported ← readMovedQty stray qtyRemains fillQty
  dispatchClientResponse
    ⟨.filled, taker.clientId, taker.tickerId, taker.clientOid, newMarketOid, taker.side, o.price,
      fillQty, reported⟩
  dispatchClientResponse
    ⟨.filled, o.clientId, taker.tickerId, o.clientOrderId, o.marketOrderId, o.side, o.price,
      fillQty, o.qty⟩
  publishMarketUpdate
    ⟨.trade, orderIdInvalid, taker.tickerId, taker.side, o.price, fillQty, priorityInvalid⟩
  if o.qty = 0 then
    publishMarketUpdate
      ⟨.cancel, o.marketOrderId, taker.tickerId, o.side, o.price, fillQty, priorityInvalid⟩
    removeOrderFromBook orderMatched
  else
    publishMarketUpdate
      ⟨.modify, o.marketOrderId, taker.tickerId, o.side, o.price, o.qty, o.priority⟩

/-- The best pointer `findMatch` tests: the asks for a BUY, the bids for a SELL, and none for a
side that is neither, which matches nothing. -/
def OrderBook.opposite (b : OrderBook B) (side : Side) : Option (LevelPtr B) :=
  if side = .buy then b.asksByPrice else if side = .sell then b.bidsByPrice else none

/-- The test that breaks off the loop: an order limited at `price` does not reach `resting`.
Source: `order_book.cpp`, `OrderBook::findMatch` -/
def misses (side : Side) (price resting : Price) : Bool :=
  if side = .buy then price < resting else resting < price

/-- The head of a turn of `findMatch`'s loop: the order to match, or none when the loop ends
(nothing left, an empty side, or a first order the price does not reach). -/
def nextMatch (taker : NewOrder) (qtyRemains : Qty) : BookM B (Option OrderPtr) := do
  if qtyRemains = 0 then pure none
  else match (← get).opposite taker.side with
    | none => pure none
    | some best =>
      let level ← derefLevel (some best)
      let resting ← derefOrder level.order0
      if misses taker.side taker.price resting.price then pure none else pure level.order0

/-- `findMatch`'s loop, at most `fuel` turns. `matchOrder` gets the address of `qtyRemains` and
moves its own copy of it only, so every turn sees the same quantity.
Source: `order_book.cpp`, `OrderBook::findMatch` -/
def matchLoop (stray : ℕ → Qty) (taker : NewOrder) (newMarketOid : OrderID) (qtyRemains : Qty) :
    ℕ → BookM B Qty
  | 0 => throw .diverges
  | fuel + 1 => do
    match ← nextMatch taker qtyRemains with
    | none => pure qtyRemains
    | some orderMatched =>
      matchOrder stray taker newMarketOid (some orderMatched) qtyRemains
      matchLoop stray taker newMarketOid qtyRemains fuel

/-- A bound on the turns of `findMatch`'s loop: every turn takes a unit from a resting order or
frees its block. -/
def matchFuel : ℕ := maxOrderIds * 2 ^ 32 + 1

/-- Source: `order_book.cpp`, `OrderBook::findMatch` -/
def findMatch (stray : ℕ → Qty) (taker : NewOrder) (newMarketOid : OrderID) : BookM B Qty :=
  matchLoop stray taker newMarketOid taker.qty matchFuel

/-- What `addOrder` does with a remainder: queue it and publish it.
Source: `order_book.cpp`, `OrderBook::addOrder` -/
def restOrder (taker : NewOrder) (newMarketOid : OrderID) (qtyRemains : Qty) : BookM B Unit := do
  let priority ← getNextPriority taker.price
  let order ← allocateOrder
    ⟨taker.tickerId, taker.clientId, taker.clientOid, newMarketOid, taker.side, taker.price,
      qtyRemains, priority, none, none⟩
  addOrderToBook order
  publishMarketUpdate
    ⟨.add, newMarketOid, taker.tickerId, taker.side, taker.price, qtyRemains, priority⟩

/-- Source: `order_book.cpp`, `OrderBook::addOrder` -/
def addOrder (stray : ℕ → Qty) (taker : NewOrder) : BookM B Unit := do
  let newMarketOid ← getNewMarketOrderId
  dispatchClientResponse
    ⟨.accepted, taker.clientId, taker.tickerId, taker.clientOid, newMarketOid, taker.side,
      taker.price, 0, taker.qty⟩
  let qtyRemains ← findMatch stray taker newMarketOid
  if qtyRemains = 0 then pure ()
  else restOrder taker newMarketOid qtyRemains

/-- The lookup at the head of `cancelOrder`: a checked client id, then `at(orderId)`, whose
exception ends the process inside a `noexcept` function.
Source: `order_book.cpp`, `OrderBook::cancelOrder` -/
def lookupOrder (clientId : ClientID) (orderId : OrderID) : BookM B (Option OrderPtr) := fun b =>
  if clientId.toNat < maxNClients B then
    if orderId.toNat < maxOrderIds then .ok (b.mapClientIdToOrder clientId orderId) b
    else .error .abort b
  else .ok none b

/-- Source: `order_book.cpp`, `OrderBook::cancelOrder` -/
def cancelOrder (r : CancelOrder) : BookM B Unit := do
  match ← lookupOrder r.clientId r.orderId with
  | none =>
    dispatchClientResponse
      ⟨.cancelRejected, r.clientId, r.tickerId, r.orderId, orderIdInvalid, .invalid, priceInvalid,
        qtyInvalid, qtyInvalid⟩
  | some exchangeOrder =>
    let o ← derefOrder (some exchangeOrder)
    removeOrderFromBook (some exchangeOrder)
    publishMarketUpdate
      ⟨.cancel, o.marketOrderId, r.tickerId, o.side, o.price, 0, o.priority⟩
    dispatchClientResponse
      ⟨.cancelled, r.clientId, r.tickerId, r.orderId, o.marketOrderId, o.side, o.price,
        qtyInvalid, o.qty⟩

end matching

/-! ## Runs -/

/-- A request as it reaches one order book. -/
inductive Request where
  | new (r : NewOrder)
  | cancel (r : CancelOrder)
deriving DecidableEq, Repr

section runs

variable {B : Build}

/-- A request handled by the book. Source: `matching_engine.cpp`, `handleClientRequest` -/
def handleRequest (stray : ℕ → Qty) : Request → BookM B Unit
  | .new r => addOrder stray r
  | .cancel r => cancelOrder r

/-- The requests handled one after the other. -/
def handleAll (stray : ℕ → Qty) : List Request → BookM B Unit
  | [] => pure ()
  | r :: rs => do
    handleRequest stray r
    handleAll stray rs

/-- `b` is the book after the requests `rs`, none of which ended in a fault. -/
def RunsTo (stray : ℕ → Qty) (rs : List Request) (b : OrderBook B) : Prop :=
  handleAll stray rs (OrderBook.create B) = .ok () b

end runs

end HftSys
