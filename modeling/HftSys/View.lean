import HftSys.OrderBook
import HftSys.Lib.Circular
import HftSys.Lib.Exec

/-!
# Looking at a book

The objects a book's pools hold (`order`, `level`, `LiveOrder`, `LiveLevel`), the links of its two
kinds of node as `Circular.Links` (`orderLinks`, `levelLinks`), and what the pointer accesses of
`OrderBook.lean` do in these terms: a dereference of a block in use succeeds and changes nothing,
an assignment to a link field rewrites that link and nothing else.
-/

namespace HftSys

open Circular Exec

variable {B : Build}

namespace OrderBook

/-- The order in block `p`. -/
abbrev order (b : OrderBook B) (p : OrderPtr) : Order := b.orderPool.get p

/-- Block `p` of `orderPool_` is in use. -/
abbrev LiveOrder (b : OrderBook B) (p : OrderPtr) : Prop := b.orderPool.Live p

/-- The level in block `l`. -/
abbrev level (b : OrderBook B) (l : LevelPtr B) : OrdersAtPrice B := b.ordersAtPricePool.get l

/-- Block `l` of `ordersAtPricePool_` is in use. -/
abbrev LiveLevel (b : OrderBook B) (l : LevelPtr B) : Prop := b.ordersAtPricePool.Live l

/-- The links between orders. -/
def orderLinks (b : OrderBook B) : Links OrderPtr where
  next p := (b.order p).next
  prev p := (b.order p).prev

/-- The links between levels. -/
def levelLinks (b : OrderBook B) : Links (LevelPtr B) where
  next l := (b.level l).next
  prev l := (b.level l).prev

/-- The book with its orders linked by `k`. -/
def setOrderLinks (b : OrderBook B) (k : Links OrderPtr) : OrderBook B :=
  { b with orderPool := b.orderPool.mapBlocks fun p o => { o with prev := k.prev p, next := k.next p } }

/-- The book with its levels linked by `k`. -/
def setLevelLinks (b : OrderBook B) (k : Links (LevelPtr B)) : OrderBook B :=
  { b with
    ordersAtPricePool :=
      b.ordersAtPricePool.mapBlocks fun p l => { l with prev := k.prev p, next := k.next p } }

/-- The book with the best pointer of a side set. -/
def setBestTo (b : OrderBook B) (side : Side) (p : Option (LevelPtr B)) : OrderBook B :=
  if side = .buy then { b with bidsByPrice := p } else { b with asksByPrice := p }

/-- The book with one slot of its price table set. -/
def setSlot (b : OrderBook B) (price : Price) (p : Option (LevelPtr B)) : OrderBook B :=
  { b with mapPriceToPriceLevel := Function.update b.mapPriceToPriceLevel (slotOf B price) p }

/-- The order that a book keeps of an order, its links left out. -/
def data (b : OrderBook B) (p : OrderPtr) : Order := { b.order p with prev := none, next := none }

section data

variable {b b' : OrderBook B} {p q : OrderPtr}

/-- Orders with the same data are of the same client, whatever their neighbours are. -/
theorem clientId_of_data (h : b'.data p = b.data q) :
    (b'.order p).clientId = (b.order q).clientId := by
  have := congrArg Order.clientId h
  exact this

/-- See `clientId_of_data`. -/
theorem clientOrderId_of_data (h : b'.data p = b.data q) :
    (b'.order p).clientOrderId = (b.order q).clientOrderId := by
  have := congrArg Order.clientOrderId h
  exact this

/-- See `clientId_of_data`. -/
theorem marketOrderId_of_data (h : b'.data p = b.data q) :
    (b'.order p).marketOrderId = (b.order q).marketOrderId := by
  have := congrArg Order.marketOrderId h
  exact this

/-- See `clientId_of_data`. -/
theorem side_of_data (h : b'.data p = b.data q) : (b'.order p).side = (b.order q).side := by
  have := congrArg Order.side h
  exact this

/-- See `clientId_of_data`. -/
theorem price_of_data (h : b'.data p = b.data q) : (b'.order p).price = (b.order q).price := by
  have := congrArg Order.price h
  exact this

/-- See `clientId_of_data`. -/
theorem qty_of_data (h : b'.data p = b.data q) : (b'.order p).qty = (b.order q).qty := by
  have := congrArg Order.qty h
  exact this

/-- See `clientId_of_data`. -/
theorem priority_of_data (h : b'.data p = b.data q) :
    (b'.order p).priority = (b.order q).priority := by
  have := congrArg Order.priority h
  exact this

end data

/-- The links that have been set are those that are there. -/
@[simp] theorem orderLinks_setOrderLinks (b : OrderBook B) (k : Links OrderPtr) :
    (b.setOrderLinks k).orderLinks = k := rfl

/-- See `orderLinks_setOrderLinks`. -/
@[simp] theorem levelLinks_setLevelLinks (b : OrderBook B) (k : Links (LevelPtr B)) :
    (b.setLevelLinks k).levelLinks = k := rfl

/-- Only the last links set count, so that a chain of assignments becomes one. -/
@[simp] theorem setOrderLinks_setOrderLinks (b : OrderBook B) (k k' : Links OrderPtr) :
    (b.setOrderLinks k).setOrderLinks k' = b.setOrderLinks k' := rfl

/-- See `setOrderLinks_setOrderLinks`. -/
@[simp] theorem setLevelLinks_setLevelLinks (b : OrderBook B) (k k' : Links (LevelPtr B)) :
    (b.setLevelLinks k).setLevelLinks k' = b.setLevelLinks k' := rfl

section setBestTo

variable (b : OrderBook B) (side : Side) (p : Option (LevelPtr B))

/-- Setting a best pointer leaves the orders as they are. The other fields follow. -/
@[simp] theorem orderPool_setBestTo : (b.setBestTo side p).orderPool = b.orderPool := by
  unfold setBestTo; split <;> rfl

/-- See `orderPool_setBestTo`. -/
@[simp] theorem ordersAtPricePool_setBestTo :
    (b.setBestTo side p).ordersAtPricePool = b.ordersAtPricePool := by
  unfold setBestTo; split <;> rfl

/-- See `orderPool_setBestTo`. -/
@[simp] theorem mapClientIdToOrder_setBestTo :
    (b.setBestTo side p).mapClientIdToOrder = b.mapClientIdToOrder := by
  unfold setBestTo; split <;> rfl

/-- See `orderPool_setBestTo`. -/
@[simp] theorem mapPriceToPriceLevel_setBestTo :
    (b.setBestTo side p).mapPriceToPriceLevel = b.mapPriceToPriceLevel := by
  unfold setBestTo; split <;> rfl

/-- See `orderPool_setBestTo`. -/
@[simp] theorem nextMarketOid_setBestTo : (b.setBestTo side p).nextMarketOid = b.nextMarketOid := by
  unfold setBestTo; split <;> rfl

/-- See `orderPool_setBestTo`. -/
@[simp] theorem ome_setBestTo : (b.setBestTo side p).ome = b.ome := by
  unfold setBestTo; split <;> rfl

/-- The bids get a new best pointer when the side is `BUY` only. -/
theorem bidsByPrice_setBestTo :
    (b.setBestTo side p).bidsByPrice = if side = .buy then p else b.bidsByPrice := by
  unfold setBestTo; split <;> rfl

/-- The asks get one for every other side: the source compares with `BUY`. -/
theorem asksByPrice_setBestTo :
    (b.setBestTo side p).asksByPrice = if side = .buy then b.asksByPrice else p := by
  unfold setBestTo; split <;> rfl

/-- A level is the same under another best pointer. -/
@[simp] theorem level_setBestTo (l : LevelPtr B) : (b.setBestTo side p).level l = b.level l := by
  rw [level, ordersAtPricePool_setBestTo, level]

/-- So are the links between levels. -/
@[simp] theorem levelLinks_setBestTo : (b.setBestTo side p).levelLinks = b.levelLinks := by
  simp only [levelLinks, level_setBestTo]

/-- Setting a best pointer to what it is. -/
theorem setBestTo_of_eq (h : b.bestOf side = p) : b.setBestTo side p = b := by
  subst h
  unfold setBestTo bestOf
  split <;> rfl

end setBestTo

/-- Links that are there already may be set. -/
theorem setLevelLinks_self (b : OrderBook B) : b.setLevelLinks b.levelLinks = b := rfl

end OrderBook

/-! ## Dereferences -/

/-- A pointer to an order in use leads to it. -/
theorem derefOrder_of_live {b : OrderBook B} {p : OrderPtr} (h : b.LiveOrder p) :
    derefOrder (some p) b = .ok (b.order p) b := by
  simp only [derefOrder, MemoryPool.deref, if_pos h]

/-- A pointer to a level in use leads to it. -/
theorem derefLevel_of_live {b : OrderBook B} {l : LevelPtr B} (h : b.LiveLevel l) :
    derefLevel (some l) b = .ok (b.level l) b := by
  simp only [derefLevel, MemoryPool.deref, if_pos h]

/-- **A read that goes well** was of an order in use, and has changed nothing. -/
theorem derefOrder_eq_ok {b b' : OrderBook B} {q : Option OrderPtr} {o : Order} :
    derefOrder q b = .ok o b' ↔ ∃ p, q = some p ∧ b.LiveOrder p ∧ o = b.order p ∧ b' = b := by
  constructor
  · intro h
    cases q with
    | none => simp [derefOrder, MemoryPool.deref] at h
    | some p =>
      by_cases hp : b.LiveOrder p
      · rw [derefOrder_of_live hp] at h
        cases h
        exact ⟨p, rfl, hp, rfl, rfl⟩
      · simp only [derefOrder, MemoryPool.deref, if_neg hp] at h
        cases h
  · rintro ⟨p, rfl, hp, rfl, rfl⟩
    exact derefOrder_of_live hp

/-- See `derefOrder_eq_ok`. -/
theorem derefLevel_eq_ok {b b' : OrderBook B} {q : Option (LevelPtr B)} {l : OrdersAtPrice B} :
    derefLevel q b = .ok l b' ↔ ∃ p, q = some p ∧ b.LiveLevel p ∧ l = b.level p ∧ b' = b := by
  constructor
  · intro h
    cases q with
    | none => simp [derefLevel, MemoryPool.deref] at h
    | some p =>
      by_cases hp : b.LiveLevel p
      · rw [derefLevel_of_live hp] at h
        cases h
        exact ⟨p, rfl, hp, rfl, rfl⟩
      · simp only [derefLevel, MemoryPool.deref, if_neg hp] at h
        cases h
  · rintro ⟨p, rfl, hp, rfl, rfl⟩
    exact derefLevel_of_live hp

/-- A read ends: it may fail, as a pointer may be null or stale, but it does not loop. -/
theorem derefOrder_ne_diverges {b b' : OrderBook B} {q : Option OrderPtr} :
    derefOrder q b ≠ .error .diverges b' := by
  intro h
  unfold derefOrder MemoryPool.deref at h
  cases q with
  | none => cases h
  | some p =>
    by_cases hp : b.LiveOrder p
    · simp only [if_pos hp] at h
      cases h
    · simp only [if_neg hp] at h
      cases h

/-- See `derefOrder_ne_diverges`. -/
theorem derefLevel_ne_diverges {b b' : OrderBook B} {q : Option (LevelPtr B)} :
    derefLevel q b ≠ .error .diverges b' := by
  intro h
  unfold derefLevel MemoryPool.deref at h
  cases q with
  | none => cases h
  | some l =>
    by_cases hl : b.LiveLevel l
    · simp only [if_pos hl] at h
      cases h
    · simp only [if_neg hl] at h
      cases h

/-- Reading through a pointer leaves the book as it is, also where it goes wrong. -/
theorem derefOrder_error {b b' : OrderBook B} {q : Option OrderPtr} {fault : Fault}
    (h : derefOrder q b = .error fault b') : b' = b := by
  unfold derefOrder at h
  split at h <;> cases h
  rfl

/-- See `derefOrder_error`. -/
theorem derefLevel_error {b b' : OrderBook B} {q : Option (LevelPtr B)} {fault : Fault}
    (h : derefLevel q b = .error fault b') : b' = b := by
  unfold derefLevel at h
  split at h <;> cases h
  rfl

/-! ## Assignments -/

/-- An assignment through a pointer to an order in use writes to its block. -/
theorem storeOrder_of_live {b : OrderBook B} {p : OrderPtr} (f : Order → Order)
    (h : b.LiveOrder p) :
    storeOrder (some p) f b = .ok () { b with orderPool := b.orderPool.set p (f (b.order p)) } := by
  simp only [storeOrder, MemoryPool.store, if_pos h]

/-- See `storeOrder_of_live`. -/
theorem storeLevel_of_live {b : OrderBook B} {l : LevelPtr B}
    (f : OrdersAtPrice B → OrdersAtPrice B) (h : b.LiveLevel l) :
    storeLevel (some l) f b =
      .ok () { b with ordersAtPricePool := b.ordersAtPricePool.set l (f (b.level l)) } := by
  simp only [storeLevel, MemoryPool.store, if_pos h]

/-- The block of an order in use can be given back. -/
theorem deallocateOrder_of_live {b : OrderBook B} {p : OrderPtr} (h : b.LiveOrder p) :
    deallocateOrder (some p) b = .ok () { b with orderPool := b.orderPool.release p } := by
  simp only [deallocateOrder, MemoryPool.deallocate, if_pos h]

/-- See `deallocateOrder_of_live`. -/
theorem deallocateLevel_of_live {b : OrderBook B} {l : LevelPtr B} (h : b.LiveLevel l) :
    deallocateLevel (some l) b =
      .ok () { b with ordersAtPricePool := b.ordersAtPricePool.release l } := by
  simp only [deallocateLevel, MemoryPool.deallocate, if_pos h]

/-- The client map with one entry set. -/
def OrderBook.mapWith (b : OrderBook B) (c : ClientID) (k : OrderID) (p : Option OrderPtr) :
    ClientID → OrderID → Option OrderPtr :=
  Function.update b.mapClientIdToOrder c (Function.update (b.mapClientIdToOrder c) k p)

/-- Only the entry that was set is another one. -/
theorem mapWith_apply (b : OrderBook B) (c c' : ClientID) (k k' : OrderID) (p : Option OrderPtr) :
    b.mapWith c k p c' k' = if c' = c ∧ k' = k then p else b.mapClientIdToOrder c' k' := by
  unfold OrderBook.mapWith
  by_cases hc : c' = c
  · subst hc
    by_cases hk : k' = k
    · subst hk; simp
    · simp [hk]
  · simp [hc]

/-- The book with one entry of its client map set. -/
def OrderBook.setEntry (b : OrderBook B) (c : ClientID) (k : OrderID) (p : Option OrderPtr) :
    OrderBook B :=
  { b with mapClientIdToOrder := b.mapWith c k p }

/-- An entry that is in range can be set. -/
theorem setClientOrder_of_mem {b : OrderBook B} {c : ClientID} {k : OrderID}
    (p : Option OrderPtr) (h : InClientMap B c k) :
    setClientOrder c k p b = .ok () (b.setEntry c k p) := by
  simp only [setClientOrder, if_pos h, OrderBook.setEntry, OrderBook.mapWith]

/-- `setBest` is an assignment. -/
theorem setBest_apply (b : OrderBook B) (side : Side) (p : Option (LevelPtr B)) :
    setBest side p b = .ok () (b.setBestTo side p) := rfl

/-- `setLevelForPrice` is an assignment. -/
theorem setLevelForPrice_apply (b : OrderBook B) (price : Price) (p : Option (LevelPtr B)) :
    setLevelForPrice price p b = .ok () (b.setSlot price p) := rfl

/-- A call on the engine is recorded. -/
theorem dispatchClientResponse_apply (b : OrderBook B) (r : OMEClientResponse) :
    dispatchClientResponse r b = .ok () { b with ome := b.ome ++ [.response r] } := rfl

/-- A call on the engine is recorded. -/
theorem publishMarketUpdate_apply (b : OrderBook B) (u : OMEMarketUpdate) :
    publishMarketUpdate u b = .ok () { b with ome := b.ome ++ [.update u] } := rfl

/-- The link fields of an order rewritten. -/
theorem setOrderLinks_eq {b : OrderBook B} {p : OrderPtr} {o : Order} {k : Links OrderPtr}
    (ho : { b.order p with prev := k.prev p, next := k.next p } = o)
    (hk : ∀ q, q ≠ p → k.prev q = (b.order q).prev ∧ k.next q = (b.order q).next) :
    ({ b with orderPool := b.orderPool.set p o } : OrderBook B) = b.setOrderLinks k := by
  have hpool : b.orderPool.set p o = b.orderPool.mapBlocks
      fun q o => { o with prev := k.prev q, next := k.next q } := by
    apply MemoryPool.set_eq_mapBlocks ho
    intro q hq
    rw [(hk q hq).1, (hk q hq).2]
  rw [hpool, OrderBook.setOrderLinks]

/-- The link fields of a level rewritten. -/
theorem setLevelLinks_eq {b : OrderBook B} {p : LevelPtr B} {l : OrdersAtPrice B}
    {k : Links (LevelPtr B)} (hl : { b.level p with prev := k.prev p, next := k.next p } = l)
    (hk : ∀ q, q ≠ p → k.prev q = (b.level q).prev ∧ k.next q = (b.level q).next) :
    ({ b with ordersAtPricePool := b.ordersAtPricePool.set p l } : OrderBook B) =
      b.setLevelLinks k := by
  have hpool : b.ordersAtPricePool.set p l = b.ordersAtPricePool.mapBlocks
      fun q l => { l with prev := k.prev q, next := k.next q } := by
    apply MemoryPool.set_eq_mapBlocks hl
    intro q hq
    rw [(hk q hq).1, (hk q hq).2]
  rw [hpool, OrderBook.setLevelLinks]

/-- Writing a `next` pointer, as an operation on the links. -/
theorem storeOrder_next {b : OrderBook B} {p : OrderPtr} (v : Option OrderPtr)
    (h : b.LiveOrder p) :
    storeOrder (some p) (fun o => { o with next := v }) b =
      .ok () (b.setOrderLinks (b.orderLinks.setNext p v)) := by
  rw [storeOrder_of_live _ h, setOrderLinks_eq]
  · simp [OrderBook.orderLinks, Links.setNext]
  · intro q hq
    simp [OrderBook.orderLinks, Links.setNext, hq]

/-- Writing a `prev` pointer, as an operation on the links. -/
theorem storeOrder_prev {b : OrderBook B} {p : OrderPtr} (v : Option OrderPtr)
    (h : b.LiveOrder p) :
    storeOrder (some p) (fun o => { o with prev := v }) b =
      .ok () (b.setOrderLinks (b.orderLinks.setPrev p v)) := by
  rw [storeOrder_of_live _ h, setOrderLinks_eq]
  · simp [OrderBook.orderLinks, Links.setPrev]
  · intro q hq
    simp [OrderBook.orderLinks, Links.setPrev, hq]

/-- Writing both pointers null, as an operation on the links: the order is in no ring any more. -/
theorem storeOrder_clear {b : OrderBook B} {p : OrderPtr} (h : b.LiveOrder p) :
    storeOrder (some p) (fun o => { o with prev := none, next := none }) b =
      .ok () (b.setOrderLinks (b.orderLinks.clear p)) := by
  rw [storeOrder_of_live _ h, setOrderLinks_eq]
  · simp [OrderBook.orderLinks, Links.clear, Links.setPrev, Links.setNext]
  · intro q hq
    simp [OrderBook.orderLinks, Links.clear, Links.setPrev, Links.setNext, hq]

/-- Linking an order to itself, as an operation on the links: it is a ring of its own. -/
theorem storeOrder_self {b : OrderBook B} {p : OrderPtr} (h : b.LiveOrder p) :
    storeOrder (some p) (fun o => { o with next := some p, prev := some p }) b =
      .ok () (b.setOrderLinks (b.orderLinks.join p p)) := by
  rw [storeOrder_of_live _ h, setOrderLinks_eq]
  · simp [OrderBook.orderLinks, Links.join, Links.setPrev, Links.setNext]
  · intro q hq
    simp [OrderBook.orderLinks, Links.join, Links.setPrev, Links.setNext, hq]

/-- See `storeOrder_next`. -/
theorem storeLevel_next {b : OrderBook B} {p : LevelPtr B} (v : Option (LevelPtr B))
    (h : b.LiveLevel p) :
    storeLevel (some p) (fun l => { l with next := v }) b =
      .ok () (b.setLevelLinks (b.levelLinks.setNext p v)) := by
  rw [storeLevel_of_live _ h, setLevelLinks_eq]
  · simp [OrderBook.levelLinks, Links.setNext]
  · intro q hq
    simp [OrderBook.levelLinks, Links.setNext, hq]

/-- See `storeOrder_prev`. -/
theorem storeLevel_prev {b : OrderBook B} {p : LevelPtr B} (v : Option (LevelPtr B))
    (h : b.LiveLevel p) :
    storeLevel (some p) (fun l => { l with prev := v }) b =
      .ok () (b.setLevelLinks (b.levelLinks.setPrev p v)) := by
  rw [storeLevel_of_live _ h, setLevelLinks_eq]
  · simp [OrderBook.levelLinks, Links.setPrev]
  · intro q hq
    simp [OrderBook.levelLinks, Links.setPrev, hq]

/-- See `storeOrder_clear`. -/
theorem storeLevel_clear {b : OrderBook B} {p : LevelPtr B} (h : b.LiveLevel p) :
    storeLevel (some p) (fun l => { l with prev := none, next := none }) b =
      .ok () (b.setLevelLinks (b.levelLinks.clear p)) := by
  rw [storeLevel_of_live _ h, setLevelLinks_eq]
  · simp [OrderBook.levelLinks, Links.clear, Links.setPrev, Links.setNext]
  · intro q hq
    simp [OrderBook.levelLinks, Links.clear, Links.setPrev, Links.setNext, hq]

/-- See `storeOrder_self`. -/
theorem storeLevel_self {b : OrderBook B} {p : LevelPtr B} (h : b.LiveLevel p) :
    storeLevel (some p) (fun l => { l with prev := some p, next := some p }) b =
      .ok () (b.setLevelLinks (b.levelLinks.join p p)) := by
  rw [storeLevel_of_live _ h, setLevelLinks_eq]
  · simp [OrderBook.levelLinks, Links.join, Links.setPrev, Links.setNext]
  · intro q hq
    simp [OrderBook.levelLinks, Links.join, Links.setPrev, Links.setNext, hq]

end HftSys
