import HftSys.Levels

/-!
# Putting an order into the book

What `restOrder` does with the remainder of a new order: a block of the order pool that was not in
use receives it, and it goes to the end of the queue of its price slot, under the level the slot
holds (`Appended`) or under a new one (`Opened`). `restOrder_ok` takes a successful run apart,
`Sound.file_append` and `Sound.file_open` say that the book stays sound.

`restOrder` may fail on a sound book: a pool may be full, the client's ids may be outside the client
map, and the best pointer of the side may dangle.
-/

namespace HftSys

open Circular Exec

variable {B : Build}

/-! ## The priority -/

/-- The priority an order filed behind `queue` gets. -/
def OrderBook.priorityAfter (b : OrderBook B) (queue : List OrderPtr) : Priority :=
  match queue.getLast? with
  | none => 1
  | some p => (b.order p).priority + 1

/-- `getNextPriority` reads the last order of the slot. -/
theorem getNextPriority_eq {b : OrderBook B} {queue : Queues B} (h : Rings b queue)
    (price : Price) :
    getNextPriority price b = .ok (b.priorityAfter (queue (slotOf B price))) b := by
  unfold getNextPriority
  rw [get_bind]
  cases hl : b.getLevelForPrice price with
  | none =>
    have hq : queue (slotOf B price) = [] := (h.queue_nil _).mp hl
    rw [hq]
    rfl
  | some l =>
    have hlive : b.LiveLevel l := h.liveLevel _ l hl
    obtain ⟨x, y, hx, hy, hxlive, hylive, hhead, hxy⟩ := h.exists_ends hl
    have hprev : (b.order y).prev = some x := hxy.2
    simp only []
    rw [bind_of_ok (derefLevel_of_live hlive), hhead, bind_of_ok (derefOrder_of_live hylive), hprev,
      bind_of_ok (derefOrder_of_live hxlive), OrderBook.priorityAfter, hx]
    rfl

/-! ## The branches of the source -/

section branches

variable {b : OrderBook B}

/-- "Append new order to the existing price level". -/
theorem appendOrder_eq {p x y : OrderPtr} {l : LevelPtr B} (hp : b.LiveOrder p)
    (hx : b.LiveOrder x) (hy : b.LiveOrder y) (hl : b.LiveLevel l)
    (h0 : (b.level l).order0 = some y) (hxy : b.orderLinks.Joined x y) (hpx : p ≠ x)
    (hpy : p ≠ y) :
    appendOrder (some p) (some l) b =
      .ok () (b.setOrderLinks (b.orderLinks.splice x p y)) := by
  have hprev : (b.order y).prev = some x := hxy.2
  unfold appendOrder
  rw [bind_of_ok (derefLevel_of_live hl), h0, bind_of_ok (derefOrder_of_live hy), hprev,
    bind_of_ok (storeOrder_prev _ hp)]
  set k₁ := b.orderLinks.setPrev p (some x) with hk₁
  rw [bind_of_ok (storeOrder_next _ (show (b.setOrderLinks k₁).LiveOrder p from hp)),
    OrderBook.setOrderLinks_setOrderLinks, OrderBook.orderLinks_setOrderLinks]
  set k₂ := k₁.setNext p (some y) with hk₂
  have h₂ : ((b.setOrderLinks k₂).order y).prev = some x := by
    show k₂.prev y = some x
    simp [hk₂, hk₁, Links.setNext, Links.setPrev, hpy.symm, hxy.2]
  rw [bind_of_ok (derefOrder_of_live (show (b.setOrderLinks k₂).LiveOrder y from hy)), h₂,
    bind_of_ok (storeOrder_next _ (show (b.setOrderLinks k₂).LiveOrder x from hx)),
    OrderBook.setOrderLinks_setOrderLinks, OrderBook.orderLinks_setOrderLinks,
    storeOrder_prev _ (show (b.setOrderLinks (k₂.setNext x (some p))).LiveOrder y from hy),
    OrderBook.setOrderLinks_setOrderLinks, OrderBook.orderLinks_setOrderLinks]
  have hlinks : (k₂.setNext x (some p)).setPrev y (some p) = b.orderLinks.splice x p y := by
    simp only [hk₂, hk₁, Links.splice, Links.join, Links.setNext, Links.setPrev]
    rw [Function.update_comm hpx]
  rw [hlinks]

/-- A new level that the best pointer of its side already designates is not put into a ring: the
links of a fresh block are null. -/
theorem addPriceLevel_self_faults {n : LevelPtr B} (hn : b.LiveLevel n)
    (hbest : b.bestOf (b.level n).side = some n) (hprev : (b.level n).prev = none)
    {b' : OrderBook B} : addPriceLevel (some n) b ≠ .ok () b' := by
  set side := (b.level n).side with hside
  set price := (b.level n).price with hprice
  set b₀ := b.setSlot price (some n) with hb₀
  have hbest₀ : b₀.bestOf side = some n := hbest
  have hnot : addsAfter side price (b₀.level n).price = false := by
    show addsAfter side price price = false
    unfold addsAfter
    split <;> simp
  have hfind : findTarget side price (some n) b₀ = .ok (some n, false) b₀ := by
    unfold findTarget
    rw [bind_of_ok (derefLevel_of_live (show b₀.LiveLevel n from hn)), if_neg (by rw [hnot]; simp)]
    rfl
  intro hrun
  unfold addPriceLevel at hrun
  rw [bind_of_ok (derefLevel_of_live hn), bind_of_ok (setLevelForPrice_apply _ _ _), get_bind,
    hbest₀] at hrun
  simp only [] at hrun
  rw [bind_of_ok hfind] at hrun
  unfold insertLevel at hrun
  rw [if_neg (by simp)] at hrun
  obtain ⟨_, _, hins, _⟩ := bind_eq_ok.mp hrun
  -- `target->prev_->next_` goes through the null pointer
  unfold insertBefore at hins
  rw [bind_of_ok (storeLevel_next _ (show b₀.LiveLevel n from hn))] at hins
  set k₁ := b₀.levelLinks.setNext n (some n) with hk₁
  have hn₁ : (b₀.setLevelLinks k₁).LiveLevel n := hn
  have hp₁ : ((b₀.setLevelLinks k₁).level n).prev = none := hprev
  rw [bind_of_ok (derefLevel_of_live hn₁), hp₁, bind_of_ok (storeLevel_prev _ hn₁)] at hins
  set b₂ := (b₀.setLevelLinks k₁).setLevelLinks
    ((b₀.setLevelLinks k₁).levelLinks.setPrev n none) with hb₂
  have hp₂ : (b₂.level n).prev = none := by
    show (((b₀.setLevelLinks k₁).levelLinks.setPrev n none).prev n) = none
    simp [Links.setPrev]
  rw [bind_of_ok (derefLevel_of_live (show b₂.LiveLevel n from hn)), hp₂] at hins
  obtain ⟨_, _, hnull, _⟩ := bind_eq_ok.mp hins
  simp [storeLevel, MemoryPool.store] at hnull

end branches

/-! ## What a filing is -/

/-- Filing order `p`, which holds `o`, whatever level it goes to. -/
structure Filed (b b' : OrderBook B) (p : OrderPtr) (o : Order) : Prop where
  fresh : ¬ b.LiveOrder p
  liveOrder : ∀ q, b'.LiveOrder q ↔ q = p ∨ b.LiveOrder q
  data_self : b'.data p = o
  data_of_ne : ∀ q, q ≠ p → b'.data q = b.data q
  nextMarketOid : b'.nextMarketOid = b.nextMarketOid
  ome : b'.ome = b.ome
  clientMap : b'.mapClientIdToOrder = b.mapWith o.clientId o.clientOrderId (some p)
  inClientMap : InClientMap B o.clientId o.clientOrderId

/-- Order `p` filed under level `l`, behind the orders `q`. -/
structure Appended (b b' : OrderBook B) (p : OrderPtr) (price : Price) (l : LevelPtr B)
    (q : List OrderPtr) : Prop where
  slot : b.getLevelForPrice price = some l
  slots : b'.mapPriceToPriceLevel = b.mapPriceToPriceLevel
  levels : b'.ordersAtPricePool = b.ordersAtPricePool
  bids : b'.bidsByPrice = b.bidsByPrice
  asks : b'.asksByPrice = b.asksByPrice
  links : ∃ x y, q.getLast? = some x ∧ q.head? = some y ∧
    b'.orderLinks = b.orderLinks.splice x p y

/-- How the new level `n` is linked to the others, `best'` being the best pointer afterwards. -/
inductive Placed (b b' : OrderBook B) (side : Side) (price : Price) (n : LevelPtr B) :
    Option (LevelPtr B) → Prop where
  /-- The side had no levels. -/
  | only (hbest : b.bestOf side = none) (hlinks : b'.levelLinks = b.levelLinks.join n n) :
    Placed b b' side price n (some n)
  /-- The side's ring gets one more level. -/
  | beside (best x y : LevelPtr B) (rest : List (LevelPtr B)) (hbest : b.bestOf side = some best)
    (hring : b.levelLinks.IsRing (best :: rest)) (hlive : ∀ z ∈ best :: rest, b.LiveLevel z)
    (hx : x ∈ best :: rest) (hy : y ∈ best :: rest) (hxy : b.levelLinks.Joined x y)
    (hlinks : b'.levelLinks = b.levelLinks.splice x n y)
    (hring' : b'.levelLinks.IsRing
      (placeLevel (fun z => addsAfter side price (b'.level z).price) n best rest)) :
    Placed b b' side price n
      (if becomesBest side price (b'.level best).price then some n else some best)

/-- Order `p` filed under a new level `n`. -/
structure Opened (b b' : OrderBook B) (p : OrderPtr) (side : Side) (price : Price)
    (n : LevelPtr B) (best' : Option (LevelPtr B)) : Prop where
  slot : b.getLevelForPrice price = none
  fresh : ¬ b.LiveLevel n
  liveLevel : ∀ l, b'.LiveLevel l ↔ l = n ∨ b.LiveLevel l
  slots : b'.mapPriceToPriceLevel = Function.update b.mapPriceToPriceLevel (slotOf B price) (some n)
  side_self : (b'.level n).side = side
  price_self : (b'.level n).price = price
  order0_self : (b'.level n).order0 = some p
  side_of_ne : ∀ l, l ≠ n → (b'.level l).side = (b.level l).side
  price_of_ne : ∀ l, l ≠ n → (b'.level l).price = (b.level l).price
  order0_of_ne : ∀ l, l ≠ n → (b'.level l).order0 = (b.level l).order0
  orderLinks : b'.orderLinks = b.orderLinks.join p p
  bids : b'.bidsByPrice = if side = .buy then best' else b.bidsByPrice
  asks : b'.asksByPrice = if side = .buy then b.asksByPrice else best'
  placed : Placed b b' side price n best'

/-- Order `p`, holding `o`, filed at the end of the queue of its price's slot. -/
def Files (b b' : OrderBook B) (queue : Queues B) (p : OrderPtr) (o : Order) : Prop :=
  Filed b b' p o ∧
    ((∃ l, Appended b b' p o.price l (queue (slotOf B o.price))) ∨
      ∃ n best', Opened b b' p o.side o.price n best')

/-! ## Taking a filing apart -/

section inversion

variable {b b' b₁ b₂ : OrderBook B} {p : OrderPtr} {o : Order}

/-- `b₁` is `b` with order `o` constructed in block `p`. -/
structure Allocated (b b₁ : OrderBook B) (p : OrderPtr) (o : Order) : Prop where
  fresh : ¬ b.LiveOrder p
  liveOrder : ∀ q, b₁.LiveOrder q ↔ q = p ∨ b.LiveOrder q
  order : ∀ q, b₁.order q = if q = p then o else b.order q
  rest : b₁ = { b with orderPool := b₁.orderPool }

/-- `orderPool_.allocate` returns null or constructs the order in a block that was not in use. -/
theorem allocateOrder_ok {q : Option OrderPtr} (h : allocateOrder o b = .ok q b₁) :
    q = none ∨ ∃ p, q = some p ∧ Allocated b b₁ p o := by
  unfold allocateOrder at h
  split at h
  · rename_i p' pool halloc
    cases h
    rcases MemoryPool.allocate_eq_ok halloc with rfl | ⟨p, rfl, hfree, hblocks⟩
    · exact .inl rfl
    · refine .inr ⟨p, rfl, hfree, ?_, ?_, rfl⟩
      · intro q
        exact (MemoryPool.live_of_blocks hblocks q).trans (MemoryPool.live_take _ _ _ _)
      · intro q
        exact (MemoryPool.get_of_blocks hblocks q).trans (MemoryPool.get_take _ _ _ _)
  · cases h

/-- `ordersAtPricePool_.allocate` returns null or constructs the level in a block that was not in
use. -/
theorem allocateLevel_ok {x : OrdersAtPrice B} {q : Option (LevelPtr B)}
    (h : allocateLevel x b = .ok q b₁) :
    q = none ∨ ∃ n, q = some n ∧ ¬ b.LiveLevel n ∧
      (∀ l, b₁.LiveLevel l ↔ l = n ∨ b.LiveLevel l) ∧
      (∀ l, b₁.level l = if l = n then x else b.level l) ∧
      b₁ = { b with ordersAtPricePool := b₁.ordersAtPricePool } := by
  unfold allocateLevel at h
  split at h
  · rename_i n' pool halloc
    cases h
    rcases MemoryPool.allocate_eq_ok halloc with rfl | ⟨n, rfl, hfree, hblocks⟩
    · exact .inl rfl
    · refine .inr ⟨n, rfl, hfree, ?_, ?_, rfl⟩
      · intro l
        exact (MemoryPool.live_of_blocks hblocks l).trans (MemoryPool.live_take _ _ _ _)
      · intro l
        exact (MemoryPool.get_of_blocks hblocks l).trans (MemoryPool.get_take _ _ _ _)
  · cases h

/-- `mapClientIdToOrder_[clientId][orderId] = p` succeeds inside the arrays only. -/
theorem setClientOrder_ok {c : ClientID} {k : OrderID} {q : Option OrderPtr}
    (h : setClientOrder c k q b = .ok () b₁) : InClientMap B c k ∧ b₁ = b.setEntry c k q := by
  by_cases hin : InClientMap B c k
  · rw [setClientOrder_of_mem q hin] at h
    cases h
    exact ⟨hin, rfl⟩
  · simp only [setClientOrder, if_neg hin] at h
    cases h

/-- Links and levels apart, `b₂` is `b₁`. -/
structure SameOrders (b₁ b₂ : OrderBook B) : Prop where
  liveOrder : ∀ q, b₂.LiveOrder q ↔ b₁.LiveOrder q
  data : ∀ q, b₂.data q = b₁.data q
  nextMarketOid : b₂.nextMarketOid = b₁.nextMarketOid
  ome : b₂.ome = b₁.ome
  clientMap : b₂.mapClientIdToOrder = b₁.mapClientIdToOrder

/-- The last statement of `addOrderToBook`, from a book `b₂` that holds the orders of `b₁`, writes
the entry of the order's key. -/
theorem Allocated.tail_eq (halloc : Allocated b b₁ p o) (hsame : SameOrders b₁ b₂) :
    (derefOrder (some p) >>= fun o => setClientOrder o.clientId o.clientOrderId (some p)) b₂ =
      setClientOrder o.clientId o.clientOrderId (some p) b₂ := by
  have ho₁ : b₁.order p = o := by rw [halloc.order, if_pos rfl]
  have hp : b₂.LiveOrder p := (hsame.liveOrder p).mpr ((halloc.liveOrder p).mpr (.inl rfl))
  rw [bind_of_ok (derefOrder_of_live hp), OrderBook.clientId_of_data (hsame.data p),
    OrderBook.clientOrderId_of_data (hsame.data p), ho₁]

/-- The order is filed when that write succeeds. -/
theorem Allocated.filed (halloc : Allocated b b₁ p o) (ho : { o with prev := none, next := none } = o)
    (hsame : SameOrders b₁ b₂)
    (hrun : (derefOrder (some p) >>= fun o => setClientOrder o.clientId o.clientOrderId (some p))
      b₂ = .ok () b') :
    Filed b b' p o ∧ b' = b₂.setEntry o.clientId o.clientOrderId (some p) := by
  have hrest := halloc.rest
  rw [halloc.tail_eq hsame] at hrun
  obtain ⟨hin, rfl⟩ := setClientOrder_ok hrun
  have hold : ∀ q, (b₂.setEntry o.clientId o.clientOrderId (some p)).data q = b₁.data q := hsame.data
  refine ⟨⟨halloc.fresh, ?_, ?_, ?_, ?_, ?_, ?_, hin⟩, rfl⟩
  · intro q
    exact (hsame.liveOrder q).trans (halloc.liveOrder q)
  · rw [hold, OrderBook.data, halloc.order, if_pos rfl]
    exact ho
  · intro q hq
    rw [hold, OrderBook.data, halloc.order, if_neg hq, OrderBook.data]
  · show b₂.nextMarketOid = b.nextMarketOid
    rw [hsame.nextMarketOid, hrest]
  · show b₂.ome = b.ome
    rw [hsame.ome, hrest]
  · show b₂.mapWith _ _ _ = b.mapWith _ _ _
    rw [OrderBook.mapWith, hsame.clientMap, hrest, OrderBook.mapWith]

/-- `addPriceLevel` reads the best level of the side, if there is one. -/
theorem live_best_of_addPriceLevel {n best : LevelPtr B} (hn : b₁.LiveLevel n)
    (hbest : b₁.bestOf (b₁.level n).side = some best)
    (hrun : addPriceLevel (some n) b₁ = .ok () b₂) : b₁.LiveLevel best := by
  unfold addPriceLevel at hrun
  rw [bind_of_ok (derefLevel_of_live hn), bind_of_ok (setLevelForPrice_apply _ _ _), get_bind,
    show (b₁.setSlot (b₁.level n).price (some n)).bestOf (b₁.level n).side = some best
      from hbest] at hrun
  obtain ⟨_, _, hfind, _⟩ := bind_eq_ok.mp hrun
  unfold findTarget at hfind
  obtain ⟨_, _, hderef, _⟩ := bind_eq_ok.mp hfind
  obtain ⟨_, hsome, hl, _⟩ := derefLevel_eq_ok.mp hderef
  cases hsome
  exact hl

/-- Levels that are the same have the same links. -/
theorem levelLinks_of_level {n : LevelPtr B} (hlevel : ∀ l, l ≠ n → b₁.level l = b.level l) :
    (∀ z, z ≠ n → b₁.levelLinks.next z = b.levelLinks.next z) ∧
      ∀ z, z ≠ n → b₁.levelLinks.prev z = b.levelLinks.prev z := by
  constructor
  · intro z hz
    show (b₁.level z).next = (b.level z).next
    rw [hlevel z hz]
  · intro z hz
    show (b₁.level z).prev = (b.level z).prev
    rw [hlevel z hz]

/-- "Insert new price level" succeeds only next to levels in use, or as the first of its side. -/
theorem addPriceLevel_ok {n : LevelPtr B} (hc : b.levelLinks.Closed b.LiveLevel)
    (hfresh : ¬ b.LiveLevel n) (hlive : ∀ l, b₁.LiveLevel l ↔ l = n ∨ b.LiveLevel l)
    (hlevel : ∀ l, l ≠ n → b₁.level l = b.level l) (hprev : (b₁.level n).prev = none)
    (hbids : b₁.bidsByPrice = b.bidsByPrice) (hasks : b₁.asksByPrice = b.asksByPrice)
    (hrun : addPriceLevel (some n) b₁ = .ok () b₂) :
    ∃ best' k, Placed b b₂ (b₁.level n).side (b₁.level n).price n best' ∧
      b₂ = ((b₁.setSlot (b₁.level n).price (some n)).setLevelLinks k).setBestTo
        (b₁.level n).side best' := by
  have hn : b₁.LiveLevel n := (hlive n).mpr (.inl rfl)
  have hbestOf : ∀ side, b₁.bestOf side = b.bestOf side := by
    intro side
    rw [OrderBook.bestOf, OrderBook.bestOf, hbids, hasks]
  obtain ⟨hnext, hprev'⟩ := levelLinks_of_level hlevel
  cases hbest : b₁.bestOf (b₁.level n).side with
  | none =>
    rw [addPriceLevel_of_none hn hbest] at hrun
    cases hrun
    refine ⟨some n, b₁.levelLinks.join n n, .only ?_ ?_, ?_⟩
    · rw [← hbestOf, hbest]
    · exact Links.join_self_congr hnext hprev'
    · unfold OrderBook.setBestTo
      split <;> rfl
  | some best =>
    have hne : best ≠ n := by
      rintro rfl
      exact addPriceLevel_self_faults hn hbest hprev hrun
    have hlivebest : b.LiveLevel best :=
      ((hlive best).mp (live_best_of_addPriceLevel hn hbest hrun)).resolve_left hne
    obtain ⟨rest, hring, hmem⟩ := hc.exists_ring hlivebest
    have hnotin : n ∉ best :: rest := fun hn => hfresh (hmem n hn)
    have hne' : ∀ z ∈ best :: rest, z ≠ n := fun z hz e => hnotin (e ▸ hz)
    have hring₁ : b₁.levelLinks.IsRing (best :: rest) :=
      hring.congr (fun z hz => hnext z (hne' z hz)) (fun z hz => hprev' z (hne' z hz))
    obtain ⟨x, y, hx, hy, hxy, hring', heq⟩ := addPriceLevel_of_ring hn hbest hring₁
      (fun z hz => (hlive z).mpr (.inr (hmem z hz))) hnotin
    rw [heq] at hrun
    have hb₂ := (EStateM.Result.ok.inj hrun).2.symm
    have hprice₂ : ∀ z, (b₂.level z).price = (b₁.level z).price := by
      intro z
      rw [hb₂, OrderBook.level_setBestTo]
      rfl
    have hlinks₂ : b₂.levelLinks = b₁.levelLinks.splice x n y := by
      rw [hb₂, OrderBook.levelLinks_setBestTo, OrderBook.levelLinks_setLevelLinks]
    refine ⟨_, _, ?_, hb₂⟩
    rw [← hprice₂ best]
    refine .beside best x y rest ?_ hring hmem hx hy ?_ ?_ ?_
    · rw [← hbestOf, hbest]
    · exact ⟨(hnext x (hne' x hx)).symm.trans hxy.1, (hprev' y (hne' y hy)).symm.trans hxy.2⟩
    · rw [hlinks₂]
      exact Links.splice_congr x y hnext hprev'
    · rw [hlinks₂]
      simp only [hprice₂]
      exact hring'

/-- The links of the orders after an allocation, block `p` apart. -/
theorem Allocated.links (halloc : Allocated b b₁ p o) :
    (∀ z, z ≠ p → b₁.orderLinks.next z = b.orderLinks.next z) ∧
      ∀ z, z ≠ p → b₁.orderLinks.prev z = b.orderLinks.prev z := by
  constructor
  · intro z hz
    show (b₁.order z).next = (b.order z).next
    rw [halloc.order, if_neg hz]
  · intro z hz
    show (b₁.order z).prev = (b.order z).prev
    rw [halloc.order, if_neg hz]

/-- The branch of `addOrderToBook` for a slot that holds a level: the order goes to the end of its
ring. -/
theorem Allocated.appendOrder_eq {queue : Queues B} {l : LevelPtr B} (h : Rings b queue)
    (halloc : Allocated b b₁ p o) (hslot : b.getLevelForPrice o.price = some l) :
    ∃ x y, (queue (slotOf B o.price)).getLast? = some x ∧
      (queue (slotOf B o.price)).head? = some y ∧
      b₁.orderLinks.splice x p y = b.orderLinks.splice x p y ∧
      appendOrder (some p) (some l) b₁ =
        .ok () (b₁.setOrderLinks (b₁.orderLinks.splice x p y)) := by
  obtain ⟨x, y, hx, hy, hxlive, hylive, hhead, hxy⟩ := h.exists_ends hslot
  obtain ⟨hnext, hprev⟩ := halloc.links
  have hxp : x ≠ p := fun e => halloc.fresh (e ▸ hxlive)
  have hyp : y ≠ p := fun e => halloc.fresh (e ▸ hylive)
  have hlevels : b₁.ordersAtPricePool = b.ordersAtPricePool := by rw [halloc.rest]
  have hl₁ : b₁.LiveLevel l := by
    rw [OrderBook.LiveLevel, hlevels]
    exact h.liveLevel _ l hslot
  have hhead₁ : (b₁.level l).order0 = some y := by
    rw [OrderBook.level, hlevels]
    exact hhead
  have hxy₁ : b₁.orderLinks.Joined x y :=
    ⟨(hnext x hxp).trans hxy.1, (hprev y hyp).trans hxy.2⟩
  exact ⟨x, y, hx, hy, Links.splice_congr x y hnext hprev,
    HftSys.appendOrder_eq ((halloc.liveOrder p).mpr (.inl rfl))
      ((halloc.liveOrder x).mpr (.inr hxlive)) ((halloc.liveOrder y).mpr (.inr hylive)) hl₁ hhead₁
      hxy₁ hxp.symm hyp.symm⟩

/-- New links change nothing else about the orders. -/
theorem sameOrders_setOrderLinks (b : OrderBook B) (k : Links OrderPtr) :
    SameOrders b (b.setOrderLinks k) :=
  ⟨fun _ => Iff.rfl, fun _ => rfl, rfl, rfl, rfl⟩

/-- An order filed under the level in its slot. -/
theorem Allocated.append {queue : Queues B} {l : LevelPtr B} (h : Rings b queue)
    (halloc : Allocated b b₁ p o) (ho : { o with prev := none, next := none } = o)
    (hslot : b.getLevelForPrice o.price = some l)
    (hrun : appendOrder (some p) (some l) b₁ = .ok () b₂)
    (htail : (derefOrder (some p) >>= fun o => setClientOrder o.clientId o.clientOrderId (some p))
      b₂ = .ok () b') :
    Filed b b' p o ∧ Appended b b' p o.price l (queue (slotOf B o.price)) := by
  obtain ⟨x, y, hx, hy, hlinks, happend⟩ := halloc.appendOrder_eq h hslot
  have hrest := halloc.rest
  rw [happend] at hrun
  cases hrun
  obtain ⟨hfiled, rfl⟩ := halloc.filed ho (sameOrders_setOrderLinks _ _) htail
  refine ⟨hfiled, hslot, ?_, ?_, ?_, ?_, x, y, hx, hy, hlinks⟩
  · show b₁.mapPriceToPriceLevel = _
    rw [hrest]
  · show b₁.ordersAtPricePool = _
    rw [hrest]
  · show b₁.bidsByPrice = _
    rw [hrest]
  · show b₁.asksByPrice = _
    rw [hrest]

/-- `b₂` is `b₁` with level `n` constructed for order `p`, which is in a ring of its own. -/
structure LevelAllocated (b b₁ b₂ : OrderBook B) (p : OrderPtr) (o : Order) (n : LevelPtr B) :
    Prop where
  fresh : ¬ b.LiveLevel n
  liveLevel : ∀ l, b₂.LiveLevel l ↔ l = n ∨ b.LiveLevel l
  level_self : b₂.level n = ⟨o.side, o.price, some p, none, none⟩
  level_of_ne : ∀ l, l ≠ n → b₂.level l = b.level l
  rest : b₂ = { b₁.setOrderLinks (b₁.orderLinks.join p p) with
    ordersAtPricePool := b₂.ordersAtPricePool }

/-- The level `openLevel` constructs once the order is in a ring of its own. -/
theorem Allocated.levelAllocated {n : LevelPtr B} (halloc : Allocated b b₁ p o)
    (hlevel : allocateLevel ⟨o.side, o.price, some p, none, none⟩
      (b₁.setOrderLinks (b₁.orderLinks.join p p)) = .ok (some n) b₂) :
    LevelAllocated b b₁ b₂ p o n := by
  have hpool : (b₁.setOrderLinks (b₁.orderLinks.join p p)).ordersAtPricePool =
      b.ordersAtPricePool := by
    show b₁.ordersAtPricePool = _
    rw [halloc.rest]
  rcases allocateLevel_ok hlevel with hnone | ⟨m, hm, hfresh, hlive, hget, hrest⟩
  · cases hnone
  cases hm
  rw [OrderBook.LiveLevel, hpool] at hfresh
  refine ⟨hfresh, ?_, ?_, ?_, hrest⟩
  · intro l
    rw [hlive, OrderBook.LiveLevel, hpool]
  · rw [hget, if_pos rfl]
  · intro l hl
    rw [hget, if_neg hl, OrderBook.level, hpool]

/-- `openLevel` constructs a level and hands it to `addPriceLevel`. -/
theorem Allocated.openLevel_ok (halloc : Allocated b b₁ p o)
    (hrun : openLevel (some p) b₁ = .ok () b₂) :
    ∃ n b₃, LevelAllocated b b₁ b₃ p o n ∧ addPriceLevel (some n) b₃ = .ok () b₂ := by
  have hp₁ : b₁.LiveOrder p := (halloc.liveOrder p).mpr (.inl rfl)
  have ho₁ : b₁.order p = o := by rw [halloc.order, if_pos rfl]
  unfold openLevel at hrun
  rw [bind_of_ok (storeOrder_self hp₁)] at hrun
  set b₃ := b₁.setOrderLinks (b₁.orderLinks.join p p) with hb₃
  have hside₃ : (b₃.order p).side = o.side := by rw [← ho₁]; rfl
  have hprice₃ : (b₃.order p).price = o.price := by rw [← ho₁]; rfl
  rw [bind_of_ok (derefOrder_of_live (show b₃.LiveOrder p from hp₁)), hside₃, hprice₃] at hrun
  obtain ⟨q, b₄, hlevel, hadd⟩ := bind_eq_ok.mp hrun
  rcases allocateLevel_ok hlevel with rfl | ⟨n, rfl, -⟩
  · -- the pool of levels is full: `addPriceLevel` reads through a null pointer
    unfold addPriceLevel at hadd
    obtain ⟨_, _, hderef, _⟩ := bind_eq_ok.mp hadd
    obtain ⟨_, hsome, _⟩ := derefLevel_eq_ok.mp hderef
    cases hsome
  · exact ⟨n, b₄, halloc.levelAllocated hlevel, hadd⟩

/-- A new level that has found its place. -/
theorem LevelAllocated.opened {n : LevelPtr B} {best' : Option (LevelPtr B)}
    {k : Links (LevelPtr B)} {b₃ : OrderBook B} (hnew : LevelAllocated b b₁ b₃ p o n)
    (halloc : Allocated b b₁ p o) (hslot : b.getLevelForPrice o.price = none)
    (hplaced : Placed b b₂ o.side o.price n best')
    (hb₂ : b₂ = ((b₃.setSlot o.price (some n)).setLevelLinks k).setBestTo o.side best') :
    Opened b b₂ p o.side o.price n best' := by
  obtain ⟨hnext, hprev⟩ := halloc.links
  have hlevels : b₂.ordersAtPricePool =
      ((b₃.setSlot o.price (some n)).setLevelLinks k).ordersAtPricePool := by
    rw [hb₂, OrderBook.ordersAtPricePool_setBestTo]
  have hfields : ∀ l, (b₂.level l).side = (b₃.level l).side ∧
      (b₂.level l).price = (b₃.level l).price ∧ (b₂.level l).order0 = (b₃.level l).order0 := by
    intro l
    rw [OrderBook.level, hlevels]
    exact ⟨rfl, rfl, rfl⟩
  constructor
  case slot => exact hslot
  case fresh => exact hnew.fresh
  case liveLevel =>
    intro l
    rw [OrderBook.LiveLevel, hlevels]
    exact hnew.liveLevel l
  case slots =>
    rw [hb₂, OrderBook.mapPriceToPriceLevel_setBestTo, hnew.rest, halloc.rest]
    rfl
  case side_self => exact (hfields n).1.trans (by rw [hnew.level_self])
  case price_self => exact (hfields n).2.1.trans (by rw [hnew.level_self])
  case order0_self => exact (hfields n).2.2.trans (by rw [hnew.level_self])
  case side_of_ne => exact fun l hl => (hfields l).1.trans (by rw [hnew.level_of_ne l hl])
  case price_of_ne => exact fun l hl => (hfields l).2.1.trans (by rw [hnew.level_of_ne l hl])
  case order0_of_ne => exact fun l hl => (hfields l).2.2.trans (by rw [hnew.level_of_ne l hl])
  case orderLinks =>
    have horders : b₂.orderPool = (b₁.setOrderLinks (b₁.orderLinks.join p p)).orderPool := by
      rw [hb₂, OrderBook.orderPool_setBestTo, hnew.rest]
      rfl
    have hlinks : b₂.orderLinks = b₁.orderLinks.join p p := by
      simp only [OrderBook.orderLinks, OrderBook.order, horders]
      rfl
    rw [hlinks]
    exact Links.join_self_congr hnext hprev
  case bids =>
    rw [hb₂, OrderBook.bidsByPrice_setBestTo, hnew.rest, halloc.rest]
    rfl
  case asks =>
    rw [hb₂, OrderBook.asksByPrice_setBestTo, hnew.rest, halloc.rest]
    rfl
  case placed => exact hplaced

/-- The client map has no part in it. -/
theorem Opened.setEntry {side : Side} {price : Price} {n : LevelPtr B}
    {best' : Option (LevelPtr B)} (ho : Opened b b₂ p side price n best') (c : ClientID) (k : OrderID)
    (q : Option OrderPtr) : Opened b (b₂.setEntry c k q) p side price n best' := by
  refine ⟨ho.slot, ho.fresh, ho.liveLevel, ho.slots, ho.side_self, ho.price_self, ho.order0_self,
    ho.side_of_ne, ho.price_of_ne, ho.order0_of_ne, ho.orderLinks, ho.bids, ho.asks, ?_⟩
  cases ho.placed with
  | only hbest hl => exact .only hbest hl
  | beside best x y rest hbest hring hmem hx hy hxy hl hring' =>
    exact .beside best x y rest hbest hring hmem hx hy hxy hl hring'

/-- The branch of `addOrderToBook` for an empty slot. -/
theorem Allocated.open_ok (hc : b.levelLinks.Closed b.LiveLevel) (halloc : Allocated b b₁ p o)
    (hslot : b.getLevelForPrice o.price = none) (hrun : openLevel (some p) b₁ = .ok () b₂) :
    SameOrders b₁ b₂ ∧ ∃ n best', Opened b b₂ p o.side o.price n best' := by
  obtain ⟨n, b₃, hnew, hadd⟩ := halloc.openLevel_ok hrun
  obtain ⟨best', k, hplaced, hb₂⟩ := addPriceLevel_ok hc hnew.fresh hnew.liveLevel
    hnew.level_of_ne (by rw [hnew.level_self]) (by rw [hnew.rest, halloc.rest]; rfl)
    (by rw [hnew.rest, halloc.rest]; rfl) hadd
  rw [hnew.level_self] at hplaced hb₂
  -- the orders are those of `b₁`, linked otherwise
  have horders : b₂.orderPool = (b₁.setOrderLinks (b₁.orderLinks.join p p)).orderPool := by
    rw [hb₂, OrderBook.orderPool_setBestTo, hnew.rest]
    rfl
  refine ⟨⟨?_, ?_, ?_, ?_, ?_⟩, n, best', hnew.opened halloc hslot hplaced hb₂⟩
  · intro q
    rw [OrderBook.LiveOrder, horders]
    exact Iff.rfl
  · intro q
    rw [OrderBook.data, OrderBook.order, horders]
    rfl
  · rw [hb₂, OrderBook.nextMarketOid_setBestTo, hnew.rest]
    rfl
  · rw [hb₂, OrderBook.ome_setBestTo, hnew.rest]
    rfl
  · rw [hb₂, OrderBook.mapClientIdToOrder_setBestTo, hnew.rest]
    rfl

/-- An order filed under a new level. -/
theorem Allocated.open (hc : b.levelLinks.Closed b.LiveLevel) (halloc : Allocated b b₁ p o)
    (ho : { o with prev := none, next := none } = o)
    (hslot : b.getLevelForPrice o.price = none)
    (hrun : openLevel (some p) b₁ = .ok () b₂)
    (htail : (derefOrder (some p) >>= fun o => setClientOrder o.clientId o.clientOrderId (some p))
      b₂ = .ok () b') :
    Filed b b' p o ∧ ∃ n best', Opened b b' p o.side o.price n best' := by
  obtain ⟨hsame, n, best', hopened⟩ := halloc.open_ok hc hslot hrun
  obtain ⟨hfiled, rfl⟩ := halloc.filed ho hsame htail
  exact ⟨hfiled, n, best', hopened.setEntry _ _ _⟩

/-- **`addOrderToBook` taken apart**, from the allocation of the order on. -/
theorem addOrderToBook_ok {queue : Queues B} (h : Rings b queue)
    (hc : b.levelLinks.Closed b.LiveLevel) {q : Option OrderPtr}
    (ho : { o with prev := none, next := none } = o) (halloc : allocateOrder o b = .ok q b₁)
    (hrun : addOrderToBook q b₁ = .ok () b') :
    ∃ p, Files b b' queue p o := by
  unfold addOrderToBook at hrun
  rcases allocateOrder_ok halloc with rfl | ⟨p, rfl, hp⟩
  · -- the pool of orders is full: the order is read through a null pointer
    obtain ⟨_, _, hderef, _⟩ := bind_eq_ok.mp hrun
    obtain ⟨_, hsome, _⟩ := derefOrder_eq_ok.mp hderef
    cases hsome
  have hlive : b₁.LiveOrder p := (hp.liveOrder p).mpr (.inl rfl)
  have hslots : b₁.getLevelForPrice o.price = b.getLevelForPrice o.price := by
    rw [OrderBook.getLevelForPrice, hp.rest, OrderBook.getLevelForPrice]
  have ho₁ : b₁.order p = o := by rw [hp.order, if_pos rfl]
  rw [bind_of_ok (derefOrder_of_live hlive), ho₁, get_bind, hslots] at hrun
  refine ⟨p, ?_⟩
  cases hslot : b.getLevelForPrice o.price with
  | none =>
    rw [hslot, if_pos rfl] at hrun
    obtain ⟨_, b₂, hopen, htail⟩ := bind_eq_ok.mp hrun
    obtain ⟨hfiled, hopened⟩ := hp.open hc ho hslot hopen htail
    exact ⟨hfiled, .inr hopened⟩
  | some l =>
    rw [hslot, if_neg (by simp)] at hrun
    obtain ⟨_, b₂, happend, htail⟩ := bind_eq_ok.mp hrun
    obtain ⟨hfiled, happended⟩ := hp.append h ho hslot happend htail
    exact ⟨hfiled, .inl ⟨l, happended⟩⟩

/-- The order a remainder `qty` of a new order becomes. -/
def NewOrder.toOrder (taker : NewOrder) (newMarketOid : OrderID) (qty : Qty) (priority : Priority) :
    Order where
  tickerId := taker.tickerId
  clientId := taker.clientId
  clientOrderId := taker.clientOid
  marketOrderId := newMarketOid
  side := taker.side
  price := taker.price
  qty := qty
  priority := priority
  prev := none
  next := none

/-- The update that publishes an order. -/
def Order.added (o : Order) : OMEMarketUpdate :=
  ⟨.add, o.marketOrderId, o.tickerId, o.side, o.price, o.qty, o.priority⟩

/-- **`restOrder` taken apart**: the order is filed, then published. -/
theorem restOrder_ok {queue : Queues B} {taker : NewOrder} {newMarketOid : OrderID} {qty : Qty}
    (h : Rings b queue) (hc : b.levelLinks.Closed b.LiveLevel)
    (hrun : restOrder taker newMarketOid qty b = .ok () b') :
    ∃ p b₁ o, o = taker.toOrder newMarketOid qty
        (b.priorityAfter (queue (slotOf B taker.price))) ∧
      Files b b₁ queue p o ∧ b' = { b₁ with ome := b₁.ome ++ [.update o.added] } := by
  unfold restOrder at hrun
  rw [bind_of_ok (getNextPriority_eq h taker.price)] at hrun
  obtain ⟨q, b₂, halloc, hrun⟩ := bind_eq_ok.mp hrun
  obtain ⟨_, b₁, hadd, hpub⟩ := bind_eq_ok.mp hrun
  obtain ⟨p, hfiles⟩ := addOrderToBook_ok h hc rfl halloc hadd
  refine ⟨p, b₁, _, rfl, hfiles, ?_⟩
  cases hpub
  rfl

end inversion

/-! ## The invariant -/

section sound

variable {b b' : OrderBook B} {queue : Queues B} {p : OrderPtr} {o : Order}

/-- What holds of the order filed and of all that were there holds of all that are. -/
theorem Filed.forall_live {P : Order → Prop} (h : Filed b b' p o) (hnew : P o)
    (hold : ∀ q, b.LiveOrder q → P (b.data q)) (q : OrderPtr) (hq : b'.LiveOrder q) :
    P (b'.data q) := by
  rcases (h.liveOrder q).mp hq with rfl | hlive
  · rw [h.data_self]
    exact hnew
  · rw [h.data_of_ne q fun e => h.fresh (e ▸ hlive)]
    exact hold q hlive

theorem Filed.price_self (h : Filed b b' p o) : (b'.order p).price = o.price := by
  rw [← h.data_self, OrderBook.data]

theorem Filed.qty_self (h : Filed b b' p o) : (b'.order p).qty = o.qty := by
  rw [← h.data_self, OrderBook.data]

theorem Filed.side_self (h : Filed b b' p o) : (b'.order p).side = o.side := by
  rw [← h.data_self, OrderBook.data]

theorem Filed.marketOrderId_self (h : Filed b b' p o) :
    (b'.order p).marketOrderId = o.marketOrderId := by
  rw [← h.data_self, OrderBook.data]

theorem Filed.priority_self (h : Filed b b' p o) : (b'.order p).priority = o.priority := by
  rw [← h.data_self, OrderBook.data]

theorem Filed.clientId_self (h : Filed b b' p o) : (b'.order p).clientId = o.clientId := by
  rw [← h.data_self, OrderBook.data]

theorem Filed.clientOrderId_self (h : Filed b b' p o) :
    (b'.order p).clientOrderId = o.clientOrderId := by
  rw [← h.data_self, OrderBook.data]

theorem Filed.price_of_ne (h : Filed b b' p o) {q : OrderPtr} (hq : q ≠ p) :
    (b'.order q).price = (b.order q).price :=
  OrderBook.price_of_data (h.data_of_ne q hq)

/-- One more order in the queue of a slot. -/
theorem mem_queue_append {s s₀ : PriceSlot B} {q : OrderPtr} :
    q ∈ Function.update queue s₀ (queue s₀ ++ [p]) s ↔ q ∈ queue s ∨ s = s₀ ∧ q = p := by
  by_cases hslot : s = s₀
  · subst hslot
    simp
  · simp [hslot]

/-- The orders in use after a filing, as members of the queues. -/
theorem Filed.mem_queue (h : Filed b b' p o) (hs : Sound b queue) (s : PriceSlot B)
    (q : OrderPtr) :
    q ∈ Function.update queue (slotOf B o.price) (queue (slotOf B o.price) ++ [p]) s ↔
      b'.LiveOrder q ∧ slotOf B (b'.order q).price = s := by
  have hp : ∀ s, p ∉ queue s := fun s hp => h.fresh (hs.live_of_mem hp)
  rw [mem_queue_append, h.liveOrder]
  by_cases hq : q = p
  · subst hq
    rw [h.price_self]
    simp [hp s, eq_comm]
  · rw [h.price_of_ne hq]
    simp [hq, hs.mem_queue]

/-- The client map after a filing. -/
theorem Filed.clientMap_live (h : Filed b b' p o) (hs : Sound b queue) (c : ClientID) (k : OrderID)
    (q : OrderPtr) (hq : b'.mapClientIdToOrder c k = some q) :
    b'.LiveOrder q ∧ (b'.order q).clientId = c ∧ (b'.order q).clientOrderId = k := by
  rw [h.clientMap, mapWith_apply] at hq
  rw [h.liveOrder]
  split at hq
  · rename_i hkey
    cases hq
    exact ⟨.inl rfl, h.clientId_self.trans hkey.1.symm, h.clientOrderId_self.trans hkey.2.symm⟩
  · obtain ⟨hlive, hc, hk⟩ := hs.clientMap c k q hq
    have hne : q ≠ p := fun e => h.fresh (e ▸ hlive)
    exact ⟨.inr hlive, (OrderBook.clientId_of_data (h.data_of_ne q hne)).trans hc,
      (OrderBook.clientOrderId_of_data (h.data_of_ne q hne)).trans hk⟩

/-- The ids of the orders in use are inside the client map after a filing. -/
theorem Filed.inClientMap_live (h : Filed b b' p o) (hs : Sound b queue) (q : OrderPtr)
    (hq : b'.LiveOrder q) : InClientMap B (b'.order q).clientId (b'.order q).clientOrderId := by
  by_cases hqp : q = p
  · subst hqp
    rw [h.clientId_self, h.clientOrderId_self]
    exact h.inClientMap
  · rw [OrderBook.clientId_of_data (h.data_of_ne q hqp),
      OrderBook.clientOrderId_of_data (h.data_of_ne q hqp)]
    apply hs.inClientMap q
    rcases (h.liveOrder q).mp hq with e | hq
    · exact absurd e hqp
    · exact hq

/-- Every order in use is queued after a filing. -/
theorem Filed.live_iff (h : Filed b b' p o) (hs : Rings b queue) (q : OrderPtr) :
    b'.LiveOrder q ↔
      ∃ s, q ∈ Function.update queue (slotOf B o.price) (queue (slotOf B o.price) ++ [p]) s := by
  simp only [mem_queue_append, h.liveOrder, hs.live_iff q, exists_or, exists_eq_left, or_comm]

/-- No order is queued twice after a filing. -/
theorem Filed.queue_inj (h : Filed b b' p o) (hs : Rings b queue) (s s' : PriceSlot B)
    (q : OrderPtr)
    (hq : q ∈ Function.update queue (slotOf B o.price) (queue (slotOf B o.price) ++ [p]) s)
    (hq' : q ∈ Function.update queue (slotOf B o.price) (queue (slotOf B o.price) ++ [p]) s') :
    s = s' := by
  have hp : ∀ s, p ∉ queue s := fun s hp => h.fresh (hs.live_of_mem hp)
  rcases mem_queue_append.mp hq with hold | ⟨rfl, rfl⟩
  · rcases mem_queue_append.mp hq' with hold' | ⟨rfl, rfl⟩
    · exact hs.queue_inj s s' q hold hold'
    · exact absurd hold (hp s)
  · rcases mem_queue_append.mp hq' with hold' | ⟨rfl, -⟩
    · exact absurd hold' (hp s')
    · rfl

/-- The rings after an order has gone under the level in its slot. -/
theorem Rings.file_append {l : LevelPtr B} (hs : Rings b queue) (h : Filed b b' p o)
    (ha : Appended b b' p o.price l (queue (slotOf B o.price))) :
    Rings b' (Function.update queue (slotOf B o.price) (queue (slotOf B o.price) ++ [p])) := by
  obtain ⟨x, y, hx, hy, hlinks⟩ := ha.links
  have hp : ∀ s, p ∉ queue s := fun s hp => h.fresh (hs.live_of_mem hp)
  have hlevel : ∀ l', b'.level l' = b.level l' := by
    intro l'
    rw [OrderBook.level, ha.levels]
  constructor
  case liveLevel =>
    intro s l' hl'
    rw [ha.slots] at hl'
    rw [OrderBook.LiveLevel, ha.levels]
    exact hs.liveLevel s l' hl'
  case slot_price =>
    intro s l' hl'
    rw [hlevel]
    rw [ha.slots] at hl'
    exact hs.slot_price s l' hl'
  case slots_closed =>
    have hlinks' : b'.levelLinks = b.levelLinks := by
      simp only [OrderBook.levelLinks, hlevel]
    rw [hlinks', ha.slots]
    exact hs.slots_closed
  case queue_nil =>
    intro s
    rw [ha.slots]
    by_cases hslot : s = slotOf B o.price
    · subst hslot
      have hl : b.mapPriceToPriceLevel (slotOf B o.price) = some l := ha.slot
      simp [hl]
    · rw [Function.update_of_ne hslot]
      exact hs.queue_nil s
  case queue_head =>
    intro s l' hl'
    rw [ha.slots] at hl'
    rw [hlevel, hs.queue_head s l' hl']
    by_cases hslot : s = slotOf B o.price
    · subst hslot
      rw [Function.update_self, List.head?_append, hy]
      rfl
    · rw [Function.update_of_ne hslot]
  case queue_ring =>
    intro s
    rw [hlinks]
    by_cases hslot : s = slotOf B o.price
    · subst hslot
      rw [Function.update_self]
      exact (hs.queue_ring _).append hx hy (hp _)
    · rw [Function.update_of_ne hslot]
      refine (hs.queue_ring s).splice_other ?_ (hp s) ?_
      · exact hs.queue_disjoint (Ne.symm hslot) (List.mem_of_getLast? hx)
      · exact hs.queue_disjoint (Ne.symm hslot) (List.mem_of_head? hy)
  case live_iff => exact h.live_iff hs
  case queue_inj => exact h.queue_inj hs

/-- The levels in use are linked among themselves after a new one has been put in. -/
theorem Opened.levels_closed {side : Side} {price : Price} {n : LevelPtr B}
    {best' : Option (LevelPtr B)} (ho : Opened b b' p side price n best')
    (hc : b.levelLinks.Closed b.LiveLevel) : b'.levelLinks.Closed b'.LiveLevel := by
  have hlive : b'.LiveLevel = fun z => z = n ∨ b.LiveLevel z := by
    funext z
    exact propext (ho.liveLevel z)
  rw [hlive]
  cases ho.placed with
  | only _ hlinks =>
    rw [hlinks]
    exact hc.single ho.fresh
  | beside best x y rest _ _ hlive hx hy hxy hlinks _ =>
    rw [hlinks]
    exact hc.splice (hlive x hx) (hlive y hy) hxy ho.fresh

/-- The slots after a new level has been opened. -/
theorem Opened.slot_iff {side : Side} {price : Price} {n l : LevelPtr B}
    {best' : Option (LevelPtr B)} (ho : Opened b b' p side price n best') (s : PriceSlot B) :
    b'.mapPriceToPriceLevel s = some l ↔
      s = slotOf B price ∧ l = n ∨ s ≠ slotOf B price ∧ b.mapPriceToPriceLevel s = some l := by
  rw [ho.slots]
  by_cases hs : s = slotOf B price
  · subst hs
    simp [eq_comm]
  · simp [hs]

/-- The levels in the slots after a new one has been opened. -/
theorem Opened.slotted {side : Side} {price : Price} {n l : LevelPtr B}
    {best' : Option (LevelPtr B)} (ho : Opened b b' p side price n best') :
    (∃ s, b'.mapPriceToPriceLevel s = some l) ↔
      l = n ∨ ∃ s, b.mapPriceToPriceLevel s = some l := by
  constructor
  · rintro ⟨s, hl⟩
    rcases (ho.slot_iff s).mp hl with ⟨-, rfl⟩ | ⟨-, hl⟩
    · exact .inl rfl
    · exact .inr ⟨s, hl⟩
  · rintro (rfl | ⟨s, hl⟩)
    · exact ⟨slotOf B price, (ho.slot_iff _).mpr (.inl ⟨rfl, rfl⟩)⟩
    · refine ⟨s, (ho.slot_iff s).mpr (.inr ⟨?_, hl⟩)⟩
      rintro rfl
      cases hl.symm.trans ho.slot

/-- The rings after an order has gone under a new level. -/
theorem Rings.file_open {n : LevelPtr B} {best' : Option (LevelPtr B)} (hs : Rings b queue)
    (hlive : ∀ l, b.LiveLevel l ↔ ∃ s, b.mapPriceToPriceLevel s = some l)
    (h : Filed b b' p o) (ho : Opened b b' p o.side o.price n best') :
    Rings b' (Function.update queue (slotOf B o.price) (queue (slotOf B o.price) ++ [p])) := by
  have hp : ∀ s, p ∉ queue s := fun s hp => h.fresh (hs.live_of_mem hp)
  have hempty : queue (slotOf B o.price) = [] := (hs.queue_nil _).mp ho.slot
  have hslotted : ∀ l, b'.LiveLevel l ↔ ∃ s, b'.mapPriceToPriceLevel s = some l := by
    intro l
    rw [ho.liveLevel, hlive, ho.slotted]
  -- the levels of the slots are old ones
  have hold : ∀ s l, b.mapPriceToPriceLevel s = some l → l ≠ n :=
    fun s l hl e => ho.fresh (e ▸ hs.liveLevel s l hl)
  constructor
  case liveLevel => exact fun s l hl => (hslotted l).mpr ⟨s, hl⟩
  case slot_price =>
    intro s l hl
    rcases (ho.slot_iff s).mp hl with ⟨rfl, rfl⟩ | ⟨-, hl⟩
    · rw [ho.price_self]
    · rw [ho.price_of_ne l (hold s l hl)]
      exact hs.slot_price s l hl
  case slots_closed =>
    rw [← OrderBook.closed_iff_slotted hslotted]
    exact ho.levels_closed ((OrderBook.closed_iff_slotted hlive).mpr hs.slots_closed)
  case queue_nil =>
    intro s
    rw [ho.slots]
    by_cases hs' : s = slotOf B o.price
    · subst hs'
      simp
    · rw [Function.update_of_ne hs', Function.update_of_ne hs']
      exact hs.queue_nil s
  case queue_head =>
    intro s l hl
    rcases (ho.slot_iff s).mp hl with ⟨rfl, rfl⟩ | ⟨hs', hl⟩
    · rw [ho.order0_self, Function.update_self, hempty]
      rfl
    · rw [ho.order0_of_ne l (hold s l hl), Function.update_of_ne hs']
      exact hs.queue_head s l hl
  case queue_ring =>
    intro s
    rw [ho.orderLinks]
    by_cases hs' : s = slotOf B o.price
    · subst hs'
      rw [Function.update_self, hempty]
      exact Links.isRing_join_self _ p
    · rw [Function.update_of_ne hs']
      exact (hs.queue_ring s).join_self (hp s)
  case live_iff => exact h.live_iff hs
  case queue_inj => exact h.queue_inj hs

/-- **The rings after a filing.** -/
theorem Rings.files (hs : Rings b queue)
    (hlive : ∀ l, b.LiveLevel l ↔ ∃ s, b.mapPriceToPriceLevel s = some l)
    (h : Files b b' queue p o) :
    Rings b' (Function.update queue (slotOf B o.price) (queue (slotOf B o.price) ++ [p])) := by
  obtain ⟨hfiled, ⟨l, ha⟩ | ⟨n, best', ho⟩⟩ := h
  · exact hs.file_append hfiled ha
  · exact hs.file_open hlive hfiled ho

/-- The levels in use are those of the slots after a filing. -/
theorem Files.liveLevel_iff (h : Files b b' queue p o)
    (hlive : ∀ l, b.LiveLevel l ↔ ∃ s, b.mapPriceToPriceLevel s = some l) (l : LevelPtr B) :
    b'.LiveLevel l ↔ ∃ s, b'.mapPriceToPriceLevel s = some l := by
  obtain ⟨-, ⟨l', ha⟩ | ⟨n, best', ho⟩⟩ := h
  · rw [ha.slots, ← hlive, OrderBook.LiveLevel, ha.levels]
  · rw [ho.liveLevel, hlive, ho.slotted]

/-- **The book stays sound** when an order is filed. -/
theorem Sound.files (hs : Sound b queue) (h : Files b b' queue p o) :
    Sound b' (Function.update queue (slotOf B o.price) (queue (slotOf B o.price) ++ [p])) := by
  have hrings := hs.rings.files hs.liveLevel_iff h
  have hlive := h.liveLevel_iff hs.liveLevel_iff
  constructor
  case liveLevel_iff => exact hlive
  case slot_price => exact hrings.slot_price
  case levels_closed => exact (OrderBook.closed_iff_slotted hlive).mpr hrings.slots_closed
  case queue_nil => exact hrings.queue_nil
  case queue_head => exact hrings.queue_head
  case queue_ring => exact hrings.queue_ring
  case mem_queue => exact h.1.mem_queue hs
  case clientMap => exact h.1.clientMap_live hs
  case inClientMap => exact h.1.inClientMap_live hs

end sound

end HftSys
