import HftSys.Pools
import HftSys.RemovalFrame
import Mathlib.Data.Fintype.EquivFin

/-!
# Adding an order and cancelling it

`addOrder` puts an order that finds nothing to match into one of several places: under the level its
price's slot holds, or under a new level in front of, among or behind those of its side.
`cancelOrder` looks the level up again and takes the order out by other code. `add_then_cancel` says
that the second undoes the first, whatever place the first has chosen.

* `Standing`: a book with linked rings whose levels are all in use, and well-formed pools.
* `Standing.restOrder_eq`: on a standing book with a free order block an order comes to rest, up to
  the last write into the client map, which may be outside the map.
* `Files.restored`: an order taken out again leaves all links as they were.
-/

namespace HftSys

open Circular Exec

variable {B : Build}

/-- A book with linked rings that hold every level in use, and with well-formed pools. -/
structure Standing (b : OrderBook B) (ring : Side → List (LevelPtr B))
    (orders : LevelPtr B → List OrderPtr) : Prop extends Linked b ring orders where
  listed : ∀ l, b.LiveLevel l → Listed ring l
  pools : PoolsWellFormed b

/-- What a book holds is what another holds, links included. -/
structure Restored (b b' : OrderBook B) : Prop where
  bids : b'.bidsByPrice = b.bidsByPrice
  asks : b'.asksByPrice = b.asksByPrice
  slots : b'.mapPriceToPriceLevel = b.mapPriceToPriceLevel
  clientMap : b'.mapClientIdToOrder = b.mapClientIdToOrder
  liveOrder : ∀ p, b'.LiveOrder p ↔ b.LiveOrder p
  liveLevel : ∀ l, b'.LiveLevel l ↔ b.LiveLevel l
  order : ∀ p, b.LiveOrder p → b'.order p = b.order p
  level : ∀ l, b.LiveLevel l → b'.level l = b.level l

/-- The cancel of a new order. -/
def NewOrder.cancellation (taker : NewOrder) : CancelOrder :=
  ⟨taker.clientId, taker.clientOid, taker.tickerId⟩

/-- A new order has come and gone: only the next market id and what has been sent tell the books
apart. -/
structure Undone (b b' : OrderBook B) (ring : Side → List (LevelPtr B))
    (orders : LevelPtr B → List OrderPtr) (taker : NewOrder) : Prop extends Restored b b' where
  /-- The levels of both rings and the orders of every level are those that were there, in order. -/
  standing : Standing b' ring orders
  freeOrders : b'.orderPool.freeBlocksCount = b.orderPool.freeBlocksCount
  freeLevels : b'.ordersAtPricePool.freeBlocksCount = b.ordersAtPricePool.freeBlocksCount
  nextMarketOid : b'.nextMarketOid = b.nextMarketOid + 1
  ome : ∃ o priority, o = taker.toOrder b.nextMarketOid taker.qty priority ∧
    b'.ome = b.ome ++ .response (taker.acceptance b.nextMarketOid) :: .update o.added ::
      taker.cancellation.events o

/-- The price of a new order does not reach the first order of the best level of the other side. -/
def OutOfReach (b : OrderBook B) (taker : NewOrder) : Prop :=
  ∀ best p, b.opposite taker.side = some best → (b.level best).order0 = some p →
    misses taker.side taker.price (b.order p).price = true

/-! ## Blocks to be had -/

section allocation

variable {b : OrderBook B}

/-- A free order block receives an order. -/
theorem allocateOrder_of_pos (h : b.orderPool.WellFormed) (hpos : 0 < b.orderPool.freeBlocksCount)
    (o : Order) : ∃ p b₁, allocateOrder o b = .ok (some p) b₁ ∧ Allocated b b₁ p o := by
  obtain ⟨pool, hok, -, -, -⟩ := h.allocate_of_pos hpos o
  have hrun : allocateOrder o b =
      .ok (some b.orderPool.nextFreeIndex) { b with orderPool := pool } := by
    simp only [allocateOrder, hok]
  rcases allocateOrder_ok hrun with hnone | ⟨p, hp, halloc⟩
  · cases hnone
  · exact ⟨p, _, hp ▸ hrun, halloc⟩

/-- A free level block receives a level. -/
theorem allocateLevel_of_pos (h : b.ordersAtPricePool.WellFormed)
    (hpos : 0 < b.ordersAtPricePool.freeBlocksCount) (l : OrdersAtPrice B) :
    ∃ n b₁, allocateLevel l b = .ok (some n) b₁ := by
  obtain ⟨pool, hok, -, -, -⟩ := h.allocate_of_pos hpos l
  refine ⟨b.ordersAtPricePool.nextFreeIndex, { b with ordersAtPricePool := pool }, ?_⟩
  simp only [allocateLevel, hok]

/-- A pool with a free block has a positive count. -/
theorem MemoryPool.WellFormed.count_pos {T : Type} {size : ℕ} {pool : MemoryPool T size}
    (h : pool.WellFormed) {i : Fin size} (hi : ¬ pool.Live i) : 0 < pool.freeBlocksCount := by
  apply Nat.pos_of_ne_zero
  intro hzero
  exact hi (h.count_eq_zero.mp hzero i)

/-- The count of free blocks is known from the blocks in use. -/
theorem MemoryPool.WellFormed.count_congr {T : Type} {size : ℕ} {pool pool' : MemoryPool T size}
    (h : pool.WellFormed) (h' : pool'.WellFormed) (hlive : ∀ i, pool'.Live i ↔ pool.Live i) :
    pool'.freeBlocksCount = pool.freeBlocksCount := by
  have hsame : pool'.freeBlocks = pool.freeBlocks := by
    ext i
    rw [MemoryPool.mem_freeBlocks, MemoryPool.mem_freeBlocks, hlive]
  rw [h'.count, h.count, hsame]

/-- A level block is free as long as a slot is: levels in use that sit in the slots of their prices
sit in different slots. -/
theorem OrderBook.exists_free_level (b : OrderBook B)
    (hslot : ∀ l, b.LiveLevel l → b.mapPriceToPriceLevel (slotOf B (b.level l).price) = some l)
    {s : PriceSlot B} (hs : b.mapPriceToPriceLevel s = none) : ∃ l, ¬ b.LiveLevel l := by
  by_contra hall
  push Not at hall
  have hinj : Function.Injective fun l => slotOf B (b.level l).price := by
    intro l l' heq
    have hl := hslot l (hall l)
    simp only at heq
    rw [heq, hslot l' (hall l')] at hl
    exact (Option.some.inj hl).symm
  obtain ⟨l, hl⟩ := (Finite.injective_iff_surjective.mp hinj) s
  simp only at hl
  have hsome := hslot l (hall l)
  rw [hl, hs] at hsome
  cases hsome

end allocation

/-- An empty book stands. -/
theorem standing_create (B : Build) : Standing (OrderBook.create B) (fun _ => []) fun _ => [] := by
  have hnone : ∀ l : LevelPtr B, ¬ Listed (fun _ => []) l := fun l ⟨_, _, hl⟩ => nomatch hl
  refine ⟨⟨⟨?_, ?_, ?_⟩, ?_, ?_, ?_, ?_, ?_, ?_, ?_, ?_⟩, ?_, poolsWellFormed_create B⟩
  · exact fun _ _ => Links.isRing_nil
  · intro s _
    unfold OrderBook.bestOf
    split <;> rfl
  · exact fun _ _ l hl => nomatch hl
  · exact fun l hl => absurd hl (hnone l)
  · intro s l
    constructor
    · exact fun hs => nomatch hs
    · exact fun hl => absurd hl.1 (hnone l)
  · exact fun l hl => absurd hl (hnone l)
  · exact fun l hl => absurd hl (hnone l)
  · exact fun l hl => absurd hl (hnone l)
  · exact fun l hl => absurd hl (hnone l)
  · exact fun p hp => absurd hp (not_liveOrder_create p)
  · exact fun l _ _ hl => absurd hl (hnone l)
  · exact fun l hl => absurd hl (not_liveLevel_create l)

/-- **A reachable book with two sides stands.** -/
theorem TwoSided.standing {stray : ℕ → Qty} {rs : List Request} {b : OrderBook B}
    {queue : Queues B} {ring : Side → List (LevelPtr B)} (h : TwoSided b ring) (hv : Valid b queue)
    (hrun : RunsTo stray rs b) : Standing b ring b.ordersOf :=
  ⟨h.linked hv, fun l hl => ⟨_, h.mem l hl⟩, pools_wellFormed hrun⟩

/-! ## Books that hold the same -/

section same

variable {b b' : OrderBook B} {ring : Side → List (LevelPtr B)}
  {orders : LevelPtr B → List OrderPtr}

/-- Accepting an order changes nothing a book holds. -/
theorem restored_accept (b : OrderBook B) (taker : NewOrder) : Restored b (b.accept taker) :=
  ⟨rfl, rfl, rfl, rfl, fun _ => Iff.rfl, fun _ => Iff.rfl, fun _ _ => rfl, fun _ _ => rfl⟩

/-- Nor does a message. -/
theorem Restored.publish (h : Restored b b') (log : List Emission) :
    Restored b { b' with ome := log } :=
  ⟨h.bids, h.asks, h.slots, h.clientMap, h.liveOrder, h.liveLevel, h.order, h.level⟩

theorem Restored.trans {b'' : OrderBook B} (h : Restored b b') (h' : Restored b' b'') :
    Restored b b'' where
  bids := h'.bids.trans h.bids
  asks := h'.asks.trans h.asks
  slots := h'.slots.trans h.slots
  clientMap := h'.clientMap.trans h.clientMap
  liveOrder p := (h'.liveOrder p).trans (h.liveOrder p)
  liveLevel l := (h'.liveLevel l).trans (h.liveLevel l)
  order p hp := (h'.order p ((h.liveOrder p).mpr hp)).trans (h.order p hp)
  level l hl := (h'.level l ((h.liveLevel l).mpr hl)).trans (h.level l hl)

/-- A listed level of a book is the same in a book that holds the same. -/
theorem Linked.level_restored (h : Linked b ring orders) (hr : Restored b b') {l : LevelPtr B}
    (hl : Listed ring l) : b'.level l = b.level l :=
  hr.level l (h.liveLevel l hl)

/-- The rings of the sides, in a book that holds the same. -/
theorem Linked.sideRings_restored (h : Linked b ring orders) (hr : Restored b b') :
    SideRings b' ring := by
  constructor
  case isRing =>
    intro s hs
    apply (h.isRing s hs).congr
    · intro l hl
      exact congrArg OrdersAtPrice.next (h.level_restored hr ⟨s, hs, hl⟩)
    · intro l hl
      exact congrArg OrdersAtPrice.prev (h.level_restored hr ⟨s, hs, hl⟩)
  case head =>
    intro s hs
    rw [OrderBook.bestOf, hr.bids, hr.asks]
    exact h.head s hs
  case side =>
    intro s hs l hl
    rw [h.level_restored hr ⟨s, hs, hl⟩]
    exact h.side s hs l hl

/-- The rings of a book, in one that holds the same. -/
theorem Linked.restored (h : Linked b ring orders) (hr : Restored b b') :
    Linked b' ring orders := by
  constructor
  case toSideRings => exact h.sideRings_restored hr
  case liveLevel => exact fun l hl => (hr.liveLevel l).mpr (h.liveLevel l hl)
  case slot_iff =>
    intro s l
    rw [hr.slots, h.slot_iff]
    apply and_congr_right
    intro hl
    rw [h.level_restored hr hl]
  case orders_isRing =>
    intro l hl
    apply (h.orders_isRing l hl).congr
    · intro p hp
      exact congrArg Order.next (hr.order p (h.orders_live l hl p hp))
    · intro p hp
      exact congrArg Order.prev (hr.order p (h.orders_live l hl p hp))
  case orders_ne_nil => exact h.orders_ne_nil
  case orders_head =>
    intro l hl
    rw [h.level_restored hr hl]
    exact h.orders_head l hl
  case orders_live => exact fun l hl p hp => (hr.liveOrder p).mpr (h.orders_live l hl p hp)
  case exists_ring => exact fun p hp => h.exists_ring p ((hr.liveOrder p).mp hp)
  case ring_unique => exact h.ring_unique

/-- **A book that holds the same stands as well**, with the same rings. -/
theorem Standing.restored (h : Standing b ring orders) (hr : Restored b b')
    (hpools : PoolsWellFormed b') : Standing b' ring orders :=
  ⟨h.toLinked.restored hr, fun l hl => h.listed l ((hr.liveLevel l).mp hl), hpools⟩

/-- A standing book that has accepted an order stands. -/
theorem Standing.accept (h : Standing b ring orders) (taker : NewOrder) :
    Standing (b.accept taker) ring orders :=
  h.restored (restored_accept b taker) ⟨h.pools.orders, h.pools.levels⟩

end same

namespace Standing

variable {b : OrderBook B} {ring : Side → List (LevelPtr B)}
  {orders : LevelPtr B → List OrderPtr}

/-- The levels in use are those of the slot table. -/
theorem liveLevel_iff (h : Standing b ring orders) (l : LevelPtr B) :
    b.LiveLevel l ↔ ∃ s, b.mapPriceToPriceLevel s = some l := by
  rw [← h.listed_iff]
  exact ⟨h.listed l, h.liveLevel l⟩

/-- **A level block is free** as long as a slot is. -/
theorem exists_free_level (h : Standing b ring orders) {s : PriceSlot B}
    (hs : b.mapPriceToPriceLevel s = none) : ∃ l, ¬ b.LiveLevel l :=
  b.exists_free_level (fun l hl => h.slot_of_listed (h.listed l hl)) hs

/-- The levels in use are linked among themselves. -/
theorem levels_closed (h : Standing b ring orders) : b.levelLinks.Closed b.LiveLevel :=
  (OrderBook.closed_iff_slotted h.liveLevel_iff).mpr h.rings.slots_closed

/-- The ring a best pointer heads, whatever the side: only `BUY` has a best pointer of its own. -/
theorem exists_best_ring (h : Standing b ring orders) (side : Side) :
    ∃ levels, b.levelLinks.IsRing levels ∧ b.bestOf side = levels.head? ∧
      ∀ l ∈ levels, b.LiveLevel l := by
  obtain ⟨s, hs, hsame⟩ : ∃ s : Side, s.Proper ∧ OrderBook.SameBest side s := by
    by_cases hbuy : side = .buy
    · exact ⟨.buy, .inl rfl, iff_of_true hbuy rfl⟩
    · exact ⟨.sell, .inr rfl, iff_of_false hbuy (by decide)⟩
  refine ⟨ring s, h.isRing s hs, ?_, fun l hl => h.liveLevel l ⟨s, hs, hl⟩⟩
  rw [OrderBook.bestOf_congr b hsame, h.head s hs]

/-! ## An order comes to rest -/

variable {b₁ : OrderBook B} {p : OrderPtr} {o : Order}

/-- A new level finds its place in the ring of its side, or is the first there. -/
theorem addPriceLevel_runs {b₂ : OrderBook B} {n : LevelPtr B} (h : Standing b ring orders)
    (halloc : Allocated b b₁ p o) (hnew : LevelAllocated b b₁ b₂ p o n) :
    ∃ b₃, addPriceLevel (some n) b₂ = .ok () b₃ := by
  have hn : b₂.LiveLevel n := (hnew.liveLevel n).mpr (.inl rfl)
  have hself : (b₂.level n).side = o.side := by rw [hnew.level_self]
  have hbest : b₂.bestOf (b₂.level n).side = b.bestOf o.side := by
    rw [hself, hnew.rest, OrderBook.bestOf, halloc.rest]
    rfl
  obtain ⟨hnext, hprev⟩ := levelLinks_of_level hnew.level_of_ne
  obtain ⟨levels, hring, hhead, hlive⟩ := h.exists_best_ring o.side
  cases levels with
  | nil => exact ⟨_, addPriceLevel_of_none hn (hbest.trans hhead)⟩
  | cons best rest =>
    have hne : ∀ l ∈ best :: rest, l ≠ n := fun l hl e => hnew.fresh (e ▸ hlive l hl)
    have hring₂ : b₂.levelLinks.IsRing (best :: rest) :=
      hring.congr (fun l hl => hnext l (hne l hl)) (fun l hl => hprev l (hne l hl))
    obtain ⟨x, y, -, -, -, -, heq⟩ := addPriceLevel_of_ring hn (hbest.trans hhead) hring₂
      (fun l hl => (hnew.liveLevel l).mpr (.inr (hlive l hl))) (fun hmem => hne n hmem rfl)
    exact ⟨_, heq⟩

/-- An empty slot gets a level. -/
theorem openLevel_runs (h : Standing b ring orders) (halloc : Allocated b b₁ p o)
    (hslot : b.getLevelForPrice o.price = none) :
    ∃ b₂, openLevel (some p) b₁ = .ok () b₂ := by
  have hp₁ : b₁.LiveOrder p := (halloc.liveOrder p).mpr (.inl rfl)
  have ho₁ : b₁.order p = o := by rw [halloc.order, if_pos rfl]
  set b₂ := b₁.setOrderLinks (b₁.orderLinks.join p p) with hb₂
  have hp₂ : b₂.LiveOrder p := hp₁
  have hside₂ : (b₂.order p).side = o.side := by rw [← ho₁]; rfl
  have hprice₂ : (b₂.order p).price = o.price := by rw [← ho₁]; rfl
  have hpool : b₂.ordersAtPricePool = b.ordersAtPricePool := by
    show b₁.ordersAtPricePool = _
    rw [halloc.rest]
  obtain ⟨l, hfree⟩ := h.exists_free_level hslot
  have hwf : b₂.ordersAtPricePool.WellFormed := hpool ▸ h.pools.levels
  have hpos : 0 < b₂.ordersAtPricePool.freeBlocksCount := by
    rw [hpool]
    exact h.pools.levels.count_pos hfree
  obtain ⟨n, b₃, hlevel⟩ := allocateLevel_of_pos hwf hpos ⟨o.side, o.price, some p, none, none⟩
  have hopen : openLevel (some p) b₁ = addPriceLevel (some n) b₃ := by
    unfold openLevel
    rw [bind_of_ok (storeOrder_self hp₁), bind_of_ok (derefOrder_of_live hp₂), hside₂, hprice₂,
      bind_of_ok hlevel]
  rw [hopen]
  exact h.addPriceLevel_runs halloc (halloc.levelAllocated hlevel)

/-- **A remainder finds its place** on a standing book with a free order block. What is left to do
is the write into the client map, which does not check its subscripts, and the publication. -/
theorem restOrder_eq {taker : NewOrder} (h : Standing b ring orders)
    (hfree : ∃ p, ¬ b.LiveOrder p) (newMarketOid : OrderID) (qty : Qty) :
    ∃ p b₂ u, restOrder taker newMarketOid qty b =
      (do setClientOrder taker.clientId taker.clientOid (some p)
          publishMarketUpdate u : BookM B Unit) b₂ := by
  obtain ⟨p₀, hp₀⟩ := hfree
  set o := taker.toOrder newMarketOid qty
    (b.priorityAfter (b.slotOrders orders (slotOf B taker.price))) with ho
  obtain ⟨p, b₁, hallocate, halloc⟩ :=
    allocateOrder_of_pos h.pools.orders (h.pools.orders.count_pos hp₀) o
  have hp₁ : b₁.LiveOrder p := (halloc.liveOrder p).mpr (.inl rfl)
  have ho₁ : b₁.order p = o := by rw [halloc.order, if_pos rfl]
  have hslots : b₁.getLevelForPrice o.price = b.getLevelForPrice o.price := by
    rw [OrderBook.getLevelForPrice, halloc.rest, OrderBook.getLevelForPrice]
  -- both branches of `addOrderToBook` come to the write of the entry
  have hadd : ∃ b₂, addOrderToBook (some p) b₁ =
      setClientOrder taker.clientId taker.clientOid (some p) b₂ := by
    unfold addOrderToBook
    rw [bind_of_ok (derefOrder_of_live hp₁), ho₁, get_bind, hslots]
    cases hslot : b.getLevelForPrice o.price with
    | none =>
      obtain ⟨b₂, hopen⟩ := h.openLevel_runs halloc hslot
      obtain ⟨hsame, -⟩ := halloc.open_ok h.levels_closed hslot hopen
      rw [if_pos rfl, bind_of_ok hopen]
      exact ⟨b₂, halloc.tail_eq hsame⟩
    | some l =>
      obtain ⟨x, y, -, -, -, happend⟩ := halloc.appendOrder_eq h.rings hslot
      rw [if_neg (by simp), bind_of_ok happend]
      exact ⟨_, halloc.tail_eq (sameOrders_setOrderLinks _ _)⟩
  obtain ⟨b₂, hadd⟩ := hadd
  refine ⟨p, b₂, o.added, ?_⟩
  unfold restOrder
  rw [bind_of_ok (getNextPriority_eq h.rings taker.price)]
  exact (bind_of_ok hallocate).trans (bind_of_eq hadd)

end Standing

/-! ## The order taken out again -/

section restored

variable {b b₁ : OrderBook B} {queue : Queues B} {p : OrderPtr} {o : Order}

/-- An order is its data and its links. -/
theorem OrderBook.order_ext {b b' : OrderBook B} {q : OrderPtr} (hdata : b'.data q = b.data q)
    (hnext : b'.orderLinks.next q = b.orderLinks.next q)
    (hprev : b'.orderLinks.prev q = b.orderLinks.prev q) : b'.order q = b.order q := by
  have hnext' : (b'.order q).next = (b.order q).next := hnext
  have hprev' : (b'.order q).prev = (b.order q).prev := hprev
  unfold OrderBook.data at hdata
  generalize b'.order q = o' at hdata hnext' hprev' ⊢
  generalize b.order q = o at hdata hnext' hprev' ⊢
  cases o'
  cases o
  simp_all

/-- A level is its fields and its links. -/
theorem OrderBook.level_ext {b b' : OrderBook B} {l : LevelPtr B}
    (hside : (b'.level l).side = (b.level l).side) (hprice : (b'.level l).price = (b.level l).price)
    (horder0 : (b'.level l).order0 = (b.level l).order0)
    (hnext : b'.levelLinks.next l = b.levelLinks.next l)
    (hprev : b'.levelLinks.prev l = b.levelLinks.prev l) : b'.level l = b.level l := by
  have hnext' : (b'.level l).next = (b.level l).next := hnext
  have hprev' : (b'.level l).prev = (b.level l).prev := hprev
  generalize b'.level l = x' at hside hprice horder0 hnext' hprev' ⊢
  generalize b.level l = x at hside hprice horder0 hnext' hprev' ⊢
  cases x'
  cases x
  simp_all

/-- The order of a filing leaves no links behind. -/
theorem Files.orderLinks_restored (h : Files b b₁ queue p o) (hr : Rings b queue) {q : OrderPtr}
    (hq : q ≠ p) :
    (b₁.orderLinks.bypass p).next q = b.orderLinks.next q ∧
      (b₁.orderLinks.bypass p).prev q = b.orderLinks.prev q := by
  obtain ⟨hfiled, ⟨l, ha⟩ | ⟨n, best', ho⟩⟩ := h
  · obtain ⟨x, y, hx, hy, hlinks⟩ := ha.links
    have hne : ∀ z ∈ queue (slotOf B o.price), z ≠ p :=
      fun z hz e => hfiled.fresh (e ▸ hr.live_of_mem hz)
    rw [hlinks]
    exact Links.splice_bypass ((hr.queue_ring _).joined_last hx hy)
      (hne y (List.mem_of_head? hy)) hq
  · rw [ho.orderLinks]
    exact Links.join_self_bypass hq

/-- A new level leaves no links behind. -/
theorem Opened.levelLinks_restored {side : Side} {price : Price} {n : LevelPtr B}
    {best' : Option (LevelPtr B)} (h : Opened b b₁ p side price n best') {l : LevelPtr B}
    (hl : l ≠ n) :
    (b₁.levelLinks.bypass n).next l = b.levelLinks.next l ∧
      (b₁.levelLinks.bypass n).prev l = b.levelLinks.prev l := by
  cases h.placed with
  | only _ hlinks =>
    rw [hlinks]
    exact Links.join_self_bypass hl
  | beside best x y rest _ _ hlive hx hy hxy hlinks _ =>
    have hne : ∀ z ∈ best :: rest, z ≠ n := fun z hz e => h.fresh (e ▸ hlive z hz)
    rw [hlinks]
    exact Links.splice_bypass hxy (hne y hy) hl

/-- **The best pointer comes back** when a new level goes: a level that has become the best one was
put in front of the old one. -/
theorem Opened.bestWithout_eq {side : Side} {price : Price} {n : LevelPtr B}
    {best' : Option (LevelPtr B)} (h : Opened b b₁ p side price n best') :
    b₁.bestWithout side n = b.bestOf side := by
  have hbest₁ : b₁.bestOf side = best' := by
    rw [OrderBook.bestOf, h.bids, h.asks]
    by_cases hs : side = .buy
    · rw [if_pos hs, if_pos hs]
    · rw [if_neg hs, if_neg hs]
  cases h.placed with
  | only hbest hlinks =>
    have hnext : (b₁.level n).next = some n := by
      show b₁.levelLinks.next n = _
      rw [hlinks, Links.join_next, if_pos rfl]
    rw [OrderBook.bestWithout, if_pos hnext, hbest]
  | beside best x y rest hbest hring hlive hx hy hxy hlinks hring' =>
    have hne : ∀ z ∈ best :: rest, z ≠ n := fun z hz e => h.fresh (e ▸ hlive z hz)
    have hnext : (b₁.level n).next = some y := by
      show b₁.levelLinks.next n = _
      rw [hlinks, Links.splice_next, if_pos rfl]
    by_cases hbecomes : becomesBest side price (b₁.level best).price = true
    · -- the level was put at the end of the ring, so that the old best level follows it
      have hafter : addsAfter side price (b₁.level best).price = false := by
        apply Bool.eq_false_iff.mpr
        intro hafter
        rw [becomesBest_of_addsAfter hafter] at hbecomes
        cases hbecomes
      have hplace : placeLevel (fun z => addsAfter side price (b₁.level z).price) n best rest =
          best :: rest ++ [n] := by
        unfold placeLevel
        simp only [hafter, Bool.false_eq_true, if_false]
      rw [hplace] at hring'
      have hjoined : b₁.levelLinks.Joined n best := by
        apply hring'.joined_last
        · exact List.getLast?_concat
        · rfl
      have hnext' : (b₁.level n).next = some best := hjoined.1
      rw [if_pos hbecomes] at hbest₁
      rw [OrderBook.bestWithout, hnext', if_neg, if_pos hbest₁, hbest]
      exact fun e => hne best List.mem_cons_self (Option.some.inj e)
    · rw [if_neg hbecomes] at hbest₁
      rw [OrderBook.bestWithout_of_ne b₁ n hnext (hne y hy), hbest₁, hbest]
      rw [hbest₁]
      exact fun e => hne best List.mem_cons_self (Option.some.inj e)

/-- The order of a filing is alone in its ring exactly under a new level. -/
theorem Appended.not_alone {l : LevelPtr B} (h : Appended b b₁ p o.price l (queue (slotOf B o.price)))
    (hfiled : Filed b b₁ p o) (hr : Rings b queue) : ¬ b₁.Alone p := by
  obtain ⟨x, y, hx, hy, hlinks⟩ := h.links
  have hne : ∀ z ∈ queue (slotOf B o.price), z ≠ p :=
    fun z hz e => hfiled.fresh (e ▸ hr.live_of_mem hz)
  have hprev : (b₁.order p).prev = some x := by
    show b₁.orderLinks.prev p = _
    rw [hlinks, Links.splice_prev, if_neg (hne y (List.mem_of_head? hy)).symm, if_pos rfl]
  intro ha
  exact hne x (List.mem_of_getLast? hx) (Option.some.inj (hprev.symm.trans ha))

theorem Opened.alone {n : LevelPtr B} {best' : Option (LevelPtr B)}
    (h : Opened b b₁ p o.side o.price n best') : b₁.Alone p := by
  show b₁.orderLinks.prev p = some p
  rw [h.orderLinks, Links.join_prev, if_pos rfl]

/-- The parts of a book a filing and the removal of its order leave as they were, whichever way the
order was filed. -/
theorem Files.restored_orders (h : Files b b₁ queue p o) (hr : Rings b queue)
    (hr₁ : Rings b₁ (Function.update queue (slotOf B o.price) (queue (slotOf B o.price) ++ [p])))
    (hentry : b.mapClientIdToOrder o.clientId o.clientOrderId = none) (l : LevelPtr B) :
    (b₁.detach p l).mapClientIdToOrder = b.mapClientIdToOrder ∧
      (∀ q, (b₁.detach p l).LiveOrder q ↔ b.LiveOrder q) ∧
      ∀ q, b.LiveOrder q → (b₁.detach p l).order q = b.order q := by
  have hfiled := h.1
  have hmem : p ∈ Function.update queue (slotOf B o.price) (queue (slotOf B o.price) ++ [p])
      (slotOf B (b₁.order p).price) := by
    rw [hfiled.price_self, Function.update_self]
    exact List.mem_append_right _ (List.mem_singleton_self p)
  refine ⟨?_, ?_, ?_⟩
  · funext c k
    rw [OrderBook.mapClientIdToOrder_detach, mapWith_apply, hfiled.clientId_self,
      hfiled.clientOrderId_self, hfiled.clientMap, mapWith_apply]
    split
    · rename_i hkey
      rw [hkey.1, hkey.2, hentry]
    · rfl
  · intro q
    rw [OrderBook.liveOrder_detach, hfiled.liveOrder]
    constructor
    · rintro ⟨hq | hq, hne⟩
      · exact absurd hq hne
      · exact hq
    · exact fun hq => ⟨.inr hq, fun e => hfiled.fresh (e ▸ hq)⟩
  · intro q hq
    have hne : q ≠ p := fun e => hfiled.fresh (e ▸ hq)
    obtain ⟨hnext, hprev⟩ := h.orderLinks_restored hr hne
    apply OrderBook.order_ext
    · rw [OrderBook.data_detach, hfiled.data_of_ne q hne]
    · rw [hr₁.orderLinks_detach hmem, hnext]
    · rw [hr₁.orderLinks_detach hmem, hprev]

/-- The levels after the order has gone from a level that held others. -/
theorem Appended.restored_levels {l : LevelPtr B}
    (h : Appended b b₁ p o.price l (queue (slotOf B o.price))) (hfiled : Filed b b₁ p o)
    (hr : Rings b queue) (l' : LevelPtr B) : (b₁.detach p l).level l' = b.level l' := by
  have halone := h.not_alone hfiled hr
  have hlevel : b₁.level l' = b.level l' := by rw [OrderBook.level, h.levels]
  have hhead : (b₁.level l).order0 ≠ some p := by
    rw [OrderBook.level, h.levels]
    intro h0
    have hfirst := hr.queue_head _ l h.slot
    rw [OrderBook.level, h0] at hfirst
    exact hfiled.fresh (hr.live_of_mem (List.mem_of_head? hfirst.symm))
  rw [← hlevel]
  apply OrderBook.level_ext
  · exact b₁.level_side_detach p l l'
  · exact b₁.level_price_detach p l l'
  · rw [OrderBook.level_order0_detach, if_neg (fun hc => hhead hc.2.2)]
  · rw [OrderBook.levelLinks_detach, if_neg halone]
  · rw [OrderBook.levelLinks_detach, if_neg halone]

/-- The levels after the order has gone together with its own. -/
theorem Opened.restored_levels {n : LevelPtr B} {best' : Option (LevelPtr B)}
    (h : Opened b b₁ p o.side o.price n best') {l' : LevelPtr B} (hl' : b.LiveLevel l') :
    (b₁.detach p n).level l' = b.level l' := by
  have hne : l' ≠ n := fun e => h.fresh (e ▸ hl')
  obtain ⟨hnext, hprev⟩ := h.levelLinks_restored hne
  apply OrderBook.level_ext
  · rw [OrderBook.level_side_detach, h.side_of_ne l' hne]
  · rw [OrderBook.level_price_detach, h.price_of_ne l' hne]
  · rw [OrderBook.level_order0_detach, if_neg (fun hc => hc.1 h.alone), h.order0_of_ne l' hne]
  · rw [OrderBook.levelLinks_detach, if_pos h.alone, hnext]
  · rw [OrderBook.levelLinks_detach, if_pos h.alone, hprev]

/-- The best pointers after the order has gone together with its own level. -/
theorem Opened.restored_best {n : LevelPtr B} {best' : Option (LevelPtr B)}
    (h : Opened b b₁ p o.side o.price n best') (hfiled : Filed b b₁ p o) (t : Side) :
    (b₁.detach p n).bestOf t = b.bestOf t := by
  rw [OrderBook.bestOf_detach, hfiled.side_self]
  split
  · rename_i hown
    rw [← OrderBook.bestWithout_congr b₁ n hown.2, h.bestWithout_eq, OrderBook.bestOf_congr b hown.2]
  · rename_i hother
    have hnot : ¬ OrderBook.SameBest o.side t := fun hsame => hother ⟨h.alone, hsame⟩
    unfold OrderBook.bestOf
    rw [h.bids, h.asks]
    by_cases ht : t = .buy
    · rw [if_pos ht, if_pos ht, if_neg (fun hs => hnot (iff_of_true hs ht))]
    · rw [if_neg ht, if_neg ht, if_pos]
      by_contra hs
      exact hnot (iff_of_false hs ht)

/-- **An order taken out again leaves the book as it was.** -/
theorem Files.restored {l : LevelPtr B} (h : Files b b₁ queue p o) (hr : Rings b queue)
    (hr₁ : Rings b₁ (Function.update queue (slotOf B o.price) (queue (slotOf B o.price) ++ [p])))
    (hentry : b.mapClientIdToOrder o.clientId o.clientOrderId = none)
    (hslot : b₁.getLevelForPrice o.price = some l) : Restored b (b₁.detach p l) := by
  obtain ⟨hmap, hlive, horder⟩ := h.restored_orders hr hr₁ hentry l
  have hprice := h.1.price_self
  obtain ⟨hfiled, ⟨l', ha⟩ | ⟨n, best', ho⟩⟩ := h
  · -- the order went behind others
    have halone := ha.not_alone hfiled hr
    rw [OrderBook.getLevelForPrice, ha.slots] at hslot
    obtain rfl := Option.some.inj (ha.slot.symm.trans hslot)
    refine ⟨?_, ?_, ?_, hmap, hlive, ?_, horder, fun l'' _ => ha.restored_levels hfiled hr l''⟩
    · rw [OrderBook.bids_detach, if_neg (fun hc => halone hc.1), ha.bids]
    · rw [OrderBook.asks_detach, if_neg (fun hc => halone hc.1), ha.asks]
    · funext s
      rw [OrderBook.slot_detach, if_neg (fun hc => halone hc.1), ha.slots]
    · intro l''
      rw [OrderBook.liveLevel_detach, OrderBook.LiveLevel, ha.levels]
      exact and_iff_left fun hc => halone hc.1
  · -- the order has a level of its own
    rw [OrderBook.getLevelForPrice, ho.slots, Function.update_self] at hslot
    obtain rfl := Option.some.inj hslot
    refine ⟨?_, ?_, ?_, hmap, hlive, ?_, horder, fun l' hl' => ho.restored_levels hl'⟩
    · exact ho.restored_best hfiled .buy
    · exact ho.restored_best hfiled .sell
    · funext s
      rw [OrderBook.slot_detach, hprice, ho.slots]
      have hfree : b.mapPriceToPriceLevel (slotOf B o.price) = none := ho.slot
      by_cases hs : s = slotOf B o.price
      · rw [if_pos ⟨ho.alone, hs⟩, hs, hfree]
      · rw [if_neg (fun hc => hs hc.2), Function.update_of_ne hs]
    · intro l'
      rw [OrderBook.liveLevel_detach, ho.liveLevel]
      constructor
      · rintro ⟨hl' | hl', hkeep⟩
        · exact absurd ⟨ho.alone, hl'⟩ hkeep
        · exact hl'
      · exact fun hl' => ⟨.inr hl', fun hgone => ho.fresh (hgone.2 ▸ hl')⟩

/-- What has been sent is carried along by a removal. -/
theorem OrderBook.detach_publish (b : OrderBook B) (log : List Emission) (p : OrderPtr)
    (l : LevelPtr B) :
    ({ b with ome := log } : OrderBook B).detach p l = { b.detach p l with ome := log } := by
  by_cases ha : b.Alone p
  · rw [detach_of_alone b p l ha, detach_of_alone _ p l (show Alone { b with ome := log } p from ha)]
    unfold dropLevel setBestTo
    split <;> rfl
  · rw [detach_of_not_alone b p l ha,
      detach_of_not_alone _ p l (show ¬ Alone { b with ome := log } p from ha)]
    unfold unlinked
    split <;> rfl

end restored

/-! ## There and back -/

section undone

variable {b : OrderBook B} {ring : Side → List (LevelPtr B)}
  {orders : LevelPtr B → List OrderPtr} {taker : NewOrder}

/-- A new order whose price is out of reach finds nothing to match. -/
theorem Linked.nextMatch_outOfReach (h : Linked b ring orders) (hreach : OutOfReach b taker)
    (qty : Qty) : nextMatch taker qty b = .ok none b := by
  unfold nextMatch
  by_cases hqty : qty = 0
  · rw [if_pos hqty]
    rfl
  rw [if_neg hqty, get_bind]
  cases hopp : b.opposite taker.side with
  | none => rfl
  | some best =>
    have hside : taker.side.Proper := proper_of_opposite hopp
    have hother := hside.other_proper
    have hbest : best ∈ ring taker.side.other := by
      apply List.mem_of_head?
      rw [← h.head _ hother, ← opposite_eq b hside, hopp]
    have hlisted : Listed ring best := ⟨_, hother, hbest⟩
    obtain ⟨q, hq⟩ : ∃ q, (orders best).head? = some q := by
      rw [← Option.isSome_iff_exists, List.isSome_head?]
      exact h.orders_ne_nil best hlisted
    have hlive : b.LiveOrder q := h.orders_live best hlisted q (List.mem_of_head? hq)
    have h0 : (b.level best).order0 = some q := (h.orders_head best hlisted).trans hq
    simp only []
    rw [bind_of_ok (derefLevel_of_live (h.liveLevel best hlisted)), h0,
      bind_of_ok (derefOrder_of_live hlive), if_pos (hreach best q hopp h0)]
    rfl

/-- A loop that stops before its first turn. -/
theorem findMatch_of_none {stray : ℕ → Qty} {newMarketOid : OrderID}
    (hnext : nextMatch taker taker.qty b = .ok none b) :
    findMatch stray taker newMarketOid b = .ok taker.qty b := by
  unfold findMatch matchFuel matchLoop
  rw [bind_of_ok hnext]
  rfl

/-- A new order that finds nothing to match comes to rest as it is. -/
theorem Linked.addOrder_outOfReach (h : Linked b ring orders) (hreach : OutOfReach b taker)
    (hqty : taker.qty ≠ 0) (stray : ℕ → Qty) :
    addOrder stray taker b = restOrder taker b.nextMarketOid taker.qty (b.accept taker) := by
  have hid : getNewMarketOrderId b =
      .ok b.nextMarketOid { b with nextMarketOid := b.nextMarketOid + 1 } := rfl
  have hnext : nextMatch taker taker.qty (b.accept taker) = .ok none (b.accept taker) :=
    (h.restored (restored_accept b taker)).nextMatch_outOfReach hreach taker.qty
  unfold addOrder
  rw [bind_of_ok hid, bind_of_ok (dispatchClientResponse_apply _ _)]
  refine (bind_of_ok (findMatch_of_none hnext)).trans ?_
  rw [if_neg hqty]

/-- **A new order that finds nothing to match comes to rest** on a standing book with a free order
block. -/
theorem Standing.addOrder_rests (h : Standing b ring orders) (hreach : OutOfReach b taker)
    (hqty : taker.qty ≠ 0) (hin : InClientMap B taker.clientId taker.clientOid)
    (hfree : ∃ p, ¬ b.LiveOrder p) (stray : ℕ → Qty) :
    ∃ p b₁ o, o = taker.toOrder b.nextMarketOid taker.qty
        ((b.accept taker).priorityAfter
          ((b.accept taker).slotOrders orders (slotOf B taker.price))) ∧
      Files (b.accept taker) b₁ ((b.accept taker).slotOrders orders) p o ∧
      addOrder stray taker b = .ok () { b₁ with ome := b₁.ome ++ [.update o.added] } := by
  have h₀ : Standing (b.accept taker) ring orders := h.accept taker
  obtain ⟨q, b', u, hrest⟩ := h₀.restOrder_eq hfree b.nextMarketOid taker.qty
  rw [bind_of_ok (setClientOrder_of_mem (some q) hin), publishMarketUpdate_apply] at hrest
  have hadd := (h.addOrder_outOfReach hreach hqty stray).trans hrest
  obtain ⟨p, b₁, o, ho, hfiles, hb₁⟩ := restOrder_ok h₀.rings h₀.levels_closed hrest
  rw [hb₁] at hadd
  exact ⟨p, b₁, o, ho, hfiles, hadd⟩

/-- What has been sent has no part in the rings. -/
theorem Rings.publish {queue : Queues B} (h : Rings b queue) (log : List Emission) :
    Rings { b with ome := log } queue :=
  ⟨h.liveLevel, h.slot_price, h.slots_closed, h.queue_nil, h.queue_head, h.queue_ring, h.live_iff,
    h.queue_inj⟩

/-- The cancel of an order just filed takes that order out, and the book is as it was. -/
theorem Files.cancelled {queue : Queues B} {b₁ : OrderBook B} {p : OrderPtr} {o : Order}
    {r : CancelOrder} (h : Files b b₁ queue p o) (hr : Rings b queue)
    (hlive : ∀ l, b.LiveLevel l ↔ ∃ s, b.mapPriceToPriceLevel s = some l)
    (hentry : b.mapClientIdToOrder o.clientId o.clientOrderId = none) (hc : r.clientId = o.clientId)
    (hk : r.orderId = o.clientOrderId) (log : List Emission) :
    ∃ b₂, cancelOrder r { b₁ with ome := log } = .ok () b₂ ∧ Restored b b₂ ∧
      b₂.nextMarketOid = b.nextMarketOid ∧ b₂.ome = log ++ r.events o := by
  have hr₁ := hr.files hlive h
  have hfiled := h.1
  have hmem : p ∈ Function.update queue (slotOf B o.price) (queue (slotOf B o.price) ++ [p])
      (slotOf B (b₁.order p).price) := by
    rw [hfiled.price_self, Function.update_self]
    exact List.mem_append_right _ (List.mem_singleton_self p)
  obtain ⟨l, hl⟩ : ∃ l, b₁.getLevelForPrice o.price = some l := by
    rw [← Option.ne_none_iff_exists']
    intro hnone
    have hnil := (hr₁.queue_nil _).mp hnone
    rw [Function.update_self] at hnil
    simp at hnil
  have hin : InClientMap B (b₁.order p).clientId (b₁.order p).clientOrderId := by
    rw [hfiled.clientId_self, hfiled.clientOrderId_self]
    exact hfiled.inClientMap
  have hslot : b₁.getLevelForPrice (b₁.order p).price = some l := by rw [hfiled.price_self, hl]
  set b₂ : OrderBook B := { b₁ with ome := log } with hb₂
  have hfinds : Finds b₂ r p l := by
    refine ⟨?_, ?_, ?_, (hfiled.liveOrder p).mpr (.inl rfl), hslot⟩
    · rw [hc]
      exact hfiled.inClientMap.1
    · rw [hk]
      exact hfiled.inClientMap.2
    · show b₁.mapClientIdToOrder r.clientId r.orderId = some p
      rw [hfiled.clientMap, mapWith_apply, if_pos ⟨hc, hk⟩]
  have hevents : r.events (b₂.order p) = r.events o := by
    rw [← hfiled.data_self]
    rfl
  refine ⟨b₂.cancel r p l, (hr₁.publish log).cancelOrder_found hmem hin hfinds, ?_, ?_, ?_⟩
  · rw [OrderBook.cancel, hb₂, OrderBook.detach_publish]
    exact (h.restored hr hr₁ hentry hl).publish _
  · show (b₂.detach p l).nextMarketOid = _
    rw [OrderBook.nextMarketOid_detach]
    exact hfiled.nextMarketOid
  · show log ++ r.events (b₂.order p) = _
    rw [hevents]

end undone

/-- **Add then cancel is the identity on the book.** On a standing book a new order that finds
nothing to match, has a free block to go to and comes with a key not taken is accepted and put to
rest, and its cancel then leaves the book as it was. -/
theorem add_then_cancel (stray : ℕ → Qty) (b : OrderBook B) (ring : Side → List (LevelPtr B))
    (orders : LevelPtr B → List OrderPtr) (h : Standing b ring orders) (taker : NewOrder)
    (hreach : OutOfReach b taker) (hqty : taker.qty ≠ 0)
    (hin : InClientMap B taker.clientId taker.clientOid)
    (hentry : b.mapClientIdToOrder taker.clientId taker.clientOid = none)
    (hfree : ∃ p, ¬ b.LiveOrder p) :
    ∃ b₁ b₂, addOrder stray taker b = .ok () b₁ ∧
      cancelOrder taker.cancellation b₁ = .ok () b₂ ∧ Undone b b₂ ring orders taker := by
  have h₀ : Standing (b.accept taker) ring orders := h.accept taker
  -- the order comes to rest
  obtain ⟨p, b₁, o, ho, hfiles, hadd⟩ := h.addOrder_rests hreach hqty hin hfree stray
  -- and is taken out again
  have hc : taker.cancellation.clientId = o.clientId := by rw [ho]; rfl
  have hk : taker.cancellation.orderId = o.clientOrderId := by rw [ho]; rfl
  have hentry₀ : (b.accept taker).mapClientIdToOrder o.clientId o.clientOrderId = none := by
    rw [← hc, ← hk]
    exact hentry
  obtain ⟨b₂, hcancel, hrestored, hnext, home⟩ :=
    hfiles.cancelled h₀.rings h₀.liveLevel_iff hentry₀ hc hk (b₁.ome ++ [.update o.added])
  have hpools₁ := keepsPools_addOrder stray taker b () _ h.pools hadd
  have hpools₂ := keepsPools_cancelOrder taker.cancellation _ () b₂ hpools₁ hcancel
  have hsame : Restored b b₂ := (restored_accept b taker).trans hrestored
  refine ⟨_, b₂, hadd, hcancel, hsame, h.restored hsame hpools₂, ?_, ?_, hnext, o, _, ho, ?_⟩
  · exact h.pools.orders.count_congr hpools₂.orders hsame.liveOrder
  · exact h.pools.levels.count_congr hpools₂.levels hsame.liveLevel
  · rw [home, hfiles.1.ome]
    simp [OrderBook.accept]

/-- A bid at 99 comes behind the one that is there, in a book with levels on both sides, and is
cancelled again. -/
theorem add_then_cancel_sample :
    ∃ (b b₁ b₂ : OrderBook .production) (ring : Side → List (LevelPtr .production)),
      RunsTo (fun _ => 0) ladders b ∧
        b.quotesFrom b.asksByPrice = [(101, [5]), (102, [10])] ∧
        b.quotesFrom b.bidsByPrice = [(100, [4]), (99, [10]), (98, [10])] ∧
        addOrder (fun _ => 0) ⟨3, 3, 0, .buy, 99, 7⟩ b = .ok () b₁ ∧
        b₁.quotesFrom b₁.bidsByPrice = [(100, [4]), (99, [10, 7]), (98, [10])] ∧
        cancelOrder ⟨3, 3, 0⟩ b₁ = .ok () b₂ ∧
        Undone b b₂ ring b.ordersOf ⟨3, 3, 0, .buy, 99, 7⟩ := by
  have hrun : RunsTo (fun _ => 0) ladders (bookAfter .production (fun _ => 0) ladders) :=
    runsTo_bookAfter (by decide +kernel)
  have hkeeps : Meets (B := .production) KeepsBest (fun _ => 0) ladders :=
    meets_of_forall (by decide +kernel)
  obtain ⟨queue, hv⟩ := hrun.valid
  obtain ⟨⟨ring, htwo⟩, -⟩ := hasSides_throughout hkeeps ladders [] _ (List.append_nil _).symm hrun
  have hreach : OutOfReach (bookAfter .production (fun _ => 0) ladders) ⟨3, 3, 0, .buy, 99, 7⟩ := by
    intro best p hbest h0
    have hfirst : (((bookAfter .production (fun _ => 0) ladders).asksByPrice.bind fun l =>
        ((bookAfter .production (fun _ => 0) ladders).level l).order0).map fun p =>
          misses .buy 99 ((bookAfter .production (fun _ => 0) ladders).order p).price) =
        some true := by decide +kernel
    change (bookAfter .production (fun _ => 0) ladders).asksByPrice = some best at hbest
    rw [hbest, Option.bind_some, h0] at hfirst
    exact Option.some.inj hfirst
  obtain ⟨b₁, b₂, hadd, hcancel, hundone⟩ :=
    add_then_cancel (fun _ => 0) _ ring _ (htwo.standing hv hrun) ⟨3, 3, 0, .buy, 99, 7⟩ hreach
      (by decide) (by decide) (by decide +kernel) ⟨⟨20, by decide⟩, by decide +kernel⟩
  have hbids : (match addOrder (fun _ => 0) ⟨3, 3, 0, .buy, 99, 7⟩
      (bookAfter .production (fun _ => 0) ladders) with
      | .ok _ b => b.quotesFrom b.bidsByPrice
      | .error _ _ => []) = [(100, [4]), (99, [10, 7]), (98, [10])] := by decide +kernel
  rw [hadd] at hbids
  exact ⟨_, b₁, b₂, ring, hrun, by decide +kernel, by decide +kernel, hadd, hbids, hcancel, hundone⟩

end HftSys
