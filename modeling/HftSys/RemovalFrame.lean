import HftSys.PriceIndex

/-!
# What a removal leaves alone

`WellFormed b ring orders` is a book as its drawing shows it: two rings of levels, a ring of orders
under each level, a slot table that holds exactly these levels. Nothing is said about the client
map, about how the book came about or about the order of the prices.

* `wellFormed_throughout`: the books of a run are well-formed as long as every order comes to rest
  under a level of its own side and price.
* `removal_frame`: on such a book `removeOrderFromBook` succeeds, the book stays well-formed with
  the order taken out of its ring, and everything else is as it was (`RemovesOnly`).
-/

namespace HftSys

open Circular

variable {B : Build}

/-- Level `l` is in the ring of one of the two sides. -/
def Listed (ring : Side → List (LevelPtr B)) (l : LevelPtr B) : Prop :=
  ∃ s : Side, s.Proper ∧ l ∈ ring s

/-- The rings of a book: the levels `ring` on its sides, the orders `orders` in its levels, and the
slot table that holds exactly these levels. -/
structure Linked (b : OrderBook B) (ring : Side → List (LevelPtr B))
    (orders : LevelPtr B → List OrderPtr) : Prop extends SideRings b ring where
  liveLevel : ∀ l, Listed ring l → b.LiveLevel l
  slot_iff : ∀ s l, b.mapPriceToPriceLevel s = some l ↔
    Listed ring l ∧ slotOf B (b.level l).price = s
  orders_isRing : ∀ l, Listed ring l → b.orderLinks.IsRing (orders l)
  orders_ne_nil : ∀ l, Listed ring l → orders l ≠ []
  orders_head : ∀ l, Listed ring l → (b.level l).order0 = (orders l).head?
  orders_live : ∀ l, Listed ring l → ∀ p ∈ orders l, b.LiveOrder p
  exists_ring : ∀ p, b.LiveOrder p → ∃ l, Listed ring l ∧ p ∈ orders l
  ring_unique : ∀ l l' p, Listed ring l → Listed ring l' → p ∈ orders l → p ∈ orders l' → l = l'

/-- A book whose orders have the side and price of their level. -/
structure WellFormed (b : OrderBook B) (ring : Side → List (LevelPtr B))
    (orders : LevelPtr B → List OrderPtr) : Prop extends Linked b ring orders where
  orders_side : ∀ l, Listed ring l → ∀ p ∈ orders l, (b.order p).side = (b.level l).side
  orders_price : ∀ l, Listed ring l → ∀ p ∈ orders l, (b.order p).price = (b.level l).price

/-- What a removal of order `p` from level `l` does to the rest of the book. -/
structure RemovesOnly (b b' : OrderBook B) (ring : Side → List (LevelPtr B))
    (orders : LevelPtr B → List OrderPtr) (p : OrderPtr) (l : LevelPtr B) : Prop where
  /-- The other orders keep their places in their rings, and the other levels theirs. -/
  wellFormed : WellFormed b' (b.ringsWithout ring p l)
    (Function.update orders l ((orders l).erase p))
  liveOrder : ∀ q, b'.LiveOrder q ↔ b.LiveOrder q ∧ q ≠ p
  /-- Every order keeps its fields other than links. -/
  data : ∀ q, b'.data q = b.data q
  listed : ∀ l', Listed (b.ringsWithout ring p l) l' ↔
    Listed ring l' ∧ ¬ (orders l = [p] ∧ l' = l)
  liveLevel : ∀ l', b'.LiveLevel l' ↔ b.LiveLevel l' ∧ ¬ (orders l = [p] ∧ l' = l)
  level_side : ∀ l', (b'.level l').side = (b.level l').side
  level_price : ∀ l', (b'.level l').price = (b.level l').price
  level_order0 : ∀ l', l' ≠ l → (b'.level l').order0 = (b.level l').order0
  best_other : ∀ s, s.Proper → s ≠ (b.order p).side → b'.bestOf s = b.bestOf s
  best_own : b'.bestOf (b.order p).side =
    if orders l = [p] ∧ b.bestOf (b.order p).side = some l then
      if (b.level l).next = some l then none else (b.level l).next
    else b.bestOf (b.order p).side
  slots : ∀ s, b'.mapPriceToPriceLevel s =
    if orders l = [p] ∧ s = slotOf B (b.level l).price then none else b.mapPriceToPriceLevel s
  clientMap : ∀ c k, b'.mapClientIdToOrder c k =
    if c = (b.order p).clientId ∧ k = (b.order p).clientOrderId then none
    else b.mapClientIdToOrder c k
  freeOrders : b'.orderPool.freeBlocksCount = b.orderPool.freeBlocksCount + 1
  freeLevels : b'.ordersAtPricePool.freeBlocksCount =
    b.ordersAtPricePool.freeBlocksCount + if orders l = [p] then 1 else 0
  nextMarketOid : b'.nextMarketOid = b.nextMarketOid
  ome : b'.ome = b.ome

/-! ## The rings of a well-formed book -/

/-- The orders of every price slot, given those of every level. -/
def OrderBook.slotOrders (b : OrderBook B) (orders : LevelPtr B → List OrderPtr) : Queues B :=
  fun s =>
    match b.mapPriceToPriceLevel s with
    | none => []
    | some l => orders l

theorem OrderBook.slotOrders_of_none {b : OrderBook B} {orders : LevelPtr B → List OrderPtr}
    {s : PriceSlot B} (h : b.mapPriceToPriceLevel s = none) : b.slotOrders orders s = [] := by
  rw [slotOrders, h]

theorem OrderBook.slotOrders_of_some {b : OrderBook B} {orders : LevelPtr B → List OrderPtr}
    {s : PriceSlot B} {l : LevelPtr B} (h : b.mapPriceToPriceLevel s = some l) :
    b.slotOrders orders s = orders l := by
  rw [slotOrders, h]

/-- A queued order is one of a level in the slot table. -/
theorem OrderBook.mem_slotOrders {b : OrderBook B} {orders : LevelPtr B → List OrderPtr}
    {s : PriceSlot B} {p : OrderPtr} :
    p ∈ b.slotOrders orders s ↔ ∃ l, b.mapPriceToPriceLevel s = some l ∧ p ∈ orders l := by
  cases hs : b.mapPriceToPriceLevel s with
  | none => simp [slotOrders_of_none hs]
  | some l => simp [slotOrders_of_some hs]

namespace Linked

variable {b : OrderBook B} {ring : Side → List (LevelPtr B)}
  {orders : LevelPtr B → List OrderPtr} {p : OrderPtr} {l : LevelPtr B}

/-- A listed level is in the slot of its own price. -/
theorem slot_of_listed (h : Linked b ring orders) (hl : Listed ring l) :
    b.mapPriceToPriceLevel (slotOf B (b.level l).price) = some l :=
  (h.slot_iff _ l).mpr ⟨hl, rfl⟩

/-- The listed levels are those of the slot table. -/
theorem listed_iff (h : Linked b ring orders) :
    Listed ring l ↔ ∃ s, b.mapPriceToPriceLevel s = some l :=
  ⟨fun hl => ⟨_, h.slot_of_listed hl⟩, fun ⟨s, hs⟩ => ((h.slot_iff s l).mp hs).1⟩

/-- The side of a listed level is one of the two, and the level is in its ring. -/
theorem mem_ring (h : Linked b ring orders) (hl : Listed ring l) :
    (b.level l).side.Proper ∧ l ∈ ring (b.level l).side := by
  obtain ⟨s, hs, hmem⟩ := hl
  rw [h.side s hs l hmem]
  exact ⟨hs, hmem⟩

/-- **The links of a well-formed book.** -/
theorem rings (h : Linked b ring orders) : Rings b (b.slotOrders orders) where
  liveLevel s l hl := h.liveLevel l ((h.slot_iff s l).mp hl).1
  slot_price s l hl := ((h.slot_iff s l).mp hl).2
  slots_closed := by
    simp only [← h.listed_iff]
    constructor
    · rintro l ⟨s, hs, hl⟩
      obtain ⟨y, hy, hly⟩ := (h.isRing s hs).exists_next hl
      exact ⟨y, ⟨s, hs, hy⟩, hly⟩
    · rintro l ⟨s, hs, hl⟩
      obtain ⟨x, hx, hxl⟩ := (h.isRing s hs).exists_prev hl
      exact ⟨x, ⟨s, hs, hx⟩, hxl⟩
  queue_nil s := by
    cases hs : b.mapPriceToPriceLevel s with
    | none => simp [OrderBook.slotOrders_of_none hs]
    | some l =>
      rw [OrderBook.slotOrders_of_some hs]
      simp [h.orders_ne_nil l (h.listed_iff.mpr ⟨s, hs⟩)]
  queue_head s l hs := by
    rw [OrderBook.slotOrders_of_some hs]
    exact h.orders_head l (h.listed_iff.mpr ⟨s, hs⟩)
  queue_ring s := by
    cases hs : b.mapPriceToPriceLevel s with
    | none =>
      rw [OrderBook.slotOrders_of_none hs]
      exact Links.isRing_nil
    | some l =>
      rw [OrderBook.slotOrders_of_some hs]
      exact h.orders_isRing l (h.listed_iff.mpr ⟨s, hs⟩)
  live_iff p := by
    simp only [OrderBook.mem_slotOrders]
    constructor
    · intro hp
      obtain ⟨l, hl, hmem⟩ := h.exists_ring p hp
      exact ⟨_, l, h.slot_of_listed hl, hmem⟩
    · rintro ⟨s, l, hs, hmem⟩
      exact h.orders_live l (h.listed_iff.mpr ⟨s, hs⟩) p hmem
  queue_inj s s' p hp hp' := by
    obtain ⟨l, hs, hmem⟩ := OrderBook.mem_slotOrders.mp hp
    obtain ⟨l', hs', hmem'⟩ := OrderBook.mem_slotOrders.mp hp'
    obtain rfl := h.ring_unique l l' p (h.listed_iff.mpr ⟨s, hs⟩) (h.listed_iff.mpr ⟨s', hs'⟩)
      hmem hmem'
    exact ((h.slot_iff s l).mp hs).2.symm.trans ((h.slot_iff s' l).mp hs').2

end Linked

namespace WellFormed

variable {b : OrderBook B} {ring : Side → List (LevelPtr B)}
  {orders : LevelPtr B → List OrderPtr} {p : OrderPtr} {l : LevelPtr B}

/-- The level of an order. -/
theorem slot_of_mem (h : WellFormed b ring orders) (hl : Listed ring l) (hp : p ∈ orders l) :
    b.getLevelForPrice (b.order p).price = some l := by
  rw [OrderBook.getLevelForPrice, h.orders_price l hl p hp]
  exact h.slot_of_listed hl

/-- An order is queued in the slot of its price. -/
theorem mem_slotOrders (h : WellFormed b ring orders) (hl : Listed ring l) (hp : p ∈ orders l) :
    p ∈ b.slotOrders orders (slotOf B (b.order p).price) :=
  OrderBook.mem_slotOrders.mpr ⟨l, h.slot_of_mem hl hp, hp⟩

/-- An order is alone exactly when its level holds nothing else. -/
theorem alone_iff (h : WellFormed b ring orders) (hl : Listed ring l) (hp : p ∈ orders l) :
    b.Alone p ↔ orders l = [p] := by
  rw [h.rings.alone_iff (h.mem_slotOrders hl hp), OrderBook.slotOrders_of_some (h.slot_of_mem hl hp)]

end WellFormed

/-! ## Reachable books -/

section reachable

variable {stray : ℕ → Qty} {rs : List Request} {b : OrderBook B} {queue : Queues B}

/-- A listed level sits in the slot of its own price. -/
theorem TwoSided.slot_of_listed {ring : Side → List (LevelPtr B)} (h : TwoSided b ring)
    (hv : Valid b queue) {l : LevelPtr B} (hl : Listed ring l) :
    b.mapPriceToPriceLevel (slotOf B (b.level l).price) = some l := by
  obtain ⟨s, hs, hmem⟩ := hl
  exact hv.slot_of_live (h.live s hs l hmem)

/-- An order of a listed level is in use, and its price leads to the level. -/
theorem TwoSided.order_of_listed {ring : Side → List (LevelPtr B)} (h : TwoSided b ring)
    (hv : Valid b queue) {l : LevelPtr B} {p : OrderPtr} (hl : Listed ring l)
    (hp : p ∈ b.ordersOf l) :
    b.LiveOrder p ∧ b.getLevelForPrice (b.order p).price = some l := by
  have hslot := h.slot_of_listed hv hl
  rw [hv.ordersOf_eq hslot] at hp
  obtain ⟨hlive, hprice⟩ := (hv.mem_queue _ p).mp hp
  refine ⟨hlive, ?_⟩
  rw [OrderBook.getLevelForPrice, hprice]
  exact hslot

/-- **A valid book with two sides is linked.** -/
theorem TwoSided.linked {ring : Side → List (LevelPtr B)} (h : TwoSided b ring)
    (hv : Valid b queue) : Linked b ring b.ordersOf := by
  have hlive : ∀ {l}, Listed ring l → b.LiveLevel l := fun ⟨s, hs, hl⟩ => h.live s hs _ hl
  have hslot : ∀ {l}, Listed ring l → b.mapPriceToPriceLevel (slotOf B (b.level l).price) = some l :=
    fun hl => h.slot_of_listed hv hl
  have hwalk : ∀ {l}, Listed ring l → b.ordersOf l = queue (slotOf B (b.level l).price) :=
    fun hl => hv.ordersOf_eq (hslot hl)
  have hlisted : ∀ {l}, b.LiveLevel l → Listed ring l := fun hl => ⟨_, h.mem _ hl⟩
  refine ⟨h.sideRings, fun l hl => hlive hl, ?_, ?_, ?_, ?_, ?_, ?_, ?_⟩
  · intro s l
    constructor
    · exact fun hs => ⟨hlisted (hv.live_of_slot hs), hv.slot_price s l hs⟩
    · rintro ⟨hl, rfl⟩
      exact hslot hl
  · intro l hl
    rw [hwalk hl]
    exact hv.queue_ring _
  · intro l hl
    rw [hwalk hl, Ne, ← hv.queue_nil, hslot hl]
    simp
  · intro l hl
    rw [hwalk hl]
    exact hv.queue_head _ l (hslot hl)
  · exact fun l hl p hp => (h.order_of_listed hv hl hp).1
  · intro p hp
    obtain ⟨l, hl⟩ := hv.exists_level hp
    have hl' := hlisted (hv.live_of_slot hl)
    refine ⟨l, hl', ?_⟩
    rw [hwalk hl', hv.slot_price _ l hl]
    exact hv.mem_queue_of_live hp
  · intro l l' p hl hl' hp hp'
    exact Option.some.inj
      ((h.order_of_listed hv hl hp).2.symm.trans (h.order_of_listed hv hl' hp').2)

/-- **A reachable book is well-formed** when its orders are like their levels. -/
theorem QuotesAgree.wellFormed (h : QuotesAgree b) (hv : Valid b queue) :
    ∃ ring, WellFormed b ring b.ordersOf := by
  obtain ⟨⟨⟨ring, htwo⟩, -⟩, hagrees⟩ := h
  refine ⟨ring, htwo.linked hv, ?_, ?_⟩
  · intro l hl p hp
    obtain ⟨hp', hlevel⟩ := htwo.order_of_listed hv hl hp
    exact congrArg Quote.side (hagrees p l hp' hlevel)
  · intro l hl p hp
    obtain ⟨hp', hlevel⟩ := htwo.order_of_listed hv hl hp
    exact congrArg Quote.price (hagrees p l hp' hlevel)

/-- The books of a run are well-formed as long as every order comes to rest under a level of its own
side and price. -/
theorem wellFormed_throughout (h : Meets (B := B) FilesExactly stray rs) :
    Throughout (B := B) (fun b => ∃ ring, WellFormed b ring b.ordersOf) stray rs := by
  intro rs₀ rs₁ b₀ hrs hrun
  obtain ⟨queue, hv⟩ := hrun.valid
  exact (quotesAgree_throughout h rs₀ rs₁ b₀ hrs hrun).wellFormed hv

end reachable

/-! ## The book without the order -/

section detach

variable {b : OrderBook B} {ring : Side → List (LevelPtr B)}
  {orders : LevelPtr B → List OrderPtr} {p : OrderPtr} {l : LevelPtr B}

/-- The levels listed after a removal. -/
theorem WellFormed.listed_detach (h : WellFormed b ring orders) (hl : Listed ring l)
    (hp : p ∈ orders l) (l' : LevelPtr B) :
    Listed (b.ringsWithout ring p l) l' ↔ Listed ring l' ∧ ¬ (orders l = [p] ∧ l' = l) := by
  obtain ⟨ht, hmem⟩ := h.mem_ring hl
  rw [← h.alone_iff hl hp]
  constructor
  · rintro ⟨s, hs, hl'⟩
    obtain ⟨hl', hkeep⟩ := (h.mem_ringsWithout ht hmem hs).mp hl'
    exact ⟨⟨s, hs, hl'⟩, hkeep⟩
  · rintro ⟨⟨s, hs, hl'⟩, hkeep⟩
    exact ⟨s, hs, (h.mem_ringsWithout ht hmem hs).mpr ⟨hl', hkeep⟩⟩

/-- The orders of a level after a removal. -/
theorem WellFormed.mem_update (h : WellFormed b ring orders) (hl : Listed ring l)
    (hp : p ∈ orders l) {l' : LevelPtr B} (hl' : Listed ring l') {q : OrderPtr} :
    q ∈ Function.update orders l ((orders l).erase p) l' ↔ q ∈ orders l' ∧ q ≠ p := by
  by_cases hll : l' = l
  · subst hll
    rw [Function.update_self, (h.orders_isRing l' hl).nodup.mem_erase_iff, and_comm]
  · rw [Function.update_of_ne hll]
    constructor
    · intro hq
      refine ⟨hq, ?_⟩
      rintro rfl
      exact hll (h.ring_unique l' l q hl' hl hq hp)
    · exact fun hq => hq.1

/-- The queue of a level's slot after a removal. -/
theorem WellFormed.queue_detach (h : WellFormed b ring orders) (hl : Listed ring l)
    (hp : p ∈ orders l) {l' : LevelPtr B} (hl' : Listed ring l') :
    Function.update (b.slotOrders orders) (slotOf B (b.order p).price)
        ((b.slotOrders orders (slotOf B (b.order p).price)).erase p) (slotOf B (b.level l').price) =
      Function.update orders l ((orders l).erase p) l' := by
  have hslot := h.slot_of_mem hl hp
  have hslot' := h.slot_of_listed hl'
  rw [OrderBook.slotOrders_of_some hslot]
  by_cases hll : l' = l
  · subst hll
    rw [h.orders_price l' hl p hp, Function.update_self, Function.update_self]
  · have hne : slotOf B (b.level l').price ≠ slotOf B (b.order p).price := by
      intro heq
      rw [heq] at hslot'
      exact hll (Option.some.inj (hslot'.symm.trans hslot))
    rw [Function.update_of_ne hne, Function.update_of_ne hll, OrderBook.slotOrders_of_some hslot']

/-- The slots of the levels listed after a removal. -/
theorem WellFormed.slot_iff_detach (h : WellFormed b ring orders) (hl : Listed ring l)
    (hp : p ∈ orders l) (s : PriceSlot B) (l' : LevelPtr B) :
    (b.detach p l).mapPriceToPriceLevel s = some l' ↔
      Listed (b.ringsWithout ring p l) l' ∧ slotOf B (b.level l').price = s := by
  have hkeep : b.mapPriceToPriceLevel s = some l' → (s = slotOf B (b.order p).price ↔ l' = l) :=
    fun hs => h.rings.slot_iff (h.slot_of_mem hl hp) hs
  rw [h.listed_detach hl hp, ← h.alone_iff hl hp, OrderBook.slot_detach]
  split
  · rename_i hgone
    simp only [reduceCtorEq, false_iff]
    rintro ⟨⟨hl', hstay⟩, hs⟩
    exact hstay ⟨hgone.1, (hkeep ((h.slot_iff s l').mpr ⟨hl', hs⟩)).mp hgone.2⟩
  · rename_i hstays
    constructor
    · intro hs
      obtain ⟨hl', hprice⟩ := (h.slot_iff s l').mp hs
      exact ⟨⟨hl', fun hgone => hstays ⟨hgone.1, (hkeep hs).mpr hgone.2⟩⟩, hprice⟩
    · rintro ⟨⟨hl', -⟩, hprice⟩
      exact (h.slot_iff s l').mpr ⟨hl', hprice⟩

/-- The rings stay linked without the order. -/
theorem WellFormed.linked_detach (h : WellFormed b ring orders) (hl : Listed ring l)
    (hp : p ∈ orders l) :
    Linked (b.detach p l) (b.ringsWithout ring p l)
      (Function.update orders l ((orders l).erase p)) := by
  obtain ⟨ht, hmem⟩ := h.mem_ring hl
  have hside : (b.order p).side = (b.level l).side := h.orders_side l hl p hp
  have hrings := h.rings.detach (h.mem_slotOrders hl hp) (h.slot_of_mem hl hp)
  have hlisted := h.listed_detach hl hp
  have hold : ∀ {l'}, Listed (b.ringsWithout ring p l) l' → Listed ring l' :=
    fun {l'} hl' => ((hlisted l').mp hl').1
  have hslotted : ∀ l', Listed (b.ringsWithout ring p l) l' →
      (b.detach p l).mapPriceToPriceLevel (slotOf B (b.level l').price) = some l' :=
    fun l' hl' => (h.slot_iff_detach hl hp _ l').mpr ⟨hl', rfl⟩
  constructor
  case toSideRings =>
    exact h.toSideRings.detach ht hmem (hside ▸ ht) (fun horphan => horphan.2.1 hside)
  case liveLevel =>
    intro l' hl'
    obtain ⟨hl', hkeep⟩ := (hlisted l').mp hl'
    rw [← h.alone_iff hl hp] at hkeep
    exact (b.liveLevel_detach p l l').mpr ⟨h.liveLevel l' hl', hkeep⟩
  case slot_iff =>
    intro s l'
    rw [OrderBook.level_price_detach]
    exact h.slot_iff_detach hl hp s l'
  case orders_isRing =>
    intro l' hl'
    rw [← h.queue_detach hl hp (hold hl')]
    exact hrings.queue_ring _
  case orders_ne_nil =>
    intro l' hl'
    rw [← h.queue_detach hl hp (hold hl'), Ne, ← hrings.queue_nil, hslotted l' hl']
    simp
  case orders_head =>
    intro l' hl'
    rw [← h.queue_detach hl hp (hold hl')]
    exact hrings.queue_head _ l' (hslotted l' hl')
  case orders_live =>
    intro l' hl' q hq
    obtain ⟨hq, hqp⟩ := (h.mem_update hl hp (hold hl')).mp hq
    exact (b.liveOrder_detach p q l).mpr ⟨h.orders_live l' (hold hl') q hq, hqp⟩
  case exists_ring =>
    intro q hq
    obtain ⟨hq, hqp⟩ := (b.liveOrder_detach p q l).mp hq
    obtain ⟨l', hl', hmem'⟩ := h.exists_ring q hq
    refine ⟨l', (hlisted l').mpr ⟨hl', ?_⟩, (h.mem_update hl hp hl').mpr ⟨hmem', hqp⟩⟩
    rintro ⟨hone, rfl⟩
    rw [hone, List.mem_singleton] at hmem'
    exact hqp hmem'
  case ring_unique =>
    intro l₁ l₂ q hl₁ hl₂ hq hq'
    exact h.ring_unique l₁ l₂ q (hold hl₁) (hold hl₂)
      ((h.mem_update hl hp (hold hl₁)).mp hq).1 ((h.mem_update hl hp (hold hl₂)).mp hq').1

/-- **The book stays well-formed** without the order. -/
theorem WellFormed.detach (h : WellFormed b ring orders) (hl : Listed ring l)
    (hp : p ∈ orders l) :
    WellFormed (b.detach p l) (b.ringsWithout ring p l)
      (Function.update orders l ((orders l).erase p)) := by
  have hold : ∀ {l' q}, Listed (b.ringsWithout ring p l) l' →
      q ∈ Function.update orders l ((orders l).erase p) l' → Listed ring l' ∧ q ∈ orders l' := by
    intro l' q hl' hq
    have hl'' := ((h.listed_detach hl hp l').mp hl').1
    exact ⟨hl'', ((h.mem_update hl hp hl'').mp hq).1⟩
  refine ⟨h.linked_detach hl hp, ?_, ?_⟩
  · intro l' hl' q hq
    obtain ⟨hl', hq⟩ := hold hl' hq
    rw [OrderBook.level_side_detach, OrderBook.side_of_data (b.data_detach p q l)]
    exact h.orders_side l' hl' q hq
  · intro l' hl' q hq
    obtain ⟨hl', hq⟩ := hold hl' hq
    rw [OrderBook.level_price_detach, OrderBook.price_of_data (b.data_detach p q l)]
    exact h.orders_price l' hl' q hq

/-- The best pointer of the removed order's side. -/
theorem WellFormed.best_own (h : WellFormed b ring orders) (hl : Listed ring l)
    (hp : p ∈ orders l) :
    (b.detach p l).bestOf (b.order p).side =
      if orders l = [p] ∧ b.bestOf (b.order p).side = some l then
        if (b.level l).next = some l then none else (b.level l).next
      else b.bestOf (b.order p).side := by
  obtain ⟨ht, hmem⟩ := h.mem_ring hl
  rw [OrderBook.bestOf_detach]
  simp only [← h.alone_iff hl hp]
  by_cases ha : b.Alone p
  · have hsame : OrderBook.SameBest (b.order p).side (b.order p).side := Iff.rfl
    rw [if_pos ⟨ha, hsame⟩, OrderBook.bestWithout]
    by_cases hnext : (b.level l).next = some l
    · -- a level that follows itself is the only one of its side
      have hone := (h.isRing _ ht).eq_singleton hmem hnext
      have hbest : b.bestOf (b.order p).side = some l := by
        rw [h.orders_side l hl p hp, h.head _ ht, hone]
        rfl
      rw [if_pos hnext, if_pos ⟨ha, hbest⟩, if_pos hnext]
    · rw [if_neg hnext, if_neg hnext]
      simp only [ha, true_and]
  · rw [if_neg (fun hc => ha hc.1), if_neg (fun hc => ha hc.1)]

end detach

/-! ## The pools -/

namespace OrderBook

variable (b : OrderBook B) (p : OrderPtr) (l : LevelPtr B)

theorem freeOrders_detach :
    (b.detach p l).orderPool.freeBlocksCount = b.orderPool.freeBlocksCount + 1 := by
  by_cases h : b.Alone p
  · rw [detach_of_alone b p l h]
    rfl
  · rw [detach_of_not_alone b p l h]
    rfl

theorem freeLevels_detach :
    (b.detach p l).ordersAtPricePool.freeBlocksCount =
      b.ordersAtPricePool.freeBlocksCount + if b.Alone p then 1 else 0 := by
  by_cases h : b.Alone p
  · rw [detach_of_alone b p l h, if_pos h]
    simp only [setEntry, dropLevel, ordersAtPricePool_setBestTo]
    rfl
  · rw [detach_of_not_alone b p l h, if_neg h]
    unfold setEntry unlinked
    split <;> rfl

end OrderBook

/-! ## The frame -/

/-- **Removal touches only the removed order.** On a well-formed book `removeOrderFromBook` takes an
order with ids inside the client map out of its level, and leaves the rest of the book as it was. -/
theorem removal_frame (b : OrderBook B) (ring : Side → List (LevelPtr B))
    (orders : LevelPtr B → List OrderPtr) (h : WellFormed b ring orders) (p : OrderPtr)
    (hp : b.LiveOrder p)
    (hin : InClientMap B (b.order p).clientId (b.order p).clientOrderId) :
    ∃ l b', Listed ring l ∧ p ∈ orders l ∧ removeOrderFromBook (some p) b = .ok () b' ∧
      RemovesOnly b b' ring orders p l := by
  obtain ⟨l, hl, hmem⟩ := h.exists_ring p hp
  have hslot := h.slot_of_mem hl hmem
  refine ⟨l, b.detach p l, hl, hmem,
    h.rings.removeOrderFromBook_eq (h.mem_slotOrders hl hmem) hin hslot, ?_⟩
  constructor
  case wellFormed => exact h.detach hl hmem
  case liveOrder => exact fun q => b.liveOrder_detach p q l
  case data => exact fun q => b.data_detach p q l
  case listed => exact h.listed_detach hl hmem
  case liveLevel =>
    intro l'
    rw [OrderBook.liveLevel_detach, h.alone_iff hl hmem]
  case level_side => exact fun l' => b.level_side_detach p l l'
  case level_price => exact fun l' => b.level_price_detach p l l'
  case level_order0 =>
    intro l' hne
    rw [OrderBook.level_order0_detach, if_neg (fun hc => hne hc.2.1)]
  case best_other =>
    intro s hs hne
    obtain ⟨ht, -⟩ := h.mem_ring hl
    rw [← h.orders_side l hl p hmem] at ht
    rw [OrderBook.bestOf_detach, if_neg (fun hc => hne ((ht.sameBest_iff hs).mp hc.2).symm)]
  case best_own => exact h.best_own hl hmem
  case slots =>
    intro s
    rw [OrderBook.slot_detach]
    simp only [h.alone_iff hl hmem, h.orders_price l hl p hmem]
  case clientMap =>
    intro c k
    rw [OrderBook.mapClientIdToOrder_detach, mapWith_apply]
  case freeOrders => exact b.freeOrders_detach p l
  case freeLevels =>
    rw [OrderBook.freeLevels_detach]
    simp only [h.alone_iff hl hmem]
  case nextMarketOid => exact b.nextMarketOid_detach p l
  case ome => exact b.ome_detach p l

/-- The first of two orders at 101 taken out of a book with levels on both sides. -/
theorem removal_frame_sample :
    ∃ (b b' : OrderBook .production) (ring : Side → List (LevelPtr .production))
      (orders : LevelPtr .production → List OrderPtr) (l : LevelPtr .production),
      RunsTo (fun _ => 0) (ladders.take 7) b ∧
        b.quotesFrom b.asksByPrice = [(101, [10, 5]), (102, [10])] ∧
        b.quotesFrom b.bidsByPrice = [(100, [4]), (99, [10]), (98, [10])] ∧
        removeOrderFromBook (some ⟨1, by decide⟩) b = .ok () b' ∧
        b'.quotesFrom b'.asksByPrice = [(101, [5]), (102, [10])] ∧
        RemovesOnly b b' ring orders ⟨1, by decide⟩ l := by
  have hmeets : Meets (B := .production) FilesExactly (fun _ => 0) (ladders.take 7) :=
    meets_of_forall (by decide +kernel)
  have hrun : RunsTo (fun _ => 0) (ladders.take 7)
      (bookAfter .production (fun _ => 0) (ladders.take 7)) := runsTo_bookAfter (by decide +kernel)
  obtain ⟨ring, hwf⟩ := wellFormed_throughout hmeets _ [] _ (List.append_nil _).symm hrun
  obtain ⟨l, b', -, -, hremove, honly⟩ := removal_frame _ ring _ hwf ⟨1, by decide⟩
    (by decide +kernel) (by decide +kernel)
  have hquotes : (match removeOrderFromBook (some ⟨1, by decide⟩)
      (bookAfter .production (fun _ => 0) (ladders.take 7)) with
      | .ok _ b₁ => b₁.quotesFrom b₁.asksByPrice
      | .error _ _ => []) = [(101, [5]), (102, [10])] := by decide +kernel
  rw [hremove] at hquotes
  exact ⟨_, b', ring, _, l, hrun, by decide +kernel, by decide +kernel, hremove, hquotes, honly⟩

end HftSys
