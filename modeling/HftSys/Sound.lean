import HftSys.View

/-!
# The invariant of every reachable book

`Sound b queue` ties a book's pools, slot table, order rings and client map together, whatever the
prices and sides of the orders it was given. `queue s` lists the orders filed in price slot `s`,
first to last. A slot may collect orders of several prices and of both sides (`addOrderToBook`
appends to whatever level it finds), so nothing is said about these here; and nothing about the best
pointers, which may dangle once an order has been filed under a level of the other side.
-/

namespace HftSys

open Circular Exec

variable {B : Build}

/-- The orders of every price slot, first to last. -/
abbrev Queues (B : Build) := PriceSlot B → List OrderPtr

/-- The levels in use are linked among themselves, when they are those of the slot table. -/
theorem OrderBook.closed_iff_slotted {b : OrderBook B}
    (h : ∀ l, b.LiveLevel l ↔ ∃ s, b.mapPriceToPriceLevel s = some l) :
    b.levelLinks.Closed b.LiveLevel ↔
      b.levelLinks.Closed fun l => ∃ s, b.mapPriceToPriceLevel s = some l := by
  rw [show b.LiveLevel = fun l => ∃ s, b.mapPriceToPriceLevel s = some l from
    funext fun l => propext (h l)]

/-- What the links of a book say, whatever the keys of its orders: the levels of the slot table are
in use, each in the slot of its own price, and linked among themselves; the orders of a slot form a
ring from its level's first order on; and every order in use is in one of these rings. -/
structure Rings (b : OrderBook B) (queue : Queues B) : Prop where
  liveLevel : ∀ s l, b.mapPriceToPriceLevel s = some l → b.LiveLevel l
  slot_price : ∀ s l, b.mapPriceToPriceLevel s = some l → slotOf B (b.level l).price = s
  slots_closed : b.levelLinks.Closed fun l => ∃ s, b.mapPriceToPriceLevel s = some l
  queue_nil : ∀ s, b.mapPriceToPriceLevel s = none ↔ queue s = []
  queue_head : ∀ s l, b.mapPriceToPriceLevel s = some l → (b.level l).order0 = (queue s).head?
  queue_ring : ∀ s, b.orderLinks.IsRing (queue s)
  live_iff : ∀ p, b.LiveOrder p ↔ ∃ s, p ∈ queue s
  queue_inj : ∀ s s' p, p ∈ queue s → p ∈ queue s' → s = s'

namespace Rings

variable {b : OrderBook B} {queue : Queues B}

/-- A queued order is in use. -/
theorem live_of_mem (h : Rings b queue) {s : PriceSlot B} {p : OrderPtr} (hp : p ∈ queue s) :
    b.LiveOrder p :=
  (h.live_iff p).mpr ⟨s, hp⟩

/-- Two slots share no order. -/
theorem queue_disjoint (h : Rings b queue) {s s' : PriceSlot B} (hne : s ≠ s') {p : OrderPtr}
    (hp : p ∈ queue s) : p ∉ queue s' :=
  fun hp' => hne (h.queue_inj s s' p hp hp')

/-- The slots that hold a level: the one it is in and no other. -/
theorem slot_iff (h : Rings b queue) {s s' : PriceSlot B} {l l' : LevelPtr B}
    (hl : b.mapPriceToPriceLevel s' = some l) (hs : b.mapPriceToPriceLevel s = some l') :
    s = s' ↔ l' = l := by
  constructor
  · rintro rfl
    exact Option.some.inj (hs.symm.trans hl)
  · rintro rfl
    exact (h.slot_price s l' hs).symm.trans (h.slot_price s' l' hl)

/-- The two ends of the queue under a level. -/
theorem exists_ends (h : Rings b queue) {s : PriceSlot B} {l : LevelPtr B}
    (hl : b.mapPriceToPriceLevel s = some l) :
    ∃ x y, (queue s).getLast? = some x ∧ (queue s).head? = some y ∧ b.LiveOrder x ∧
      b.LiveOrder y ∧ (b.level l).order0 = some y ∧ b.orderLinks.Joined x y := by
  have hne : queue s ≠ [] := by
    intro hq
    rw [(h.queue_nil s).mpr hq] at hl
    cases hl
  have hx := List.getLast?_eq_some_getLast hne
  have hy := List.head?_eq_some_head hne
  refine ⟨_, _, hx, hy, h.live_of_mem (List.mem_of_getLast? hx),
    h.live_of_mem (List.mem_of_head? hy), ?_, (h.queue_ring s).joined_last hx hy⟩
  rw [h.queue_head s l hl, hy]

end Rings

/-- The levels in use are those of the slot table, each order in use is queued in the slot of its
price, and the client map only points to orders in use under their own key. -/
structure Sound (b : OrderBook B) (queue : Queues B) : Prop where
  liveLevel_iff : ∀ l, b.LiveLevel l ↔ ∃ s, b.mapPriceToPriceLevel s = some l
  slot_price : ∀ s l, b.mapPriceToPriceLevel s = some l → slotOf B (b.level l).price = s
  levels_closed : b.levelLinks.Closed b.LiveLevel
  queue_nil : ∀ s, b.mapPriceToPriceLevel s = none ↔ queue s = []
  queue_head : ∀ s l, b.mapPriceToPriceLevel s = some l → (b.level l).order0 = (queue s).head?
  queue_ring : ∀ s, b.orderLinks.IsRing (queue s)
  mem_queue : ∀ s p, p ∈ queue s ↔ b.LiveOrder p ∧ slotOf B (b.order p).price = s
  clientMap : ∀ c k p, b.mapClientIdToOrder c k = some p →
    b.LiveOrder p ∧ (b.order p).clientId = c ∧ (b.order p).clientOrderId = k
  inClientMap : ∀ p, b.LiveOrder p →
    InClientMap B (b.order p).clientId (b.order p).clientOrderId

namespace Sound

variable {b : OrderBook B} {queue : Queues B}

/-- The level in a slot is in use. -/
theorem live_of_slot (h : Sound b queue) {s : PriceSlot B} {l : LevelPtr B}
    (hl : b.mapPriceToPriceLevel s = some l) : b.LiveLevel l :=
  (h.liveLevel_iff l).mpr ⟨s, hl⟩

/-- A level in use sits in the slot of its own price. -/
theorem slot_of_live (h : Sound b queue) {l : LevelPtr B} (hl : b.LiveLevel l) :
    b.mapPriceToPriceLevel (slotOf B (b.level l).price) = some l := by
  obtain ⟨s, hs⟩ := (h.liveLevel_iff l).mp hl
  rwa [h.slot_price s l hs]

/-- A level sits in one slot only. -/
theorem slot_inj (h : Sound b queue) {s s' : PriceSlot B} {l : LevelPtr B}
    (hs : b.mapPriceToPriceLevel s = some l) (hs' : b.mapPriceToPriceLevel s' = some l) : s = s' :=
  (h.slot_price s l hs).symm.trans (h.slot_price s' l hs')

/-- An order in use is queued in the slot of its price. -/
theorem mem_queue_of_live (h : Sound b queue) {p : OrderPtr} (hp : b.LiveOrder p) :
    p ∈ queue (slotOf B (b.order p).price) :=
  (h.mem_queue _ p).mpr ⟨hp, rfl⟩

/-- A queued order is in use. -/
theorem live_of_mem (h : Sound b queue) {s : PriceSlot B} {p : OrderPtr} (hp : p ∈ queue s) :
    b.LiveOrder p :=
  ((h.mem_queue s p).mp hp).1

/-- The slot of an order in use holds a level. -/
theorem exists_level (h : Sound b queue) {p : OrderPtr} (hp : b.LiveOrder p) :
    ∃ l, b.getLevelForPrice (b.order p).price = some l := by
  have hmem := h.mem_queue_of_live hp
  cases hl : b.mapPriceToPriceLevel (slotOf B (b.order p).price) with
  | none =>
    rw [(h.queue_nil _).mp hl] at hmem
    simp at hmem
  | some l => exact ⟨l, hl⟩

/-- Two slots share no order. -/
theorem queue_disjoint (h : Sound b queue) {s s' : PriceSlot B} (hne : s ≠ s') {p : OrderPtr}
    (hp : p ∈ queue s) : p ∉ queue s' := by
  intro hp'
  exact hne (((h.mem_queue s p).mp hp).2.symm.trans ((h.mem_queue s' p).mp hp').2)

/-- What the links of a sound book say. -/
theorem rings (h : Sound b queue) : Rings b queue where
  liveLevel _ _ hl := h.live_of_slot hl
  slot_price := h.slot_price
  slots_closed := (OrderBook.closed_iff_slotted h.liveLevel_iff).mp h.levels_closed
  queue_nil := h.queue_nil
  queue_head := h.queue_head
  queue_ring := h.queue_ring
  live_iff p := ⟨fun hp => ⟨_, h.mem_queue_of_live hp⟩, fun ⟨_, hp⟩ => h.live_of_mem hp⟩
  queue_inj s s' p hp hp' := by
    by_contra hne
    exact h.queue_disjoint hne hp hp'

end Sound

/-! ## Walking the rings -/

/-- The orders of a level: from `order0_` along `next_`, once round. -/
def OrderBook.ordersOf (b : OrderBook B) (l : LevelPtr B) : List OrderPtr :=
  ringFrom b.orderLinks.next maxOrderIds (b.level l).order0

/-- The orders of the level in a slot. -/
def OrderBook.queueOf (b : OrderBook B) : Queues B := fun s =>
  match b.mapPriceToPriceLevel s with
  | none => []
  | some l => b.ordersOf l

/-- The levels from a best pointer along `next_`, once round. -/
def OrderBook.levelsFrom (b : OrderBook B) (best : Option (LevelPtr B)) : List (LevelPtr B) :=
  ringFrom b.levelLinks.next (maxPriceLevels B) best

/-- The walk round a level's orders visits the queue of its slot. -/
theorem Sound.ordersOf_eq {b : OrderBook B} {queue : Queues B} (h : Sound b queue)
    {s : PriceSlot B} {l : LevelPtr B} (hl : b.mapPriceToPriceLevel s = some l) :
    b.ordersOf l = queue s := by
  have hlen : (queue s).length ≤ maxOrderIds := by
    have := (h.queue_ring s).nodup.length_le_card
    rwa [Fintype.card_fin] at this
  rw [OrderBook.ordersOf, h.queue_head s l hl]
  exact (h.queue_ring s).ringFrom_eq hlen

/-- The queues of a sound book are those its rings spell out. -/
theorem Sound.queue_eq {b : OrderBook B} {queue : Queues B} (h : Sound b queue) :
    queue = b.queueOf := by
  funext s
  unfold OrderBook.queueOf
  cases hl : b.mapPriceToPriceLevel s with
  | none => exact (h.queue_nil s).mp hl
  | some l => exact (h.ordersOf_eq hl).symm

/-- The walk round a ring of levels visits the ring. -/
theorem OrderBook.levelsFrom_eq {b : OrderBook B} {ls : List (LevelPtr B)}
    (h : b.levelLinks.IsRing ls) : b.levelsFrom ls.head? = ls := by
  have hlen : ls.length ≤ maxPriceLevels B := by
    have := h.nodup.length_le_card
    rwa [Fintype.card_fin] at this
  exact h.ringFrom_eq hlen

/-! ## A new book -/

theorem not_liveOrder_create (p : OrderPtr) : ¬ (OrderBook.create B).LiveOrder p :=
  MemoryPool.live_create _ _ p

theorem not_liveLevel_create (l : LevelPtr B) : ¬ (OrderBook.create B).LiveLevel l :=
  MemoryPool.live_create _ _ l

/-- A new book has no orders. -/
theorem sound_create (B : Build) : Sound (OrderBook.create B) fun _ => [] where
  liveLevel_iff l := by
    have hslot : ∀ s, (OrderBook.create B).mapPriceToPriceLevel s = none := fun _ => rfl
    simp [not_liveLevel_create, hslot]
  slot_price s l h := by simp [OrderBook.create] at h
  levels_closed := Links.closed_empty not_liveLevel_create
  queue_nil s := by simp [OrderBook.create]
  queue_head s l h := by simp [OrderBook.create] at h
  queue_ring _ := Links.isRing_nil
  mem_queue s p := by simp [not_liveOrder_create]
  clientMap c k p h := by simp [OrderBook.create] at h
  inClientMap p h := absurd h (not_liveOrder_create p)

/-- A change of the log or of the id counter leaves the invariant as it is. -/
theorem Sound.congr_counters {b : OrderBook B} {queue : Queues B} (h : Sound b queue)
    (oid : OrderID) (ome : List Emission) :
    Sound { b with nextMarketOid := oid, ome := ome } queue :=
  ⟨h.liveLevel_iff, h.slot_price, h.levels_closed, h.queue_nil, h.queue_head, h.queue_ring,
    h.mem_queue, h.clientMap, h.inClientMap⟩

end HftSys
