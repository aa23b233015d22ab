import HftSys.Cancels
import HftSys.ClientMap
import HftSys.Executions
import HftSys.Exhaustion
import HftSys.Market

/-!
# A book refines its market

A `Regular` book is one whose pointers, pools, price table and client map say no more than its
market does: its levels are those of the two rings, its orders are filed under levels of their own
side and price, and the client map leads to each of them. On such a book every turn of the matching
loop is a turn of the market (`Regular.matched`), the whole loop its sweep (`Regular.sweeps`), a
remainder comes to rest and a cancel takes out as the market says; so the book handles every request
the market admits, without a fault, and stays regular (`Regular.handleRequest`).

`book_refines_market` is that for whole runs from an empty book.
-/

namespace HftSys

open Circular Exec Ladders

variable {B : Build}

/-- A book that says no more than its market. -/
structure Regular (b : OrderBook B) (queue : Queues B) (ring : Side → List (LevelPtr B)) :
    Prop where
  sound : Sound b queue
  twoSided : TwoSided b ring
  proper : ProperOrders b
  agrees : Agrees Eq b
  entered : Entered b
  pools : PoolsWellFormed b

/-- A level with the orders of its slot. -/
def OrderBook.rung (b : OrderBook B) (queue : Queues B) (l : LevelPtr B) : Price × List Order :=
  ((b.level l).price, (queue (slotOf B (b.level l).price)).map b.data)

/-- The ladder of a side, read off its ring. -/
theorem TwoSided.ladder_eq {b : OrderBook B} {queue : Queues B} {ring : Side → List (LevelPtr B)}
    (h : TwoSided b ring) (hs : Sound b queue) {s : Side} (hp : s.Proper) :
    b.ladder s = (ring s).map (b.rung queue) := by
  rw [OrderBook.ladder, h.levelsFrom_eq hp]
  apply List.map_congr_left
  intro l hl
  rw [hs.ordersOf_eq (hs.slot_of_live (h.live s hp l hl))]
  rfl

theorem OrderBook.market_side (b : OrderBook B) {s : Side} (hs : s.Proper) :
    b.market.side s = b.ladder s := by
  rcases hs with rfl | rfl <;> rfl

/-- The resting orders of the market are those reached in the book. -/
theorem OrderBook.market_orders (b : OrderBook B) :
    b.market.orders = b.reachedOrders.map b.data := by
  simp only [Market.orders, OrderBook.market, OrderBook.ladder, Ladder.orders,
    OrderBook.reachedOrders, OrderBook.reachedLevels, List.flatMap_append, List.map_append,
    List.map_flatMap, List.flatMap_map]
  rfl

namespace Regular

section removal

variable {b : OrderBook B} {queue : Queues B} {ring : Side → List (LevelPtr B)} {p q : OrderPtr}
  {l l' : LevelPtr B} {s : Side}

/-- An order queued under a level has its price. -/
theorem price_of_mem (h : Regular b queue ring) (hl : b.LiveLevel l)
    (hp : p ∈ queue (slotOf B (b.level l).price)) : (b.order p).price = (b.level l).price := by
  obtain ⟨hlive, hslot⟩ := (h.sound.mem_queue _ p).mp hp
  refine congrArg Quote.price (h.agrees p l hlive ?_)
  rw [OrderBook.getLevelForPrice, hslot]
  exact h.sound.slot_of_live hl

/-- Only one order has the key of an order. -/
theorem hasKey_iff (h : Regular b queue ring) (hp : b.LiveOrder p) (hq : b.LiveOrder q) :
    Order.hasKey (b.order p).clientId (b.order p).clientOrderId (b.data q) = decide (q = p) := by
  rw [Order.hasKey, decide_eq_decide]
  constructor
  · exact fun hkey => h.entered.key_inj hq hp hkey.1 hkey.2
  · rintro rfl
    exact ⟨rfl, rfl⟩

/-- Every level of a ladder holds an order. -/
theorem ladder_filled (h : Regular b queue ring) (hs : s.Proper) : ∀ r ∈ b.ladder s, r.2 ≠ [] := by
  rw [h.twoSided.ladder_eq h.sound hs]
  intro r hr
  obtain ⟨l, hl, rfl⟩ := List.mem_map.mp hr
  have hslot := h.sound.slot_of_live (h.twoSided.live s hs l hl)
  rw [OrderBook.rung, Ne, List.map_eq_nil_iff, ← h.sound.queue_nil, hslot]
  exact Option.some_ne_none l

/-- The orders of some levels, as their ladder has them. -/
theorem orders_map_rung (b : OrderBook B) (queue : Queues B) (levels : List (LevelPtr B)) :
    Ladder.orders (levels.map (b.rung queue)) = (queued b queue levels).map b.data := by
  simp only [Ladder.orders, queued, List.flatMap_map, List.map_flatMap]
  rfl

/-- No order is queued twice on a side. -/
theorem nodup_queued (h : Regular b queue ring) (hs : s.Proper) :
    (queued b queue (ring s)).Nodup :=
  h.sound.nodup_queued (h.twoSided.isRing s hs).nodup (h.twoSided.live s hs)

/-- The orders queued on a side are in use, and of that side. -/
theorem of_mem_queued (h : Regular b queue ring) (hs : s.Proper)
    (hq : q ∈ queued b queue (ring s)) : b.LiveOrder q ∧ (b.order q).side = s := by
  obtain ⟨l, hl, hq⟩ := List.mem_flatMap.mp hq
  obtain ⟨hlive, hslot⟩ := (h.sound.mem_queue _ q).mp hq
  refine ⟨hlive, ?_⟩
  have hlevel := h.sound.slot_of_live (h.twoSided.live s hs l hl)
  rw [← hslot] at hlevel
  rw [← h.twoSided.side s hs l hl]
  exact congrArg Quote.side (h.agrees q l hlive hlevel)

/-- Taking an order out orphans no best pointer. -/
theorem not_orphans (h : Regular b queue ring) (hp : b.LiveOrder p)
    (hslot : b.getLevelForPrice (b.order p).price = some l) : ¬ Orphans b p l := by
  rintro ⟨-, hne, -⟩
  exact hne (congrArg Quote.side (h.agrees p l hp hslot))

/-- An order taken out leaves a regular book. -/
theorem detach (h : Regular b queue ring) (hp : b.LiveOrder p)
    (hslot : b.getLevelForPrice (b.order p).price = some l) :
    Regular (b.detach p l) (Function.update queue (slotOf B (b.order p).price)
      ((queue (slotOf B (b.order p).price)).erase p)) (b.ringsWithout ring p l) where
  sound := h.sound.detach hp hslot
  twoSided := h.twoSided.detach h.sound hslot (h.proper p hp) (h.not_orphans hp hslot)
  proper q hq := b.forall_live_detach p q l (P := fun o => o.side.Proper) h.proper hq
  agrees := h.agrees.thins (Thins.detach b p l)
  entered := by
    obtain ⟨hc, hk⟩ := h.sound.inClientMap p hp
    exact h.entered.cancel (r := ⟨(b.order p).clientId, (b.order p).clientOrderId, 0⟩)
      ⟨hc, hk, h.entered p hp, hp, hslot⟩
  pools := keepsPools_removeOrderFromBook (some p) b () (b.detach p l) h.pools
    (removeOrderFromBook_eq h.sound hp hslot)

/-- A level that is left alone by a removal. -/
theorem rung_detach_of_ne (h : Regular b queue ring)
    (hslot : b.getLevelForPrice (b.order p).price = some l) (hl' : b.LiveLevel l') (hne : l' ≠ l) :
    (b.detach p l).rung (Function.update queue (slotOf B (b.order p).price)
      ((queue (slotOf B (b.order p).price)).erase p)) l' = b.rung queue l' := by
  have hl : b.LiveLevel l := h.sound.live_of_slot hslot
  have hslots : slotOf B (b.level l').price ≠ slotOf B (b.order p).price := by
    intro e
    have := h.sound.slot_of_live hl'
    rw [e] at this
    exact hne (Option.some.inj (this.symm.trans hslot))
  simp only [OrderBook.rung, OrderBook.level_price_detach, Function.update_of_ne hslots]
  congr 1
  exact List.map_congr_left fun q _ => b.data_detach p q l

/-- The level of the order taken out. -/
theorem rung_detach_self (hslot : slotOf B (b.level l).price = slotOf B (b.order p).price) :
    (b.detach p l).rung (Function.update queue (slotOf B (b.order p).price)
      ((queue (slotOf B (b.order p).price)).erase p)) l =
      ((b.level l).price, ((queue (slotOf B (b.level l).price)).erase p).map b.data) := by
  simp only [OrderBook.rung, OrderBook.level_price_detach, hslot, Function.update_self]
  congr 1
  exact List.map_congr_left fun q _ => b.data_detach p q l

/-- The orders of a level without one of them, as its ladder has them. -/
theorem filter_rung (h : Regular b queue ring) (hp : b.LiveOrder p) (l : LevelPtr B) :
    (b.rung queue l).2.filter
        (fun o => !Order.hasKey (b.order p).clientId (b.order p).clientOrderId o) =
      ((queue (slotOf B (b.level l).price)).erase p).map b.data := by
  have hnodup := (h.sound.queue_ring (slotOf B (b.level l).price)).nodup
  rw [OrderBook.rung, List.filter_map, hnodup.erase_eq_filter]
  congr 1
  apply List.filter_congr
  intro q hq
  simp only [Function.comp_apply, h.hasKey_iff hp (h.sound.live_of_mem hq)]
  rfl

/-- **Taking an order out** takes it out of the ladders. -/
theorem ladder_detach (h : Regular b queue ring) (hp : b.LiveOrder p)
    (hslot : b.getLevelForPrice (b.order p).price = some l) (hs : s.Proper) :
    (b.detach p l).ladder s =
      (b.ladder s).without (Order.hasKey (b.order p).clientId (b.order p).clientOrderId) := by
  have hl : b.LiveLevel l := h.sound.live_of_slot hslot
  have hprice : slotOf B (b.level l).price = slotOf B (b.order p).price :=
    h.sound.slot_price _ l hslot
  obtain ⟨hside, hmem⟩ := h.twoSided.mem l hl
  rw [(h.detach hp hslot).twoSided.ladder_eq (h.detach hp hslot).sound hs,
    h.twoSided.ladder_eq h.sound hs, Ladder.without, List.filterMap_map]
  -- the other levels hold none but other orders, and at least one
  have hother : ∀ l' ∈ ring s, l' ≠ l →
      Ladder.keep (Order.hasKey (b.order p).clientId (b.order p).clientOrderId) (b.rung queue l') =
        some ((b.detach p l).rung (Function.update queue (slotOf B (b.order p).price)
          ((queue (slotOf B (b.order p).price)).erase p)) l') := by
    intro l' hl' hne
    have hlive' := h.twoSided.live s hs l' hl'
    have hslots : slotOf B (b.level l').price ≠ slotOf B (b.order p).price := by
      intro e
      have := h.sound.slot_of_live hlive'
      rw [e] at this
      exact hne (Option.some.inj (this.symm.trans hslot))
    have hnot : p ∉ queue (slotOf B (b.level l').price) :=
      h.sound.queue_disjoint hslots.symm (h.sound.mem_queue_of_live hp)
    have hfilled : queue (slotOf B (b.level l').price) ≠ [] := by
      rw [Ne, ← h.sound.queue_nil, h.sound.slot_of_live hlive']
      exact Option.some_ne_none l'
    rw [h.rung_detach_of_ne hslot hlive' hne]
    refine Ladder.keep_of_eq (h.filter_rung hp l') ?_ |>.trans ?_
    · rw [List.erase_of_not_mem hnot, Ne, List.map_eq_nil_iff]
      exact hfilled
    · rw [List.erase_of_not_mem hnot]
      rfl
  -- the order's own level goes exactly when it was alone there
  have hself : Ladder.keep (Order.hasKey (b.order p).clientId (b.order p).clientOrderId)
      (b.rung queue l) = if b.Alone p then none else
        some ((b.detach p l).rung (Function.update queue (slotOf B (b.order p).price)
          ((queue (slotOf B (b.order p).price)).erase p)) l) := by
    by_cases ha : b.Alone p
    · rw [if_pos ha]
      apply Ladder.keep_of_nil
      rw [h.filter_rung hp, hprice, (h.sound.alone_iff hp).mp ha, List.erase_cons_head]
      rfl
    · rw [if_neg ha, rung_detach_self hprice]
      apply Ladder.keep_of_eq (h.filter_rung hp l)
      rw [hprice, Ne, List.map_eq_nil_iff]
      exact h.sound.rings.erase_ne_nil (h.sound.mem_queue_of_live hp) ha
  unfold OrderBook.ringsWithout
  by_cases ha : b.Alone p
  · rw [if_pos ha] at hself ⊢
    by_cases hsl : s = (b.level l).side
    · subst hsl
      have hnodup := (h.twoSided.isRing _ hs).nodup
      rw [Function.update_self, hnodup.erase_eq_filter, ← List.filterMap_eq_map,
        List.filterMap_filter]
      apply List.filterMap_congr
      intro l' hl'
      by_cases hne : l' = l
      · subst hne
        simp [hself]
      · simp [hne, hother l' hl' hne]
    · rw [Function.update_of_ne hsl, ← List.filterMap_eq_map]
      apply List.filterMap_congr
      intro l' hl'
      have hne : l' ≠ l := by
        rintro rfl
        exact h.twoSided.disjoint hs hside hsl hl' hmem
      simp [hother l' hl' hne]
  · rw [if_neg ha] at hself ⊢
    rw [← List.filterMap_eq_map]
    apply List.filterMap_congr
    intro l' hl'
    by_cases hne : l' = l
    · subst hne
      simp [hself]
    · simp [hother l' hl' hne]

end removal

/-! ## Matching -/

section matching

variable {stray : ℕ → Qty} {taker : NewOrder} {newMarketOid : OrderID} {b : OrderBook B}
  {queue : Queues B} {ring : Side → List (LevelPtr B)} {p : OrderPtr} {best : LevelPtr B} {s : Side}

theorem accept (h : Regular b queue ring) (taker : NewOrder) :
    Regular (b.accept taker) queue ring :=
  ⟨h.sound.congr_counters _ _, h.twoSided.congr rfl rfl rfl, h.proper, h.agrees, h.entered,
    ⟨h.pools.orders, h.pools.levels⟩⟩

/-- What a turn finds: the first order of the first level of the other side's ladder. -/
theorem ladder_of_reaches (h : Regular b queue ring) (hr : Reaches b taker taker.qty best p) :
    taker.side.Proper ∧ b.getLevelForPrice (b.order p).price = some best ∧
      ∃ rest tail, ring taker.side.other = best :: rest ∧
        queue (slotOf B (b.level best).price) = p :: tail ∧
        b.ladder taker.side.other =
          ((b.level best).price, b.data p :: tail.map b.data) :: rest.map (b.rung queue) := by
  have hside : taker.side.Proper := proper_of_opposite hr.opposite
  have hother := hside.other_proper
  obtain ⟨hlive, hslot, hhead⟩ := h.sound.head_of_level hr.liveLevel hr.order0
  have hring : (ring taker.side.other).head? = some best := by
    rw [← h.twoSided.head _ hother, ← opposite_eq b hside, hr.opposite]
  obtain ⟨rest, hrest⟩ := List.head?_eq_some_iff.mp hring
  rw [← h.sound.slot_price _ best hslot] at hhead
  obtain ⟨tail, htail⟩ := List.head?_eq_some_iff.mp hhead
  refine ⟨hside, hslot, rest, tail, hrest, htail, ?_⟩
  rw [h.twoSided.ladder_eq h.sound hother, hrest, List.map_cons, OrderBook.rung, htail,
    List.map_cons]

/-- One fill leaves a regular book. -/
theorem traded (h : Regular b queue ring) (hp : b.LiveOrder p) (stray : ℕ → Qty) (taker : NewOrder)
    (newMarketOid : OrderID) (qtyRemains : Qty) :
    Regular (b.traded stray taker newMarketOid p qtyRemains) queue ring where
  sound := h.sound.traded stray taker newMarketOid p qtyRemains
  twoSided := h.twoSided.congr rfl rfl rfl
  proper q hq := by
    rw [OrderBook.side_traded]
    exact h.proper q ((b.liveOrder_traded stray taker newMarketOid p q qtyRemains).mp hq)
  agrees := by
    refine h.agrees.thins ⟨?_, ?_, fun _ _ hs => hs, fun _ => rfl⟩
    · exact fun q hq => (b.liveOrder_traded stray taker newMarketOid p q qtyRemains).mp hq
    · intro q
      rw [Order.quote, Order.quote, OrderBook.side_traded, OrderBook.price_traded]
  entered q hq := by
    rw [OrderBook.clientId_traded, OrderBook.clientOrderId_traded]
    exact h.entered q ((b.liveOrder_traded stray taker newMarketOid p q qtyRemains).mp hq)
  pools := by
    have hkept := keepsPools_storeOrder (some p) (fun _ => b.orderAfter p qtyRemains) b () _ h.pools
      (storeOrder_of_live _ hp)
    exact ⟨hkept.orders, hkept.levels⟩

/-- A level that does not hold the order filled. -/
theorem rung_traded_of_not_mem {l : LevelPtr B} {qtyRemains : Qty}
    (hp : p ∉ queue (slotOf B (b.level l).price)) :
    (b.traded stray taker newMarketOid p qtyRemains).rung queue l = b.rung queue l := by
  show (_, _) = (_, _)
  congr 1
  apply List.map_congr_left
  intro q hq
  have hne : q ≠ p := fun e => hp (e ▸ hq)
  rw [OrderBook.data, OrderBook.data, OrderBook.order_traded_of_ne _ _ _ _ _ _ hne]

/-- The order filled, as the ladder has it. -/
theorem data_traded_self (qtyRemains : Qty) :
    (b.traded stray taker newMarketOid p qtyRemains).data p =
      { b.data p with qty := (b.data p).qty - min qtyRemains (b.data p).qty } := by
  rw [OrderBook.data, OrderBook.order_traded, if_pos rfl]
  rfl

/-- The ladders after one fill: the first order of the other side's first level has lost what was
executed. -/
theorem ladder_traded (h : Regular b queue ring) (hr : Reaches b taker taker.qty best p)
    (hs : s.Proper) :
    (b.traded stray taker newMarketOid p taker.qty).ladder s =
      if s = taker.side.other then
        match b.ladder taker.side.other with
        | (k, o :: os) :: L => (k, { o with qty := o.qty - min taker.qty o.qty } :: os) :: L
        | L => L
      else b.ladder s := by
  obtain ⟨hside, hslot, rest, tail, hring, htail, hladder⟩ := h.ladder_of_reaches hr
  have hother := hside.other_proper
  have hmem : best ∈ ring taker.side.other := by
    rw [hring]
    exact List.mem_cons_self
  have hp : p ∈ queue (slotOf B (b.level best).price) := by
    rw [htail]
    exact List.mem_cons_self
  have hframe : ∀ l, b.LiveLevel l → l ≠ best →
      (b.traded stray taker newMarketOid p taker.qty).rung queue l = b.rung queue l := by
    intro l hl hne
    apply rung_traded_of_not_mem
    exact h.sound.queue_disjoint (h.sound.slot_ne hr.liveLevel hl hne.symm) hp
  rw [(h.traded hr.live stray taker newMarketOid taker.qty).twoSided.ladder_eq
    (h.traded hr.live stray taker newMarketOid taker.qty).sound hs]
  split
  next hs' =>
    subst hs'
    have hnodup := (h.twoSided.isRing _ hother).nodup
    rw [hring, List.nodup_cons] at hnodup
    have hnot : p ∉ tail := by
      have := (h.sound.queue_ring (slotOf B (b.level best).price)).nodup
      rw [htail, List.nodup_cons] at this
      exact this.1
    rw [hladder, hring, List.map_cons]
    simp only []
    congr 1
    · show ((b.level best).price, List.map _ (queue (slotOf B (b.level best).price))) = _
      rw [htail, List.map_cons, data_traded_self]
      congr 2
      apply List.map_congr_left
      intro q hq
      have hne : q ≠ p := fun e => hnot (e ▸ hq)
      rw [OrderBook.data, OrderBook.data, OrderBook.order_traded_of_ne _ _ _ _ _ _ hne]
    · apply List.map_congr_left
      intro l hl
      have hl' : l ∈ ring taker.side.other := by
        rw [hring]
        exact List.mem_cons_of_mem _ hl
      exact hframe l (h.twoSided.live _ hother l hl') fun e => hnodup.1 (e ▸ hl)
  next hs' =>
    rw [h.twoSided.ladder_eq h.sound hs]
    apply List.map_congr_left
    intro l hl
    refine hframe l (h.twoSided.live s hs l hl) ?_
    rintro rfl
    exact h.twoSided.disjoint hs hother hs' hl hmem

/-- The ladders after an order has been used up: the other side's has lost its first order. -/
theorem ladder_exhausted (h : Regular b queue ring) (hr : Reaches b taker taker.qty best p)
    (hx : b.Exhausts p taker.qty) (hs : s.Proper) :
    ((b.traded stray taker newMarketOid p taker.qty).detach p best).ladder s =
      if s = taker.side.other then Market.front taker.qty (b.ladder taker.side.other)
      else b.ladder s := by
  obtain ⟨hside, hslot, rest, tail, hring, htail, hladder⟩ := h.ladder_of_reaches hr
  have hother := hside.other_proper
  have hlive := (b.liveOrder_traded stray taker newMarketOid p p taker.qty).mpr hr.live
  have hslot' : (b.traded stray taker newMarketOid p taker.qty).getLevelForPrice
      ((b.traded stray taker newMarketOid p taker.qty).order p).price = some best := by
    rw [OrderBook.price_traded]
    exact hslot
  -- no order but `p` has its key
  have hkey : ∀ qs : List OrderPtr, (∀ q ∈ qs, b.LiveOrder q) → p ∉ qs → ∀ o ∈ qs.map b.data,
      Order.hasKey (b.order p).clientId (b.order p).clientOrderId o = false := by
    intro qs hqs hp o ho
    obtain ⟨q, hq, rfl⟩ := List.mem_map.mp ho
    have hne : q ≠ p := fun e => hp (e ▸ hq)
    rw [h.hasKey_iff hr.live (hqs q hq), decide_eq_false hne]
  have hle : (b.data p).qty ≤ taker.qty := (b.exhausts_iff p taker.qty).mp hx
  have hfilled := h.ladder_filled hs
  have hqueued : queued b queue (ring taker.side.other) = p :: (tail ++ queued b queue rest) := by
    rw [hring, queued_cons, htail, List.cons_append]
  rw [(h.traded hr.live stray taker newMarketOid taker.qty).ladder_detach hlive hslot' hs,
    OrderBook.clientId_traded, OrderBook.clientOrderId_traded, h.ladder_traded hr hs]
  split
  next hs' =>
    subst hs'
    rw [hladder] at hfilled ⊢
    simp only [Market.front, if_pos hle]
    apply Ladder.without_head
    · exact decide_eq_true ⟨rfl, rfl⟩
    · exact fun r hr' => hfilled r (List.mem_cons_of_mem _ hr')
    · have hnodup := h.nodup_queued hother
      rw [hqueued, List.nodup_cons] at hnodup
      rw [orders_map_rung, ← List.map_append]
      refine hkey _ (fun q hq => (h.of_mem_queued hother ?_).1) hnodup.1
      rw [hqueued]
      exact List.mem_cons_of_mem _ hq
  next hs' =>
    apply Ladder.without_eq_self hfilled
    rw [h.twoSided.ladder_eq h.sound hs, orders_map_rung]
    refine hkey _ (fun q hq => (h.of_mem_queued hs hq).1) fun hp => hs' ?_
    have hp' : p ∈ queued b queue (ring taker.side.other) := by
      rw [hqueued]
      exact List.mem_cons_self
    exact (h.of_mem_queued hs hp).2.symm.trans (h.of_mem_queued hother hp').2

/-- What is said about an execution. -/
theorem matchLog_eq (hpos : b.QtyPos) (hr : Reaches b taker taker.qty best p) :
    b.matchLog stray taker newMarketOid p taker.qty =
      b.market.turnLog stray taker newMarketOid (b.data p) := by
  have hfill : b.fillQty p taker.qty ≠ 0 := by
    intro e
    have := hpos.fillQty_pos hr.live hr.qty
    rw [e] at this
    exact absurd this (lt_irrefl _)
  rw [OrderBook.matchLog, OrderBook.reported, if_neg hfill]
  rfl

/-- **A turn of the loop** is a turn of the market. -/
theorem matched (stray : ℕ → Qty) (newMarketOid : OrderID) (h : Regular b queue ring)
    (hpos : b.QtyPos)
    (hr : Reaches b taker taker.qty best p) :
    (∃ queue' ring',
      Regular (b.matched stray taker newMarketOid p best taker.qty) queue' ring') ∧
      (b.matched stray taker newMarketOid p best taker.qty).market =
        b.market.turn stray taker newMarketOid (b.data p) := by
  obtain ⟨hside, hslot, rest, tail, -, -, hladder⟩ := h.ladder_of_reaches hr
  have hother := hside.other_proper
  have htraded := h.traded hr.live stray taker newMarketOid taker.qty
  have hturn : ∀ t : Side, t.Proper → (b.market.turn stray taker newMarketOid (b.data p)).side t =
      if t = taker.side.other then Market.front taker.qty (b.ladder taker.side.other)
      else b.ladder t := by
    intro t ht
    rw [← b.market_side hother, ← b.market_side ht]
    exact Market.side_setSide hother ht b.market _
  have hoid : (b.market.turn stray taker newMarketOid (b.data p)).nextMarketOid = b.nextMarketOid :=
    Market.nextMarketOid_setSide _ _ _
  by_cases hx : b.Exhausts p taker.qty
  · rw [OrderBook.matched_of_exhausts b stray taker newMarketOid p best taker.qty hx]
    refine ⟨⟨_, _, htraded.detach ?_ ?_⟩, Market.ext_sides ?_ ?_ ?_⟩
    · exact (b.liveOrder_traded stray taker newMarketOid p p taker.qty).mpr hr.live
    · rw [OrderBook.price_traded]
      exact hslot
    · intro t ht
      rw [OrderBook.market_side _ ht, h.ladder_exhausted hr hx ht, hturn t ht]
    · exact (OrderBook.nextMarketOid_detach _ p best).trans hoid.symm
    · show (OrderBook.detach _ p best).ome = b.ome ++ _
      rw [OrderBook.ome_detach, ← matchLog_eq hpos hr]
      rfl
  · rw [OrderBook.matched_of_not_exhausts b stray taker newMarketOid p best taker.qty hx]
    have hle : ¬ (b.data p).qty ≤ taker.qty := fun hle => hx ((b.exhausts_iff p taker.qty).mpr hle)
    refine ⟨⟨_, _, htraded⟩, Market.ext_sides ?_ hoid.symm ?_⟩
    · intro t ht
      rw [OrderBook.market_side _ ht, h.ladder_traded hr ht, hturn t ht, hladder]
      simp only [Market.front, if_neg hle, min_qty_of_lt hle]
    · show b.ome ++ _ = b.ome ++ _
      rw [matchLog_eq hpos hr]

/-- **The head of a turn**, read off the other side's ladder: nothing is in reach, or the first
order of its first level is. -/
theorem nextMatch_cases (h : Regular b queue ring) (hs : taker.side.Proper) (hqty : taker.qty ≠ 0) :
    (nextMatch taker taker.qty b = .ok none b ∧
      ∀ r ∈ (b.ladder taker.side.other).head?, taker.meets r = false) ∨
      ∃ best p, Reaches b taker taker.qty best p := by
  have hother := hs.other_proper
  have hopp : b.opposite taker.side = (ring taker.side.other).head? := by
    rw [opposite_eq b hs, h.twoSided.head _ hother]
  have hladder := h.twoSided.ladder_eq h.sound hother
  cases hring : ring taker.side.other with
  | nil =>
    rw [hring] at hopp hladder
    refine .inl ⟨MatchesNothing.nextMatch (.inl hopp) hqty, ?_⟩
    rw [hladder]
    intro r hr
    cases hr
  | cons best rest =>
    rw [hring] at hopp hladder
    have hbest : b.LiveLevel best := by
      apply h.twoSided.live _ hother
      rw [hring]
      exact List.mem_cons_self
    obtain ⟨-, p, -, hp, -, hplive, horder0, -⟩ :=
      h.sound.rings.exists_ends (h.sound.slot_of_live hbest)
    have hprice := h.price_of_mem hbest (List.mem_of_head? hp)
    by_cases hmiss : misses taker.side taker.price (b.order p).price = true
    · refine .inl ⟨MatchesNothing.nextMatch (.inr ⟨best, p, hopp, hbest, horder0, hplive, hmiss⟩)
        hqty, ?_⟩
      rw [hladder]
      intro r hr
      cases hr
      rw [hprice] at hmiss
      simp [NewOrder.meets, OrderBook.rung, hmiss]
    · exact .inr ⟨best, p, hqty, hopp, hbest, horder0, hplive, by simpa using hmiss⟩

/-- **The loop of a new order** is the sweep of the market: it ends, without a fault. -/
theorem matchLoop_eq {fuel : ℕ} (h : Regular b queue ring) (hpos : b.QtyPos)
    (hs : taker.side.Proper) (hqty : taker.qty ≠ 0) (hfuel : b.totalQty < fuel) :
    ∃ b', matchLoop stray taker newMarketOid taker.qty fuel b = .ok taker.qty b' ∧
      (∃ queue' ring', Regular b' queue' ring') ∧ b'.QtyPos ∧
      b'.market = b.market.sweep stray taker newMarketOid := by
  induction fuel generalizing b queue ring with
  | zero => exact absurd hfuel (Nat.not_lt_zero _)
  | succ fuel ih =>
    have hother := hs.other_proper
    rcases h.nextMatch_cases hs hqty with ⟨hnext, hnone⟩ | ⟨best, p, hr⟩
    · refine ⟨b, ?_, ⟨queue, ring, h⟩, hpos, ?_⟩
      · rw [matchLoop, bind_of_ok hnext]
        rfl
      · rw [← b.market_side hother] at hnone
        exact (Market.sweep_of_none stray newMarketOid hqty hs hnone).symm
    · obtain ⟨-, hslot, rest, tail, -, -, hladder⟩ := h.ladder_of_reaches hr
      obtain ⟨⟨queue', ring', h'⟩, hmarket⟩ :=
        h.matched stray newMarketOid hpos hr
      have hless := hpos.totalQty_lt stray taker newMarketOid best hr.live hqty
      obtain ⟨b', hloop, hregular, hpos', hmarket'⟩ := ih h'
        (hpos.matched stray taker newMarketOid p best taker.qty) (by omega)
      refine ⟨b', ?_, hregular, hpos', ?_⟩
      · rw [matchLoop, bind_of_ok hr.next]
        exact (bind_of_ok (matchOrder_eq h.sound stray taker newMarketOid taker.qty hr.live
          hslot)).trans hloop
      · have hmeets : taker.meets ((b.level best).price, b.data p :: tail.map b.data) = true := by
          have hprice : (b.order p).price = (b.level best).price :=
            congrArg Quote.price (h.agrees p best hr.live hslot)
          simp [NewOrder.meets, ← hprice, hr.price]
        rw [hmarket', hmarket, Market.sweep_turn stray newMarketOid hqty hs
          ((b.market_side hother).trans hladder) hmeets]

end matching

/-! ## Coming to rest -/

section rest

variable {taker : NewOrder} {newMarketOid : OrderID} {b b' b₁ : OrderBook B} {queue : Queues B}
  {ring : Side → List (LevelPtr B)} {p : OrderPtr} {o : Order} {l : LevelPtr B} {s : Side}

/-- A live level stands in the ladder of its side. -/
theorem rung_mem_ladder (h : Regular b queue ring) (hl : b.LiveLevel l) :
    (b.level l).side.Proper ∧ b.rung queue l ∈ b.ladder (b.level l).side := by
  obtain ⟨hs, hmem⟩ := h.twoSided.mem l hl
  refine ⟨hs, ?_⟩
  rw [h.twoSided.ladder_eq h.sound hs]
  exact List.mem_map_of_mem hmem

/-- The orders of the market are those in use. -/
theorem mem_market_orders (h : Regular b queue ring) (hpos : b.QtyPos) (hp : b.LiveOrder p) :
    b.data p ∈ b.market.orders := by
  have hsides : HasSides b := ⟨⟨ring, h.twoSided⟩, h.proper⟩
  rw [b.market_orders]
  exact List.mem_map_of_mem (((hsides.nothingLost ⟨h.sound, hpos⟩).mem_orders p).mpr hp)

/-- A market with room is that of a book with a free order block. -/
theorem room_iff (h : Regular b queue ring) (hpos : b.QtyPos) :
    b.market.orders.length < maxOrderIds ↔ ∃ p, ¬ b.LiveOrder p := by
  have hsides : HasSides b := ⟨⟨ring, h.twoSided⟩, h.proper⟩
  have hlost := hsides.nothingLost ⟨h.sound, hpos⟩
  rw [b.market_orders, List.length_map, ← List.toFinset_card_of_nodup hlost.orders_nodup]
  constructor
  · intro hroom
    by_contra hfull
    push Not at hfull
    have hall : (Finset.univ : Finset OrderPtr) ⊆ b.reachedOrders.toFinset := by
      intro p _
      rw [List.mem_toFinset, hlost.mem_orders]
      exact hfull p
    have hcard := Finset.card_le_card hall
    rw [Finset.card_univ, Fintype.card_fin] at hcard
    omega
  · rintro ⟨p, hp⟩
    have hlt : b.reachedOrders.toFinset ⊂ (Finset.univ : Finset OrderPtr) := by
      apply Finset.ssubset_univ_iff.mpr
      intro hall
      have := Finset.mem_univ p
      rw [← hall, List.mem_toFinset, hlost.mem_orders] at this
      exact hp this
    have hcard := Finset.card_lt_card hlt
    rwa [Finset.card_univ, Fintype.card_fin] at hcard

/-- The level a remainder with a place finds in its slot is of its own side and price. -/
theorem level_of_place (h : Regular b queue ring) (hplace : Market.HasPlace B b.market taker)
    (hl : b.getLevelForPrice taker.price = some l) :
    (b.level l).side = taker.side ∧ (b.level l).price = taker.price := by
  obtain ⟨hs, hmem⟩ := h.rung_mem_ladder (h.sound.live_of_slot hl)
  have hslot : slotOf B (b.level l).price = slotOf B taker.price := h.sound.slot_price _ l hl
  rw [← b.market_side hs] at hmem
  by_cases hside : (b.level l).side = taker.side
  · rw [hside] at hmem
    exact ⟨hside, hplace.own _ hmem hslot⟩
  · rw [hplace.proper.eq_other hs hside] at hmem
    exact absurd hslot (hplace.other _ hmem)

/-- Two live levels of one slot are one. -/
theorem eq_of_slot (h : Regular b queue ring) {l' : LevelPtr B} (hl' : b.LiveLevel l')
    {price : Price} (hl : b.getLevelForPrice price = some l)
    (hslot : slotOf B (b.level l').price = slotOf B price) :
    l' = l := by
  have := h.sound.slot_of_live hl'
  rw [hslot] at this
  exact Option.some.inj (this.symm.trans hl)

/-- The order of the last rank at a price, as ladder and slot have it. -/
theorem last_eq (h : Regular b queue ring) (hplace : Market.HasPlace B b.market taker) :
    (b.ladder taker.side).last taker.price =
      (queue (slotOf B taker.price)).getLast?.map b.data := by
  have hs := hplace.proper
  rw [h.twoSided.ladder_eq h.sound hs, Ladder.last, List.find?_map]
  cases hl : b.getLevelForPrice taker.price with
  | none =>
    have hqueue : queue (slotOf B taker.price) = [] := (h.sound.queue_nil _).mp hl
    have hnone : (ring taker.side).find? ((fun r => decide (r.1 = taker.price)) ∘ b.rung queue) =
        none := by
      rw [List.find?_eq_none]
      intro l' hl' he
      have he : (b.level l').price = taker.price := of_decide_eq_true he
      have := h.sound.slot_of_live (h.twoSided.live _ hs l' hl')
      rw [he] at this
      rw [OrderBook.getLevelForPrice, this] at hl
      cases hl
    rw [hnone, hqueue]
    rfl
  | some l =>
    obtain ⟨hside, hprice⟩ := h.level_of_place hplace hl
    have hmem : l ∈ ring taker.side := by
      have := (h.twoSided.mem l (h.sound.live_of_slot hl)).2
      rwa [hside] at this
    obtain ⟨l', hl'⟩ : ∃ l', (ring taker.side).find?
        ((fun r => decide (r.1 = taker.price)) ∘ b.rung queue) = some l' := by
      apply Option.isSome_iff_exists.mp
      rw [List.find?_isSome]
      exact ⟨l, hmem, decide_eq_true hprice⟩
    have hfound := List.find?_some hl'
    have he : (b.level l').price = taker.price := of_decide_eq_true hfound
    have hll : l' = l := h.eq_of_slot
      (h.twoSided.live _ hs l' (List.mem_of_find?_eq_some hl')) hl (by rw [he])
    rw [hl', hll, Option.map_some, Option.bind_some, OrderBook.rung, hprice, List.getLast?_map]

/-- The order that comes to rest is the market's. -/
theorem resting_eq (h : Regular b queue ring) (hplace : Market.HasPlace B b.market taker)
    (newMarketOid : OrderID) :
    taker.toOrder newMarketOid taker.qty (b.priorityAfter (queue (slotOf B taker.price))) =
      b.market.resting taker newMarketOid := by
  rw [Market.resting, b.market_side hplace.proper, h.last_eq hplace, OrderBook.priorityAfter]
  cases (queue (slotOf B taker.price)).getLast? <;> rfl

/-- A level in whose slot nothing is filed. -/
theorem rung_files_of_ne (h : Regular b queue ring) (hf : Filed b b₁ p o)
    (hprice : (b₁.level l).price = (b.level l).price)
    (hne : slotOf B (b.level l).price ≠ slotOf B o.price) :
    b₁.rung (Function.update queue (slotOf B o.price) (queue (slotOf B o.price) ++ [p])) l =
      b.rung queue l := by
  simp only [OrderBook.rung, hprice, Function.update_of_ne hne]
  congr 1
  apply List.map_congr_left
  intro q hq
  exact hf.data_of_ne q fun e => hf.fresh (e ▸ h.sound.live_of_mem hq)

/-- The level under which an order is filed. -/
theorem rung_files_self (h : Regular b queue ring) (hf : Filed b b₁ p o)
    (hslot : slotOf B (b₁.level l).price = slotOf B o.price) :
    b₁.rung (Function.update queue (slotOf B o.price) (queue (slotOf B o.price) ++ [p])) l =
      ((b₁.level l).price, (queue (slotOf B o.price)).map b.data ++ [o]) := by
  simp only [OrderBook.rung, hslot, Function.update_self, List.map_append]
  congr 2
  · apply List.map_congr_left
    intro q hq
    exact hf.data_of_ne q fun e => hf.fresh (e ▸ h.sound.live_of_mem hq)
  · rw [List.map_singleton, hf.data_self]

/-- The ladders after an order has been filed under the level in its slot. -/
theorem ladder_appended (h : Regular b queue ring) (hplace : Market.HasPlace B b.market taker)
    (hfiled : Filed b b₁ p o) (ha : Appended b b₁ p o.price l (queue (slotOf B o.price)))
    (hprice : o.price = taker.price) (hs : s.Proper) :
    b₁.ladder s =
      if s = taker.side then (b.ladder s).enter (Market.place taker.side) taker.price o
      else b.ladder s := by
  have hlevel : ∀ z, b₁.level z = b.level z := fun z => by rw [OrderBook.level, ha.levels]
  have hl : b.getLevelForPrice taker.price = some l := hprice ▸ ha.slot
  obtain ⟨hlside, hlprice⟩ := h.level_of_place hplace hl
  have hmem : l ∈ ring taker.side := by
    have := (h.twoSided.mem l (h.sound.live_of_slot hl)).2
    rwa [hlside] at this
  have hne : ∀ z ∈ ring s, z ≠ l → slotOf B (b.level z).price ≠ slotOf B taker.price :=
    fun z hz hzl e => hzl (h.eq_of_slot (h.twoSided.live s hs z hz) hl e)
  have hframe : ∀ z ∈ ring s, z ≠ l → b₁.rung (Function.update queue (slotOf B o.price)
      (queue (slotOf B o.price) ++ [p])) z = b.rung queue z :=
    fun z hz hzl => h.rung_files_of_ne hfiled (by rw [hlevel]) (hprice ▸ hne z hz hzl)
  rw [(h.twoSided.congr ha.levels ha.bids ha.asks).ladder_eq
    (h.sound.files ⟨hfiled, .inl ⟨l, ha⟩⟩) hs, h.twoSided.ladder_eq h.sound hs]
  split
  next hst =>
    subst hst
    have hkey : taker.price ∈ ((ring taker.side).map (b.rung queue)).map Prod.fst := by
      rw [List.map_map]
      exact List.mem_map.mpr ⟨l, hmem, hlprice⟩
    rw [Ladder.enter, if_pos hkey, List.map_map]
    apply List.map_congr_left
    intro z hz
    rw [Function.comp_apply]
    by_cases hzl : z = l
    · subst hzl
      rw [h.rung_files_self hfiled (by rw [hlevel, hlprice, hprice]), hlevel]
      simp only [OrderBook.rung, hlprice, if_pos, hprice]
    · have hzprice : (b.rung queue z).1 ≠ taker.price :=
        fun e => hne z hz hzl (congrArg (slotOf B) e)
      rw [hframe z hz hzl, if_neg hzprice]
  next hst =>
    apply List.map_congr_left
    intro z hz
    refine hframe z hz ?_
    rintro rfl
    exact h.twoSided.disjoint hs hplace.proper hst hz hmem

/-- The ladders after an order has been filed under a level of its own. -/
theorem ladder_opened (h : Regular b queue ring) (hproper : taker.side.Proper) {n : LevelPtr B}
    {best' : Option (LevelPtr B)} (hfiled : Filed b b₁ p o)
    (ho : Opened b b₁ p o.side o.price n best') (hside : o.side = taker.side)
    (hprice : o.price = taker.price) (hs : s.Proper) :
    b₁.ladder s =
      if s = taker.side then (b.ladder s).enter (Market.place taker.side) taker.price o
      else b.ladder s := by
  have hslot : b.mapPriceToPriceLevel (slotOf B taker.price) = none := hprice ▸ ho.slot
  have hqueue : queue (slotOf B o.price) = [] := by
    rw [hprice]
    exact (h.sound.queue_nil _).mp hslot
  have hne : ∀ z ∈ ring s, slotOf B (b.level z).price ≠ slotOf B taker.price := by
    intro z hz e
    have := h.sound.slot_of_live (h.twoSided.live s hs z hz)
    rw [e, hslot] at this
    cases this
  have hframe : ∀ z ∈ ring s, b₁.rung (Function.update queue (slotOf B o.price)
      (queue (slotOf B o.price) ++ [p])) z = b.rung queue z := by
    intro z hz
    have hzn : z ≠ n := fun e => ho.fresh (e ▸ h.twoSided.live s hs z hz)
    exact h.rung_files_of_ne hfiled (ho.price_of_ne z hzn) (hprice ▸ hne z hz)
  have hnew : b₁.rung (Function.update queue (slotOf B o.price)
      (queue (slotOf B o.price) ++ [p])) n =
      (taker.price, [o]) := by
    rw [h.rung_files_self hfiled (by rw [ho.price_self]), ho.price_self, hqueue, hprice]
    rfl
  rw [(h.twoSided.opened ho (hside ▸ hproper)).ladder_eq
    (h.sound.files ⟨hfiled, .inr ⟨n, best', ho⟩⟩) hs, h.twoSided.ladder_eq h.sound hs, hside]
  split
  next hst =>
    subst hst
    have hkey : taker.price ∉ ((ring taker.side).map (b.rung queue)).map Prod.fst := by
      rw [List.map_map]
      intro hk
      obtain ⟨z, hz, he⟩ := List.mem_map.mp hk
      exact hne z hz (congrArg (slotOf B) he)
    have hmap := map_ringWith
      (b₁.rung (Function.update queue (slotOf B o.price) (queue (slotOf B o.price) ++ [p])))
      (fun r => addsAfter taker.side o.price r.1) (fun r => becomesBest taker.side o.price r.1) n
      (ring taker.side)
    rw [hnew, List.map_congr_left hframe] at hmap
    rw [Ladder.enter, if_neg hkey, Function.update_self, Market.place, ← hprice]
    rw [hprice] at hmap ⊢
    exact hmap
  next hst =>
    rw [Function.update_of_ne hst]
    exact List.map_congr_left hframe

/-- A key no resting order has leads nowhere. -/
theorem entry_of_place (h : Regular b queue ring) (hpos : b.QtyPos)
    (hplace : Market.HasPlace B b.market taker) :
    b.mapClientIdToOrder taker.clientId taker.clientOid = none := by
  by_contra hentry
  obtain ⟨q, hq⟩ := Option.ne_none_iff_exists'.mp hentry
  obtain ⟨hlive, hc, hk⟩ := h.sound.clientMap _ _ q hq
  have hkey : Order.hasKey taker.clientId taker.clientOid (b.data q) = true :=
    decide_eq_true ⟨hc, hk⟩
  rw [hplace.free _ (h.mem_market_orders hpos hlive)] at hkey
  cases hkey

/-- A remainder comes to rest where there is a block for it, and room in the client map. -/
theorem restOrder_runs (h : Regular b queue ring) (hpos : b.QtyPos)
    (hkey : InClientMap B taker.clientId taker.clientOid)
    (hroom : b.market.orders.length < maxOrderIds) (newMarketOid : OrderID) :
    ∃ b', restOrder taker newMarketOid taker.qty b = .ok () b' := by
  have hstanding : Standing b ring b.ordersOf :=
    ⟨h.twoSided.linked ⟨h.sound, hpos⟩, fun l hl => ⟨_, h.twoSided.mem l hl⟩, h.pools⟩
  obtain ⟨p, b₂, u, hrest⟩ :=
    hstanding.restOrder_eq ((h.room_iff hpos).mp hroom) newMarketOid taker.qty
  rw [bind_of_ok (setClientOrder_of_mem (some p) hkey), publishMarketUpdate_apply] at hrest
  exact ⟨_, hrest⟩

/-- The ladders after a remainder has been filed: the own side's has the order entered. -/
theorem ladder_files (h : Regular b queue ring) (hplace : Market.HasPlace B b.market taker)
    (hf : Files b b₁ queue p o) (hside : o.side = taker.side) (hprice : o.price = taker.price)
    (hs : s.Proper) :
    b₁.ladder s =
      if s = taker.side then (b.ladder s).enter (Market.place taker.side) taker.price o
      else b.ladder s := by
  rcases hf.2 with ⟨l, ha⟩ | ⟨n, best', hopened⟩
  · exact h.ladder_appended hplace hf.1 ha hprice hs
  · exact h.ladder_opened hplace.proper hf.1 hopened hside hprice hs

/-- An order filed where it has a place leaves a regular book. -/
theorem files (h : Regular b queue ring) (hplace : Market.HasPlace B b.market taker)
    (hf : Files b b₁ queue p o) (hside : o.side = taker.side) (hprice : o.price = taker.price)
    (hentered : Entered b₁) (hpools : PoolsWellFormed b₁) :
    ∃ ring', Regular b₁
      (Function.update queue (slotOf B o.price) (queue (slotOf B o.price) ++ [p])) ring' := by
  have hproper : o.side.Proper := hside ▸ hplace.proper
  have hagrees : Agrees Eq b₁ := by
    refine h.agrees.files (fun _ => rfl) h.sound hf ?_
    intro l hl
    obtain ⟨hlside, hlprice⟩ := h.level_of_place hplace (hprice ▸ hl)
    rw [Order.quote, OrdersAtPrice.quote, hside, hprice, hlside, hlprice]
  rcases h.twoSided.files hf hproper with ⟨htwo, -⟩ | ⟨_, _, -, htwo⟩
  · exact ⟨_, h.sound.files hf, htwo, h.proper.files hf hproper, hagrees, hentered, hpools⟩
  · exact ⟨_, h.sound.files hf, htwo, h.proper.files hf hproper, hagrees, hentered, hpools⟩

/-- What has been sent has no part in it. -/
theorem publish (h : Regular b queue ring) (log : List Emission) :
    Regular { b with ome := log } queue ring :=
  ⟨h.sound.congr_counters _ _, h.twoSided.congr rfl rfl rfl, h.proper, h.agrees, h.entered,
    ⟨h.pools.orders, h.pools.levels⟩⟩

/-- **A remainder comes to rest** as the market says, where it has a place. -/
theorem restOrder_eq (h : Regular b queue ring) (hpos : b.QtyPos) (hqty : taker.qty ≠ 0)
    (hplace : Market.HasPlace B b.market taker) (newMarketOid : OrderID) :
    ∃ b', restOrder taker newMarketOid taker.qty b = .ok () b' ∧
      (∃ queue' ring', Regular b' queue' ring') ∧ b'.QtyPos ∧
      b'.market = b.market.rest taker newMarketOid := by
  obtain ⟨b', hrest⟩ := h.restOrder_runs hpos hplace.key hplace.room newMarketOid
  refine ⟨b', hrest, ?_⟩
  obtain ⟨p, o, b₁, hr⟩ := rests_of_restOrder h.sound hrest
  have ho := hr.order
  have hside : o.side = taker.side := by rw [ho]; rfl
  have hprice : o.price = taker.price := by rw [ho]; rfl
  rw [h.resting_eq hplace] at ho
  have hentered := h.entered.rests hr (h.entry_of_place hpos hplace)
  have hpools := keepsPools_restOrder taker newMarketOid taker.qty b () b' h.pools hrest
  have hfiled := hr.files.1
  rw [hr.book] at hentered hpools ⊢
  obtain ⟨ring', hregular⟩ := h.files hplace hr.files hside hprice hentered
    ⟨hpools.orders, hpools.levels⟩
  refine ⟨⟨_, ring', hregular.publish _⟩, ?_, Market.ext_sides ?_ ?_ ?_⟩
  · refine fun q hq => hfiled.forall_live (P := fun o => o.qty ≠ 0) ?_ hpos q hq
    rw [ho]
    exact hqty
  · intro t ht
    have hentered : (b.market.rest taker newMarketOid).side t =
        if t = taker.side then (b.market.side taker.side).enter (Market.place taker.side)
          taker.price (b.market.resting taker newMarketOid) else b.market.side t :=
      Market.side_setSide hplace.proper ht b.market _
    rw [OrderBook.market_side _ ht, hentered, b.market_side ht, b.market_side hplace.proper, ← ho]
    refine (h.ladder_files hplace hr.files hside hprice ht).trans ?_
    split
    next hts => rw [hts]
    · rfl
  · show b₁.nextMarketOid = _
    rw [hfiled.nextMarketOid]
    exact (Market.nextMarketOid_setSide b.market _ _).symm
  · show b₁.ome ++ _ = b.ome ++ _
    rw [hfiled.ome, ho]

end rest

/-! ## Requests -/

section requests

variable {stray : ℕ → Qty} {taker : NewOrder} {b : OrderBook B} {queue : Queues B}
  {ring : Side → List (LevelPtr B)} {p : OrderPtr} {r : CancelOrder}

/-- The order with the key of a cancel, as market and client map have it. -/
theorem find_eq (h : Regular b queue ring) (hpos : b.QtyPos) :
    b.market.orders.find? (Order.hasKey r.clientId r.orderId) =
      (b.mapClientIdToOrder r.clientId r.orderId).map b.data := by
  have hsides : HasSides b := ⟨⟨ring, h.twoSided⟩, h.proper⟩
  have hlive : ∀ q ∈ b.reachedOrders, b.LiveOrder q :=
    fun q hq => ((hsides.nothingLost ⟨h.sound, hpos⟩).mem_orders q).mp hq
  rw [b.market_orders, List.find?_map]
  congr 1
  cases hentry : b.mapClientIdToOrder r.clientId r.orderId with
  | none =>
    rw [List.find?_eq_none]
    intro q hq hkey
    have hkey : (b.order q).clientId = r.clientId ∧ (b.order q).clientOrderId = r.orderId :=
      of_decide_eq_true hkey
    have := h.entered q (hlive q hq)
    rw [hkey.1, hkey.2, hentry] at this
    cases this
  | some p =>
    obtain ⟨hp, hc, hk⟩ := h.sound.clientMap _ _ p hentry
    obtain ⟨q, hq⟩ : ∃ q, b.reachedOrders.find?
        (Order.hasKey r.clientId r.orderId ∘ b.data) = some q := by
      apply Option.isSome_iff_exists.mp
      rw [List.find?_isSome]
      exact ⟨p, ((hsides.nothingLost ⟨h.sound, hpos⟩).mem_orders p).mpr hp, decide_eq_true ⟨hc, hk⟩⟩
    have hfound := List.find?_some hq
    have hkey : (b.order q).clientId = r.clientId ∧ (b.order q).clientOrderId = r.orderId :=
      of_decide_eq_true hfound
    rw [hq, h.entered.key_inj (hlive q (List.mem_of_find?_eq_some hq)) hp (hkey.1.trans hc.symm)
      (hkey.2.trans hk.symm)]

/-- **A cancel** takes out what the market's takes out. -/
theorem cancelOrder_eq (h : Regular b queue ring) (hpos : b.QtyPos)
    (hk : r.clientId.toNat < maxNClients B → r.orderId.toNat < maxOrderIds) :
    ∃ b', cancelOrder r b = .ok () b' ∧ (∃ queue' ring', Regular b' queue' ring') ∧ b'.QtyPos ∧
      b'.market = b.market.cancel r := by
  cases hentry : b.market.orders.find? (Order.hasKey r.clientId r.orderId) with
  | none =>
    refine ⟨b.reject r, cancelOrder_missing hk ?_, ⟨_, _, h.publish _⟩, hpos, ?_⟩
    · intro _
      rw [h.find_eq hpos] at hentry
      exact Option.map_eq_none_iff.mp hentry
    · rw [Market.cancel, hentry]
      rfl
  | some o =>
    have hmap := h.find_eq (r := r) hpos
    rw [hentry] at hmap
    obtain ⟨p, hp, ho⟩ := Option.map_eq_some_iff.mp hmap.symm
    obtain ⟨hlive, hc, hk'⟩ := h.sound.clientMap _ _ p hp
    obtain ⟨l, hslot⟩ := h.sound.exists_level hlive
    have hin := h.sound.inClientMap p hlive
    rw [hc, hk'] at hin
    refine ⟨b.cancel r p l, cancelOrder_found h.sound ⟨hin.1, hin.2, hp, hlive, hslot⟩,
      ⟨_, _, (h.detach hlive hslot).publish _⟩, ?_, ?_⟩
    · exact fun q hq => b.forall_live_detach p q l (P := fun o => o.qty ≠ 0) hpos hq
    · rw [Market.cancel, hentry]
      apply Market.ext_sides
      · intro t ht
        have hside : (b.market.withdraw r.clientId r.orderId).side t =
            (b.market.side t).without (Order.hasKey r.clientId r.orderId) := by
          rcases ht with rfl | rfl <;> rfl
        refine ((b.cancel r p l).market_side ht).trans ?_
        refine (h.ladder_detach hlive hslot ht).trans ?_
        rw [hc, hk', ← b.market_side ht, ← hside]
        rfl
      · exact b.nextMarketOid_detach p l
      · show b.ome ++ r.events (b.order p) = b.ome ++ r.events o
        rw [← ho]
        rfl

end requests

end Regular

/-- What `addOrder` does once its loop has returned. -/
theorem addOrder_of_findMatch {stray : ℕ → Qty} {taker : NewOrder} {b b₁ : OrderBook B}
    (h : findMatch stray taker b.nextMarketOid (b.accept taker) = .ok taker.qty b₁) :
    addOrder stray taker b =
      if taker.qty = 0 then .ok () b₁ else restOrder taker b.nextMarketOid taker.qty b₁ := by
  have hid : getNewMarketOrderId b =
      .ok b.nextMarketOid { b with nextMarketOid := b.nextMarketOid + 1 } := rfl
  unfold addOrder
  rw [bind_of_ok hid, bind_of_ok (dispatchClientResponse_apply _ _)]
  refine (bind_of_ok h).trans ?_
  split <;> rfl

/-- **The matching of a new order** ends, without a fault, and leaves what the market keeps. -/
theorem Regular.findMatch_eq (stray : ℕ → Qty) {b : OrderBook B} {queue : Queues B}
    {ring : Side → List (LevelPtr B)} (h : Regular b queue ring) (hpos : b.QtyPos)
    (taker : NewOrder) :
    ∃ b₁, findMatch stray taker b.nextMarketOid (b.accept taker) = .ok taker.qty b₁ ∧
      (∃ queue₁ ring₁, Regular b₁ queue₁ ring₁) ∧ b₁.QtyPos ∧
      b₁.market = if taker.Matches then
        (b.market.accept taker).sweep stray taker b.nextMarketOid else b.market.accept taker := by
  have haccept := h.accept taker
  have hpos' : (b.accept taker).QtyPos := hpos
  by_cases hm : taker.Matches
  · rw [if_pos hm]
    exact haccept.matchLoop_eq hpos' hm.2 hm.1 (b.accept taker).totalQty_lt_matchFuel
  · rw [if_neg hm]
    refine ⟨b.accept taker, findMatch_of_none ?_, ⟨_, _, haccept⟩, hpos', rfl⟩
    by_cases hqty : taker.qty = 0
    · rw [nextMatch, if_pos hqty]
      rfl
    · have hside : ¬ taker.side.Proper := fun hs => hm ⟨hqty, hs⟩
      refine MatchesNothing.nextMatch (.inl ?_) hqty
      rw [Side.Proper, not_or] at hside
      rw [OrderBook.opposite, if_neg hside.1, if_neg hside.2]

/-- What is left of the ladders after the matching, whatever has been said meanwhile. -/
theorem Market.side_matched {stray : ℕ → Qty} (m : Market) (taker : NewOrder)
    (newMarketOid : OrderID) {s : Side} (hs : s.Proper) :
    (if taker.Matches then (m.accept taker).sweep stray taker newMarketOid
      else m.accept taker).side s = (m.cleared taker).side s := by
  by_cases hm : taker.Matches
  · rw [if_pos hm]
    exact (side_cleared hm.1 hm.2 hs).trans (side_cleared (m := m) hm.1 hm.2 hs).symm
  · rw [if_neg hm, cleared, if_neg hm]
    rfl

/-- The orders of a market are those of its two sides. -/
theorem Market.orders_congr {m m' : Market} (hside : ∀ s : Side, s.Proper → m'.side s = m.side s) :
    m'.orders = m.orders := by
  show Ladder.orders (m'.side .buy) ++ Ladder.orders (m'.side .sell) = _
  rw [hside .buy (.inl rfl), hside .sell (.inr rfl)]
  rfl

/-- There is a place in a market with the same ladders. -/
theorem Market.HasPlace.congr {m m' : Market} {taker : NewOrder} (h : HasPlace B m taker)
    (hside : ∀ s : Side, s.Proper → m'.side s = m.side s) : HasPlace B m' taker := by
  have horders := orders_congr hside
  refine ⟨h.proper, h.key, horders ▸ h.free, horders ▸ h.room, ?_, ?_⟩
  · rw [hside _ h.proper]
    exact h.own
  · rw [hside _ h.proper.other_proper]
    exact h.other

/-- **A request** is handled as the market handles it, when the market admits it: without a fault,
and leaving a regular book. -/
theorem Regular.handleRequest_eq (stray : ℕ → Qty) {b : OrderBook B} {queue : Queues B}
    {ring : Side → List (LevelPtr B)} {r : Request} (h : Regular b queue ring) (hpos : b.QtyPos)
    (hadmits : b.market.Admits B r) :
    ∃ b', handleRequest stray r b = .ok () b' ∧ (∃ queue' ring', Regular b' queue' ring') ∧
      b'.QtyPos ∧ b'.market = b.market.handle stray r := by
  cases r with
  | cancel r => exact h.cancelOrder_eq hpos hadmits
  | new taker =>
    obtain ⟨b₁, hloop, ⟨queue₁, ring₁, h₁⟩, hpos₁, hmarket₁⟩ :=
      h.findMatch_eq stray hpos taker
    have hadd := addOrder_of_findMatch hloop
    by_cases hqty : taker.qty = 0
    · rw [if_pos hqty] at hadd
      refine ⟨b₁, hadd, ⟨_, _, h₁⟩, hpos₁, ?_⟩
      rw [hmarket₁, if_neg fun hm : taker.Matches => hm.1 hqty, Market.handle, if_pos hqty]
    · have hplace := hadmits hqty
      have hplace₁ : Market.HasPlace B b₁.market taker := by
        rw [hmarket₁]
        exact hplace.congr fun s hs => b.market.side_matched taker b.nextMarketOid hs
      obtain ⟨b', hrest, hregular, hpos', hmarket⟩ :=
        h₁.restOrder_eq hpos₁ hqty hplace₁ b.nextMarketOid
      rw [if_neg hqty] at hadd
      refine ⟨b', hadd.trans hrest, hregular, hpos', ?_⟩
      rw [hmarket, hmarket₁, if_pos ⟨hqty, hplace.proper⟩, Market.handle, if_neg hqty]
      rfl

/-- **A request that ends** on a regular book is one that its market lets survive. -/
theorem Regular.handleRequest_iff {stray : ℕ → Qty} {b : OrderBook B} {queue : Queues B}
    {ring : Side → List (LevelPtr B)} (h : Regular b queue ring) (hpos : b.QtyPos) (r : Request) :
    (∃ b', handleRequest stray r b = .ok () b') ↔ b.market.Survives B r := by
  cases r with
  | cancel r =>
    constructor
    · rintro ⟨b', hreq⟩ hc
      exact orderId_lt_of_cancelOrder hreq hc
    · intro hk
      obtain ⟨b', hreq, -⟩ := h.cancelOrder_eq hpos hk
      exact ⟨b', hreq⟩
  | new taker =>
    obtain ⟨b₁, hloop, ⟨queue₁, ring₁, h₁⟩, hpos₁, hmarket₁⟩ :=
      h.findMatch_eq stray hpos taker
    have hadd := addOrder_of_findMatch hloop
    have horders : b₁.market.orders = (b.market.cleared taker).orders := by
      rw [hmarket₁]
      exact Market.orders_congr fun s hs => b.market.side_matched taker b.nextMarketOid hs
    show (∃ b', addOrder stray taker b = .ok () b') ↔ _
    rw [hadd]
    by_cases hqty : taker.qty = 0
    · rw [if_pos hqty]
      exact ⟨fun _ hne => absurd hqty hne, fun _ => ⟨b₁, rfl⟩⟩
    · rw [if_neg hqty]
      constructor
      · rintro ⟨b', hrest⟩ -
        obtain ⟨p, o, b₂, hr⟩ := rests_of_restOrder h₁.sound hrest
        have hkey := hr.files.1.inClientMap
        rw [hr.order] at hkey
        refine ⟨hkey, ?_⟩
        rw [← horders]
        exact (h₁.room_iff hpos₁).mpr ⟨p, hr.files.1.fresh⟩
      · intro hsurvives
        obtain ⟨hkey, hroom⟩ := hsurvives hqty
        rw [← horders] at hroom
        exact h₁.restOrder_runs hpos₁ hkey hroom b.nextMarketOid

/-! ## Runs -/

theorem regular_create (B : Build) : Regular (OrderBook.create B) (fun _ => []) fun _ => [] :=
  ⟨sound_create B, twoSided_create B, properOrders_create B, agrees_create Eq B,
    fun p hp => absurd hp (not_liveOrder_create p), poolsWellFormed_create B⟩

/-- Every request a market admits, one after the other. -/
theorem Regular.handleAll_eq {stray : ℕ → Qty} {b : OrderBook B} {queue : Queues B}
    {ring : Side → List (LevelPtr B)} {rs : List Request} (h : Regular b queue ring)
    (hpos : b.QtyPos) (hadmits : b.market.AdmitsAll B stray rs) :
    ∃ b', handleAll stray rs b = .ok () b' ∧ (∃ queue' ring', Regular b' queue' ring') ∧
      b'.QtyPos ∧ b'.market = b.market.handleAll stray rs := by
  induction rs generalizing b queue ring with
  | nil => exact ⟨b, rfl, ⟨queue, ring, h⟩, hpos, rfl⟩
  | cons r rs ih =>
    obtain ⟨hr, hrs⟩ := hadmits
    obtain ⟨b₁, hreq, ⟨queue₁, ring₁, h₁⟩, hpos₁, hmarket₁⟩ :=
      h.handleRequest_eq stray hpos hr
    obtain ⟨b', hall, hregular, hpos', hmarket⟩ := ih h₁ hpos₁ (hmarket₁.symm ▸ hrs)
    refine ⟨b', ?_, hregular, hpos', ?_⟩
    · rw [handleAll, bind_of_ok hreq, hall]
    · rw [hmarket, hmarket₁]
      rfl

/-- Requests that the market admits lead to a regular book. -/
theorem exists_regular {stray : ℕ → Qty} {rs : List Request}
    (h : Market.empty.AdmitsAll B stray rs) :
    ∃ b : OrderBook B, RunsTo stray rs b ∧ (∃ queue ring, Regular b queue ring) ∧ b.QtyPos ∧
      b.market = Market.empty.handleAll stray rs := by
  have hempty : (OrderBook.create B).market = Market.empty := rfl
  obtain ⟨b, hrun, hregular, hpos, hmarket⟩ := (regular_create B).handleAll_eq
    (fun p hp => absurd hp (not_liveOrder_create p)) (hempty.symm ▸ h)
  exact ⟨b, hrun, hregular, hpos, by rw [hmarket, hempty]⟩

/-- **A book refines its market.** Requests that the market admits, each as it stands when the
request comes, are all handled to the end, without a fault, and leave a book whose market is what
the market's own handling makes of them: the levels and their orders in order, the next id, and
every call made on the engine. -/
theorem book_refines_market (B : Build) (stray : ℕ → Qty) (rs : List Request)
    (h : Market.empty.AdmitsAll B stray rs) :
    ∃ b : OrderBook B, RunsTo stray rs b ∧ b.market = Market.empty.handleAll stray rs := by
  obtain ⟨b, hrun, -, -, hmarket⟩ := exists_regular h
  exact ⟨b, hrun, hmarket⟩

/-- Two asks of one price and one behind them: a bid takes the first level in executions of at most
`4` and comes to rest with all it asked for; the last ask is cancelled, by its owner and then once
more. -/
theorem book_refines_market_sample :
    ∃ b : OrderBook .production, RunsTo (fun _ => 0)
        [.new ⟨1, 1, 0, .sell, 100, 10⟩, .new ⟨2, 1, 0, .sell, 101, 5⟩,
          .new ⟨2, 2, 0, .sell, 100, 7⟩,
          .new ⟨3, 1, 0, .buy, 100, 4⟩, .cancel ⟨2, 1, 0⟩, .cancel ⟨2, 1, 0⟩] b ∧
      b.market = Market.empty.handleAll (fun _ => 0)
        [.new ⟨1, 1, 0, .sell, 100, 10⟩, .new ⟨2, 1, 0, .sell, 101, 5⟩,
          .new ⟨2, 2, 0, .sell, 100, 7⟩,
          .new ⟨3, 1, 0, .buy, 100, 4⟩, .cancel ⟨2, 1, 0⟩, .cancel ⟨2, 1, 0⟩] :=
  book_refines_market .production _ _ (by decide +kernel)

/-- **When the next request ends.** After requests that the market has admitted, any request at all
is handled to its end exactly when the market lets it survive: a cancel with an order id inside the
client map, or of no known client; a new order without a quantity, or with a key inside the client
map and, the orders it uses up having gone, a block for its remainder. -/
theorem request_survives_iff (stray : ℕ → Qty) (rs : List Request) (b : OrderBook B)
    (h : Market.empty.AdmitsAll B stray rs) (hrun : RunsTo stray rs b) (r : Request) :
    (∃ b', handleRequest stray r b = .ok () b') ↔
      (Market.empty.handleAll stray rs).Survives B r := by
  obtain ⟨b₁, hrun₁, ⟨queue, ring, h₁⟩, hpos₁, hmarket⟩ := exists_regular h
  rw [hrun.unique hrun₁, h₁.handleRequest_iff hpos₁, hmarket]

/-- After `ladders`: a `BUY` that takes two levels and comes to rest is handled to its end; one
whose order id is outside the client map is not, unless nothing of it remains, nor is a cancel of
such an id, unless its client is unknown. -/
theorem request_survives_iff_sample :
    ∃ b : OrderBook .production, RunsTo (fun _ => 0) ladders b ∧
      (∃ b', handleRequest (fun _ => 0) (.new ⟨5, 1, 0, .buy, 102, 3⟩) b = .ok () b') ∧
      (¬ ∃ b', handleRequest (fun _ => 0) (.new ⟨5, 1048576, 0, .buy, 102, 3⟩) b = .ok () b') ∧
      (∃ b', handleRequest (fun _ => 0) (.new ⟨5, 1048576, 0, .buy, 102, 0⟩) b = .ok () b') ∧
      (¬ ∃ b', handleRequest (fun _ => 0) (.cancel ⟨1, 1048576, 0⟩) b = .ok () b') ∧
      ∃ b', handleRequest (fun _ => 0) (.cancel ⟨4294967295, 1048576, 0⟩) b = .ok () b' := by
  have hrun : RunsTo (fun _ => 0) ladders (bookAfter .production (fun _ => 0) ladders) :=
    runsTo_bookAfter (by decide +kernel)
  have hiff := request_survives_iff (fun _ => 0) ladders _ (by decide +kernel) hrun
  exact ⟨_, hrun, (hiff _).mpr (by decide +kernel), fun h => absurd ((hiff _).mp h) (by decide +kernel),
    (hiff _).mpr (by decide +kernel), fun h => absurd ((hiff _).mp h) (by decide +kernel),
    (hiff _).mpr (by decide +kernel)⟩

end HftSys
