import HftSys.Sound

/-!
# Taking an order out of the book

What `removeOrderFromBook` does, as a function of books. `detach b p l` is the book without order
`p` of level `l`: either the order ring of `l` closes over the gap (`unlinked`), or `p` was alone
and the level goes with it (`dropLevel`). `Rings.removeOrderFromBook_eq` says that the source
function ends in that book, without a fault, `Rings.detach` what becomes of the rings, and
`Sound.detach` that a sound book stays sound.

`dropLevel` is given the *order's* side, as the source does: the best pointer it repairs is the
level's only when the two sides agree.
-/

namespace HftSys

open Circular Exec

variable {B : Build}

namespace OrderBook

/-- The best pointer of `side` after `removePriceLevel side` has taken out level `l`. -/
def bestWithout (b : OrderBook B) (side : Side) (l : LevelPtr B) : Option (LevelPtr B) :=
  if (b.level l).next = some l then none
  else if b.bestOf side = some l then (b.level l).next
  else b.bestOf side

/-- The book after `removePriceLevel side price`, `l` being the level in the slot. -/
def dropLevel (b : OrderBook B) (side : Side) (price : Price) (l : LevelPtr B) : OrderBook B :=
  let b₁ := (b.setLevelLinks (b.levelLinks.bypass l)).setBestTo side (b.bestWithout side l)
  { b₁ with
    mapPriceToPriceLevel := Function.update b.mapPriceToPriceLevel (slotOf B price) none
    ordersAtPricePool := b₁.ordersAtPricePool.release l }

/-- The book after the branch of `removeOrderFromBook` that keeps level `l`. -/
def unlinked (b : OrderBook B) (p : OrderPtr) (l : LevelPtr B) : OrderBook B :=
  let b₁ := b.setOrderLinks (b.orderLinks.bypass p)
  if (b.level l).order0 = some p then
    { b₁ with
      ordersAtPricePool := b.ordersAtPricePool.set l { b.level l with order0 := (b.order p).next } }
  else b₁

/-- The book after `removeOrderFromBook p`, `l` being the level in the order's slot. -/
def detach (b : OrderBook B) (p : OrderPtr) (l : LevelPtr B) : OrderBook B :=
  let b₁ :=
    if (b.order p).prev = some p then b.dropLevel (b.order p).side (b.order p).price l
    else b.unlinked p l
  { b₁.setEntry (b.order p).clientId (b.order p).clientOrderId none with
    orderPool := b₁.orderPool.release p }

end OrderBook

/-! ## What each step leaves alone -/

namespace OrderBook

variable (b : OrderBook B) (side : Side) (price : Price) (p : OrderPtr) (l : LevelPtr B)

/-- A level is dropped without touching the orders. -/
@[simp] theorem orderPool_dropLevel : (b.dropLevel side price l).orderPool = b.orderPool := by
  simp [dropLevel, setLevelLinks]

/-- Of the orders, the neighbours of the one unlinked get new links, and nothing else happens to
them. -/
@[simp] theorem orderPool_unlinked :
    (b.unlinked p l).orderPool = (b.setOrderLinks (b.orderLinks.bypass p)).orderPool := by
  unfold unlinked; split <;> rfl

end OrderBook

/-! ## The branches of the source -/

section branches

variable {b : OrderBook B}

/-- "Side is not empty; update adjacent pointers". -/
theorem unlinkLevel_eq {side : Side} {l x y : LevelPtr B} (hl : b.LiveLevel l)
    (hx : b.LiveLevel x) (hy : b.LiveLevel y) (hxl : b.levelLinks.Joined x l)
    (hly : b.levelLinks.Joined l y) (hne : y ≠ l) :
    unlinkLevel side (some l) b =
      .ok () ((b.setLevelLinks (b.levelLinks.bypass l)).setBestTo side
        (if b.bestOf side = some l then some y else b.bestOf side)) := by
  have hprev : (b.level l).prev = some x := hxl.2
  have hnext : (b.level l).next = some y := hly.1
  have hxne : x ≠ l := by
    rintro rfl
    exact hne (Option.some.inj (hly.1.symm.trans hxl.1))
  rw [Links.bypass_of_ne hxl.2 hly.1 hne]
  -- `prev_->next_ = next_`, then `next_->prev_ = prev_`
  unfold unlinkLevel
  rw [bind_of_ok (derefLevel_of_live hl), hprev, hnext, bind_of_ok (storeLevel_next _ hx)]
  set b₁ := b.setLevelLinks (b.levelLinks.setNext x (some y)) with hb₁
  have hl₁ : b₁.LiveLevel l := hl
  have hp₁ : (b₁.level l).prev = some x := hprev
  have hn₁ : (b₁.level l).next = some y := by
    show (b.levelLinks.setNext x (some y)).next l = some y
    simp [Links.setNext, hxne.symm, hly.1]
  rw [bind_of_ok (derefLevel_of_live hl₁), hp₁, hn₁, bind_of_ok (storeLevel_prev _ (show b₁.LiveLevel y from hy))]
  set b₂ := b₁.setLevelLinks (b₁.levelLinks.setPrev y (some x)) with hb₂
  have hl₂ : b₂.LiveLevel l := hl
  have hn₂ : (b₂.level l).next = some y := hn₁
  have hlinks : b₂.levelLinks = b.levelLinks.join x y := rfl
  rw [bind_of_ok (derefLevel_of_live hl₂), hn₂, get_bind]
  -- the best pointer, then the level's own links
  have hbest : b₂.bestOf side = b.bestOf side := rfl
  rw [hbest]
  by_cases h : b.bestOf side = some l
  · rw [if_pos h.symm, if_pos h, bind_of_ok (setBest_apply b₂ side (some y))]
    have hl₃ : (b₂.setBestTo side (some y)).LiveLevel l := by
      unfold OrderBook.setBestTo
      split <;> exact hl
    apply (storeLevel_clear hl₃).trans
    unfold OrderBook.setBestTo
    split <;> rfl
  · rw [if_neg (fun e => h e.symm), if_neg h]
    apply (storeLevel_clear hl₂).trans
    unfold OrderBook.setBestTo OrderBook.bestOf
    split <;> rfl

/-- `removePriceLevel` on a level that is linked to levels in use. -/
theorem removePriceLevel_eq {side : Side} {price : Price} {l x y : LevelPtr B}
    (hslot : b.getLevelForPrice price = some l) (hl : b.LiveLevel l)
    (hx : b.LiveLevel x) (hy : b.LiveLevel y) (hxl : b.levelLinks.Joined x l)
    (hly : b.levelLinks.Joined l y) :
    removePriceLevel side price b = .ok () (b.dropLevel side price l) := by
  have hnext : (b.level l).next = some y := hly.1
  have hlive : ∀ s p, ((b.setLevelLinks s).setBestTo side p).LiveLevel l := by
    intro s p
    unfold OrderBook.setBestTo
    split <;> exact hl
  unfold removePriceLevel OrderBook.dropLevel OrderBook.bestWithout
  rw [get_bind, hslot, bind_of_ok (derefLevel_of_live hl), hnext]
  by_cases hne : y = l
  · -- the last level of its circle: the side is taken to be empty
    subst hne
    rw [if_pos rfl, if_pos rfl, Links.bypass_of_self hxl.2 hly.1, bind_of_ok (setBest_apply b side none),
      OrderBook.setLevelLinks_self]
    have hl₁ : ((b.setBestTo side none).setSlot price none).LiveLevel y := hlive b.levelLinks none
    beta_reduce
    rw [bind_of_ok (setLevelForPrice_apply _ price none), deallocateLevel_of_live hl₁]
    unfold OrderBook.setBestTo
    split <;> rfl
  · have hne' : some y ≠ some l := fun e => hne (Option.some.inj e)
    rw [if_neg hne', if_neg hne', bind_of_ok (unlinkLevel_eq hl hx hy hxl hly hne)]
    have hl₁ : ((b.setLevelLinks (b.levelLinks.bypass l)).setBestTo side
        (if b.bestOf side = some l then some y else b.bestOf side) |>.setSlot price none).LiveLevel l :=
      hlive _ _
    beta_reduce
    rw [bind_of_ok (setLevelForPrice_apply _ price none), deallocateLevel_of_live hl₁]
    unfold OrderBook.setBestTo
    split <;> rfl

/-- "Remove the order from the doubly-linked list". -/
theorem unlinkOrder_eq {p x y : OrderPtr} {l : LevelPtr B} (hp : b.LiveOrder p)
    (hx : b.LiveOrder x) (hy : b.LiveOrder y) (hl : b.LiveLevel l)
    (hxp : b.orderLinks.Joined x p) (hpy : b.orderLinks.Joined p y) (hne : y ≠ p) :
    unlinkOrder (some p) (some l) b = .ok () (b.unlinked p l) := by
  have hprev : (b.order p).prev = some x := hxp.2
  have hnext : (b.order p).next = some y := hpy.1
  have hxne : x ≠ p := by
    rintro rfl
    exact hne (Option.some.inj (hpy.1.symm.trans hxp.1))
  unfold unlinkOrder OrderBook.unlinked
  rw [Links.bypass_of_ne hxp.2 hpy.1 hne]
  -- `prev_->next_ = next_`, then `next_->prev_ = prev_`
  rw [bind_of_ok (derefOrder_of_live hp), hprev, hnext, bind_of_ok (storeOrder_next _ hx)]
  set b₁ := b.setOrderLinks (b.orderLinks.setNext x (some y)) with hb₁
  have hp₁ : b₁.LiveOrder p := hp
  have hprev₁ : (b₁.order p).prev = some x := hprev
  have hnext₁ : (b₁.order p).next = some y := by
    show (b.orderLinks.setNext x (some y)).next p = some y
    simp [Links.setNext, hxne.symm, hpy.1]
  rw [bind_of_ok (derefOrder_of_live hp₁), hprev₁, hnext₁,
    bind_of_ok (storeOrder_prev _ (show b₁.LiveOrder y from hy))]
  set b₂ := b₁.setOrderLinks (b₁.orderLinks.setPrev y (some x)) with hb₂
  have hp₂ : b₂.LiveOrder p := hp
  have hl₂ : b₂.LiveLevel l := hl
  have hnext₂ : (b₂.order p).next = some y := hnext₁
  have hlevel₂ : (b₂.level l).order0 = (b.level l).order0 := rfl
  rw [bind_of_ok (derefLevel_of_live hl₂), bind_of_ok (derefOrder_of_live hp₂), hnext₂, hlevel₂]
  -- the first order of the level, then the order's own links
  by_cases h : (b.level l).order0 = some p
  · rw [if_pos h, if_pos h, bind_of_ok (storeLevel_of_live _ hl₂)]
    exact storeOrder_clear (b := { b₂ with ordersAtPricePool := _ }) hp₂
  · rw [if_neg h, if_neg h]
    exact storeOrder_clear hp₂

end branches

/-- **`removeOrderFromBook`** takes an order out of the ring of its price's slot, without a
fault. -/
theorem Rings.removeOrderFromBook_eq {b : OrderBook B} {queue : Queues B} (h : Rings b queue)
    {p : OrderPtr} {l : LevelPtr B} (hmem : p ∈ queue (slotOf B (b.order p).price))
    (hin : InClientMap B (b.order p).clientId (b.order p).clientOrderId)
    (hslot : b.getLevelForPrice (b.order p).price = some l) :
    removeOrderFromBook (some p) b = .ok () (b.detach p l) := by
  have hp : b.LiveOrder p := h.live_of_mem hmem
  have hl : b.LiveLevel l := h.liveLevel _ l hslot
  have hring := h.queue_ring (slotOf B (b.order p).price)
  obtain ⟨x, hx, hxp⟩ := hring.exists_prev hmem
  obtain ⟨y, hy, hpy⟩ := hring.exists_next hmem
  -- the last two statements, from the book the first `if` leaves
  have htail : ∀ b₁ : OrderBook B, b₁.LiveOrder p → (b₁.order p).clientId = (b.order p).clientId →
      (b₁.order p).clientOrderId = (b.order p).clientOrderId →
      (do let o ← derefOrder (some p)
          setClientOrder o.clientId o.clientOrderId none
          deallocateOrder (some p) : BookM B Unit) b₁ =
        .ok () { b₁.setEntry (b.order p).clientId (b.order p).clientOrderId none with
          orderPool := b₁.orderPool.release p } := by
    intro b₁ hp₁ hc hk
    rw [bind_of_ok (derefOrder_of_live hp₁), hc, hk, bind_of_ok (setClientOrder_of_mem none hin)]
    exact deallocateOrder_of_live (b := b₁.setEntry _ _ none) hp₁
  unfold removeOrderFromBook OrderBook.detach
  rw [bind_of_ok (derefOrder_of_live hp), get_bind, hslot]
  by_cases halone : (b.order p).prev = some p
  · obtain ⟨w, ⟨s, hw⟩, hwl⟩ := h.slots_closed.prev l ⟨_, hslot⟩
    obtain ⟨z, ⟨t, hz⟩, hlz⟩ := h.slots_closed.next l ⟨_, hslot⟩
    rw [if_pos halone, if_pos halone, bind_of_ok (removePriceLevel_eq hslot hl
      (h.liveLevel s w hw) (h.liveLevel t z hz) hwl hlz)]
    exact htail _ (by simpa [OrderBook.LiveOrder] using hp) (by simp [OrderBook.order])
      (by simp [OrderBook.order])
  · have hne : y ≠ p := by
      rintro rfl
      exact halone ((hring.prev_self_iff hmem).mpr hpy.1)
    rw [if_neg halone, if_neg halone,
      bind_of_ok (unlinkOrder_eq hp (h.live_of_mem hx) (h.live_of_mem hy) hl hxp hpy hne)]
    exact htail _ (by simpa [OrderBook.LiveOrder, OrderBook.setOrderLinks] using hp)
      (by simp [OrderBook.order, OrderBook.setOrderLinks])
      (by simp [OrderBook.order, OrderBook.setOrderLinks])

/-- `removeOrderFromBook` on a sound book. -/
theorem removeOrderFromBook_eq {b : OrderBook B} {queue : Queues B} (h : Sound b queue)
    {p : OrderPtr} {l : LevelPtr B} (hp : b.LiveOrder p)
    (hslot : b.getLevelForPrice (b.order p).price = some l) :
    removeOrderFromBook (some p) b = .ok () (b.detach p l) :=
  h.rings.removeOrderFromBook_eq (h.mem_queue_of_live hp) (h.inClientMap p hp) hslot

/-! ## The book without the order -/

namespace OrderBook

variable (b : OrderBook B) (p q : OrderPtr) (l l' : LevelPtr B)

/-- Order `p` is the only one of its ring. -/
def Alone (b : OrderBook B) (p : OrderPtr) : Prop := (b.order p).prev = some p

/-- The code finds out by comparing two pointers. -/
instance : Decidable (b.Alone p) := inferInstanceAs (Decidable (_ = _))

/-- An order that was alone takes its level with it. -/
theorem detach_of_alone (h : b.Alone p) :
    b.detach p l =
      { (b.dropLevel (b.order p).side (b.order p).price l).setEntry (b.order p).clientId
          (b.order p).clientOrderId none with
        orderPool := b.orderPool.release p } := by
  have h' : (b.order p).prev = some p := h
  simp [detach, h']

/-- An order with others in its ring is linked out of it, and its level stays. -/
theorem detach_of_not_alone (h : ¬ b.Alone p) :
    b.detach p l =
      { (b.unlinked p l).setEntry (b.order p).clientId (b.order p).clientOrderId none with
        orderPool := (b.setOrderLinks (b.orderLinks.bypass p)).orderPool.release p } := by
  have h' : ¬ (b.order p).prev = some p := h
  simp [detach, h']

/-- All orders in use stay so but the one removed. -/
@[simp] theorem liveOrder_detach : (b.detach p l).LiveOrder q ↔ b.LiveOrder q ∧ q ≠ p := by
  by_cases h : b.Alone p
  · rw [detach_of_alone b p l h]
    exact MemoryPool.live_release b.orderPool p q
  · rw [detach_of_not_alone b p l h]
    exact MemoryPool.live_release (b.setOrderLinks _).orderPool p q

/-- No order is written to when the order was alone. -/
theorem order_detach_of_alone (h : b.Alone p) : (b.detach p l).order q = b.order q := by
  rw [detach_of_alone b p l h]
  exact MemoryPool.get_release b.orderPool p q

/-- Otherwise the links around the order are, and nothing else. -/
theorem order_detach_of_not_alone (h : ¬ b.Alone p) :
    (b.detach p l).order q = (b.setOrderLinks (b.orderLinks.bypass p)).order q := by
  rw [detach_of_not_alone b p l h]
  exact MemoryPool.get_release (b.setOrderLinks _).orderPool p q

/-- Every order keeps its data. -/
@[simp] theorem data_detach : (b.detach p l).data q = b.data q := by
  unfold data
  by_cases h : b.Alone p
  · rw [order_detach_of_alone b p q l h]
  · rw [order_detach_of_not_alone b p q l h]
    rfl

/-- What holds of all orders holds of those left. -/
theorem forall_live_detach {P : Order → Prop} (hold : ∀ q, b.LiveOrder q → P (b.data q))
    (hq : (b.detach p l).LiveOrder q) : P ((b.detach p l).data q) := by
  rw [data_detach]
  exact hold q ((b.liveOrder_detach p q l).mp hq).1

/-- No market order id is used up. -/
@[simp] theorem nextMarketOid_detach : (b.detach p l).nextMarketOid = b.nextMarketOid := by
  by_cases h : b.Alone p
  · rw [detach_of_alone b p l h]
    simp [setEntry, dropLevel, setLevelLinks]
  · rw [detach_of_not_alone b p l h]
    unfold setEntry unlinked
    split <;> rfl

/-- Removing an order makes no call on the engine. Those who remove it do. -/
@[simp] theorem ome_detach : (b.detach p l).ome = b.ome := by
  by_cases h : b.Alone p
  · rw [detach_of_alone b p l h]
    simp [setEntry, dropLevel, setLevelLinks]
  · rw [detach_of_not_alone b p l h]
    unfold setEntry unlinked
    split <;> rfl

/-- One entry of the client map is cleared: the one under the order's own ids. -/
@[simp] theorem mapClientIdToOrder_detach :
    (b.detach p l).mapClientIdToOrder =
      b.mapWith (b.order p).clientId (b.order p).clientOrderId none := by
  by_cases h : b.Alone p
  · rw [detach_of_alone b p l h]
    simp [setEntry, dropLevel, setLevelLinks, mapWith]
  · rw [detach_of_not_alone b p l h]
    unfold setEntry unlinked mapWith
    split <;> rfl

/-- One slot of the price table may be cleared: the one of the order's price, when the order was
alone. -/
theorem slot_detach (s : PriceSlot B) :
    (b.detach p l).mapPriceToPriceLevel s =
      if b.Alone p ∧ s = slotOf B (b.order p).price then none else b.mapPriceToPriceLevel s := by
  by_cases h : b.Alone p
  · rw [detach_of_alone b p l h]
    simp [setEntry, dropLevel, Function.update_apply, h]
  · rw [detach_of_not_alone b p l h]
    simp only [h, false_and, if_false]
    unfold setEntry unlinked
    split <;> rfl

/-- One level may be given back: the order's, when the order was alone. -/
theorem liveLevel_detach :
    (b.detach p l).LiveLevel l' ↔ b.LiveLevel l' ∧ ¬ (b.Alone p ∧ l' = l) := by
  by_cases h : b.Alone p
  · rw [detach_of_alone b p l h]
    simp [setEntry, dropLevel, setLevelLinks, h, LiveLevel]
  · rw [detach_of_not_alone b p l h]
    simp only [h, false_and, not_false_eq_true, and_true]
    unfold setEntry unlinked
    split
    · exact MemoryPool.live_set _ _ _ _
    · rfl

/-- The ring of levels closes behind a level that goes, and stays as it is otherwise. -/
theorem levelLinks_detach :
    (b.detach p l).levelLinks = if b.Alone p then b.levelLinks.bypass l else b.levelLinks := by
  by_cases h : b.Alone p
  · rw [detach_of_alone b p l h, if_pos h]
    ext l'
    all_goals simp [setEntry, dropLevel, setLevelLinks, levelLinks, level]
  · rw [detach_of_not_alone b p l h, if_neg h]
    unfold setEntry unlinked
    split
    · ext l'
      all_goals simp only [levelLinks, level, MemoryPool.get_set]
      all_goals split
      all_goals simp_all
    · rfl

/-- No level changes its side. -/
@[simp] theorem level_side_detach : ((b.detach p l).level l').side = (b.level l').side := by
  by_cases h : b.Alone p
  · rw [detach_of_alone b p l h]
    simp [setEntry, dropLevel, setLevelLinks, level]
  · rw [detach_of_not_alone b p l h]
    unfold setEntry unlinked
    split
    · simp only [level, MemoryPool.get_set]
      split
      · simp_all
      · rfl
    · rfl

/-- No level changes its price. -/
@[simp] theorem level_price_detach : ((b.detach p l).level l').price = (b.level l').price := by
  by_cases h : b.Alone p
  · rw [detach_of_alone b p l h]
    simp [setEntry, dropLevel, setLevelLinks, level]
  · rw [detach_of_not_alone b p l h]
    unfold setEntry unlinked
    split
    · simp only [level, MemoryPool.get_set]
      split
      · simp_all
      · rfl
    · rfl

/-- A level that stays and has lost its first order starts with the next one. -/
theorem level_order0_detach :
    ((b.detach p l).level l').order0 =
      if ¬ b.Alone p ∧ l' = l ∧ (b.level l).order0 = some p then (b.order p).next
      else (b.level l').order0 := by
  by_cases h : b.Alone p
  · rw [detach_of_alone b p l h]
    simp [setEntry, dropLevel, setLevelLinks, level, h]
  · rw [detach_of_not_alone b p l h]
    unfold setEntry unlinked
    by_cases h0 : (b.level l).order0 = some p
    · rw [if_pos h0]
      simp only [level, MemoryPool.get_set]
      by_cases hl : l' = l
      · simp [h, hl, h0]
      · simp [hl]
    · rw [if_neg h0]
      simp [h0, level, setOrderLinks]

/-- The best bid is another one when the order was alone on a bid level, and that level was the
best. -/
theorem bids_detach :
    (b.detach p l).bidsByPrice =
      if b.Alone p ∧ (b.order p).side = .buy then b.bestWithout .buy l else b.bidsByPrice := by
  by_cases h : b.Alone p
  · rw [detach_of_alone b p l h]
    simp only [setEntry, dropLevel, bidsByPrice_setBestTo, h, true_and]
    split
    · simp_all
    · rfl
  · rw [detach_of_not_alone b p l h]
    simp only [h, false_and, if_false]
    unfold setEntry unlinked
    split <;> rfl

/-- See `bids_detach`. Every side but `BUY` has the asks for its own. -/
theorem asks_detach :
    (b.detach p l).asksByPrice =
      if b.Alone p ∧ (b.order p).side ≠ .buy then b.bestWithout (b.order p).side l
      else b.asksByPrice := by
  by_cases h : b.Alone p
  · rw [detach_of_alone b p l h]
    simp only [setEntry, dropLevel, asksByPrice_setBestTo, h, true_and]
    split
    · simp_all [setLevelLinks]
    · simp_all
  · rw [detach_of_not_alone b p l h]
    simp only [h, false_and, if_false]
    unfold setEntry unlinked
    split <;> rfl

/-- The two sides share a best pointer: only `BUY` has one of its own. -/
def SameBest (s t : Side) : Prop := s = .buy ↔ t = .buy

/-- Two sides are compared with `BUY` each. -/
instance (s t : Side) : Decidable (SameBest s t) := inferInstanceAs (Decidable (_ ↔ _))

/-- Sides that share a best pointer have the same best level, -/
theorem bestOf_congr {s t : Side} (h : SameBest s t) : b.bestOf s = b.bestOf t := by
  unfold bestOf
  by_cases hs : s = .buy
  · rw [if_pos hs, if_pos (h.mp hs)]
  · rw [if_neg hs, if_neg (fun e => hs (h.mpr e))]

/-- and the same one without a level that goes. -/
theorem bestWithout_congr {s t : Side} (h : SameBest s t) : b.bestWithout s l = b.bestWithout t l := by
  unfold bestWithout
  rw [bestOf_congr b h]

/-- The best pointers: only the one of the order's side is repaired. -/
theorem bestOf_detach (t : Side) :
    (b.detach p l).bestOf t =
      if b.Alone p ∧ SameBest (b.order p).side t then b.bestWithout t l else b.bestOf t := by
  by_cases ht : t = .buy
  · have hbest : ∀ c : OrderBook B, c.bestOf t = c.bidsByPrice := fun c => if_pos ht
    rw [hbest, hbest, bids_detach, ht]
    by_cases hs : (b.order p).side = .buy
    · simp [SameBest, hs]
    · simp [SameBest, hs]
  · have hbest : ∀ c : OrderBook B, c.bestOf t = c.asksByPrice := fun c => if_neg ht
    rw [hbest, hbest, asks_detach]
    by_cases hs : (b.order p).side = .buy
    · simp [SameBest, hs, ht]
    · have hsame : SameBest (b.order p).side t := by simp [SameBest, hs, ht]
      simp only [hs, hsame, ne_eq, not_false_eq_true, and_true]
      rw [bestWithout_congr b l hsame]

/-- The best pointer after the level it designates has gone: the next level of the ring. -/
theorem bestWithout_head {t : Side} {best : LevelPtr B} {rest : List (LevelPtr B)}
    (hring : b.levelLinks.IsRing (best :: rest)) (hbest : b.bestOf t = some best) :
    b.bestWithout t best = rest.head? := by
  unfold bestWithout
  cases rest with
  | nil =>
    have hnext : (b.level best).next = some best := (Links.isRing_singleton.mp hring).1
    rw [if_pos hnext]
    rfl
  | cons y rest =>
    have hnext : (b.level best).next = some y := hring.joined_head.1
    have hne : y ≠ best := fun e => (List.nodup_cons.mp hring.nodup).1 (by simp [e])
    rw [hnext, if_neg (fun e => hne (Option.some.inj e)), if_pos hbest]
    rfl

/-- The best pointer after a level it does not designate has gone. -/
theorem bestWithout_of_ne {t : Side} {x : LevelPtr B} (hnext : (b.level l).next = some x)
    (hx : x ≠ l) (hbest : b.bestOf t ≠ some l) : b.bestWithout t l = b.bestOf t := by
  unfold bestWithout
  rw [hnext, if_neg (fun e => hx (Option.some.inj e)), if_neg hbest]

end OrderBook

/-! ## The rings without the order -/

section rings

variable {b : OrderBook B} {queue : Queues B} {p : OrderPtr} {l : LevelPtr B}

/-- An order is alone exactly when its slot's queue holds nothing else. -/
theorem Rings.alone_iff (h : Rings b queue) (hmem : p ∈ queue (slotOf B (b.order p).price)) :
    b.Alone p ↔ queue (slotOf B (b.order p).price) = [p] := by
  have hring := h.queue_ring (slotOf B (b.order p).price)
  constructor
  · intro ha
    exact hring.eq_singleton hmem ((hring.prev_self_iff hmem).mp ha)
  · intro hq
    rw [hq] at hring
    exact (Links.isRing_singleton.mp hring).2

/-- The order ring closes over the gap. -/
theorem Rings.orderLinks_detach (h : Rings b queue)
    (hmem : p ∈ queue (slotOf B (b.order p).price)) :
    (b.detach p l).orderLinks = b.orderLinks.bypass p := by
  by_cases ha : b.Alone p
  · have hring := h.queue_ring (slotOf B (b.order p).price)
    have hprev : b.orderLinks.prev p = some p := ha
    rw [Links.bypass_of_self hprev ((hring.prev_self_iff hmem).mp hprev)]
    ext q
    all_goals simp [OrderBook.orderLinks, OrderBook.order_detach_of_alone b p q l ha]
  · ext q
    all_goals simp [OrderBook.orderLinks, OrderBook.order_detach_of_not_alone b p q l ha]
    all_goals rfl

/-- The head of a queue after one of its orders has gone. -/
theorem Rings.head_erase (h : Rings b queue) (hmem : p ∈ queue (slotOf B (b.order p).price))
    (ha : ¬ b.Alone p) :
    ((queue (slotOf B (b.order p).price)).erase p).head? =
      if (queue (slotOf B (b.order p).price)).head? = some p then (b.order p).next
      else (queue (slotOf B (b.order p).price)).head? := by
  have hring := h.queue_ring (slotOf B (b.order p).price)
  have hne := fun hq => ha ((h.alone_iff hmem).mpr hq)
  generalize queue (slotOf B (b.order p).price) = q at hmem hring hne ⊢
  match q, hmem, hring, hne with
  | [], hmem, _, _ => simp at hmem
  | [a], hmem, _, hne =>
    have : a = p := (List.mem_singleton.mp hmem).symm
    exact absurd (by rw [this]) hne
  | a :: c :: t, _, hring, _ =>
    by_cases hap : a = p
    · subst hap
      have : (b.order a).next = some c := hring.joined_head.1
      simp [this]
    · have hcons : (a :: c :: t).erase p = a :: (c :: t).erase p := by
        rw [List.erase_cons_tail]
        simpa using hap
      simp [hcons, hap]

/-- A queue that holds another order is not emptied. -/
theorem Rings.erase_ne_nil (h : Rings b queue) (hmem : p ∈ queue (slotOf B (b.order p).price))
    (ha : ¬ b.Alone p) : (queue (slotOf B (b.order p).price)).erase p ≠ [] := by
  intro hq
  obtain ⟨a, ha'⟩ : ∃ a, queue (slotOf B (b.order p).price) = [a] := by
    rw [← List.length_eq_one_iff]
    have hlen := List.length_erase_of_mem hmem
    have hpos := List.length_pos_of_mem hmem
    rw [hq, List.length_nil] at hlen
    omega
  have hap : p = a := by
    rw [ha', List.mem_singleton] at hmem
    exact hmem
  exact ha ((h.alone_iff hmem).mpr (by rw [ha', hap]))

/-- The levels left in the slot table are those that were there, without the one emptied. -/
theorem Rings.slotted_detach (h : Rings b queue)
    (hslot : b.getLevelForPrice (b.order p).price = some l) (l' : LevelPtr B) :
    (∃ s, (b.detach p l).mapPriceToPriceLevel s = some l') ↔
      (∃ s, b.mapPriceToPriceLevel s = some l') ∧ ¬ (b.Alone p ∧ l' = l) := by
  simp only [OrderBook.slot_detach]
  constructor
  · rintro ⟨s, hs⟩
    split at hs
    · simp at hs
    · rename_i hkeep
      refine ⟨⟨s, hs⟩, ?_⟩
      rintro ⟨ha, hl'⟩
      exact hkeep ⟨ha, (h.slot_iff hslot hs).mpr hl'⟩
  · rintro ⟨⟨s, hs⟩, hgone⟩
    refine ⟨s, ?_⟩
    rw [if_neg, hs]
    rintro ⟨ha, hsp⟩
    exact hgone ⟨ha, (h.slot_iff hslot hs).mp hsp⟩

/-- The level ring closes over the gap, if there is one. -/
theorem Rings.slots_closed_detach (h : Rings b queue)
    (hslot : b.getLevelForPrice (b.order p).price = some l) :
    (b.detach p l).levelLinks.Closed fun l' =>
      ∃ s, (b.detach p l).mapPriceToPriceLevel s = some l' := by
  simp only [h.slotted_detach hslot]
  rw [OrderBook.levelLinks_detach]
  by_cases ha : b.Alone p
  · simp only [ha, true_and, if_true]
    exact h.slots_closed.bypass ⟨_, hslot⟩
  · simp only [ha, false_and, not_false_eq_true, and_true, if_false]
    exact h.slots_closed

/-- A slot is empty exactly when its queue is. -/
theorem Rings.queue_nil_detach (h : Rings b queue)
    (hmem : p ∈ queue (slotOf B (b.order p).price))
    (hslot : b.getLevelForPrice (b.order p).price = some l) (s : PriceSlot B) :
    (b.detach p l).mapPriceToPriceLevel s = none ↔
      Function.update queue (slotOf B (b.order p).price)
        ((queue (slotOf B (b.order p).price)).erase p) s = [] := by
  have hslot' : b.mapPriceToPriceLevel (slotOf B (b.order p).price) = some l := hslot
  rw [OrderBook.slot_detach]
  by_cases hs : s = slotOf B (b.order p).price
  · subst hs
    rw [Function.update_self]
    by_cases ha : b.Alone p
    · simp [ha, (h.alone_iff hmem).mp ha]
    · simp [ha, hslot', h.erase_ne_nil hmem ha]
  · rw [Function.update_of_ne hs, if_neg (fun hc => hs hc.2)]
    exact h.queue_nil s

/-- A level left in the book still points to the head of its queue. -/
theorem Rings.queue_head_detach (h : Rings b queue)
    (hmem : p ∈ queue (slotOf B (b.order p).price))
    (hslot : b.getLevelForPrice (b.order p).price = some l) {s : PriceSlot B} {l' : LevelPtr B}
    (hs : (b.detach p l).mapPriceToPriceLevel s = some l') :
    ((b.detach p l).level l').order0 =
      (Function.update queue (slotOf B (b.order p).price)
        ((queue (slotOf B (b.order p).price)).erase p) s).head? := by
  rw [OrderBook.slot_detach] at hs
  split at hs
  · simp at hs
  · rename_i hkeep
    rw [OrderBook.level_order0_detach]
    by_cases hsp : s = slotOf B (b.order p).price
    · have hl' : l' = l := (h.slot_iff hslot hs).mp hsp
      have ha : ¬ b.Alone p := fun ha => hkeep ⟨ha, hsp⟩
      subst hsp hl'
      rw [Function.update_self, h.head_erase hmem ha, ← h.queue_head _ l' hs]
      simp [ha]
    · have hl' : l' ≠ l := fun e => hsp ((h.slot_iff hslot hs).mpr e)
      rw [Function.update_of_ne hsp, if_neg (fun hc => hl' hc.2.1)]
      exact h.queue_head s l' hs

/-- The orders queued after the removal: those that were, without the one taken out. -/
theorem Rings.mem_erase (h : Rings b queue) (hmem : p ∈ queue (slotOf B (b.order p).price))
    (s : PriceSlot B) (q : OrderPtr) :
    q ∈ Function.update queue (slotOf B (b.order p).price)
        ((queue (slotOf B (b.order p).price)).erase p) s ↔ q ∈ queue s ∧ q ≠ p := by
  by_cases hs : s = slotOf B (b.order p).price
  · subst hs
    rw [Function.update_self, (h.queue_ring _).nodup.mem_erase_iff, and_comm]
  · rw [Function.update_of_ne hs]
    constructor
    · intro hq
      refine ⟨hq, ?_⟩
      rintro rfl
      exact hs (h.queue_inj _ _ q hq hmem)
    · exact fun hq => hq.1

/-- **The rings without the order.** -/
theorem Rings.detach (h : Rings b queue) (hmem : p ∈ queue (slotOf B (b.order p).price))
    (hslot : b.getLevelForPrice (b.order p).price = some l) :
    Rings (b.detach p l) (Function.update queue (slotOf B (b.order p).price)
      ((queue (slotOf B (b.order p).price)).erase p)) where
  liveLevel s l' hs := by
    obtain ⟨⟨s', hs'⟩, hkeep⟩ := (h.slotted_detach hslot l').mp ⟨s, hs⟩
    exact (b.liveLevel_detach p l l').mpr ⟨h.liveLevel s' l' hs', hkeep⟩
  slot_price s l' hs := by
    rw [OrderBook.slot_detach] at hs
    split at hs
    · simp at hs
    · rw [OrderBook.level_price_detach]
      exact h.slot_price s l' hs
  slots_closed := h.slots_closed_detach hslot
  queue_nil := h.queue_nil_detach hmem hslot
  queue_head _ _ hs := h.queue_head_detach hmem hslot hs
  queue_ring s := by
    have hring := h.queue_ring (slotOf B (b.order p).price)
    rw [h.orderLinks_detach hmem]
    by_cases hs : s = slotOf B (b.order p).price
    · subst hs
      rw [Function.update_self]
      exact hring.bypass hmem
    · rw [Function.update_of_ne hs]
      apply (h.queue_ring s).bypass_other hring hmem
      intro z hz
      exact h.queue_disjoint hs hz
  live_iff q := by
    simp only [h.mem_erase hmem, OrderBook.liveOrder_detach, h.live_iff q, exists_and_right]
  queue_inj s s' q hq hq' :=
    h.queue_inj s s' q ((h.mem_erase hmem s q).mp hq).1 ((h.mem_erase hmem s' q).mp hq').1

end rings

/-! ## The invariant -/

section sound

variable {b : OrderBook B} {queue : Queues B} {p : OrderPtr} {l : LevelPtr B}

/-- An order is alone exactly when its slot's queue holds nothing else. -/
theorem Sound.alone_iff (h : Sound b queue) (hp : b.LiveOrder p) :
    b.Alone p ↔ queue (slotOf B (b.order p).price) = [p] :=
  h.rings.alone_iff (h.mem_queue_of_live hp)

/-- The levels left in use are those left in the slot table. -/
theorem Sound.liveLevel_iff_detach (h : Sound b queue)
    (hslot : b.getLevelForPrice (b.order p).price = some l) (l' : LevelPtr B) :
    (b.detach p l).LiveLevel l' ↔ ∃ s, (b.detach p l).mapPriceToPriceLevel s = some l' := by
  rw [OrderBook.liveLevel_detach, h.liveLevel_iff, h.rings.slotted_detach hslot]

/-- **The book stays sound** without the order. -/
theorem Sound.detach (h : Sound b queue) (hp : b.LiveOrder p)
    (hslot : b.getLevelForPrice (b.order p).price = some l) :
    Sound (b.detach p l) (Function.update queue (slotOf B (b.order p).price)
      ((queue (slotOf B (b.order p).price)).erase p)) := by
  have hmem := h.mem_queue_of_live hp
  have hrings := h.rings.detach hmem hslot
  have hlive := h.liveLevel_iff_detach hslot
  constructor
  case liveLevel_iff => exact hlive
  case slot_price => exact hrings.slot_price
  case levels_closed => exact (OrderBook.closed_iff_slotted hlive).mpr hrings.slots_closed
  case queue_nil => exact hrings.queue_nil
  case queue_head => exact hrings.queue_head
  case queue_ring => exact hrings.queue_ring
  case mem_queue =>
    intro s q
    rw [h.rings.mem_erase hmem, h.mem_queue, OrderBook.liveOrder_detach,
      OrderBook.price_of_data (b.data_detach p q l)]
    tauto
  case clientMap =>
    intro c k q hq
    have hdata := b.data_detach p q l
    rw [OrderBook.mapClientIdToOrder_detach, mapWith_apply] at hq
    split at hq
    · simp at hq
    · rename_i hkey
      obtain ⟨hlive, hc, hk⟩ := h.clientMap c k q hq
      rw [OrderBook.liveOrder_detach, OrderBook.clientId_of_data hdata,
        OrderBook.clientOrderId_of_data hdata]
      refine ⟨⟨hlive, ?_⟩, hc, hk⟩
      rintro rfl
      exact hkey ⟨hc.symm, hk.symm⟩
  case inClientMap =>
    intro q hq
    have hdata := b.data_detach p q l
    rw [OrderBook.liveOrder_detach] at hq
    rw [OrderBook.clientId_of_data hdata, OrderBook.clientOrderId_of_data hdata]
    exact h.inClientMap q hq.1

end sound

end HftSys
