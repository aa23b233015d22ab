import HftSys.Integrity

/-!
# Orders and the levels they are filed under

`addOrderToBook` files an order by its price's slot, under whatever level it finds there. `Agrees R`
says that every order stands in relation `R` to the level of its slot, as far as side and price go:
with `R` equality, that every level holds orders of its own side and price only.

A relation that holds between a quote and itself is kept by everything a request does except one
step, the filing of a remainder under a level it is not in relation to (`Suits` excludes it).
Matching and cancelling only take orders and levels away (`Thins`).
-/

namespace HftSys

variable {B : Build}

/-! ## Quotes -/

/-- What an order and a level have in common. -/
structure Quote where
  side : Side
  price : Price
deriving DecidableEq

/-- The side and price of a new order. -/
def NewOrder.quote (taker : NewOrder) : Quote := ⟨taker.side, taker.price⟩

/-- The side and price of an order. -/
def Order.quote (o : Order) : Quote := ⟨o.side, o.price⟩

/-- The side and price of a level. -/
def OrdersAtPrice.quote (l : OrdersAtPrice B) : Quote := ⟨l.side, l.price⟩

/-- Every order is in relation to the level of its slot. -/
def Agrees (R : Quote → Quote → Prop) (b : OrderBook B) : Prop :=
  ∀ p l, b.LiveOrder p → b.getLevelForPrice (b.order p).price = some l →
    R (b.order p).quote (b.level l).quote

theorem agrees_create (R : Quote → Quote → Prop) (B : Build) : Agrees R (OrderBook.create B) :=
  fun p _ hp => absurd hp (not_liveOrder_create p)

/-! ## Taking orders and levels away -/

/-- `b'` has some of the orders and levels of `b`, with their sides and prices. -/
structure Thins (b b' : OrderBook B) : Prop where
  live : ∀ p, b'.LiveOrder p → b.LiveOrder p
  order : ∀ p, (b'.order p).quote = (b.order p).quote
  slot : ∀ s l, b'.mapPriceToPriceLevel s = some l → b.mapPriceToPriceLevel s = some l
  level : ∀ l, (b'.level l).quote = (b.level l).quote

namespace Thins

variable {b b' b₁ : OrderBook B}

theorem accept (b : OrderBook B) (taker : NewOrder) : Thins b (b.accept taker) :=
  ⟨fun _ h => h, fun _ => rfl, fun _ _ h => h, fun _ => rfl⟩

theorem trans (h : Thins b b₁) (h' : Thins b₁ b') : Thins b b' where
  live p hp := h.live p (h'.live p hp)
  order p := (h'.order p).trans (h.order p)
  slot s l hl := h.slot s l (h'.slot s l hl)
  level l := (h'.level l).trans (h.level l)

theorem price_order (h : Thins b b') (p : OrderPtr) : (b'.order p).price = (b.order p).price :=
  congrArg Quote.price (h.order p)

theorem side_order (h : Thins b b') (p : OrderPtr) : (b'.order p).side = (b.order p).side :=
  congrArg Quote.side (h.order p)

/-- An order taken out. -/
theorem detach (b : OrderBook B) (p : OrderPtr) (l : LevelPtr B) : Thins b (b.detach p l) where
  live q hq := ((b.liveOrder_detach p q l).mp hq).1
  order q := by
    have hdata := b.data_detach p q l
    rw [Order.quote, OrderBook.side_of_data hdata, OrderBook.price_of_data hdata, Order.quote]
  slot s l' hl' := by
    rw [OrderBook.slot_detach] at hl'
    split at hl'
    · cases hl'
    · exact hl'
  level l' := by
    rw [OrdersAtPrice.quote, OrderBook.level_side_detach, OrderBook.level_price_detach,
      OrdersAtPrice.quote]

/-- An order matched. -/
theorem matched (b : OrderBook B) (stray : ℕ → Qty) (taker : NewOrder) (newMarketOid : OrderID)
    (p : OrderPtr) (l : LevelPtr B) (qtyRemains : Qty) :
    Thins b (b.matched stray taker newMarketOid p l qtyRemains) := by
  have htraded : Thins b (b.traded stray taker newMarketOid p qtyRemains) := by
    refine ⟨?_, ?_, fun _ _ h => h, fun _ => rfl⟩
    · exact fun q hq => (b.liveOrder_traded stray taker newMarketOid p q qtyRemains).mp hq
    · intro q
      rw [Order.quote, OrderBook.side_traded, OrderBook.price_traded, Order.quote]
  unfold OrderBook.matched
  split
  · exact htraded.trans (detach _ p l)
  · exact htraded

end Thins

theorem Agrees.thins {R : Quote → Quote → Prop} {b b' : OrderBook B} (h : Agrees R b)
    (ht : Thins b b') : Agrees R b' := by
  intro p l hp hl
  rw [ht.price_order] at hl
  rw [ht.order, ht.level]
  exact h p l (ht.live p hp) (ht.slot _ l hl)

/-! ## Putting an order in -/

/-- No order is left in the slot of a new order's price when its matching is over. -/
def Vacates (b : OrderBook B) (taker : NewOrder) : Prop :=
  ∀ q ∈ b.queueOf (slotOf B taker.price), q ∈ b.sweep taker

instance (b : OrderBook B) (taker : NewOrder) : Decidable (Vacates b taker) :=
  List.decidableBAll _ _

/-- A new order that rests does so in relation to the level of its slot, unless its own matching
empties the slot. -/
def Suits (R : Quote → Quote → Prop) (b : OrderBook B) (taker : NewOrder) : Prop :=
  taker.qty ≠ 0 → ¬ Vacates b taker →
    ∀ l, b.getLevelForPrice taker.price = some l → R taker.quote (b.level l).quote

instance (R : Quote → Quote → Prop) [DecidableRel R] (b : OrderBook B) (taker : NewOrder) :
    Decidable (Suits R b taker) :=
  inferInstanceAs (Decidable (taker.qty ≠ 0 → ¬ Vacates b taker →
    ∀ l ∈ b.getLevelForPrice taker.price, R taker.quote (b.level l).quote))

section steps

variable {R : Quote → Quote → Prop} {stray : ℕ → Qty} {b b' b₁ : OrderBook B} {queue : Queues B}
  {taker : NewOrder} {p : OrderPtr} {o : Order}

/-- Matching takes orders and levels away. -/
theorem Sweeps.thins (hs : Sweeps stray taker b b₁) (hv : Valid b queue) : Thins b b₁ := by
  obtain ⟨⟨_, -, hthins⟩, -⟩ := hs.carries (P := fun _ b₁ => Thins b b₁)
    (fun _ b₁ p best _ hthins _ _ _ =>
      hthins.trans (Thins.matched b₁ stray taker b.nextMarketOid p best taker.qty))
    (hv.accept taker) (Thins.accept b taker)
  exact hthins

/-- A slot that holds a level after the matching has not been vacated. -/
theorem not_vacates (hv : Valid b queue) (hs : Sweeps stray taker b b₁) {l : LevelPtr B}
    (hl : b₁.getLevelForPrice taker.price = some l) : ¬ Vacates b taker := by
  intro hvac
  obtain ⟨queue₁, hv₁⟩ := hs.valid (hv.accept taker)
  have heff := hs.effect hv
  obtain ⟨-, y, -, hy, -⟩ := hv₁.toSound.rings.exists_ends hl
  have hmem := List.mem_of_head? hy
  obtain ⟨hlive, hslot⟩ := (hv₁.mem_queue _ y).mp hmem
  obtain ⟨hlive₀, hnot⟩ := (heff.live y).mp hlive
  rw [OrderBook.price_of_data (heff.data y hnot)] at hslot
  refine hnot (hvac y ?_)
  rw [← hv.queue_eq, hv.mem_queue]
  exact ⟨hlive₀, hslot⟩

/-- A slot that holds no level after the matching has been vacated. -/
theorem vacates_of_none (hv : Valid b queue) (hs : Sweeps stray taker b b₁)
    (hnone : b₁.getLevelForPrice taker.price = none) : Vacates b taker := by
  obtain ⟨queue₁, hv₁⟩ := hs.valid (hv.accept taker)
  have heff := hs.effect hv
  intro q hq
  by_contra hnot
  rw [← hv.queue_eq] at hq
  obtain ⟨hlive, hslot⟩ := (hv.mem_queue _ q).mp hq
  obtain ⟨l, hl⟩ := hv₁.exists_level ((heff.live q).mpr ⟨hlive, hnot⟩)
  rw [OrderBook.price_of_data (heff.data q hnot), OrderBook.getLevelForPrice, hslot] at hl
  have hnone : b₁.mapPriceToPriceLevel (slotOf B taker.price) = none := hnone
  rw [hl] at hnone
  cases hnone

/-- The level a remainder is filed under suits it. -/
theorem Suits.level (hsuits : Suits R b taker) (hv : Valid b queue)
    (hs : Sweeps stray taker b b₁) (hqty : taker.qty ≠ 0) {l : LevelPtr B}
    (hl : b₁.getLevelForPrice taker.price = some l) : R taker.quote (b₁.level l).quote := by
  have hthins := hs.thins hv
  rw [hthins.level]
  exact hsuits hqty (not_vacates hv hs hl) l (hthins.slot _ l hl)

/-- An order filed under a level it is in relation to, or under a new one. -/
theorem Agrees.files (h : Agrees R b) (hrefl : ∀ x, R x x) (hs : Sound b queue)
    (hf : Files b b' queue p o)
    (hlevel : ∀ l, b.getLevelForPrice o.price = some l → R o.quote (b.level l).quote) :
    Agrees R b' := by
  obtain ⟨hfiled, happended | hopened⟩ := hf
  · obtain ⟨l₀, ha⟩ := happended
    have hold : ∀ l, b'.level l = b.level l := by
      intro l
      rw [OrderBook.level, ha.levels]
    intro q l hq hl
    rw [hold, Order.quote]
    rw [OrderBook.getLevelForPrice, ha.slots] at hl
    by_cases hqp : q = p
    · rw [hqp, hfiled.price_self] at hl
      rw [hqp, hfiled.side_self, hfiled.price_self]
      exact hlevel l hl
    · rw [hfiled.price_of_ne hqp] at hl
      rw [OrderBook.side_of_data (hfiled.data_of_ne q hqp), hfiled.price_of_ne hqp]
      exact h q l (((hfiled.liveOrder q).mp hq).resolve_left hqp) hl
  · obtain ⟨n, best', ho⟩ := hopened
    intro q l hq hl
    rw [OrderBook.getLevelForPrice, ho.slots, Function.update_apply] at hl
    by_cases hqp : q = p
    · rw [hqp, hfiled.price_self, if_pos rfl] at hl
      cases hl
      rw [hqp, Order.quote, hfiled.side_self, hfiled.price_self, OrdersAtPrice.quote, ho.side_self,
        ho.price_self]
      exact hrefl _
    · -- the other orders are in other slots, the new one's having been empty
      have hlive := ((hfiled.liveOrder q).mp hq).resolve_left hqp
      rw [hfiled.price_of_ne hqp] at hl
      obtain ⟨l', hl'⟩ := hs.exists_level hlive
      have hslot : slotOf B (b.order q).price ≠ slotOf B o.price := by
        intro e
        have hnone : b.mapPriceToPriceLevel (slotOf B o.price) = none := ho.slot
        rw [OrderBook.getLevelForPrice, e, hnone] at hl'
        cases hl'
      rw [if_neg hslot] at hl
      have hne : l ≠ n := fun e => ho.fresh (e ▸ hs.live_of_slot hl)
      rw [Order.quote, OrderBook.side_of_data (hfiled.data_of_ne q hqp), hfiled.price_of_ne hqp,
        OrdersAtPrice.quote, ho.side_of_ne l hne, ho.price_of_ne l hne]
      exact h q l hlive hl

/-- **A new order that suits the level it comes to rest under** keeps the orders in relation to
their levels. -/
theorem Agrees.new (h : Agrees R b) (hrefl : ∀ x, R x x) (hv : Valid b queue)
    (hsuits : Suits R b taker) (hreq : handleRequest stray (.new taker) b = .ok () b') :
    Agrees R b' := by
  obtain ⟨b₁, hs, htail⟩ := addOrder_ok hreq
  have hagrees := h.thins (hs.thins hv)
  rcases htail with ⟨-, rfl⟩ | ⟨hqty, hrest⟩
  · exact hagrees
  · obtain ⟨queue₁, hv₁⟩ := hs.valid (hv.accept taker)
    obtain ⟨p, o, b₂, hr⟩ := rests_of_restOrder hv₁.toSound hrest
    have hquote : o.quote = taker.quote ∧ o.price = taker.price := by
      rw [hr.order]
      exact ⟨rfl, rfl⟩
    have hfiled : Agrees R b₂ := by
      apply hagrees.files hrefl hv₁.toSound hr.files
      rw [hquote.1, hquote.2]
      exact fun l hl => hsuits.level hv hs hqty hl
    rw [hr.book]
    exact hfiled

/-- A cancel keeps the orders in relation to their levels. -/
theorem Agrees.cancelled (h : Agrees R b) (hv : Valid b queue) {r : CancelOrder}
    (hreq : handleRequest stray (.cancel r) b = .ok () b') : Agrees R b' := by
  rcases cancelOrder_ok hv.toSound hreq with ⟨rfl, -⟩ | ⟨p, l, -, rfl⟩
  · exact h
  · exact (h.thins (Thins.detach b p l) : Agrees R (b.detach p l))

/-- Where orders have the side of their level, taking one out orphans no best pointer. -/
theorem Agrees.cancelsSafely (h : Agrees R b) (hside : ∀ x y, R x y → x.side = y.side)
    (hv : Valid b queue) (r : CancelOrder) : CancelsSafely b r := by
  intro p l hentry hslot horphans
  obtain ⟨hlive, -, -⟩ := hv.clientMap _ _ _ hentry
  exact horphans.2.1 (hside _ _ (h p l hlive hslot))

end steps

end HftSys
