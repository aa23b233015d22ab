import HftSys.Quotes

/-!
# Every trade is legitimate

`findMatch` takes everything under the opposite best pointer for an order of the opposite side. That
is so as long as no order has been filed, by its price's slot, under a level of the other side:
`trades_legitimate` says that in a run without such a filing every `matchOrder` call pairs a `BUY`
with a `SELL` at the resting order's limit, within both limits, and reports the same terms to both
clients and to the market.

The calls of a request that ends in a fault are included.
-/

namespace HftSys

variable {B : Build}

/-! ## The property -/

/-- The limit of the order that buys, when `taker` meets the resting order `o`. -/
def NewOrder.buyerLimit (taker : NewOrder) (o : Order) : Price :=
  if taker.side = .buy then taker.price else o.price

/-- The limit of the order that sells. -/
def NewOrder.sellerLimit (taker : NewOrder) (o : Order) : Price :=
  if taker.side = .buy then o.price else taker.price

/-- The two responses and the update about one trade. -/
structure SameTerms (r₁ r₂ : OMEClientResponse) (u : OMEMarketUpdate) (price : Price) (qty : Qty) :
    Prop where
  types : r₁.type = .filled ∧ r₂.type = .filled ∧ u.type = .trade
  prices : r₁.price = price ∧ r₂.price = price ∧ u.price = price
  quantities : r₁.qtyExec = qty ∧ r₂.qtyExec = qty ∧ u.qty = qty

/-- The trade of a `matchOrder` call on order `c.2` of book `c.1` is legitimate. -/
structure Legitimate (stray : ℕ → Qty) (taker : NewOrder) (newMarketOid : OrderID)
    (c : OrderBook B × OrderPtr) : Prop where
  sides : taker.side = .buy ∧ (c.1.order c.2).side = .sell ∨
    taker.side = .sell ∧ (c.1.order c.2).side = .buy
  buyer : (c.1.order c.2).price ≤ taker.buyerLimit (c.1.order c.2)
  seller : taker.sellerLimit (c.1.order c.2) ≤ (c.1.order c.2).price
  messages : ∃ b' r₁ r₂ u last,
    matchOrder stray taker newMarketOid (some c.2) taker.qty c.1 = .ok () b' ∧
      b'.ome = c.1.ome ++ [.response r₁, .response r₂, .update u, last] ∧
      r₁.marketOrderId = newMarketOid ∧ r₂.marketOrderId = (c.1.order c.2).marketOrderId ∧
      SameTerms r₁ r₂ u (c.1.order c.2).price (c.1.fillQty c.2 taker.qty)

/-- Every trade made for the request is legitimate. -/
def LegitimateTrades (stray : ℕ → Qty) (b : OrderBook B) : Request → Prop
  | .new taker => ∀ c ∈ newOrderCalls stray taker b,
      Legitimate stray taker b.nextMarketOid c
  | .cancel _ => True

/-! ## The condition -/

/-- An order has the side of its level. -/
def SameSide (x y : Quote) : Prop := x.side = y.side

instance (x y : Quote) : Decidable (SameSide x y) := inferInstanceAs (Decidable (_ = _))

/-- No remainder is filed under a level of the other side. -/
def FilesBySide (b : OrderBook B) : Request → Prop
  | .new taker => taker.side.Proper ∧ Suits SameSide b taker
  | .cancel _ => True

/-- A book with two sides whose orders have the sides of their levels. -/
def SidesAgree (b : OrderBook B) : Prop := HasSides b ∧ Agrees SameSide b

section steps

variable {stray : ℕ → Qty} {b b' : OrderBook B} {queue : Queues B} {taker : NewOrder}
  {newMarketOid : OrderID} {p : OrderPtr} {best : LevelPtr B}

theorem SidesAgree.request {r : Request} (h : SidesAgree b) (hv : Valid b queue)
    (hk : FilesBySide b r) (hreq : handleRequest stray r b = .ok () b') : SidesAgree b' := by
  obtain ⟨hsides, hagrees⟩ := h
  cases r with
  | new taker =>
    exact ⟨hsides.request (r := .new taker) hv hk.1 hreq, hagrees.new (fun _ => rfl) hv hk.2 hreq⟩
  | cancel r =>
    have hsafe : CancelsSafely b r := hagrees.cancelsSafely (fun _ _ h => h) hv r
    exact ⟨hsides.request (r := .cancel r) hv hsafe hreq, hagrees.cancelled hv hreq⟩

/-- What `matchOrder` reports of a trade, whatever its sides. -/
theorem matchOrder_messages (hv : Valid b queue) (hp : b.LiveOrder p)
    (hslot : b.getLevelForPrice (b.order p).price = some best) :
    ∃ b' r₁ r₂ u last, matchOrder stray taker newMarketOid (some p) taker.qty b = .ok () b' ∧
      b'.ome = b.ome ++ [.response r₁, .response r₂, .update u, last] ∧
      r₁.marketOrderId = newMarketOid ∧ r₂.marketOrderId = (b.order p).marketOrderId ∧
      SameTerms r₁ r₂ u (b.order p).price (b.fillQty p taker.qty) := by
  refine ⟨_, _, _, _, _, matchOrder_eq hv.toSound stray taker newMarketOid taker.qty hp hslot,
    OrderBook.ome_matched b stray taker newMarketOid p best taker.qty, rfl, rfl, ?_⟩
  exact ⟨⟨rfl, rfl, rfl⟩, ⟨rfl, rfl, rfl⟩, ⟨rfl, rfl, rfl⟩⟩

/-- A price that is reached is within both limits. -/
theorem Reaches.limits (hr : Reaches b taker taker.qty best p) (hside : taker.side.Proper) :
    (b.order p).price ≤ taker.buyerLimit (b.order p) ∧
      taker.sellerLimit (b.order p) ≤ (b.order p).price := by
  have hreach := hr.price
  unfold NewOrder.buyerLimit NewOrder.sellerLimit
  unfold misses at hreach
  rcases hside with hbuy | hsell
  · rw [if_pos hbuy] at hreach
    rw [if_pos hbuy, if_pos hbuy]
    exact ⟨Int64.not_lt.mp (of_decide_eq_false hreach), Int64.le_refl _⟩
  · have hbuy : taker.side ≠ .buy := by
      rw [hsell]
      exact Side.sell_ne_buy
    rw [if_neg hbuy] at hreach
    rw [if_neg hbuy, if_neg hbuy]
    exact ⟨Int64.le_refl _, Int64.not_lt.mp (of_decide_eq_false hreach)⟩

/-- **The trades of a new order** on a book whose orders have the sides of their levels. -/
theorem SidesAgree.trades (h : SidesAgree b) (hv : Valid b queue) (stray : ℕ → Qty)
    (taker : NewOrder) : LegitimateTrades stray b (.new taker) := by
  obtain ⟨⟨⟨ring, htwo⟩, hproper⟩, hagrees⟩ := h
  intro c hc
  obtain ⟨hnext, queue', hv', hd, hthins⟩ := matchCalls_carries
    (P := fun _ b' => SidesOrStuck b ring taker b' ∧ Thins b b')
    (fun _ b' p best hv hP hr hslot _ => ⟨hP.1.turn hv hr hslot,
      hP.2.trans (Thins.matched b' stray taker b.nextMarketOid p best taker.qty)⟩)
    (hv.accept taker) ⟨.accept htwo hproper taker, Thins.accept b taker⟩ hc
  obtain ⟨-, best, hr⟩ := nextMatch_some hnext
  obtain ⟨hp, hslot, -⟩ := hv'.head_of_level hr.liveLevel hr.order0
  obtain ⟨hside, hbest⟩ := hd.side_best hr
  -- the order met has the side of the best level, which is the other one
  have hresting : (c.1.order c.2).side = taker.side.other :=
    (hagrees.thins hthins c.2 best hp hslot).trans hbest
  obtain ⟨hbuyer, hseller⟩ := hr.limits hside
  refine ⟨?_, hbuyer, hseller, matchOrder_messages hv' hp hslot⟩
  rw [hresting]
  rcases hside with hbuy | hsell
  · exact .inl ⟨hbuy, by rw [hbuy]; rfl⟩
  · exact .inr ⟨hsell, by rw [hsell]; rfl⟩

end steps

/-! ## Runs -/

/-- **Every trade is legitimate** in a run of `BUY` and `SELL` orders, none of which leaves a
remainder under a level of the other side. -/
theorem trades_legitimate {stray : ℕ → Qty} {rs : List Request}
    (h : Meets (B := B) FilesBySide stray rs) : Meets (B := B) (LegitimateTrades stray) stray rs := by
  intro rs₀ r rs₁ b₀ hrs hrun
  obtain ⟨queue, hv⟩ := hrun.valid
  have hcreate : SidesAgree (OrderBook.create B) :=
    ⟨⟨⟨_, twoSided_create B⟩, properOrders_create B⟩, agrees_create _ B⟩
  have hagree := h.invariant hcreate fun queue b r b' hv hb hk hreq => hb.request hv hk hreq
  cases r with
  | new taker => exact (hagree rs₀ (.new taker :: rs₁) b₀ hrs hrun).trades hv stray taker
  | cancel r => trivial

/-- A run in which a `BUY` meets a `SELL`. -/
theorem trades_legitimate_sample : Meets (B := .production) (LegitimateTrades fun _ => 0)
    (fun _ => 0) [.new ⟨1, 1, 0, .sell, 100, 10⟩, .new ⟨2, 1, 0, .buy, 100, 10⟩] := by
  have hsell : FilesBySide (OrderBook.create .production) (.new ⟨1, 1, 0, .sell, 100, 10⟩) :=
    ⟨.inr rfl, fun _ hnot => absurd (by decide +kernel) hnot⟩
  refine trades_legitimate (Runs.Meets.concat_iff.mpr ⟨meets_singleton hsell, fun b hb => ?_⟩)
  rw [hb.unique (runsTo_bookAfter (by decide +kernel))]
  exact ⟨.inl rfl, fun _ hnot => absurd (by decide +kernel) hnot⟩

/-- A `BUY` filed under the level of a `SELL`, and met by another `BUY`. -/
theorem buy_meets_buy :
    ¬ ∀ (stray : ℕ → Qty) (rs : List Request) (b : OrderBook .production), ProperSides rs →
      RunsTo stray rs b → Meets (B := .production) (LegitimateTrades stray) stray rs := by
  intro h
  have hmeets := h (fun _ => 0)
    [.new ⟨1, 1, 0, .sell, 100, 10⟩, .new ⟨2, 1, 0, .buy, -156, 10⟩,
      .new ⟨1, 2, 0, .sell, 100, 10⟩, .new ⟨3, 1, 0, .buy, 100, 10⟩] _ ?_
    (runsTo_bookAfter (by decide +kernel))
    [.new ⟨1, 1, 0, .sell, 100, 10⟩, .new ⟨2, 1, 0, .buy, -156, 10⟩,
      .new ⟨1, 2, 0, .sell, 100, 10⟩] (.new ⟨3, 1, 0, .buy, 100, 10⟩)
    [] _ rfl (runsTo_bookAfter (by decide +kernel))
  · have hlegitimate := hmeets _ (List.getElem_mem (n := 1) (by decide +kernel))
    exact absurd hlegitimate.sides (by decide +kernel)
  · intro taker htaker
    simp only [List.mem_cons, Request.new.injEq, List.not_mem_nil, or_false] at htaker
    rcases htaker with rfl | rfl | rfl | rfl
    · exact .inr rfl
    · exact .inl rfl
    · exact .inr rfl
    · exact .inl rfl

end HftSys
