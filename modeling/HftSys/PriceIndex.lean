import HftSys.Quotes

/-!
# The price index

`getLevelForPrice` looks a price up by its residue and does not compare it with the level's, and
`addOrderToBook` relies on that.

* `IndexExact` asks for the right answer at every price. A level answers for all the prices of its
  slot, so a book has that only as long as it has no level: in a run, as long as no new order has a
  quantity.
* `ExactWhereUsed` asks for it at the prices of the levels and of the resting orders. A run has that
  throughout if every order that comes to rest does so in a slot its own matching has emptied, or
  under a level of its own side and price.
-/

namespace HftSys

variable {B : Build}

/-! ## The property -/

/-- Orders are like their levels, and the rings are those of the two sides. -/
structure RingsExact (b : OrderBook B) : Prop where
  orders : ∀ l, b.LiveLevel l → ∀ p ∈ b.ordersOf l, (b.order p).price = (b.level l).price ∧
    (b.order p).side = (b.level l).side
  bids : ∀ l ∈ b.levelsFrom b.bidsByPrice, (b.level l).side = .buy
  asks : ∀ l ∈ b.levelsFrom b.asksByPrice, (b.level l).side = .sell

/-- The index gives the right level at every price. -/
structure IndexExact (b : OrderBook B) : Prop extends RingsExact b where
  index : ∀ price l, b.getLevelForPrice price = some l → (b.level l).price = price

/-- The index gives the right level at the prices of the levels and of the resting orders. -/
structure ExactWhereUsed (b : OrderBook B) : Prop extends RingsExact b where
  index_level : ∀ l, b.LiveLevel l → b.getLevelForPrice (b.level l).price = some l
  index_order : ∀ p, b.LiveOrder p →
    ∃ l, b.getLevelForPrice (b.order p).price = some l ∧ (b.level l).price = (b.order p).price

/-! ## The conditions -/

/-- A new order has no quantity. -/
def WithoutQty : Request → Prop
  | .new taker => taker.qty = 0
  | .cancel _ => True

/-- An order that comes to rest is a `BUY` or a `SELL` and rests in a slot its own matching has
emptied, or under a level of its own side and price. -/
def FilesExactly (b : OrderBook B) : Request → Prop
  | .new taker => taker.qty ≠ 0 → taker.side.Proper ∧ Suits Eq b taker
  | .cancel _ => True

instance (b : OrderBook B) (r : Request) : Decidable (FilesExactly b r) :=
  match r with
  | .new _ => inferInstanceAs (Decidable (_ → _))
  | .cancel _ => .isTrue trivial

/-! ## Prices that share a slot -/

/-- Prices a table's length apart share a slot. -/
theorem slotOf_add (B : Build) (price : Price) :
    slotOf B (price + Int64.ofNat (maxPriceLevels B)) = slotOf B price := by
  apply Fin.ext
  show (price + Int64.ofNat (maxPriceLevels B)).toUInt64.toNat % maxPriceLevels B =
    price.toUInt64.toNat % maxPriceLevels B
  rw [Int64.toUInt64_add, UInt64.toNat_add]
  cases B
  · show (price.toUInt64.toNat + 256) % 2 ^ 64 % 256 = price.toUInt64.toNat % 256
    omega
  · show (price.toUInt64.toNat + 16) % 2 ^ 64 % 16 = price.toUInt64.toNat % 16
    omega

theorem add_maxPriceLevels_ne (B : Build) (price : Price) :
    price + Int64.ofNat (maxPriceLevels B) ≠ price := by
  rw [Ne, Int64.add_eq_left]
  cases B
  · decide
  · decide

/-- An index that is right at every price is empty. -/
theorem IndexExact.slot_eq_none {b : OrderBook B} (h : IndexExact b) (price : Price) :
    b.getLevelForPrice price = none := by
  cases hl : b.getLevelForPrice price with
  | none => rfl
  | some l =>
    have hother : b.getLevelForPrice (price + Int64.ofNat (maxPriceLevels B)) = some l := by
      rw [OrderBook.getLevelForPrice, slotOf_add]
      exact hl
    exact absurd ((h.index _ l hother).symm.trans (h.index _ l hl)) (add_maxPriceLevels_ne B price)

section steps

variable {stray : ℕ → Qty} {b b' : OrderBook B} {queue : Queues B} {r : Request}

/-! ## Books without levels -/

/-- A book without levels. -/
structure Bare (b : OrderBook B) : Prop where
  bids : b.bidsByPrice = none
  asks : b.asksByPrice = none
  slots : ∀ s, b.mapPriceToPriceLevel s = none

theorem Bare.not_liveOrder (h : Bare b) (hv : Valid b queue) (p : OrderPtr) : ¬ b.LiveOrder p := by
  intro hp
  obtain ⟨l, hl⟩ := hv.exists_level hp
  rw [OrderBook.getLevelForPrice, h.slots] at hl
  cases hl

theorem Bare.indexExact (h : Bare b) (hv : Valid b queue) : IndexExact b where
  orders l hl := by
    obtain ⟨s, hs⟩ := (hv.liveLevel_iff l).mp hl
    rw [h.slots] at hs
    cases hs
  bids l hl := by
    rw [h.bids] at hl
    simp [OrderBook.levelsFrom] at hl
  asks l hl := by
    rw [h.asks] at hl
    simp [OrderBook.levelsFrom] at hl
  index price l hl := by
    rw [OrderBook.getLevelForPrice, h.slots] at hl
    cases hl

/-- A request without a quantity leaves a book without levels. -/
theorem Bare.request (h : Bare b) (hv : Valid b queue) (hempty : WithoutQty r)
    (hreq : handleRequest stray r b = .ok () b') : Bare b' := by
  cases r with
  | new taker =>
    obtain ⟨b₁, hs, ⟨-, rfl⟩ | ⟨hqty, -⟩⟩ := addOrder_ok hreq
    · rw [(hs.of_zero hempty).1]
      exact ⟨h.bids, h.asks, h.slots⟩
    · exact absurd hempty hqty
  | cancel r =>
    rcases cancelOrder_ok hv.toSound hreq with ⟨rfl, -⟩ | ⟨p, l, hf, -⟩
    · exact ⟨h.bids, h.asks, h.slots⟩
    · exact absurd hf.live (h.not_liveOrder hv p)

/-- An order with a quantity leaves a level in the index. -/
theorem slot_of_new {taker : NewOrder} (hv : Valid b queue) (hqty : taker.qty ≠ 0)
    (hreq : handleRequest stray (.new taker) b = .ok () b') :
    ∃ price l, b'.getLevelForPrice price = some l := by
  obtain ⟨b₁, hs, ⟨hzero, -⟩ | ⟨-, hrest⟩⟩ := addOrder_ok hreq
  · exact absurd hzero hqty
  · obtain ⟨queue₁, hv₁⟩ := hs.valid (hv.accept taker)
    obtain ⟨p, o, b₂, hr⟩ := rests_of_restOrder hv₁.toSound hrest
    have hlive : b'.LiveOrder p := by
      rw [hr.book]
      exact (hr.files.1.liveOrder p).mpr (.inl rfl)
    obtain ⟨l, hl⟩ := (hv₁.rests hqty hr).exists_level hlive
    exact ⟨_, l, hl⟩

/-! ## Books with levels -/

/-- A book with two sides whose orders are like their levels. -/
def QuotesAgree (b : OrderBook B) : Prop := HasSides b ∧ Agrees Eq b

theorem QuotesAgree.request (h : QuotesAgree b) (hv : Valid b queue) (hk : FilesExactly b r)
    (hreq : handleRequest stray r b = .ok () b') : QuotesAgree b' := by
  obtain ⟨hsides, hagrees⟩ := h
  cases r with
  | new taker =>
    by_cases hqty : taker.qty = 0
    · obtain ⟨b₁, hs, ⟨-, rfl⟩ | ⟨hne, -⟩⟩ := addOrder_ok hreq
      · obtain ⟨⟨ring, htwo⟩, hproper⟩ := hsides
        rw [(hs.of_zero hqty).1]
        exact ⟨⟨⟨ring, htwo.congr rfl rfl rfl⟩, hproper⟩, hagrees⟩
      · exact absurd hqty hne
    · obtain ⟨hside, hsuits⟩ := hk hqty
      exact ⟨hsides.request (r := .new taker) hv hside hreq,
        hagrees.new (fun _ => rfl) hv hsuits hreq⟩
  | cancel r =>
    have hsafe : CancelsSafely b r := hagrees.cancelsSafely (fun _ _ h => congrArg Quote.side h) hv r
    exact ⟨hsides.request (r := .cancel r) hv hsafe hreq, hagrees.cancelled hv hreq⟩

theorem QuotesAgree.exactWhereUsed (h : QuotesAgree b) (hv : Valid b queue) : ExactWhereUsed b := by
  obtain ⟨⟨⟨ring, htwo⟩, -⟩, hagrees⟩ := h
  have hbuy : Side.buy.Proper := .inl rfl
  have hsell : Side.sell.Proper := .inr rfl
  constructor
  · constructor
    · intro l hl p hp
      rw [hv.ordersOf_eq (hv.slot_of_live hl)] at hp
      obtain ⟨hlive, hslot⟩ := (hv.mem_queue _ p).mp hp
      have hlevel : b.getLevelForPrice (b.order p).price = some l := by
        rw [OrderBook.getLevelForPrice, hslot]
        exact hv.slot_of_live hl
      have hquote := hagrees p l hlive hlevel
      exact ⟨congrArg Quote.price hquote, congrArg Quote.side hquote⟩
    · intro l hl
      have hwalk : b.levelsFrom b.bidsByPrice = ring .buy := htwo.levelsFrom_eq hbuy
      rw [hwalk] at hl
      exact htwo.side _ hbuy l hl
    · intro l hl
      have hwalk : b.levelsFrom b.asksByPrice = ring .sell := htwo.levelsFrom_eq hsell
      rw [hwalk] at hl
      exact htwo.side _ hsell l hl
  · exact fun l hl => hv.slot_of_live hl
  · intro p hp
    obtain ⟨l, hl⟩ := hv.exists_level hp
    exact ⟨l, hl, (congrArg Quote.price (hagrees p l hp hl)).symm⟩

end steps

/-! ## Runs -/

/-- Orders are like their levels as long as they come to rest so. -/
theorem quotesAgree_throughout {stray : ℕ → Qty} {rs : List Request}
    (h : Meets (B := B) FilesExactly stray rs) : Throughout (B := B) QuotesAgree stray rs :=
  h.invariant ⟨⟨⟨_, twoSided_create B⟩, properOrders_create B⟩, agrees_create _ B⟩
    fun _ _ _ _ hv hb hk hreq => hb.request hv hk hreq

/-- **The price index**: it is right at every price throughout a run exactly when no new order of
the run has a quantity; it is right at the prices in use, and every ring holds what it should, as
long as no order comes to rest under a level of another side or price. -/
theorem price_index_exact {stray : ℕ → Qty} {rs : List Request} {b : OrderBook B}
    (h : RunsTo stray rs b) :
    (Throughout (B := B) IndexExact stray rs ↔ ∀ r ∈ rs, WithoutQty r) ∧
      (Meets (B := B) FilesExactly stray rs → Throughout (B := B) ExactWhereUsed stray rs) := by
  refine ⟨⟨?_, ?_⟩, ?_⟩
  · rintro hall r hr
    obtain ⟨rs₀, rs₁, rfl⟩ := List.append_of_mem hr
    obtain ⟨b₀, b₁, hrun, hreq, -⟩ := runsTo_split.mp h
    obtain ⟨queue, hv⟩ := hrun.valid
    cases r with
    | cancel r => trivial
    | new taker =>
      by_contra hqty
      obtain ⟨price, l, hl⟩ := slot_of_new hv hqty hreq
      have hexact := hall (rs₀ ++ [.new taker]) rs₁ b₁ (by simp)
        (runsTo_concat.mpr ⟨b₀, hrun, hreq⟩)
      rw [hexact.slot_eq_none] at hl
      cases hl
  · intro hempty rs₀ rs₁ b₀ hrs hrun
    obtain ⟨queue, hv⟩ := hrun.valid
    have hmeets : Meets (B := B) (fun _ r => WithoutQty r) stray rs := by
      rintro rs₂ r rs₃ b₂ rfl -
      exact hempty r (by simp)
    have hbare := hmeets.invariant (P := Bare) ⟨rfl, rfl, fun _ => rfl⟩
      fun queue b r b' hv hb hk hreq => hb.request hv hk hreq
    exact (hbare rs₀ rs₁ b₀ hrs hrun).indexExact hv
  · intro hmeets rs₀ rs₁ b₀ hrs hrun
    obtain ⟨queue, hv⟩ := hrun.valid
    exact (quotesAgree_throughout hmeets rs₀ rs₁ b₀ hrs hrun).exactWhereUsed hv

/-- Several levels on both sides, one of them with two orders, a match and a cancel. -/
theorem price_index_exact_sample :
    Throughout (B := .production) ExactWhereUsed (fun _ => 0) ladders ∧
      ∃ b : OrderBook .production, RunsTo (fun _ => 0) ladders b ∧
        b.quotesFrom b.asksByPrice = [(101, [5]), (102, [10])] ∧
        b.quotesFrom b.bidsByPrice = [(100, [4]), (99, [10]), (98, [10])] := by
  refine ⟨(price_index_exact (runsTo_bookAfter (by decide +kernel))).2 ?_, runsTo_ladders⟩
  exact meets_of_forall (by decide +kernel)

/-- A `SELL` at 356 filed under the level of a `BUY` at 100, which answers for both prices. -/
theorem level_answers_for_other_price :
    ¬ ∀ (stray : ℕ → Qty) (rs : List Request) (b : OrderBook .production),
      RunsTo stray rs b → IndexExact b := by
  intro h
  have hexact := h (fun _ => 0)
    [.new ⟨1, 1, 0, .buy, 100, 10⟩, .new ⟨2, 1, 0, .sell, 356, 10⟩] _
    (runsTo_bookAfter (by decide +kernel))
  have horder := hexact.orders ⟨0, by decide⟩ (by decide +kernel) ⟨1, by decide⟩ (by decide +kernel)
  exact absurd horder.1 (by decide +kernel)

end HftSys
