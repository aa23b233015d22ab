import HftSys.AddCancel

/-!
# Running out of blocks

A book takes its orders from `orderPool_` and its levels from `ordersAtPricePool_`, and looks at
neither result: `addOrder` hands what `allocate` returned to `addOrderToBook`, and that what the
other `allocate` returned to `addPriceLevel`.

* `levels_never_exhausted`: there is a level block for every slot, and a level in use keeps its slot
  taken, so the second call never returns null.
* `survives_exhaustion_iff`: the first one does, for an order that has to rest and finds the pool
  full, unless the order reaches the first order of a best level in use. A match that fills the
  resting order frees its block before `findMatch` returns.
* `pool_exhausted`: as many resting orders as the pool has blocks are all a client needs for that.
-/

namespace HftSys

open Circular Exec

variable {B : Build}

/-! ## Up to the allocations -/

/-- `addOrder` up to its call of `addOrderToBook`: the argument of the call and the update published
after it, or none where nothing comes to rest.
Source: `order_book.cpp`, `OrderBook::addOrder` -/
def untilFiling (stray : ℕ → Qty) (taker : NewOrder) :
    BookM B (Option (Option OrderPtr × OMEMarketUpdate)) := do
  let newMarketOid ← getNewMarketOrderId
  dispatchClientResponse
    ⟨.accepted, taker.clientId, taker.tickerId, taker.clientOid, newMarketOid, taker.side,
      taker.price, 0, taker.qty⟩
  let qtyRemains ← findMatch stray taker newMarketOid
  if qtyRemains = 0 then pure none
  else
    let priority ← getNextPriority taker.price
    let order ← allocateOrder
      ⟨taker.tickerId, taker.clientId, taker.clientOid, newMarketOid, taker.side, taker.price,
        qtyRemains, priority, none, none⟩
    pure (some (order,
      ⟨.add, newMarketOid, taker.tickerId, taker.side, taker.price, qtyRemains, priority⟩))

/-- `addOrderToBook` up to its choice of a level: what `ordersAtPricePool_.allocate` returned, or
the level of the slot. Source: `order_book.cpp`, `OrderBook::addOrderToBook` -/
def untilLevel (order : Option OrderPtr) :
    BookM B (Option (LevelPtr B) ⊕ Option (LevelPtr B)) := do
  let o ← derefOrder order
  let priceLevel := (← get).getLevelForPrice o.price
  if priceLevel = none then
    storeOrder order fun o => { o with next := order, prev := order }
    let o ← derefOrder order
    let newPriceLevel ← allocateLevel ⟨o.side, o.price, order, none, none⟩
    pure (.inl newPriceLevel)
  else pure (.inr priceLevel)

/-- What `addOrder` does from there on. -/
theorem addOrder_eq (stray : ℕ → Qty) (taker : NewOrder) :
    addOrder (B := B) stray taker =
      (do match ← untilFiling stray taker with
          | none => pure ()
          | some (order, u) =>
            addOrderToBook order
            publishMarketUpdate u) := by
  unfold addOrder untilFiling restOrder
  simp only [bind_assoc]
  refine bind_congr fun newMarketOid => bind_congr fun _ => bind_congr fun qtyRemains => ?_
  by_cases hqty : qtyRemains = 0
  · rw [if_pos hqty, if_pos hqty, pure_bind]
  · rw [if_neg hqty, if_neg hqty, bind_assoc]
    simp only [bind_assoc, pure_bind]

/-- What `addOrderToBook` does from there on. -/
theorem addOrderToBook_eq (order : Option OrderPtr) :
    addOrderToBook (B := B) order =
      (do match ← untilLevel order with
          | .inl newPriceLevel => addPriceLevel newPriceLevel
          | .inr priceLevel => appendOrder order priceLevel
          let o ← derefOrder order
          setClientOrder o.clientId o.clientOrderId order) := by
  unfold addOrderToBook untilLevel openLevel
  simp only [bind_assoc]
  refine bind_congr fun o => bind_congr fun b => ?_
  by_cases hslot : b.getLevelForPrice o.price = none
  · rw [if_pos hslot, if_pos hslot]
    simp only [bind_assoc, pure_bind]
  · rw [if_neg hslot, if_neg hslot]
    simp only [pure_bind]

/-! ## Levels -/

/-- The level blocks in use and the slots taken belong together one to one. -/
structure LevelsTabled (b : OrderBook B) : Prop where
  live : ∀ s l, b.mapPriceToPriceLevel s = some l → b.LiveLevel l
  slot : ∀ l, b.LiveLevel l → ∃! s, b.mapPriceToPriceLevel s = some l

theorem Sound.levelsTabled {b : OrderBook B} {queue : Queues B} (h : Sound b queue) :
    LevelsTabled b where
  live _ _ hl := h.live_of_slot hl
  slot _ hl := ⟨_, h.slot_of_live hl, fun _ hs => h.slot_inj hs (h.slot_of_live hl)⟩

section levels

variable {b b₁ b₂ : OrderBook B} {queue : Queues B} {stray : ℕ → Qty} {taker : NewOrder}
  {order : Option OrderPtr} {u : OMEMarketUpdate}

/-- **`addOrder` taken apart at its call of `addOrderToBook`**: the loop has run, and `allocate` has
been called on the book it left. -/
theorem untilFiling_ok (hv : Valid b queue) (hpools : PoolsWellFormed b)
    (h : untilFiling stray taker b = .ok (some (order, u)) b₁) :
    ∃ queue₂ b₂ priority, Valid b₂ queue₂ ∧ PoolsWellFormed b₂ ∧
      findMatch stray taker b.nextMarketOid (b.accept taker) = .ok taker.qty b₂ ∧
      Sweeps stray taker b b₂ ∧ taker.qty ≠ 0 ∧
      allocateOrder (taker.toOrder b.nextMarketOid taker.qty priority) b₂ = .ok order b₁ := by
  unfold untilFiling at h
  have hid : getNewMarketOrderId b =
      .ok b.nextMarketOid { b with nextMarketOid := b.nextMarketOid + 1 } := rfl
  rw [bind_of_ok hid, bind_of_ok (dispatchClientResponse_apply _ _)] at h
  obtain ⟨r, b₂, hfind, h⟩ := bind_eq_ok.mp h
  obtain ⟨rfl, hsweeps⟩ := matchLoop_ok hfind
  obtain ⟨queue₂, hv₂⟩ := hsweeps.valid (hv.accept taker)
  have hpools₂ : PoolsWellFormed b₂ :=
    keepsPools_matchLoop _ _ _ _ _ (b.accept taker) _ _ ⟨hpools.orders, hpools.levels⟩ hfind
  by_cases hqty : taker.qty = 0
  · rw [if_pos hqty] at h
    cases h
  · rw [if_neg hqty, bind_of_ok (getNextPriority_eq hv₂.rings taker.price)] at h
    obtain ⟨q, b₃, hallocate, h⟩ := bind_eq_ok.mp h
    cases h
    exact ⟨queue₂, b₂, _, hv₂, hpools₂, hfind, hsweeps, hqty, hallocate⟩

/-- The level block `addOrderToBook` asks for is there. -/
theorem untilLevel_ok {p : OrderPtr} {o : Order} {n : Option (LevelPtr B)} {b' : OrderBook B}
    (hs : Sound b queue) (hpools : PoolsWellFormed b) (halloc : Allocated b b₁ p o)
    (h : untilLevel (some p) b₁ = .ok (.inl n) b') : n ≠ none := by
  have hp₁ : b₁.LiveOrder p := (halloc.liveOrder p).mpr (.inl rfl)
  unfold untilLevel at h
  rw [bind_of_ok (derefOrder_of_live hp₁), get_bind] at h
  by_cases hslot : b₁.getLevelForPrice (b₁.order p).price = none
  · set b₂ := b₁.setOrderLinks (b₁.orderLinks.join p p) with hb₂
    have hp₂ : b₂.LiveOrder p := hp₁
    rw [if_pos hslot, bind_of_ok (storeOrder_self hp₁), bind_of_ok (derefOrder_of_live hp₂)] at h
    -- the levels and the slot table are those from before the allocation
    have hpool : b₂.ordersAtPricePool = b.ordersAtPricePool := by
      show b₁.ordersAtPricePool = _
      rw [halloc.rest]
    have hempty : b.mapPriceToPriceLevel (slotOf B (b₁.order p).price) = none := by
      rw [OrderBook.getLevelForPrice, halloc.rest] at hslot
      exact hslot
    obtain ⟨l, hfree⟩ := b.exists_free_level (fun l hl => hs.slot_of_live hl) hempty
    obtain ⟨n', b₃, hlevel⟩ := allocateLevel_of_pos (b := b₂) (hpool ▸ hpools.levels)
      (hpool ▸ hpools.levels.count_pos hfree) ⟨(b₂.order p).side, (b₂.order p).price, some p, none, none⟩
    rw [bind_of_ok hlevel] at h
    cases h
    exact Option.some_ne_none n'
  · rw [if_neg hslot] at h
    cases h

end levels

/-- **The level pool is never exhausted.** In every reachable book the level blocks in use and the
slots taken belong together one to one, every price has a slot, and no `NEW` request gets null from
`ordersAtPricePool_.allocate`. -/
theorem levels_never_exhausted (stray : ℕ → Qty) (rs : List Request) (b : OrderBook B)
    (h : RunsTo stray rs b) :
    LevelsTabled b ∧ (∀ price, priceToIndex B price < maxPriceLevels B) ∧
      ∀ taker order u b₁ newPriceLevel b₂, untilFiling stray taker b = .ok (some (order, u)) b₁ →
        untilLevel order b₁ = .ok (.inl newPriceLevel) b₂ → newPriceLevel ≠ none := by
  obtain ⟨queue, hv⟩ := h.valid
  refine ⟨hv.toSound.levelsTabled, priceToIndex_lt B, ?_⟩
  intro taker order u b₁ newPriceLevel b₂ hfiling hlevel
  obtain ⟨queue₁, b', priority, hv', hpools, -, -, -, hallocate⟩ :=
    untilFiling_ok hv (pools_wellFormed h) hfiling
  rcases allocateOrder_ok hallocate with rfl | ⟨p, rfl, halloc⟩
  · -- a null order is dereferenced before any level is looked for
    unfold untilLevel at hlevel
    obtain ⟨_, _, hnull, -⟩ := bind_eq_ok.mp hlevel
    cases hnull
  · exact untilLevel_ok hv'.toSound hpools halloc hlevel

/-- In a book with levels on both sides a `BUY` at a negative price opens one more. -/
theorem levels_never_exhausted_sample :
    ∃ (b b₁ b₂ : OrderBook .production) (order : Option OrderPtr) (u : OMEMarketUpdate)
      (newPriceLevel : Option (LevelPtr .production)), RunsTo (fun _ => 0) ladders b ∧
        b.quotesFrom b.asksByPrice = [(101, [5]), (102, [10])] ∧
        b.quotesFrom b.bidsByPrice = [(100, [4]), (99, [10]), (98, [10])] ∧ LevelsTabled b ∧
        (∀ price, priceToIndex .production price < maxPriceLevels .production) ∧
        untilFiling (fun _ => 0) ⟨5, 1, 0, .buy, -5, 10⟩ b = .ok (some (order, u)) b₁ ∧
        untilLevel order b₁ = .ok (.inl newPriceLevel) b₂ ∧ newPriceLevel ≠ none := by
  obtain ⟨b, hrun, hasks, hbids⟩ := runsTo_ladders
  obtain ⟨htabled, hindex, hnever⟩ := levels_never_exhausted (fun _ => 0) ladders b hrun
  have hopens : ((ok? (untilFiling (fun _ => 0) ⟨5, 1, 0, .buy, -5, 10⟩
        (bookAfter .production (fun _ => 0) ladders))).bind fun filing =>
      filing.1.bind fun found =>
        (ok? (untilLevel found.1 filing.2)).bind fun level => level.1.getLeft?).isSome = true := by
    decide +kernel
  rw [← hrun.eq_bookAfter] at hopens
  obtain ⟨newPriceLevel, hopens⟩ := Option.isSome_iff_exists.mp hopens
  obtain ⟨⟨filing, b₁⟩, hfiling, hopens⟩ := Option.bind_eq_some_iff.mp hopens
  obtain ⟨⟨order, u⟩, rfl, hopens⟩ := Option.bind_eq_some_iff.mp hopens
  obtain ⟨⟨level, b₂⟩, hlevel, hleft⟩ := Option.bind_eq_some_iff.mp hopens
  obtain rfl := Sum.getLeft?_eq_some_iff.mp hleft
  have hfiling := ok?_eq_some.mp hfiling
  have hlevel := ok?_eq_some.mp hlevel
  exact ⟨b, b₁, b₂, order, u, newPriceLevel, hrun, hasks, hbids, htabled, hindex, hfiling, hlevel,
    hnever _ _ _ _ _ _ hfiling hlevel⟩

/-! ## Orders -/

/-- `addOrder` hands a null order to `addOrderToBook`. -/
def PassesNull (stray : ℕ → Qty) (b : OrderBook B) (taker : NewOrder) : Prop :=
  ∃ u b₁, untilFiling stray taker b = .ok (some (none, u)) b₁

/-- A new order is handled whether or not there is a block for it: no null order is filed, and a
remainder for which there is no block is refused, with nothing but messages to tell the books
apart. -/
structure SurvivesExhaustion (stray : ℕ → Qty) (b : OrderBook B) (taker : NewOrder) : Prop where
  notNull : ¬ PassesNull stray b taker
  /-- `findMatch` does not come upon a freed level, or stop otherwise, while no block is free. The
  source reads on there: it files a null order after all, or matches what the freed block says until
  a null pointer is dereferenced. -/
  notStopped : ∀ fault b₁,
    findMatch stray taker b.nextMarketOid (b.accept taker) = .error fault b₁ → ∃ p, ¬ b₁.LiveOrder p
  refused : ∀ qtyRemains b₁,
    findMatch stray taker b.nextMarketOid (b.accept taker) = .ok qtyRemains b₁ → qtyRemains ≠ 0 →
      (∀ p, b₁.LiveOrder p) →
      ∃ b', addOrder stray taker b = .ok () b' ∧ b' = { b₁ with ome := b'.ome }

/-- The other side has no level, or a best level whose first order the price does not reach. -/
def MatchesNothing (b : OrderBook B) (taker : NewOrder) : Prop :=
  b.opposite taker.side = none ∨
    ∃ best p, b.opposite taker.side = some best ∧ b.LiveLevel best ∧
      (b.level best).order0 = some p ∧ b.LiveOrder p ∧
      misses taker.side taker.price (b.order p).price = true

section orders

variable {b b₁ : OrderBook B} {queue : Queues B} {stray : ℕ → Qty} {taker : NewOrder}

/-- A null order is dereferenced at once. -/
theorem PassesNull.faults (h : PassesNull stray b taker) :
    ∃ b', addOrder stray taker b = .error .nullDereference b' := by
  obtain ⟨u, b₁, hfiling⟩ := h
  refine ⟨b₁, ?_⟩
  rw [addOrder_eq, bind_of_ok hfiling]
  rfl

theorem MatchesNothing.nextMatch (h : MatchesNothing b taker) (hqty : taker.qty ≠ 0) :
    nextMatch taker taker.qty b = .ok none b := by
  unfold HftSys.nextMatch
  rw [if_neg hqty, get_bind]
  rcases h with hnone | ⟨best, p, hopp, hbest, h0, hp, hmiss⟩
  · rw [hnone]
    rfl
  · rw [hopp]
    simp only []
    rw [bind_of_ok (derefLevel_of_live hbest), h0, bind_of_ok (derefOrder_of_live hp), if_pos hmiss]
    rfl

/-- A remainder is left and there is no block for it. -/
theorem passesNull_of_findMatch {qtyRemains : Qty} (hv : Valid b queue) (hpools : PoolsWellFormed b)
    (hfind : findMatch stray taker b.nextMarketOid (b.accept taker) = .ok qtyRemains b₁)
    (hqty : qtyRemains ≠ 0) (hfull : ∀ p, b₁.LiveOrder p) : PassesNull stray b taker := by
  have hid : getNewMarketOrderId b =
      .ok b.nextMarketOid { b with nextMarketOid := b.nextMarketOid + 1 } := rfl
  obtain ⟨-, hsweeps⟩ := matchLoop_ok hfind
  obtain ⟨queue₁, hv₁⟩ := hsweeps.valid (hv.accept taker)
  have hpools₁ : PoolsWellFormed b₁ :=
    keepsPools_matchLoop _ _ _ _ _ (b.accept taker) _ _ ⟨hpools.orders, hpools.levels⟩ hfind
  have hnull : ∀ o, allocateOrder o b₁ = .ok none b₁ := by
    intro o
    have hzero := hpools₁.orders.count_eq_zero.mpr hfull
    simp only [allocateOrder, MemoryPool.allocate_of_zero hzero]
  refine ⟨⟨.add, b.nextMarketOid, taker.tickerId, taker.side, taker.price, qtyRemains,
    b₁.priorityAfter (queue₁ (slotOf B taker.price))⟩, b₁, ?_⟩
  unfold untilFiling
  rw [bind_of_ok hid, bind_of_ok (dispatchClientResponse_apply _ _)]
  refine (bind_of_ok hfind).trans ?_
  rw [if_neg hqty, bind_of_ok (getNextPriority_eq hv₁.rings taker.price), bind_of_ok (hnull _)]
  rfl

/-- A loop that leaves the pool full has matched nothing. -/
theorem matchesNothing_of_full (hv : Valid b queue) (hqty : taker.qty ≠ 0)
    (hsweeps : Sweeps stray taker b b₁) (hfull : ∀ p, b₁.LiveOrder p) :
    (∀ p, b.LiveOrder p) ∧ MatchesNothing b taker := by
  have heffect := hsweeps.effect hv
  refine ⟨fun p => ((heffect.live p).mp (hfull p)).1, ?_⟩
  -- a call would free the block of its order before the loop ends
  have hcalls : newOrderCalls stray taker b = [] := by
    apply List.eq_nil_iff_forall_not_mem.mpr
    intro c hc
    exact ((heffect.live c.2).mp (hfull c.2)).2 ((heffect.called c.2).mpr ⟨c, hc, rfl⟩)
  unfold Sweeps at hsweeps
  rw [hcalls] at hsweeps
  cases hsweeps with
  | done hnext =>
    obtain ⟨-, hzero | hstop⟩ := nextMatch_none hnext
    · exact absurd hzero hqty
    · exact hstop

/-- What is not matched is not reached. -/
theorem MatchesNothing.not_reaches {best : LevelPtr B} {p : OrderPtr}
    (h : MatchesNothing b taker) : ¬ Reaches b taker taker.qty best p := by
  intro hr
  rcases h with hnone | ⟨best', p', hopp, -, h0, -, hmiss⟩
  · exact absurd (hnone.symm.trans hr.opposite) (Option.some_ne_none best).symm
  · cases hopp.symm.trans hr.opposite
    cases h0.symm.trans hr.order0
    exact absurd (hmiss.symm.trans hr.price) (by decide)

/-- **When a null order is filed**: nothing matches and no block is free. -/
theorem passesNull_iff (hv : Valid b queue) (hpools : PoolsWellFormed b) :
    PassesNull stray b taker ↔
      taker.qty ≠ 0 ∧ (∀ p, b.LiveOrder p) ∧ MatchesNothing b taker := by
  constructor
  · rintro ⟨u, b₁, hfiling⟩
    obtain ⟨_, b₂, _, -, hpools₂, -, hsweeps, hqty, hallocate⟩ := untilFiling_ok hv hpools hfiling
    have hfull : ∀ p, b₂.LiveOrder p := by
      by_contra hfree
      push Not at hfree
      obtain ⟨p, hp⟩ := hfree
      obtain ⟨q, b', hsome, -⟩ :=
        allocateOrder_of_pos hpools₂.orders (hpools₂.orders.count_pos hp) _
      rw [hsome] at hallocate
      cases hallocate
    exact ⟨hqty, matchesNothing_of_full hv hqty hsweeps hfull⟩
  · rintro ⟨hqty, hfull, hstop⟩
    have hnext : HftSys.nextMatch taker taker.qty (b.accept taker) = .ok none (b.accept taker) :=
      MatchesNothing.nextMatch (b := b.accept taker) hstop hqty
    exact passesNull_of_findMatch hv hpools (findMatch_of_none hnext) hqty hfull

/-- A read of the loop's head that goes wrong leaves the book as it is. -/
theorem nextMatch_error {qtyRemains : Qty} {fault : Fault} {b' : OrderBook B}
    (h : HftSys.nextMatch taker qtyRemains b = .error fault b') : b' = b := by
  unfold HftSys.nextMatch at h
  split at h
  · cases h
  · rw [get_bind] at h
    cases hbest : b.opposite taker.side with
    | none =>
      rw [hbest] at h
      cases h
    | some best =>
      rw [hbest] at h
      rcases bind_eq_error.mp h with hlevel | ⟨level, b₁, hlevel, hread⟩
      · exact derefLevel_error hlevel
      · obtain ⟨_, -, -, -, rfl⟩ := derefLevel_eq_ok.mp hlevel
        rcases bind_eq_error.mp hread with horder | ⟨resting, b₂, -, hturn⟩
        · exact derefOrder_error horder
        · split at hturn <;> cases hturn

/-- The loop stops where its head does. -/
theorem findMatch_of_error {newMarketOid : OrderID} {fault : Fault} {b' : OrderBook B}
    (hnext : HftSys.nextMatch taker taker.qty b = .error fault b') :
    findMatch stray taker newMarketOid b = .error fault b' := by
  unfold findMatch matchFuel matchLoop
  exact bind_eq_error.mpr (.inl hnext)

/-- Nothing is looked for where nothing is left. -/
theorem nextMatch_of_zero {qtyRemains : Qty} (hqty : qtyRemains = 0) :
    HftSys.nextMatch taker qtyRemains b = .ok none b := by
  unfold HftSys.nextMatch
  rw [if_pos hqty]
  rfl

/-- **A loop that stops half way**: the orders in use then were in use before. -/
theorem live_of_matchLoop_error {newMarketOid : OrderID} {qtyRemains : Qty} {fuel : ℕ}
    {fault : Fault} {b' : OrderBook B} (hv : Valid b queue)
    (h : matchLoop stray taker newMarketOid qtyRemains fuel b = .error fault b') {q : OrderPtr}
    (hq : b'.LiveOrder q) : b.LiveOrder q := by
  induction fuel generalizing b queue with
  | zero =>
    cases h
    exact hq
  | succ fuel ih =>
    unfold matchLoop at h
    rcases bind_eq_error.mp h with hnext | ⟨next, b₁, hnext, hturn⟩
    · rw [nextMatch_error hnext] at hq
      exact hq
    · cases next with
      | none => cases hturn
      | some p =>
        obtain ⟨rfl, best, hr⟩ := nextMatch_some hnext
        obtain ⟨hp, hslot, -⟩ := hv.head_of_level hr.liveLevel hr.order0
        have hmatch := matchOrder_eq hv.toSound stray taker newMarketOid qtyRemains hp hslot
        simp only [] at hturn
        rw [bind_of_ok hmatch] at hturn
        have hlive := ih (hv.matched stray taker newMarketOid qtyRemains hp hslot) hturn
        exact ((OrderBook.liveOrder_matched ..).mp hlive).1

/-- An order that has not been used up is reached again. -/
theorem Reaches.again {newMarketOid : OrderID} {qtyRemains : Qty} {best l : LevelPtr B}
    {p : OrderPtr} (hr : Reaches b taker qtyRemains best p) (hx : ¬ b.Exhausts p qtyRemains) :
    Reaches (b.matched stray taker newMarketOid p l qtyRemains) taker qtyRemains best p := by
  constructor
  · exact hr.qty
  · rw [OrderBook.matched_of_not_exhausts b stray taker newMarketOid p l qtyRemains hx]
    exact hr.opposite
  · rw [OrderBook.matched_of_not_exhausts b stray taker newMarketOid p l qtyRemains hx]
    exact hr.liveLevel
  · rw [OrderBook.matched_of_not_exhausts b stray taker newMarketOid p l qtyRemains hx]
    exact hr.order0
  · exact (OrderBook.liveOrder_matched ..).mpr ⟨hr.live, fun hgone => hx hgone.1⟩
  · rw [OrderBook.price_matched]
    exact hr.price

/-- A loop that does not stop at its first look has a block freed when it stops. -/
theorem exists_free_of_matchLoop_error {newMarketOid : OrderID} {qtyRemains : Qty} {fuel : ℕ}
    {fault : Fault} {b' : OrderBook B} {next : Option OrderPtr} (hv : Valid b queue)
    (hfirst : HftSys.nextMatch taker qtyRemains b = .ok next b)
    (h : matchLoop stray taker newMarketOid qtyRemains fuel b = .error fault b')
    (hends : fault ≠ .diverges) : ∃ p, ¬ b'.LiveOrder p := by
  induction fuel generalizing b queue next with
  | zero =>
    cases h
    exact absurd rfl hends
  | succ fuel ih =>
    unfold matchLoop at h
    rw [bind_of_ok hfirst] at h
    cases next with
    | none => cases h
    | some p =>
      obtain ⟨-, best, hr⟩ := nextMatch_some hfirst
      obtain ⟨hp, hslot, -⟩ := hv.head_of_level hr.liveLevel hr.order0
      have hmatch := matchOrder_eq hv.toSound stray taker newMarketOid qtyRemains hp hslot
      have hv₁ := hv.matched stray taker newMarketOid qtyRemains hp hslot
      simp only [] at h
      rw [bind_of_ok hmatch] at h
      by_cases hx : b.Exhausts p qtyRemains
      · -- the block of the order that has gone stays free
        refine ⟨p, fun hlive => ?_⟩
        exact ((OrderBook.liveOrder_matched ..).mp (live_of_matchLoop_error hv₁ h hlive)).2 ⟨hx, rfl⟩
      · exact ih hv₁ (hr.again hx).next h

end orders

/-! ## A full pool -/

/-- A `BUY` of client `0` under its `k`-th order id. -/
def filler (k : ℕ) : NewOrder := ⟨0, UInt64.ofNat k, 0, .buy, 100, 1⟩

/-- The first `n` of them. -/
def fillers (n : ℕ) : List Request := (List.range n).map fun k => .new (filler k)

/-- `n` orders rest on the bids. -/
structure Filled (b : OrderBook B) (n : ℕ) : Prop where
  sides : HasSides b
  asks : b.asksByPrice = none
  blocks : b.orderPool.freeBlocksCount + n = maxOrderIds

section full

variable {b b₁ : OrderBook B} {queue : Queues B} {p : OrderPtr} {o : Order} {n : ℕ}

/-- A filing takes a block. -/
theorem Filed.freeBlocksCount (h : Filed b b₁ p o) (hwf : b.orderPool.WellFormed)
    (hwf₁ : b₁.orderPool.WellFormed) :
    b₁.orderPool.freeBlocksCount + 1 = b.orderPool.freeBlocksCount := by
  have hblocks : b₁.orderPool.freeBlocks = b.orderPool.freeBlocks.erase p := by
    ext q
    rw [MemoryPool.mem_freeBlocks, Finset.mem_erase, MemoryPool.mem_freeBlocks]
    rw [show b₁.orderPool.Live q ↔ q = p ∨ b.orderPool.Live q from h.liveOrder q, not_or]
  have hmem : p ∈ b.orderPool.freeBlocks := MemoryPool.mem_freeBlocks.mpr h.fresh
  rw [hwf₁.count, hwf.count, hblocks, Finset.card_erase_add_one hmem]

/-- A `BUY` leaves the best ask alone. -/
theorem Files.asks_of_buy (h : Files b b₁ queue p o) (hbuy : o.side = .buy) :
    b₁.asksByPrice = b.asksByPrice := by
  obtain ⟨-, ⟨l, ha⟩ | ⟨m, best', ho⟩⟩ := h
  · exact ha.asks
  · rw [ho.asks, if_pos hbuy]

/-- There is room for one more. -/
theorem Filled.next {stray : ℕ → Qty} {rs : List Request} (h : Filled b n)
    (hrun : RunsTo stray rs b) (hn : n < maxOrderIds) (hclient : 0 < maxNClients B) :
    ∃ b' : OrderBook B, RunsTo stray (rs ++ [.new (filler n)]) b' ∧ Filled b' (n + 1) := by
  obtain ⟨queue, hv⟩ := hrun.valid
  obtain ⟨⟨ring, htwo⟩, -⟩ := h.sides
  have hstanding := htwo.standing hv hrun
  have hreach : OutOfReach b (filler n) := by
    intro best p hopp
    exact absurd (h.asks.symm.trans hopp) (Option.some_ne_none best).symm
  have hin : InClientMap B (filler n).clientId (filler n).clientOid := by
    refine ⟨hclient, ?_⟩
    rw [filler, UInt64.toNat_ofNat_of_lt' (hn.trans (by decide))]
    exact hn
  have hfree : ∃ p, ¬ b.LiveOrder p := by
    by_contra hall
    push Not at hall
    have hzero := hstanding.pools.orders.count_eq_zero.mpr hall
    have hblocks := h.blocks
    omega
  obtain ⟨p, b₁, o, ho, hfiles, hadd⟩ :=
    hstanding.addOrder_rests hreach (by decide : (1 : Qty) ≠ 0) hin hfree stray
  have hreq : handleRequest stray (.new (filler n)) b = .ok () _ := hadd
  have hbuy : o.side = .buy := by rw [ho]; rfl
  have hkeeps : KeepsBest b (.new (filler n)) := .inl rfl
  refine ⟨_, runsTo_concat.mpr ⟨b, hrun, hadd⟩, ?_, ?_, ?_⟩
  · exact h.sides.request hv hkeeps hreq
  · exact (hfiles.asks_of_buy hbuy).trans h.asks
  · have hpools₁ := keepsPools_addOrder stray (filler n) b () _ hstanding.pools hadd
    have hcount := hfiles.1.freeBlocksCount hstanding.pools.orders hpools₁.orders
    have hblocks : (b.accept (filler n)).orderPool.freeBlocksCount + n = maxOrderIds := h.blocks
    show b₁.orderPool.freeBlocksCount + (n + 1) = maxOrderIds
    omega

/-- Every prefix of the fillers runs, as far as there are blocks. -/
theorem filled_fillers (hclient : 0 < maxNClients B) (hn : n ≤ maxOrderIds) :
    ∃ b : OrderBook B, RunsTo (fun _ => 0) (fillers n) b ∧ Filled b n := by
  induction n with
  | zero => exact ⟨_, rfl, ⟨⟨_, twoSided_create B⟩, properOrders_create B⟩, rfl, rfl⟩
  | succ n ih =>
    obtain ⟨b, hrun, hfilled⟩ := ih (Nat.le_of_succ_le hn)
    have hsucc : fillers (n + 1) = fillers n ++ [.new (filler n)] := by
      rw [fillers, List.range_succ, List.map_append]
      rfl
    rw [hsucc]
    exact hfilled.next hrun hn hclient

/-- As many orders as there are blocks. -/
theorem Filled.full {stray : ℕ → Qty} {rs : List Request} (h : Filled b maxOrderIds)
    (hrun : RunsTo stray rs b) : ∀ p, b.LiveOrder p := by
  apply (pools_wellFormed hrun).orders.count_eq_zero.mp
  have hblocks := h.blocks
  omega

/-- The best bid has a first order. -/
theorem Filled.exists_bid {stray : ℕ → Qty} {rs : List Request} (h : Filled b n)
    (hrun : RunsTo stray rs b) (hp : b.LiveOrder p) :
    ∃ best q, b.bidsByPrice = some best ∧ b.LiveLevel best ∧ (b.level best).order0 = some q ∧
      b.LiveOrder q := by
  obtain ⟨queue, hv⟩ := hrun.valid
  obtain ⟨⟨ring, htwo⟩, -⟩ := h.sides
  obtain ⟨l, hl⟩ := hv.exists_level hp
  obtain ⟨hside, hmem⟩ := htwo.mem l (hv.live_of_slot hl)
  rcases hside with hbuy | hsell
  · rw [hbuy] at hmem
    have hhead : b.bidsByPrice = (ring .buy).head? := htwo.head .buy (.inl rfl)
    cases hring : ring .buy with
    | nil =>
      rw [hring] at hmem
      exact absurd hmem List.not_mem_nil
    | cons best rest =>
      rw [hring] at hhead
      have hlive : b.LiveLevel best := htwo.live .buy (.inl rfl) best (by simp [hring])
      have hslot := hv.slot_of_live hlive
      have h0 := hv.queue_head _ best hslot
      cases hqueue : queue (slotOf B (b.level best).price) with
      | nil =>
        rw [(hv.queue_nil _).mpr hqueue] at hslot
        cases hslot
      | cons q back =>
        rw [hqueue] at h0
        exact ⟨best, q, hhead, hlive, h0, hv.live_of_mem (hqueue ▸ List.mem_cons_self)⟩
  · rw [hsell] at hmem
    have hhead : b.asksByPrice = (ring .sell).head? := htwo.head .sell (.inr rfl)
    rw [h.asks] at hhead
    rw [List.head?_eq_none_iff.mp hhead.symm] at hmem
    exact absurd hmem List.not_mem_nil

end full

/-- **When running out of order blocks is survived**: on a reachable book a new order is handled
exactly when it has no quantity, or some block of `orderPool_` is free, or its price reaches the
first order of the other side's best level, that level being in use. -/
theorem survives_exhaustion_iff (stray : ℕ → Qty) (rs : List Request) (b : OrderBook B)
    (h : RunsTo stray rs b) (taker : NewOrder) :
    SurvivesExhaustion stray b taker ↔
      taker.qty = 0 ∨ (∃ p, ¬ b.LiveOrder p) ∨ ∃ best p, Reaches b taker taker.qty best p := by
  obtain ⟨queue, hv⟩ := h.valid
  have hpools := pools_wellFormed h
  have hv' := hv.accept taker
  constructor
  · intro hsurvives
    by_contra hcond
    push Not at hcond
    obtain ⟨hqty, hfull, hout⟩ := hcond
    cases hnext : nextMatch taker taker.qty (b.accept taker) with
    | error fault b₁ =>
      cases nextMatch_error hnext
      obtain ⟨p, hp⟩ := hsurvives.notStopped fault _ (findMatch_of_error hnext)
      exact hp (hfull p)
    | ok next b₁ =>
      cases next with
      | none =>
        obtain ⟨-, hzero | hstop⟩ := nextMatch_none hnext
        · exact hqty hzero
        · exact hsurvives.notNull ((passesNull_iff hv hpools).mpr ⟨hqty, hfull, hstop⟩)
      | some p =>
        obtain ⟨-, best, hr⟩ := nextMatch_some hnext
        exact hout best p ⟨hqty, hr.opposite, hr.liveLevel, hr.order0, hr.live, hr.price⟩
  · intro hcond
    have hnot : ¬ PassesNull stray b taker := by
      rw [passesNull_iff hv hpools]
      rintro ⟨hqty, hfull, hstop⟩
      rcases hcond with hzero | ⟨p, hp⟩ | ⟨best, p, hr⟩
      · exact hqty hzero
      · exact hp (hfull p)
      · exact hstop.not_reaches hr
    refine ⟨hnot, ?_, ?_⟩
    · intro fault b₁ hfind
      have hends : fault ≠ .diverges := by
        rintro rfl
        exact findMatch_ne_diverges hv' hfind
      rcases hcond with hzero | ⟨p, hp⟩ | ⟨best, p, hr⟩
      · exact exists_free_of_matchLoop_error hv' (nextMatch_of_zero hzero) hfind hends
      · exact ⟨p, fun hlive => hp (live_of_matchLoop_error hv' hfind hlive)⟩
      · have hr' : Reaches (b.accept taker) taker taker.qty best p :=
          ⟨hr.qty, hr.opposite, hr.liveLevel, hr.order0, hr.live, hr.price⟩
        exact exists_free_of_matchLoop_error hv' hr'.next hfind hends
    · intro qtyRemains b₁ hfind hqty hfull
      exact absurd (passesNull_of_findMatch hv hpools hfind hqty hfull) hnot

/-- One client rests as many bids as there are blocks. A `SELL` that takes them is handled then, and
a `BUY` is not. -/
theorem survives_exhaustion_iff_sample :
    ∃ b : OrderBook .production, RunsTo (fun _ => 0) (fillers maxOrderIds) b ∧
      (∀ p, b.LiveOrder p) ∧
      SurvivesExhaustion (fun _ => 0) b ⟨1, 0, 0, .sell, Int64.minValue, 1⟩ ∧
      ¬ SurvivesExhaustion (fun _ => 0) b ⟨1, 0, 0, .buy, 100, 1⟩ := by
  obtain ⟨b, hrun, hfilled⟩ :=
    filled_fillers (B := .production) (n := maxOrderIds) (by decide) (Nat.le_refl _)
  have hfull := hfilled.full hrun
  refine ⟨b, hrun, hfull, ?_, ?_⟩
  · obtain ⟨best, p, hbest, hlevel, h0, hp⟩ := hfilled.exists_bid hrun (hfull ⟨0, by decide⟩)
    refine (survives_exhaustion_iff _ _ b hrun _).mpr (.inr (.inr ⟨best, p, ?_⟩))
    exact ⟨by decide, hbest, hlevel, h0, hp, decide_eq_false (Int64.not_lt.mpr (Int64.minValue_le _))⟩
  · rw [survives_exhaustion_iff _ _ b hrun]
    rintro (hzero | ⟨p, hp⟩ | ⟨best, p, hr⟩)
    · exact absurd hzero (by decide)
    · exact hp (hfull p)
    · exact absurd (hfilled.asks.symm.trans hr.opposite) (Option.some_ne_none best).symm

/-- One client rests as many orders as there are blocks; the first order of the next one is accepted
and then dereferenced as null. -/
theorem pool_exhausted :
    ¬ ∀ (stray : ℕ → Qty) (rs : List Request) (b : OrderBook .production) (taker : NewOrder),
      RunsTo stray rs b → InClientMap .production taker.clientId taker.clientOid →
        taker.side.Proper → SurvivesExhaustion stray b taker := by
  intro h
  obtain ⟨b, hrun, hfilled⟩ :=
    filled_fillers (B := .production) (n := maxOrderIds) (by decide) (Nat.le_refl _)
  obtain ⟨queue, hv⟩ := hrun.valid
  have hsurvives := h _ _ b ⟨1, 0, 0, .buy, 100, 1⟩ hrun (by decide) (.inl rfl)
  apply hsurvives.notNull
  refine (passesNull_iff hv (pools_wellFormed hrun)).mpr ⟨by decide, hfilled.full hrun, .inl ?_⟩
  exact hfilled.asks

end HftSys
