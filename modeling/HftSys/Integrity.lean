import HftSys.Sides

/-!
# Nothing is lost

The levels reached from the two best pointers are the levels in use, and the orders in their rings
the orders in use, each once (`NothingLost`). `nothing_lost` says that this holds throughout a run
as long as no `CANCEL` takes out an order that is alone in the best level of the other side; such an
order exists only where `addOrderToBook` has filed it by its price's slot under a level of the other
side.
-/

namespace HftSys

open Circular

variable {B : Build}

/-- The levels reached from the two best pointers. -/
def OrderBook.reachedLevels (b : OrderBook B) : List (LevelPtr B) :=
  b.levelsFrom b.bidsByPrice ++ b.levelsFrom b.asksByPrice

/-- The orders in the rings of the levels reached. -/
def OrderBook.reachedOrders (b : OrderBook B) : List OrderPtr :=
  b.reachedLevels.flatMap b.ordersOf

/-- What is reached is what is in use, once each. -/
structure NothingLost (b : OrderBook B) : Prop where
  levels_nodup : b.reachedLevels.Nodup
  mem_levels : ∀ l, l ∈ b.reachedLevels ↔ b.LiveLevel l
  mem_slots : ∀ l, l ∈ b.reachedLevels ↔ ∃ s, b.mapPriceToPriceLevel s = some l
  slots_inj : ∀ s s' l, b.mapPriceToPriceLevel s = some l → b.mapPriceToPriceLevel s' = some l →
    s = s'
  orders_nodup : b.reachedOrders.Nodup
  mem_orders : ∀ p, p ∈ b.reachedOrders ↔ b.LiveOrder p

/-- A new order is a `BUY` or a `SELL`. -/
def ProperSides (rs : List Request) : Prop :=
  ∀ taker, Request.new taker ∈ rs → taker.side.Proper

/-- A `CANCEL` does not take out an order that is alone in the best level of the other side. -/
def CancelsSafely (b : OrderBook B) (r : CancelOrder) : Prop :=
  ∀ p l, b.mapClientIdToOrder r.clientId r.orderId = some p →
    b.getLevelForPrice (b.order p).price = some l → ¬ Orphans b p l

/-- The order is looked up once. -/
theorem cancelsSafely_iff (b : OrderBook B) (r : CancelOrder) :
    CancelsSafely b r ↔ ∀ p ∈ b.mapClientIdToOrder r.clientId r.orderId,
      ∀ l ∈ b.getLevelForPrice (b.order p).price, ¬ Orphans b p l :=
  ⟨fun h p hp l hl => h p l hp hl, fun h p l hp hl => h p hp l hl⟩

instance (b : OrderBook B) (r : CancelOrder) : Decidable (CancelsSafely b r) :=
  -- one entry and one slot are looked at, not every order block
  @decidable_of_iff' _ _ (cancelsSafely_iff b r)
    (@Option.decidableForallMem _ _ (fun _ => Option.decidableForallMem _) _)

/-- The request leaves both best pointers on levels in use. -/
def KeepsBest (b : OrderBook B) : Request → Prop
  | .new taker => taker.side.Proper
  | .cancel r => CancelsSafely b r

instance (b : OrderBook B) (r : Request) : Decidable (KeepsBest b r) :=
  match r with
  | .new taker => inferInstanceAs (Decidable taker.side.Proper)
  | .cancel r => inferInstanceAs (Decidable (CancelsSafely b r))

/-- A book with two sides and no other. -/
def HasSides (b : OrderBook B) : Prop := (∃ ring, TwoSided b ring) ∧ ProperOrders b

section steps

variable {stray : ℕ → Qty} {b b' b₁ : OrderBook B} {queue : Queues B} {taker : NewOrder}
  {p : OrderPtr} {o : Order} {ring : Side → List (LevelPtr B)}

theorem twoSided_create (B : Build) : TwoSided (OrderBook.create B) fun _ => [] where
  isRing _ _ := Links.isRing_nil
  head s _ := by
    unfold OrderBook.bestOf
    split <;> rfl
  live s _ l hl := by simp at hl
  side s _ l hl := by simp at hl
  mem l hl := absurd hl (not_liveLevel_create l)

theorem properOrders_create (B : Build) : ProperOrders (OrderBook.create B) :=
  fun p hp => absurd hp (not_liveOrder_create p)

/-- The rings after a remainder has been filed: as they were, or with one more level. -/
theorem TwoSided.files (h : TwoSided b ring) (hf : Files b b' queue p o) (hs : o.side.Proper) :
    TwoSided b' ring ∧ (∃ l, b.getLevelForPrice o.price = some l) ∨
      ∃ n best', Opened b b' p o.side o.price n best' ∧
        TwoSided b' (Function.update ring o.side
          (ringWith (fun z => addsAfter o.side o.price (b'.level z).price)
            (fun z => becomesBest o.side o.price (b'.level z).price) n (ring o.side))) := by
  obtain ⟨-, ⟨l, ha⟩ | ⟨n, best', ho⟩⟩ := hf
  · exact .inl ⟨h.congr ha.levels ha.bids ha.asks, l, ha.slot⟩
  · exact .inr ⟨n, best', ho, h.opened ho hs⟩

/-- A filed order is as proper as the request. -/
theorem ProperOrders.files (h : ProperOrders b) (hf : Files b b' queue p o) (hs : o.side.Proper) :
    ProperOrders b' := by
  exact hf.1.forall_live (P := fun o => o.side.Proper) hs h

theorem ProperOrders.cancel (h : ProperOrders b) (r : CancelOrder) (p : OrderPtr)
    (l : LevelPtr B) : ProperOrders (b.cancel r p l) := by
  intro q hq
  exact b.forall_live_detach p q l (P := fun o => o.side.Proper) h hq

theorem TwoSided.cancel {r : CancelOrder} {l : LevelPtr B} (h : TwoSided b ring)
    (hproper : ProperOrders b) (hv : Valid b queue) (hf : Finds b r p l)
    (hsafe : ¬ Orphans b p l) : TwoSided (b.cancel r p l) (b.ringsWithout ring p l) :=
  (h.detach hv.toSound hf.slot (hproper p hf.live) hsafe).congr rfl rfl rfl

/-- **A request that keeps the best pointers keeps the sides.** -/
theorem HasSides.request {r : Request} (h : HasSides b) (hv : Valid b queue) (hk : KeepsBest b r)
    (hreq : handleRequest stray r b = .ok () b') : HasSides b' := by
  obtain ⟨⟨ring, htwo⟩, hproper⟩ := h
  cases r with
  | new taker =>
    obtain ⟨b₁, hs, htail⟩ := addOrder_ok hreq
    obtain ⟨ring₁, hd⟩ := htwo.sweeps hproper hv hs
    rcases htail with ⟨-, rfl⟩ | ⟨hqty, hrest⟩
    · exact ⟨⟨ring₁, hd.twoSided⟩, hd.proper⟩
    · obtain ⟨queue₁, hv₁⟩ := hs.valid (hv.accept taker)
      obtain ⟨p, o, b₂, hr⟩ := rests_of_restOrder hv₁.toSound hrest
      have hside : o.side.Proper := by
        rw [hr.order]
        exact hk
      rw [hr.book]
      refine ⟨?_, (hd.proper.files hr.files hside : ProperOrders b₂)⟩
      rcases hd.twoSided.files hr.files hside with ⟨htwo', -⟩ | ⟨n, best', -, htwo'⟩
      · exact ⟨_, htwo'.congr rfl rfl rfl⟩
      · exact ⟨_, htwo'.congr rfl rfl rfl⟩
  | cancel r =>
    rcases cancelOrder_ok hv.toSound hreq with ⟨rfl, -⟩ | ⟨p, l, hf, rfl⟩
    · exact ⟨⟨ring, htwo.congr rfl rfl rfl⟩, hproper⟩
    · exact ⟨⟨_, htwo.cancel hproper hv hf (hk p l hf.entry hf.slot)⟩, hproper.cancel r p l⟩

end steps

/-! ## Nothing is lost -/

section reached

variable {b : OrderBook B} {queue : Queues B} {ring : Side → List (LevelPtr B)} {l : LevelPtr B}

/-- The levels reached are those of the two rings. -/
theorem TwoSided.reachedLevels_eq (h : TwoSided b ring) :
    b.reachedLevels = ring .buy ++ ring .sell := by
  rw [← h.levelsFrom_eq (.inl rfl), ← h.levelsFrom_eq (.inr rfl)]
  rfl

theorem TwoSided.mem_reachedLevels (h : TwoSided b ring) : l ∈ b.reachedLevels ↔ b.LiveLevel l := by
  rw [h.reachedLevels_eq, List.mem_append]
  constructor
  · rintro (hl | hl)
    · exact h.live _ (.inl rfl) l hl
    · exact h.live _ (.inr rfl) l hl
  · intro hl
    obtain ⟨hs, hlmem⟩ := h.mem l hl
    rcases hs with hs | hs
    · rw [hs] at hlmem
      exact .inl hlmem
    · rw [hs] at hlmem
      exact .inr hlmem

theorem TwoSided.nodup_reachedLevels (h : TwoSided b ring) : b.reachedLevels.Nodup := by
  rw [h.reachedLevels_eq]
  apply List.Nodup.append (h.isRing _ (.inl rfl)).nodup (h.isRing _ (.inr rfl)).nodup
  intro l hl hl'
  exact h.disjoint (.inl rfl) (.inr rfl) (by decide) hl hl'

/-- The orders reached through a level are those of its slot. -/
theorem TwoSided.ordersOf_reached (h : TwoSided b ring) (hv : Valid b queue)
    (hl : l ∈ b.reachedLevels) : b.ordersOf l = queue (slotOf B (b.level l).price) :=
  hv.ordersOf_eq (hv.slot_of_live (h.mem_reachedLevels.mp hl))

/-- On a book with two sides nothing is lost. -/
theorem HasSides.nothingLost (h : HasSides b) (hv : Valid b queue) : NothingLost b := by
  obtain ⟨⟨ring, htwo⟩, -⟩ := h
  have hnodup := htwo.nodup_reachedLevels
  constructor
  · exact hnodup
  · exact fun l => htwo.mem_reachedLevels
  · intro l
    rw [htwo.mem_reachedLevels, hv.liveLevel_iff]
  · exact fun s s' l hl hl' => hv.slot_inj hl hl'
  · -- the rings of two levels are the queues of two slots
    refine List.nodup_flatMap.mpr ⟨?_, ?_⟩
    · intro l hl
      rw [htwo.ordersOf_reached hv hl]
      exact (hv.queue_ring _).nodup
    · apply hnodup.imp_of_mem
      intro l l' hl hl' hne p hp hp'
      rw [htwo.ordersOf_reached hv hl] at hp
      rw [htwo.ordersOf_reached hv hl'] at hp'
      exact hv.queue_disjoint
        (hv.slot_ne (htwo.mem_reachedLevels.mp hl) (htwo.mem_reachedLevels.mp hl') hne) hp hp'
  · intro p
    unfold OrderBook.reachedOrders
    rw [List.mem_flatMap]
    constructor
    · rintro ⟨l, hl, hp⟩
      rw [htwo.ordersOf_reached hv hl] at hp
      exact hv.live_of_mem hp
    · intro hp
      obtain ⟨l, hl⟩ := hv.exists_level hp
      have hlmem : l ∈ b.reachedLevels := htwo.mem_reachedLevels.mpr (hv.live_of_slot hl)
      refine ⟨l, hlmem, ?_⟩
      rw [htwo.ordersOf_reached hv hlmem, hv.slot_price _ l hl]
      exact hv.mem_queue_of_live hp

end reached

/-- A book keeps its two sides as long as both best pointers are kept. -/
theorem hasSides_throughout {stray : ℕ → Qty} {rs : List Request}
    (h : Meets (B := B) KeepsBest stray rs) : Throughout (B := B) HasSides stray rs :=
  h.invariant ⟨⟨_, twoSided_create B⟩, properOrders_create B⟩
    fun _ _ _ _ hv hb hk hreq => hb.request hv hk hreq

/-- **No order or level is lost** throughout a run of `BUY` and `SELL` orders in which no `CANCEL`
takes out an order that is alone in the best level of the other side. -/
theorem nothing_lost {stray : ℕ → Qty} {rs : List Request}
    (h : Meets (B := B) KeepsBest stray rs) : Throughout (B := B) NothingLost stray rs := by
  intro rs₀ rs₁ b₀ hrs hrun
  obtain ⟨queue, hv⟩ := hrun.valid
  exact (hasSides_throughout h rs₀ rs₁ b₀ hrs hrun).nothingLost hv

/-- Several levels on both sides, one of them with two orders, a match and a cancel. -/
theorem nothing_lost_sample :
    Throughout (B := .production) NothingLost (fun _ => 0) ladders ∧
      ∃ b : OrderBook .production, RunsTo (fun _ => 0) ladders b ∧
        b.quotesFrom b.asksByPrice = [(101, [5]), (102, [10])] ∧
        b.quotesFrom b.bidsByPrice = [(100, [4]), (99, [10]), (98, [10])] :=
  ⟨nothing_lost (meets_of_forall (by decide +kernel)), runsTo_ladders⟩

/-- A `SELL` filed under the level of a `BUY`, and both cancelled: the level is freed while the best
bid still designates it. -/
theorem level_left_dangling :
    ¬ ∀ (stray : ℕ → Qty) (rs : List Request) (b : OrderBook .production), ProperSides rs →
      RunsTo stray rs b → NothingLost b := by
  intro h
  have hlost := h (fun _ => 0)
    [.new ⟨1, 1, 0, .buy, 100, 10⟩, .new ⟨2, 1, 0, .sell, 356, 10⟩, .cancel ⟨1, 1, 0⟩,
      .cancel ⟨2, 1, 0⟩] _ ?_ (runsTo_bookAfter (by decide +kernel))
  · have hmem := (hlost.mem_levels ⟨0, by decide⟩).mp (by decide +kernel)
    exact absurd hmem (by decide +kernel)
  · intro taker htaker
    simp only [List.mem_cons, Request.new.injEq, List.not_mem_nil, or_false, reduceCtorEq,
      or_self] at htaker
    rcases htaker with rfl | rfl
    · exact .inl rfl
    · exact .inr rfl

end HftSys
