import HftSys.Sweep

/-!
# Quantity conservation

Every fill takes from the resting order what it reports, but nothing from the incoming one:
`qtyRemains -= fillQty` moves the pointer. So an order that meets nothing keeps the law, and one
that meets anything rests with its whole quantity on top of what it has been filled for.

* `ConservesQty` is the law for one request, `Accounted` the one for the order id `m` in the log and
  the book.
* `Ledger b m surplus` balances the log and the book for `m` up to a surplus, which is what the new
  orders that were given the id `m` have been filled for while they were being matched.
* `quantity_conserved`: a request keeps the law exactly when it does not cross, and `m` is accounted
  for exactly when no new order of the run crossed as it was given the id `m`.
-/

namespace HftSys

open Exec

variable {B : Build}

/-! ## Quantities in the log and in the book -/

/-- What a call on the engine says about order `m`, in responses of type `t`, by member `f`. -/
def Emission.qtyOf (t : ResponseType) (f : OMEClientResponse → Qty) (m : OrderID) : Emission → ℕ
  | .response r => if r.type = t ∧ r.marketOrderId = m then (f r).toNat else 0
  | .update _ => 0

/-- The quantities order `m` was accepted with. -/
def acceptedQty (m : OrderID) (log : List Emission) : ℕ :=
  (log.map (Emission.qtyOf .accepted OMEClientResponse.qtyRemain m)).sum

/-- The quantities executed for order `m`. -/
def executedQty (m : OrderID) (log : List Emission) : ℕ :=
  (log.map (Emission.qtyOf .filled OMEClientResponse.qtyExec m)).sum

/-- The quantities of order `m` reported as cancelled. -/
def cancelledQty (m : OrderID) (log : List Emission) : ℕ :=
  (log.map (Emission.qtyOf .cancelled OMEClientResponse.qtyRemain m)).sum

/-- A quantity of order `m'`, counted for order `m`. -/
def countFor (m m' : OrderID) (qty : ℕ) : ℕ := if m' = m then qty else 0

/-- The quantity resting for order `m`. -/
def OrderBook.restingQty (b : OrderBook B) (m : OrderID) : ℕ :=
  ∑ p, countFor m (b.order p).marketOrderId (b.liveQty p)

/-- What has become of order `m`: executed, reported as cancelled, or resting. -/
def OrderBook.outcomeQty (b : OrderBook B) (m : OrderID) : ℕ :=
  executedQty m b.ome + cancelledQty m b.ome + b.restingQty m

/-- Order `m` is accounted for. -/
def Accounted (b : OrderBook B) (m : OrderID) : Prop := acceptedQty m b.ome = b.outcomeQty m

/-! ## One request -/

/-- The quantities of the `matchOrder` calls made for a new order. -/
def fills (stray : ℕ → Qty) (taker : NewOrder) (b : OrderBook B) : List ℕ :=
  (newOrderCalls stray taker b).map fun c => (c.1.fillQty c.2 taker.qty).toNat

/-- The law for one new order: what is filled is taken from the quantity that is returned, put to
rest, and reported. -/
structure ConservesQty (stray : ℕ → Qty) (taker : NewOrder) (b : OrderBook B) : Prop where
  filled_le : (fills stray taker b).sum ≤ taker.qty.toNat
  returned : ∀ r b₁, findMatch stray taker b.nextMarketOid (b.accept taker) = .ok r b₁ →
    r.toNat = taker.qty.toNat - (fills stray taker b).sum
  rested : ∀ r b₁ b', findMatch stray taker b.nextMarketOid (b.accept taker) = .ok r b₁ →
    addOrder stray taker b = .ok () b' → ∀ p, b'.LiveOrder p → ¬ b₁.LiveOrder p →
    (b'.order p).qty.toNat = taker.qty.toNat - (fills stray taker b).sum
  /-- The first response of the `k`-th call is the incoming order's. -/
  reported : ∀ k c b₁ r, (newOrderCalls stray taker b)[k]? = some c →
    matchOrder stray taker b.nextMarketOid (some c.2) taker.qty c.1 = .ok () b₁ →
    b₁.ome[c.1.ome.length]? = some (.response r) →
    r.qtyRemain.toNat = taker.qty.toNat - ((fills stray taker b).take (k + 1)).sum

/-- The new order reaches the first order of the other side's best level. -/
def Crosses (b : OrderBook B) (taker : NewOrder) : Prop :=
  ∃ best p, Reaches b taker taker.qty best p

instance (b : OrderBook B) (taker : NewOrder) : Decidable (Crosses b taker) :=
  match hbest : b.opposite taker.side with
  | none => isFalse (by
      rintro ⟨best, p, hr⟩
      rw [hr.opposite] at hbest
      cases hbest)
  | some best =>
    match hfirst : (b.level best).order0 with
    | none => isFalse (by
        rintro ⟨best', p, hr⟩
        obtain rfl : best' = best := Option.some.inj (hr.opposite.symm.trans hbest)
        rw [hr.order0] at hfirst
        cases hfirst)
    | some p => decidable_of_iff
        (taker.qty ≠ 0 ∧ b.LiveLevel best ∧ b.LiveOrder p ∧
          misses taker.side taker.price (b.order p).price = false) (by
        constructor
        · rintro ⟨hqty, hlevel, hlive, hprice⟩
          exact ⟨best, p, hqty, hbest, hlevel, hfirst, hlive, hprice⟩
        · rintro ⟨best', p', hr⟩
          obtain rfl : best' = best := Option.some.inj (hr.opposite.symm.trans hbest)
          obtain rfl : p' = p := Option.some.inj (hr.order0.symm.trans hfirst)
          exact ⟨hr.qty, hr.liveLevel, hr.live, hr.price⟩)

/-- A new order that is given the id `m` does not cross. -/
def RestsWhole (m : OrderID) (b : OrderBook B) : Request → Prop
  | .new taker => b.nextMarketOid = m → ¬ Crosses b taker
  | .cancel _ => True

instance (m : OrderID) (b : OrderBook B) (r : Request) : Decidable (RestsWhole m b r) :=
  match r with
  | .new taker => inferInstanceAs (Decidable (b.nextMarketOid = m → ¬ Crosses b taker))
  | .cancel _ => isTrue trivial

/-! ## The balance of a step -/

/-- The log and the book balance for `m` but for a surplus. -/
def Ledger (b : OrderBook B) (m : OrderID) (surplus : ℕ) : Prop :=
  b.outcomeQty m = acceptedQty m b.ome + surplus

theorem countFor_zero (m m' : OrderID) : countFor m m' 0 = 0 := ite_self 0

theorem countFor_add (m m' : OrderID) (x y : ℕ) :
    countFor m m' (x + y) = countFor m m' x + countFor m m' y := by
  unfold countFor
  split <;> rfl

section logs

variable (m : OrderID) (log log' : List Emission)

@[simp] theorem acceptedQty_append :
    acceptedQty m (log ++ log') = acceptedQty m log + acceptedQty m log' := by
  simp [acceptedQty]

@[simp] theorem executedQty_append :
    executedQty m (log ++ log') = executedQty m log + executedQty m log' := by
  simp [executedQty]

@[simp] theorem cancelledQty_append :
    cancelledQty m (log ++ log') = cancelledQty m log + cancelledQty m log' := by
  simp [cancelledQty]

end logs

section steps

variable {stray : ℕ → Qty} {taker : NewOrder} {newMarketOid m : OrderID} {surplus : ℕ}
  {b b' b₁ : OrderBook B} {queue : Queues B} {p : OrderPtr} {o : Order} {best : LevelPtr B}

theorem ledger_create (B : Build) (m : OrderID) : Ledger (OrderBook.create B) m 0 := by
  have hrest : (OrderBook.create B).restingQty m = 0 := by
    apply Finset.sum_eq_zero
    intro p _
    rw [OrderBook.liveQty_of_not_live (not_liveOrder_create p), countFor_zero]
  rw [Ledger, OrderBook.outcomeQty, hrest]
  rfl

theorem Ledger.accounted_iff (h : Ledger b m surplus) : Accounted b m ↔ surplus = 0 := by
  unfold Ledger at h
  unfold Accounted
  omega

/-! ### Matching -/

/-- What one `matchOrder` call says about order `m`. -/
theorem log_matched (stray : ℕ → Qty) (taker : NewOrder) (newMarketOid m : OrderID) (p : OrderPtr)
    (qtyRemains : Qty) :
    acceptedQty m (b.matchLog stray taker newMarketOid p qtyRemains) = 0 ∧
      cancelledQty m (b.matchLog stray taker newMarketOid p qtyRemains) = 0 ∧
      executedQty m (b.matchLog stray taker newMarketOid p qtyRemains) =
        countFor m newMarketOid (b.fillQty p qtyRemains).toNat +
          countFor m (b.order p).marketOrderId (b.fillQty p qtyRemains).toNat := by
  unfold OrderBook.matchLog matchEvents
  refine ⟨?_, ?_, ?_⟩
  · split <;> simp [acceptedQty, Emission.qtyOf]
  · split <;> simp [cancelledQty, Emission.qtyOf]
  · split <;> simp [executedQty, Emission.qtyOf, countFor, OrderBook.orderAfter]

/-- One `matchOrder` call takes what it fills from the resting order. -/
theorem restingQty_matched (stray : ℕ → Qty) (taker : NewOrder) (newMarketOid m : OrderID)
    (best : LevelPtr B) (hp : b.LiveOrder p) (qtyRemains : Qty) :
    (b.matched stray taker newMarketOid p best qtyRemains).restingQty m +
      countFor m (b.order p).marketOrderId (b.fillQty p qtyRemains).toNat = b.restingQty m := by
  refine Sums.sum_add_of_eq_off (i := p) ?_ ?_
  · intro q hq
    rw [OrderBook.marketOrderId_matched, b.liveQty_matched_of_ne _ _ _ _ _ hq]
  · rw [OrderBook.marketOrderId_matched, ← countFor_add,
      OrderBook.liveQty_matched_self _ _ _ _ _ hp]

/-- The loop: the incoming order is filled for what the resting ones lose, and for that much
again. -/
theorem Fills.outcomeQty {calls : List (OrderBook B × OrderPtr)}
    (h : Fills stray taker newMarketOid taker.qty b calls b₁) (hv : Valid b queue) (m : OrderID) :
    acceptedQty m b₁.ome = acceptedQty m b.ome ∧
      b₁.outcomeQty m = b.outcomeQty m + countFor m newMarketOid
        (calls.map fun c => (c.1.fillQty c.2 taker.qty).toNat).sum := by
  induction h generalizing queue with
  | done =>
    rw [List.map_nil, List.sum_nil, countFor_zero]
    exact ⟨rfl, (Nat.add_zero _).symm⟩
  | @step b b₁ b' p calls hnext hmatch _ ih =>
    obtain ⟨best, hr, hslot, -, rfl⟩ := hv.turn hnext hmatch
    obtain ⟨hacc', hout'⟩ := ih (hv.matched stray taker newMarketOid taker.qty hr.live hslot)
    obtain ⟨hacc, hcan, hexe⟩ := log_matched (b := b) stray taker newMarketOid m p taker.qty
    have hrest := restingQty_matched stray taker newMarketOid m best hr.live taker.qty
    have hturn : (b.matched stray taker newMarketOid p best taker.qty).outcomeQty m =
        b.outcomeQty m + countFor m newMarketOid (b.fillQty p taker.qty).toNat := by
      unfold OrderBook.outcomeQty
      rw [OrderBook.ome_matched, executedQty_append, cancelledQty_append, hcan, hexe]
      omega
    rw [OrderBook.ome_matched, acceptedQty_append, hacc, Nat.add_zero] at hacc'
    refine ⟨hacc', ?_⟩
    rw [hout', hturn, Nat.add_assoc, ← countFor_add, List.map_cons, List.sum_cons]

/-! ### The other steps -/

/-- The acceptance of a new order. -/
theorem acceptedQty_accept (b : OrderBook B) (taker : NewOrder) (m : OrderID) :
    acceptedQty m (b.accept taker).ome =
      acceptedQty m b.ome + countFor m b.nextMarketOid taker.qty.toNat := by
  show acceptedQty m (b.ome ++ _) = _
  rw [acceptedQty_append]
  simp [acceptedQty, Emission.qtyOf, NewOrder.acceptance, countFor]

theorem outcomeQty_accept (b : OrderBook B) (taker : NewOrder) (m : OrderID) :
    (b.accept taker).outcomeQty m = b.outcomeQty m := by
  show executedQty m (b.ome ++ _) + cancelledQty m (b.ome ++ _) + b.restingQty m = _
  rw [executedQty_append, cancelledQty_append]
  simp [executedQty, cancelledQty, Emission.qtyOf, NewOrder.acceptance, OrderBook.outcomeQty]

/-- A remainder put to rest. -/
theorem Rests.outcomeQty (hr : Rests b b' queue taker newMarketOid p o b₁) (m : OrderID) :
    acceptedQty m b'.ome = acceptedQty m b.ome ∧
      b'.outcomeQty m = b.outcomeQty m + countFor m newMarketOid taker.qty.toNat := by
  have hf := hr.files.1
  have ho : o.marketOrderId = newMarketOid ∧ o.qty = taker.qty := by
    rw [hr.order]
    exact ⟨rfl, rfl⟩
  have hrest : b.restingQty m + countFor m newMarketOid taker.qty.toNat = b₁.restingQty m := by
    refine Sums.sum_add_of_eq_off (i := p) ?_ ?_
    · intro q hq
      have hlive : b₁.LiveOrder q ↔ b.LiveOrder q := by
        simp [hf.liveOrder, hq]
      rw [OrderBook.marketOrderId_of_data (hf.data_of_ne q hq)]
      by_cases hq' : b.LiveOrder q
      · rw [OrderBook.liveQty_of_live hq', OrderBook.liveQty_of_live (hlive.mpr hq'),
          OrderBook.qty_of_data (hf.data_of_ne q hq)]
      · rw [OrderBook.liveQty_of_not_live hq',
          OrderBook.liveQty_of_not_live fun h => hq' (hlive.mp h)]
    · rw [OrderBook.liveQty_of_not_live hf.fresh, countFor_zero,
        OrderBook.liveQty_of_live ((hf.liveOrder p).mpr (.inl rfl)), hf.qty_self,
        hf.marketOrderId_self, ho.1, ho.2, Nat.zero_add]
  rw [hr.book]
  have hlog : b₁.ome = b.ome := hf.ome
  constructor
  · show acceptedQty m (b₁.ome ++ _) = _
    rw [acceptedQty_append, hlog]
    simp [acceptedQty, Emission.qtyOf]
  · show executedQty m (b₁.ome ++ _) + cancelledQty m (b₁.ome ++ _) + b₁.restingQty m = _
    rw [executedQty_append, cancelledQty_append, hlog, ← hrest, OrderBook.outcomeQty]
    simp [executedQty, cancelledQty, Emission.qtyOf]
    omega

/-- An order cancelled. -/
theorem outcomeQty_cancel (r : CancelOrder) (l : LevelPtr B) (hp : b.LiveOrder p) (m : OrderID) :
    acceptedQty m (b.cancel r p l).ome = acceptedQty m b.ome ∧
      (b.cancel r p l).outcomeQty m = b.outcomeQty m := by
  have hrest : (b.detach p l).restingQty m +
      countFor m (b.order p).marketOrderId (b.order p).qty.toNat = b.restingQty m := by
    refine Sums.sum_add_of_eq_off (i := p) ?_ ?_
    · intro q hq
      have hdata := b.data_detach p q l
      have hlive : (b.detach p l).LiveOrder q ↔ b.LiveOrder q := by
        simp [OrderBook.liveOrder_detach, hq]
      rw [OrderBook.marketOrderId_of_data hdata]
      by_cases hq' : b.LiveOrder q
      · rw [OrderBook.liveQty_of_live hq', OrderBook.liveQty_of_live (hlive.mpr hq'),
          OrderBook.qty_of_data hdata]
      · rw [OrderBook.liveQty_of_not_live hq',
          OrderBook.liveQty_of_not_live fun h => hq' (hlive.mp h)]
    · have hgone : ¬ (b.detach p l).LiveOrder p := by
        rw [OrderBook.liveOrder_detach]
        exact fun h => h.2 rfl
      rw [OrderBook.liveQty_of_not_live hgone, countFor_zero, OrderBook.liveQty_of_live hp,
        Nat.zero_add]
  constructor
  · show acceptedQty m (b.ome ++ _) = _
    rw [acceptedQty_append]
    simp [acceptedQty, Emission.qtyOf, CancelOrder.events]
  · show executedQty m (b.ome ++ _) + cancelledQty m (b.ome ++ _) + (b.detach p l).restingQty m = _
    have hcancelled : cancelledQty m (r.events (b.order p)) =
        countFor m (b.order p).marketOrderId (b.order p).qty.toNat := by
      simp [cancelledQty, Emission.qtyOf, CancelOrder.events, countFor]
    have hexecuted : executedQty m (r.events (b.order p)) = 0 := by
      simp [executedQty, Emission.qtyOf, CancelOrder.events]
    rw [executedQty_append, cancelledQty_append, hcancelled, hexecuted, OrderBook.outcomeQty]
    omega

/-- A cancel rejected. -/
theorem outcomeQty_reject (b : OrderBook B) (r : CancelOrder) (m : OrderID) :
    acceptedQty m (b.reject r).ome = acceptedQty m b.ome ∧
      (b.reject r).outcomeQty m = b.outcomeQty m := by
  constructor
  · show acceptedQty m (b.ome ++ _) = _
    rw [acceptedQty_append]
    simp [acceptedQty, Emission.qtyOf, CancelOrder.rejection]
  · show executedQty m (b.ome ++ _) + cancelledQty m (b.ome ++ _) + b.restingQty m = _
    rw [executedQty_append, cancelledQty_append]
    simp [executedQty, cancelledQty, Emission.qtyOf, CancelOrder.rejection, OrderBook.outcomeQty]

/-! ## The law for one request -/

/-- A new order that does not cross is not matched, one that does is filled for something. -/
theorem crosses_cases (hs : Sweeps stray taker b b₁) (hpos : b.QtyPos) :
    ¬ Crosses b taker ∧ newOrderCalls stray taker b = [] ∧ b₁ = b.accept taker ∨
      Crosses b taker ∧ 0 < (fills stray taker b).sum := by
  unfold Sweeps at hs
  unfold fills
  generalize newOrderCalls stray taker b = calls at hs ⊢
  cases hs with
  | done hnext =>
    refine .inl ⟨?_, rfl, rfl⟩
    rintro ⟨best, p, hr⟩
    have hr' : Reaches (b.accept taker) taker taker.qty best p :=
      ⟨hr.qty, hr.opposite, hr.liveLevel, hr.order0, hr.live, hr.price⟩
    rw [hr'.next] at hnext
    cases hnext
  | @step _ _ _ p calls hnext _ _ =>
    obtain ⟨-, best, hr⟩ := nextMatch_some hnext
    refine .inr ⟨⟨best, p, hr.qty, hr.opposite, hr.liveLevel, hr.order0, hr.live, hr.price⟩, ?_⟩
    have hfill : 0 < ((b.accept taker).fillQty p taker.qty).toNat := hpos.fillQty_pos hr.live hr.qty
    rw [List.map_cons, List.sum_cons]
    exact Nat.add_pos_left hfill _

/-- `findMatch` taken apart. -/
theorem findMatch_ok {r : Qty}
    (h : findMatch stray taker b.nextMarketOid (b.accept taker) = .ok r b₁) :
    r = taker.qty ∧ Sweeps stray taker b b₁ :=
  matchLoop_ok h

/-- **A request keeps the law exactly when it does not cross.** -/
theorem conservesQty_iff {r : Qty} (hv : Valid b queue)
    (h : findMatch stray taker b.nextMarketOid (b.accept taker) = .ok r b₁) :
    ConservesQty stray taker b ↔ ¬ Crosses b taker := by
  obtain ⟨hr, hs⟩ := findMatch_ok h
  constructor
  · rintro hlaw hcross
    rcases crosses_cases hs hv.qtyPos with ⟨hnot, -⟩ | ⟨-, hpos⟩
    · exact hnot hcross
    · -- the whole quantity is returned, although something has been filled
      have hle := hlaw.filled_le
      have hreturned := hlaw.returned r b₁ h
      rw [hr] at hreturned
      omega
  · intro hnot
    have hquiet : ∀ b₂, Sweeps stray taker b b₂ →
        newOrderCalls stray taker b = [] ∧ b₂ = b.accept taker := by
      intro b₂ hs₂
      rcases crosses_cases hs₂ hv.qtyPos with ⟨-, hcalls, hb₂⟩ | ⟨hcross, -⟩
      · exact ⟨hcalls, hb₂⟩
      · exact absurd hcross hnot
    have hcalls := (hquiet b₁ hs).1
    have hfills : fills stray taker b = [] := by
      rw [fills, hcalls]
      rfl
    constructor
    · rw [hfills]
      exact Nat.zero_le _
    · intro r' b₂ hfind
      rw [(findMatch_ok hfind).1, hfills]
      rfl
    · intro r' b₂ b' hfind hadd p hp hfree
      rw [(hquiet b₂ (findMatch_ok hfind).2).2] at hfree
      rw [hfills]
      obtain ⟨b₃, hs₃, htail⟩ := addOrder_ok hadd
      rw [(hquiet b₃ hs₃).2] at htail
      rcases htail with ⟨-, rfl⟩ | ⟨-, hrest⟩
      · exact absurd hp hfree
      · obtain ⟨p', o, b₄, hrests⟩ := rests_of_restOrder (hv.accept taker).toSound hrest
        have hf := hrests.files.1
        rw [hrests.book] at hp ⊢
        obtain rfl := ((hf.liveOrder p).mp hp).resolve_right hfree
        show (b₄.order p).qty.toNat = _
        rw [hf.qty_self, hrests.order]
        rfl
    · intro k c b₂ r' hc
      rw [hcalls] at hc
      cases hc

/-! ## Runs -/

/-- A new order leaves a surplus of what it has been filled for. -/
theorem Ledger.new (hl : Ledger b m surplus) (hv : Valid b queue)
    (hreq : handleRequest stray (.new taker) b = .ok () b') :
    Ledger b' m (surplus + countFor m b.nextMarketOid (fills stray taker b).sum) := by
  obtain ⟨b₁, hs, htail⟩ := addOrder_ok hreq
  obtain ⟨hacc, hout⟩ := Fills.outcomeQty hs (hv.accept taker) m
  rw [acceptedQty_accept] at hacc
  rw [outcomeQty_accept] at hout
  unfold Ledger at hl ⊢
  rcases htail with ⟨hqty, rfl⟩ | ⟨-, hrest⟩
  · rw [hqty, UInt32.toNat_zero, countFor_zero] at hacc
    rw [hout, hacc, hl, fills]
    omega
  · obtain ⟨queue₁, hv₁⟩ := hs.valid (hv.accept taker)
    obtain ⟨p, o, b₂, hr⟩ := rests_of_restOrder hv₁.toSound hrest
    obtain ⟨hacc', hout'⟩ := hr.outcomeQty m
    rw [hout', hacc', hout, hacc, hl, fills]
    omega

theorem Ledger.cancelled {r : CancelOrder} (hl : Ledger b m surplus) (hv : Valid b queue)
    (hreq : handleRequest stray (.cancel r) b = .ok () b') : Ledger b' m surplus := by
  unfold Ledger at hl ⊢
  rcases cancelOrder_ok hv.toSound hreq with ⟨rfl, -⟩ | ⟨p, l, hf, rfl⟩
  · obtain ⟨hacc, hout⟩ := outcomeQty_reject b r m
    rw [hout, hacc, hl]
  · obtain ⟨hacc, hout⟩ := outcomeQty_cancel r l hf.live m
    rw [hout, hacc, hl]

/-- **The surplus of a run** is zero exactly when no new order crossed as it was given the id. -/
theorem RunsTo.ledger {rs : List Request} (h : RunsTo stray rs b) (m : OrderID) :
    ∃ surplus, Ledger b m surplus ∧ (surplus = 0 ↔ Meets (B := B) (RestsWhole m) stray rs) := by
  refine (runsOf_book B stray).induction (P := fun rs b => ∃ surplus, Ledger b m surplus ∧
    (surplus = 0 ↔ Meets (B := B) (RestsWhole m) stray rs)) ?_ ?_ h
  · exact ⟨0, ledger_create B m, fun _ => Runs.Meets.nil _ _, fun _ => rfl⟩
  · rintro rs r b b' hrun ⟨surplus, hl, hsurplus⟩ hreq
    obtain ⟨queue, hv⟩ := hrun.valid
    -- the run before the request reaches no other book
    have hlast : Meets (B := B) (RestsWhole m) stray (rs ++ [r]) ↔ surplus = 0 ∧ RestsWhole m b r := by
      rw [hsurplus]
      refine Runs.Meets.concat_iff.trans (and_congr_right fun _ => ?_)
      exact ⟨fun h => h b hrun, fun h b₀ hb₀ => hb₀.unique hrun ▸ h⟩
    rw [hlast]
    cases r with
    | cancel r => exact ⟨surplus, hl.cancelled hv hreq, by simp [RestsWhole]⟩
    | new taker =>
      refine ⟨_, hl.new hv hreq, ?_⟩
      obtain ⟨b₁, hs, -⟩ := addOrder_ok hreq
      show _ ↔ surplus = 0 ∧ (b.nextMarketOid = m → ¬ Crosses b taker)
      rw [Nat.add_eq_zero_iff, countFor]
      rcases crosses_cases hs hv.qtyPos with ⟨hnot, hcalls, -⟩ | ⟨hcross, hpos⟩
      · have hsum : (fills stray taker b).sum = 0 := by
          rw [fills, hcalls]
          rfl
        simp [hsum, hnot]
      · have hne : (fills stray taker b).sum ≠ 0 := by omega
        simp [hne, hcross]

end steps

/-! ## The ledger of a run -/

/-- **Quantity conservation**: on every book a run reaches, the matching of a new order keeps the
law exactly when the order does not reach the first order of the other side's best level; and an
order id is accounted for exactly when no new order of the run that was given it did. -/
theorem quantity_conserved {stray : ℕ → Qty} {rs : List Request} {b : OrderBook B}
    (h : RunsTo stray rs b) :
    (∀ taker r b₁, taker.side.Proper →
        findMatch stray taker b.nextMarketOid (b.accept taker) = .ok r b₁ →
        (ConservesQty stray taker b ↔ ¬ Crosses b taker)) ∧
      ∀ m, Accounted b m ↔ Meets (B := B) (RestsWhole m) stray rs := by
  obtain ⟨queue, hv⟩ := h.valid
  refine ⟨fun taker r b₁ _ hfind => conservesQty_iff hv hfind, ?_⟩
  intro m
  obtain ⟨surplus, hl, hsurplus⟩ := h.ledger m
  exact hl.accounted_iff.trans hsurplus

/-- In `ladders` the `BUY` of 4, order 7, takes the `SELL` of 10, order 3, in parts of 4, 4 and 2,
and rests with 4: of the two only the `SELL` is accounted for. A `BUY` of 3 that comes next and does
not cross keeps the law. -/
theorem quantity_conserved_sample :
    ∃ b : OrderBook .production, RunsTo (fun _ => 0) ladders b ∧
      executedQty 3 b.ome = 10 ∧ Accounted b 3 ∧ executedQty 7 b.ome = 10 ∧ ¬ Accounted b 7 ∧
      ConservesQty (fun _ => 0) ⟨5, 1, 0, .buy, 100, 3⟩ b := by
  have hrun : RunsTo (fun _ => 0) ladders (bookAfter .production (fun _ => 0) ladders) :=
    runsTo_bookAfter (by decide +kernel)
  obtain ⟨hlaw, haccounted⟩ := quantity_conserved hrun
  refine ⟨_, hrun, by decide +kernel, (haccounted 3).mpr (meets_of_forall (by decide +kernel)),
    by decide +kernel, fun h => ?_, ?_⟩
  · -- The seventh request is the `BUY`.
    have hcond := (haccounted 7).mp h (ladders.take 6) (.new ⟨4, 1, 0, .buy, 100, 4⟩)
      (ladders.drop 7) _ rfl (runsTo_bookAfter (by decide +kernel))
    exact absurd hcond (by decide +kernel)
  · have hfinds : (match findMatch (fun _ => 0) ⟨5, 1, 0, .buy, 100, 3⟩
        (bookAfter .production (fun _ => 0) ladders).nextMarketOid
        ((bookAfter .production (fun _ => 0) ladders).accept ⟨5, 1, 0, .buy, 100, 3⟩) with
        | .ok r _ => decide (r = 3)
        | .error _ _ => false) = true := by
      decide +kernel
    split at hfinds
    · rename_i r b₁ hfind
      exact (hlaw _ r b₁ (.inl rfl) hfind).mpr (by decide +kernel)
    · cases hfinds

/-- A `BUY` of 10 against two `SELL`s of 10: it is filled for 20, and 10 are left to rest. -/
theorem filled_twice :
    ¬ ∀ (stray : ℕ → Qty) (rs : List Request) (b : OrderBook .production) (taker : NewOrder)
      (b' : OrderBook .production), RunsTo stray rs b → taker.side.Proper →
      addOrder stray taker b = .ok () b' →
      ConservesQty stray taker b ∧ ∀ m, Accounted b' m := by
  intro h
  have hrun : RunsTo (fun _ => 0)
      ([.new ⟨1, 1, 0, .sell, 100, 10⟩, .new ⟨2, 1, 0, .sell, 100, 10⟩] ++
        [.new ⟨3, 1, 0, .buy, 100, 10⟩]) (bookAfter .production _ _) :=
    runsTo_bookAfter (by decide +kernel)
  obtain ⟨b, hrun₀, hreq⟩ := runsTo_concat.mp hrun
  have hlaw := h _ _ b _ _ hrun₀ (.inl rfl) hreq
  rw [hrun₀.unique (runsTo_bookAfter (by decide +kernel))] at hlaw
  exact absurd hlaw.1.filled_le (by decide +kernel)

end HftSys
