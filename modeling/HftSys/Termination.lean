import HftSys.Runs

/-!
# Matching terminates

The loop of `findMatch` has no counter. What ends it is that no order without a quantity ever rests
(`OrderBook.QtyPos`), so that every turn takes a unit or more out of the orders in use: `totalQty`
is the measure, and it bounds the `matchOrder` calls of a new order on any reachable book
(`matching_terminates`).

A turn may still find the best pointer on a freed level; then the loop ends in that fault.
-/

namespace HftSys

variable {B : Build} {stray : ℕ → Qty} {taker : NewOrder} {newMarketOid : OrderID}
  {qtyRemains : Qty} {b b₁ : OrderBook B} {queue : Queues B}

/-- One `matchOrder` call: it succeeds, fills a unit or more, and takes what it fills out of the
book. -/
structure TakesOut (stray : ℕ → Qty) (taker : NewOrder) (newMarketOid : OrderID) (qtyRemains : Qty)
    (p : OrderPtr) (b b₁ : OrderBook B) : Prop where
  run : matchOrder stray taker newMarketOid (some p) qtyRemains b = .ok () b₁
  fills : 1 ≤ (b.fillQty p qtyRemains).toNat
  total : b₁.totalQty + (b.fillQty p qtyRemains).toNat = b.totalQty

/-- The quantity in use falls with every call. -/
theorem TakesOut.totalQty_lt {p : OrderPtr}
    (h : TakesOut stray taker newMarketOid qtyRemains p b b₁) : b₁.totalQty < b.totalQty := by
  have hfills := h.fills
  have htotal := h.total
  omega

/-- A turn of the loop takes some quantity out, and leaves a valid book. -/
theorem Valid.takesOut (stray : ℕ → Qty) (newMarketOid : OrderID) (hv : Valid b queue)
    {p : OrderPtr}
    (hnext : nextMatch taker qtyRemains b = .ok (some p) b) :
    ∃ b₁ queue₁, TakesOut stray taker newMarketOid qtyRemains p b b₁ ∧ Valid b₁ queue₁ := by
  obtain ⟨-, best, hr⟩ := nextMatch_some hnext
  obtain ⟨hp, hslot, -⟩ := hv.head_of_level hr.liveLevel hr.order0
  refine ⟨_, _, ⟨matchOrder_eq hv.toSound stray taker newMarketOid qtyRemains hp hslot, ?_, ?_⟩,
    hv.matched stray taker newMarketOid qtyRemains hp hslot⟩
  · exact hv.qtyPos.fillQty_pos hp hr.qty
  · exact OrderBook.totalQty_matched stray taker newMarketOid best qtyRemains hp

/-- The loop calls `matchOrder` no more often than there are units in use, however long it is let
run. -/
theorem Valid.length_matchCalls_le (hv : Valid b queue) (fuel : ℕ) :
    (matchCalls stray taker newMarketOid qtyRemains fuel b).length ≤ b.totalQty := by
  induction fuel generalizing b queue with
  | zero => exact Nat.zero_le _
  | succ fuel ih =>
    unfold matchCalls
    split
    · rename_i p b₁ hnext
      obtain ⟨rfl, -⟩ := nextMatch_some hnext
      obtain ⟨b₂, queue₂, htakes, hv₂⟩ :=
        hv.takesOut stray newMarketOid hnext
      have hrest := ih hv₂
      have hless := htakes.totalQty_lt
      rw [List.length_cons, htakes.run]
      simp only []
      omega
    · exact Nat.zero_le _

/-- **Matching terminates.** On every reachable book every order in use has a quantity; for every
new order each `matchOrder` call fills a unit or more and takes it out of the quantity in use, there
are no more calls than units in use, and `findMatch` does not go round for ever. -/
theorem matching_terminates (stray : ℕ → Qty) (rs : List Request) (b : OrderBook B)
    (h : RunsTo stray rs b) :
    (∀ p, b.LiveOrder p → 1 ≤ (b.order p).qty.toNat) ∧
      ∀ taker : NewOrder,
        (∀ fuel, ∀ c ∈ matchCalls stray taker b.nextMarketOid taker.qty fuel (b.accept taker),
          ∃ b₁, TakesOut stray taker b.nextMarketOid taker.qty c.2 c.1 b₁) ∧
        (∀ fuel, (matchCalls stray taker b.nextMarketOid taker.qty fuel (b.accept taker)).length ≤
          b.totalQty) ∧
        ∀ b', findMatch stray taker b.nextMarketOid (b.accept taker) ≠ .error .diverges b' := by
  obtain ⟨queue, hv⟩ := h.valid
  refine ⟨?_, ?_⟩
  · intro p hp
    have hqty := hv.qtyPos p hp
    rw [Ne, ← UInt32.toNat_inj, UInt32.toNat_zero] at hqty
    omega
  · intro taker
    have hv' := hv.accept taker
    refine ⟨?_, fun fuel => hv'.length_matchCalls_le fuel,
      fun b' => findMatch_ne_diverges hv'⟩
    intro fuel c hc
    obtain ⟨hnext, queue', hc', -⟩ := matchCalls_carries (P := fun _ _ => True)
      (fun _ _ _ _ _ _ _ _ _ => trivial) hv' trivial hc
    obtain ⟨b₁, -, htakes, -⟩ := hc'.takesOut stray b.nextMarketOid hnext
    exact ⟨b₁, htakes⟩

/-- A resting order of ten units: there are no more calls than that. -/
theorem matching_terminates_sample :
    (matchCalls (fun _ => 0) ⟨2, 1, 0, .sell, 100, 4⟩
        (bookAfter .production (fun _ => 0) [.new ⟨1, 1, 0, .buy, 100, 10⟩]).nextMarketOid 4 100
        ((bookAfter .production (fun _ => 0) [.new ⟨1, 1, 0, .buy, 100, 10⟩]).accept
          ⟨2, 1, 0, .sell, 100, 4⟩)).length ≤
      (bookAfter .production (fun _ => 0) [.new ⟨1, 1, 0, .buy, 100, 10⟩]).totalQty := by
  have hrun : RunsTo (fun _ => 0) [.new ⟨1, 1, 0, .buy, 100, 10⟩]
      (bookAfter .production (fun _ => 0) [.new ⟨1, 1, 0, .buy, 100, 10⟩]) :=
    runsTo_bookAfter (by decide +kernel)
  exact ((matching_terminates _ _ _ hrun).2 ⟨2, 1, 0, .sell, 100, 4⟩).2.1 100

end HftSys
