import HftSys.Conservation
import HftSys.Lib.Ladder

/-!
# The executions of a new order

Since the incoming quantity never goes down, the executions of a new order are known before the loop
starts: every order of the sweep, from the best pointer on, is used up in executions of the incoming
quantity and one of what is then left of it (`portions`). `executions_of_new` says so of every run,
and with that how much is executed and how many calls on the engine a new order costs.
-/

namespace HftSys

open Circular Exec Ladders

variable {B : Build}

section sweep

variable {stray : ℕ → Qty} {taker : NewOrder} {newMarketOid : OrderID} {b b' : OrderBook B}
  {queue : Queues B} {levels : List (LevelPtr B)} {p : OrderPtr}

/-- No order is queued twice under different levels in use. -/
theorem Sound.nodup_queued (h : Sound b queue) (hnodup : levels.Nodup)
    (hlive : ∀ l ∈ levels, b.LiveLevel l) : (queued b queue levels).Nodup := by
  rw [queued, List.nodup_flatMap]
  refine ⟨fun l _ => (h.queue_ring _).nodup, hnodup.imp_of_mem ?_⟩
  intro l l' hl hl' hne q hq hq'
  exact h.queue_disjoint (h.slot_ne (hlive l hl) (hlive l' hl') hne) hq hq'

/-- The executions that use up some orders: which order, and how much. -/
def usingUp (b : OrderBook B) (q : Qty) (orders : List OrderPtr) : List (OrderPtr × ℕ) :=
  orders.flatMap fun p => (portions q.toNat (b.order p).qty.toNat).map fun x => (p, x)

/-- They execute all that the orders have. -/
theorem sum_usingUp (b : OrderBook B) (q : Qty) (orders : List OrderPtr) :
    ((usingUp b q orders).map Prod.snd).sum = (orders.map fun p => (b.order p).qty.toNat).sum := by
  induction orders with
  | nil => rfl
  | cons p orders ih =>
    have hone : (((portions q.toNat (b.order p).qty.toNat).map fun x => (p, x)).map Prod.snd).sum =
        (b.order p).qty.toNat := by
      rw [List.map_map]
      exact (congrArg List.sum (List.map_id _)).trans (sum_portions _ _)
    rw [usingUp, List.flatMap_cons, List.map_append, List.sum_append, hone, List.map_cons,
      List.sum_cons]
    exact congrArg _ ih

/-- The order and the quantity of a `matchOrder` call. -/
def execution (taker : NewOrder) (c : OrderBook B × OrderPtr) : OrderPtr × ℕ :=
  (c.2, (c.1.fillQty c.2 taker.qty).toNat)

/-- Where the quantities are the same, so are the executions. -/
theorem usingUp_congr {q : Qty} {orders : List OrderPtr}
    (h : ∀ p ∈ orders, (b'.order p).qty = (b.order p).qty) :
    usingUp b' q orders = usingUp b q orders := by
  unfold usingUp
  apply List.flatMap_congr
  intro p hp
  rw [h p hp]

variable (stray newMarketOid) in
/-- The first execution of an order, and those to come. -/
theorem usingUp_cons (hpos : 0 < taker.qty.toNat) (best : LevelPtr B) (orders : List OrderPtr)
    (hp : p ∉ orders) :
    usingUp b taker.qty (p :: orders) = execution taker (b, p) ::
      usingUp (b.matched stray taker newMarketOid p best taker.qty) taker.qty
        (if b.Exhausts p taker.qty then orders else p :: orders) := by
  have hrest : usingUp (b.matched stray taker newMarketOid p best taker.qty) taker.qty orders =
      usingUp b taker.qty orders := by
    apply usingUp_congr
    intro q hq
    have hne : q ≠ p := fun e => hp (e ▸ hq)
    rw [OrderBook.qty_matched, if_neg hne]
  have hfill := b.fillQty_toNat p taker.qty
  have hafter := b.orderAfter_qty_toNat p taker.qty
  have hx := b.exhausts_iff p taker.qty
  rw [UInt32.le_iff_toNat_le] at hx
  by_cases hex : b.Exhausts p taker.qty
  · have hle := hx.mp hex
    rw [if_pos hex, hrest, usingUp, List.flatMap_cons, portions_of_le hle, execution, hfill,
      min_eq_right hle]
    rfl
  · have hlt : taker.qty.toNat < (b.order p).qty.toNat := not_le.mp fun hle => hex (hx.mpr hle)
    have hself : ((b.matched stray taker newMarketOid p best taker.qty).order p).qty.toNat =
        (b.order p).qty.toNat - taker.qty.toNat := by
      rw [OrderBook.qty_matched, if_pos rfl, hafter, hfill, min_eq_left hlt.le]
    rw [if_neg hex, usingUp, List.flatMap_cons, usingUp, List.flatMap_cons, hself,
      portions_of_lt hpos hlt, execution, hfill, min_eq_left hlt.le, List.map_cons,
      List.cons_append]
    congr 2
    exact hrest.symm

/-- **The executions of the loop**: those that use up the orders in reach, one after the other. -/
theorem Fills.executions {calls : List (OrderBook B × OrderPtr)}
    (h : Fills stray taker newMarketOid taker.qty b calls b') (hv : Valid b queue)
    (hqty : taker.qty ≠ 0) (hf : Front b taker levels) :
    calls.map (execution taker) =
      usingUp b taker.qty ((queued b queue levels).takeWhile (taker.reaches b)) := by
  induction h generalizing queue levels with
  | @done b hnext =>
    have hcalls := ((Fills.done hnext :
      Fills stray taker newMarketOid taker.qty b [] b).swept hv hqty hf).called
    have hnil : (queued b queue levels).takeWhile (taker.reaches b) = [] := by
      rw [List.eq_nil_iff_forall_not_mem]
      intro q hq
      obtain ⟨c, hc, -⟩ := (hcalls q).mp hq
      cases hc
    rw [hnil]
    rfl
  | @step b b₁ b' p calls hnext hmatch hrest ih =>
    obtain ⟨best, hr, hslot, hhead, rfl⟩ := hv.turn hnext hmatch
    obtain ⟨rest, rfl⟩ := List.head?_eq_some_iff.mp (hf.head.symm.trans hr.opposite)
    have hv₁ := hv.matched stray taker newMarketOid taker.qty hr.live hslot
    have hpos : 0 < taker.qty.toNat :=
      Nat.pos_of_ne_zero fun e => hqty (UInt32.toNat_inj.mp e)
    rcases hf.turn stray newMarketOid hv hr hslot hhead with hstuck | ⟨levels₁, hf₁, hqueued⟩
    · cases hrest with
      | done hnext₁ => exact absurd hnext₁ (hstuck.not_ok hqty)
      | step hnext₁ _ _ => exact absurd hnext₁ (hstuck.not_ok hqty)
    · -- the order met heads the sweep, before and after
      obtain ⟨back, hback⟩ := List.head?_eq_some_iff.mp hhead
      have hlist : queued b queue (best :: rest) = p :: (back ++ queued b queue rest) := by
        rw [queued_cons, hv.slot_price _ best hslot, hback, List.cons_append]
      have hreach : taker.reaches b p = true := by simp [NewOrder.reaches, hr.price]
      have hnodup := hv.toSound.nodup_queued hf.ring.nodup hf.live
      rw [hlist, List.nodup_cons] at hnodup
      have hnot : p ∉ (back ++ queued b queue rest).takeWhile (taker.reaches b) :=
        fun hp => hnodup.1 ((List.takeWhile_sublist _).subset hp)
      have hih := ih hv₁ hf₁
      rw [reaches_matched] at hih
      rw [List.map_cons, hih, hlist, List.takeWhile_cons_of_pos hreach,
        usingUp_cons stray newMarketOid hpos best _ hnot]
      rw [hlist] at hqueued
      by_cases hx : b.Exhausts p taker.qty
      · rw [if_pos hx] at hqueued ⊢
        rw [(List.cons.inj hqueued).2]
      · rw [if_neg hx] at hqueued ⊢
        rw [← hqueued, List.takeWhile_cons_of_pos hreach]

/-- Each execution is four calls on the engine. -/
theorem Fills.length_ome {calls : List (OrderBook B × OrderPtr)}
    (h : Fills stray taker newMarketOid taker.qty b calls b') (hv : Valid b queue) :
    b'.ome.length = b.ome.length + 4 * calls.length := by
  induction h generalizing queue with
  | done hnext => rfl
  | @step b b₁ b' p calls hnext hmatch hrest ih =>
    obtain ⟨best, hr, hslot, hhead, rfl⟩ := hv.turn hnext hmatch
    have hlog : (b.matchLog stray taker newMarketOid p taker.qty).length = 4 := rfl
    rw [ih (hv.matched stray taker newMarketOid taker.qty hr.live hslot), OrderBook.ome_matched,
      List.length_append, hlog, List.length_cons]
    omega

/-- The executions of a new order, read off the book before it. -/
theorem Sweeps.executions {b₁ : OrderBook B} (h : Sweeps stray taker b b₁) (hv : Valid b queue) :
    (newOrderCalls stray taker b).map (execution taker) = usingUp b taker.qty (b.sweep taker) := by
  by_cases hqty : taker.qty = 0
  · obtain ⟨-, hnone⟩ := h.of_zero hqty
    rw [hnone, OrderBook.sweep, if_pos hqty]
    rfl
  · have hva := hv.accept taker
    obtain ⟨levels, hf⟩ : ∃ levels, Front (b.accept taker) taker levels := by
      unfold Sweeps at h
      generalize newOrderCalls stray taker b = calls at h
      cases h with
      | done hnext => exact exists_front hva hqty hnext
      | step hnext _ _ => exact exists_front hva hqty hnext
    have hexec := Fills.executions h hva hqty hf
    rw [← hf.sweep_eq hva hqty] at hexec
    exact hexec

end sweep

/-- **The executions of a new order.** In every run, a new order that comes to an end has used up
the orders of its sweep, from the best pointer on up to the first order out of reach, each in
executions of the incoming quantity and one of the remainder; it has executed all that these orders
had; and it has made one call on the engine for its acceptance, four for each execution, and one for
a remainder put to rest. -/
theorem executions_of_new {stray : ℕ → Qty} {rs : List Request} {b b' : OrderBook B}
    {taker : NewOrder} (h : RunsTo stray rs b)
    (hreq : handleRequest stray (.new taker) b = .ok () b') :
    (newOrderCalls stray taker b).map (execution taker) = usingUp b taker.qty (b.sweep taker) ∧
      (fills stray taker b).sum = ((b.sweep taker).map fun p => (b.order p).qty.toNat).sum ∧
      b'.ome.length = b.ome.length + 1 + 4 * ((b.sweep taker).map fun p =>
          ((b.order p).qty.toNat - 1) / taker.qty.toNat + 1).sum +
        if taker.qty = 0 then 0 else 1 := by
  obtain ⟨queue, hv⟩ := h.valid
  obtain ⟨b₁, hs, htail⟩ := addOrder_ok hreq
  have hexec := hs.executions hv
  refine ⟨hexec, ?_, ?_⟩
  · have hfills : fills stray taker b = (usingUp b taker.qty (b.sweep taker)).map Prod.snd := by
      rw [← hexec, List.map_map]
      rfl
    rw [hfills, sum_usingUp]
  · have hcalls : (newOrderCalls stray taker b).length = ((b.sweep taker).map fun p =>
        ((b.order p).qty.toNat - 1) / taker.qty.toNat + 1).sum := by
      rw [← List.length_map (f := execution taker), hexec, usingUp, List.length_flatMap]
      congr 1
      apply List.map_congr_left
      intro p hp
      have hqty : taker.qty ≠ 0 := by
        intro e
        rw [OrderBook.sweep, if_pos e] at hp
        cases hp
      have hlive := (hs.effect hv).mem_live p hp
      rw [List.length_map, length_portions]
      · exact Nat.pos_of_ne_zero fun e => hqty (UInt32.toNat_inj.mp e)
      · exact Nat.pos_of_ne_zero fun e => hv.qtyPos p hlive (UInt32.toNat_inj.mp e)
    have hloop : b₁.ome.length = b.ome.length + 1 + 4 * (newOrderCalls stray taker b).length := by
      rw [Fills.length_ome hs (hv.accept taker), OrderBook.accept, List.length_append]
      rfl
    rw [← hcalls]
    rcases htail with ⟨hzero, rfl⟩ | ⟨hqty, hrest⟩
    · rw [hloop, if_pos hzero]
      rfl
    · obtain ⟨queue₁, hv₁⟩ := Fills.valid hs (hv.accept taker)
      obtain ⟨p, o, b₂, hr⟩ := rests_of_restOrder hv₁.toSound hrest
      rw [hr.book, List.length_append, hr.files.1.ome, hloop, if_neg hqty]
      rfl

/-- The last request of a run that ends without a fault. -/
theorem request_bookAfter {stray : ℕ → Qty} {rs : List Request} {r : Request}
    (h : completes B stray (rs ++ [r]) = true) :
    RunsTo stray rs (bookAfter B stray rs) ∧
      handleRequest stray r (bookAfter B stray rs) = .ok () (bookAfter B stray (rs ++ [r])) := by
  obtain ⟨b, hb, hreq⟩ := runsTo_concat.mp (runsTo_bookAfter h)
  have hbook : bookAfter B stray rs = b := by
    have hb' : handleAll stray rs (OrderBook.create B) = .ok () b := hb
    rw [bookAfter, hb']
  rw [hbook]
  exact ⟨hb, hreq⟩

/-- A bid for `4` against asks of `10` and `7` at its price. -/
theorem executions_of_new_sample :
    (newOrderCalls (fun _ => 0) ⟨3, 1, 0, .buy, 100, 4⟩ (bookAfter .production (fun _ => 0)
        [.new ⟨1, 1, 0, .sell, 100, 10⟩, .new ⟨2, 1, 0, .sell, 100, 7⟩])).map
      (execution ⟨3, 1, 0, .buy, 100, 4⟩) =
        [(⟨0, by decide⟩, 4), (⟨0, by decide⟩, 4), (⟨0, by decide⟩, 2), (⟨1, by decide⟩, 4),
          (⟨1, by decide⟩, 3)] := by
  have hlast := @request_bookAfter .production (fun _ => 0)
    [.new ⟨1, 1, 0, .sell, 100, 10⟩, .new ⟨2, 1, 0, .sell, 100, 7⟩]
    (.new ⟨3, 1, 0, .buy, 100, 4⟩) (by decide +kernel)
  rw [(executions_of_new hlast.1 hlast.2).1]
  decide +kernel

end HftSys
