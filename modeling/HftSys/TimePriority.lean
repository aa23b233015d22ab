import HftSys.Numbering

/-!
# Time priority

Within a price slot the orders are matched in the order they were accepted. `InOrder` says that
priorities and market order ids increase along every queue; the priority is one more than the last
order's, and it never passes the order's own id, so it does not wrap before the ids do.

A fill that leaves a resting order with a quantity does not touch any queue.
-/

namespace HftSys

open Circular

variable {B : Build}

/-! ## The invariant -/

/-- Order `q` came after order `p`, by priority and by id. -/
def Later (b : OrderBook B) (p q : OrderPtr) : Prop :=
  (b.order p).priority < (b.order q).priority ∧
    (b.order p).marketOrderId < (b.order q).marketOrderId

/-- Every queue is in the order its orders were accepted in. -/
structure InOrder (queue : Queues B) (b : OrderBook B) : Prop where
  priority_le : ∀ p, b.LiveOrder p →
    (b.order p).priority.toNat ≤ (b.order p).marketOrderId.toNat
  later : ∀ s, (queue s).Pairwise (Later b)

section steps

variable {b b' : OrderBook B} {queue : Queues B} {n : ℕ}

/-- Orders taken out of their queues. -/
theorem InOrder.mono {queue' : Queues B} (h : InOrder queue b)
    (hlive : ∀ p, b'.LiveOrder p → b.LiveOrder p)
    (hid : ∀ p, (b'.order p).marketOrderId = (b.order p).marketOrderId)
    (hpriority : ∀ p, (b'.order p).priority = (b.order p).priority)
    (hqueue : ∀ s, (queue' s).Sublist (queue s)) : InOrder queue' b' where
  priority_le p hp := by
    rw [hid, hpriority]
    exact h.priority_le p (hlive p hp)
  later s := by
    apply ((h.later s).sublist (hqueue s)).imp
    intro p q hpq
    unfold Later
    rw [hid, hid, hpriority, hpriority]
    exact hpq

/-- A queue without one of its orders. -/
theorem sublist_erase (queue : Queues B) (s₀ : PriceSlot B) (p : OrderPtr) (s : PriceSlot B) :
    (Function.update queue s₀ ((queue s₀).erase p) s).Sublist (queue s) := by
  by_cases hs : s = s₀
  · subst hs
    rw [Function.update_self]
    exact List.erase_sublist
  · rw [Function.update_of_ne hs]

/-- A match leaves the queues as they are, or one order shorter. -/
theorem sublist_queuesAfter (b : OrderBook B) (queue : Queues B) (p : OrderPtr) (qtyRemains : Qty)
    (s : PriceSlot B) : (b.queuesAfter queue p qtyRemains s).Sublist (queue s) := by
  unfold OrderBook.queuesAfter
  split
  · exact sublist_erase queue _ p s
  · exact List.Sublist.refl _

/-- A match keeps the order of the queues: what is left of them is in the order it was in. -/
theorem InOrder.matched (h : InOrder queue b) (stray : ℕ → Qty) (taker : NewOrder)
    (newMarketOid : OrderID) (p : OrderPtr) (l : LevelPtr B) (qtyRemains : Qty) :
    InOrder (b.queuesAfter queue p qtyRemains)
      (b.matched stray taker newMarketOid p l qtyRemains) :=
  h.mono
    (fun q hq => ((b.liveOrder_matched stray taker newMarketOid p q l qtyRemains).mp hq).1)
    (fun q => b.marketOrderId_matched stray taker newMarketOid p q l qtyRemains)
    (fun q => b.priority_matched stray taker newMarketOid p q l qtyRemains)
    (sublist_queuesAfter b queue p qtyRemains)

/-- So does a cancel. -/
theorem InOrder.cancel (h : InOrder queue b) (r : CancelOrder) (p : OrderPtr) (l : LevelPtr B) :
    InOrder (Function.update queue (slotOf B (b.order p).price)
      ((queue (slotOf B (b.order p).price)).erase p)) (b.cancel r p l) :=
  h.mono (fun q hq => ((b.liveOrder_detach p q l).mp hq).1)
    (fun q => OrderBook.marketOrderId_of_data (b.data_detach p q l))
    (fun q => OrderBook.priority_of_data (b.data_detach p q l))
    (sublist_erase queue _ p)

/-- The priority of an order to be filed: above those of its queue, and not above its id. -/
theorem InOrder.priorityAfter (h : InOrder queue b) (hs : Sound b queue) (hnum : Numbered b n)
    (hn : n + 1 < 2 ^ 64) (s : PriceSlot B) :
    (b.priorityAfter (queue s)).toNat ≤ n + 1 ∧
      ∀ q ∈ queue s, (b.order q).priority < b.priorityAfter (queue s) := by
  unfold OrderBook.priorityAfter
  cases hlast : (queue s).getLast? with
  | none =>
    have hq : queue s = [] := List.getLast?_eq_none_iff.mp hlast
    rw [hq]
    exact ⟨Nat.le_add_left 1 n, by simp⟩
  | some x =>
    have hx := hs.live_of_mem (List.mem_of_getLast? hlast)
    -- the last order's priority is at most its id, which is at most `n`
    have hle := (h.priority_le x hx).trans (hnum.id_le x hx)
    have hsucc : ((b.order x).priority + 1).toNat = (b.order x).priority.toNat + 1 := by
      rw [UInt64.toNat_add, UInt64.toNat_one]
      exact Nat.mod_eq_of_lt (by omega)
    simp only []
    refine ⟨by omega, ?_⟩
    intro q hq
    rw [UInt64.lt_iff_toNat_lt, hsucc]
    obtain ⟨init, hinit⟩ := List.getLast?_eq_some_iff.mp hlast
    have hpair := h.later s
    rw [hinit] at hpair hq
    rcases List.mem_append.mp hq with hq | hq
    · have := (List.pairwise_append.mp hpair).2.2 q hq x (List.mem_singleton_self x)
      have hlt := UInt64.lt_iff_toNat_lt.mp this.1
      omega
    · rw [List.mem_singleton.mp hq]
      omega

/-- **An order that comes to rest goes behind those that are there**, with a priority and a market
order id above theirs. -/
theorem InOrder.rests (h : InOrder queue b) (hs : Sound b queue) (hnum : Numbered b n)
    (hn : n + 1 < 2 ^ 64) {taker : NewOrder} {newMarketOid : OrderID} {p : OrderPtr} {o : Order}
    {b₁ : OrderBook B} (hoid : newMarketOid.toNat = n + 1)
    (hr : Rests b b' queue taker newMarketOid p o b₁) :
    InOrder (Function.update queue (slotOf B o.price) (queue (slotOf B o.price) ++ [p])) b' := by
  have hf := hr.files.1
  obtain ⟨hple, hplt⟩ := h.priorityAfter hs hnum hn (slotOf B taker.price)
  have hid : o.marketOrderId = newMarketOid := by rw [hr.order]; rfl
  have hpriority : o.priority = b.priorityAfter (queue (slotOf B taker.price)) := by
    rw [hr.order]
    rfl
  have hprice : o.price = taker.price := by rw [hr.order]; rfl
  -- what the new order and the old ones hold afterwards
  have hself : (b'.order p).priority = o.priority ∧ (b'.order p).marketOrderId = newMarketOid := by
    rw [hr.book, ← hid]
    exact ⟨hf.priority_self, hf.marketOrderId_self⟩
  have hold : ∀ q, q ≠ p → (b'.order q).priority = (b.order q).priority ∧
      (b'.order q).marketOrderId = (b.order q).marketOrderId := by
    intro q hq
    rw [hr.book]
    exact ⟨OrderBook.priority_of_data (hf.data_of_ne q hq),
      OrderBook.marketOrderId_of_data (hf.data_of_ne q hq)⟩
  have hne : ∀ s, ∀ q ∈ queue s, q ≠ p := fun s q hq e => hf.fresh (e ▸ hs.live_of_mem hq)
  have hkeep : ∀ s, (queue s).Pairwise (Later b') := by
    intro s
    apply (h.later s).imp_of_mem
    intro x y hx hy hxy
    unfold Later
    rw [(hold x (hne s x hx)).1, (hold x (hne s x hx)).2, (hold y (hne s y hy)).1,
      (hold y (hne s y hy)).2]
    exact hxy
  constructor
  · intro q hq
    by_cases hqp : q = p
    · rw [hqp, hself.1, hself.2, hpriority, hoid]
      exact hple
    · have hlive : b.LiveOrder q := by
        rw [hr.book] at hq
        exact ((hf.liveOrder q).mp hq).resolve_left hqp
      rw [(hold q hqp).1, (hold q hqp).2]
      exact h.priority_le q hlive
  · intro s
    by_cases hslot : s = slotOf B o.price
    · subst hslot
      rw [Function.update_self, List.pairwise_append]
      refine ⟨hkeep _, List.pairwise_singleton _ _, ?_⟩
      intro q hq x hx
      rw [List.mem_singleton.mp hx]
      have hqlive := hs.live_of_mem hq
      unfold Later
      rw [(hold q (hne _ q hq)).1, (hold q (hne _ q hq)).2, hself.1, hself.2, hpriority]
      refine ⟨hplt q (by rwa [hprice] at hq), ?_⟩
      rw [UInt64.lt_iff_toNat_lt, hoid]
      exact Nat.lt_succ_of_le (hnum.id_le q hqlive)
    · rw [Function.update_of_ne hslot]
      exact hkeep s

end steps

/-- Every step of a request keeps the queues in order. -/
theorem preserved_inOrder (stray : ℕ → Qty) (B : Build) :
    Preserved (B := B) stray (2 ^ 64) (fun _ => InOrder) (fun _ _ _ => InOrder) where
  bound_le := le_refl _
  accept _ _ _ h := ⟨h.priority_le, h.later⟩
  turn _ _ _ _ _ _ _ h := h.matched _ _ _ _ _ _
  done h := h
  rest hn _ hv hnum hoid hr h := h.rests hv.toSound hnum hn hoid hr
  cancel _ _ _ h := h.cancel _ _ _
  reject _ _ h := ⟨h.priority_le, h.later⟩

/-- A new book has no queues. -/
theorem inOrder_create (B : Build) : InOrder (fun _ => []) (OrderBook.create B) where
  priority_le p hp := absurd hp (not_liveOrder_create p)
  later _ := List.Pairwise.nil

/-! ## Runs -/

/-- A fill that leaves a quantity moves no order. -/
theorem ordersOf_traded (b : OrderBook B) (stray : ℕ → Qty) (taker : NewOrder)
    (newMarketOid : OrderID) (p : OrderPtr) (qtyRemains : Qty) (l : LevelPtr B) :
    (b.traded stray taker newMarketOid p qtyRemains).ordersOf l = b.ordersOf l := by
  unfold OrderBook.ordersOf
  rw [OrderBook.orderLinks_traded]
  rfl

/-- **Time priority**: in every book a run reaches that accepts fewer than `2 ^ 64` orders, priority
and id increase along every level's ring; and whenever the next request is a new order, each of its
`matchOrder` calls is made on the earliest order of that side and price, and leaves every ring as it
is unless it uses the order up. -/
theorem time_priority {stray : ℕ → Qty} {rs : List Request} {b : OrderBook B}
    (h : RunsTo stray rs b) (hn : accepted rs < 2 ^ 64) :
    (∀ l, b.LiveLevel l → (b.ordersOf l).Pairwise (Later b)) ∧
      ∀ taker b', handleRequest stray (.new taker) b = .ok () b' →
        accepted (rs ++ [.new taker]) < 2 ^ 64 →
        ∀ c ∈ newOrderCalls stray taker b,
          (∀ q, c.1.LiveOrder q → (c.1.order q).side = (c.1.order c.2).side →
            (c.1.order q).price = (c.1.order c.2).price → q ≠ c.2 →
            (c.1.order c.2).marketOrderId < (c.1.order q).marketOrderId) ∧
          ∀ b₂, taker.qty < (c.1.order c.2).qty →
            matchOrder stray taker b.nextMarketOid (some c.2) taker.qty c.1 = .ok () b₂ →
            ∀ l, b₂.ordersOf l = c.1.ordersOf l := by
  obtain ⟨queue, hs, hord⟩ := (preserved_inOrder stray B).run hn (inOrder_create B) h
  refine ⟨?_, ?_⟩
  · intro l hl
    rw [hs.ordersOf_eq (hs.slot_of_live hl)]
    exact hord.later _
  · intro taker b' hreq hn' c hc
    rw [accepted_append] at hn'
    obtain ⟨b₁, hsweep, -⟩ := addOrder_ok hreq
    obtain ⟨queue', hv, -, -, hord'⟩ :=
      ((preserved_inOrder stray B).sweep hn' hs hord hsweep).2 c hc
    -- the call is made on the head of its slot's queue
    obtain ⟨-, best, hr⟩ := nextMatch_some (hsweep.mem hc)
    obtain ⟨hp, hslot, hhead⟩ := hv.head_of_level hr.liveLevel hr.order0
    refine ⟨?_, ?_⟩
    · intro q hq _ hprice hne
      have hmem := hv.mem_queue_of_live hq
      rw [hprice] at hmem
      have hlater := hord'.later (slotOf B (c.1.order c.2).price)
      obtain ⟨tail, htail⟩ := List.head?_eq_some_iff.mp hhead
      rw [htail] at hmem hlater
      have hq' : q ∈ tail := (List.mem_cons.mp hmem).resolve_left hne
      exact ((List.pairwise_cons.mp hlater).1 q hq').2
    · intro b₂ hpartial hmatch l
      rw [matchOrder_eq hv.toSound stray taker b.nextMarketOid taker.qty hp hslot] at hmatch
      cases hmatch
      have hx : ¬ c.1.Exhausts c.2 taker.qty := by
        rw [OrderBook.exhausts_iff, UInt32.not_le]
        exact hpartial
      rw [OrderBook.matched_of_not_exhausts _ _ _ _ _ _ _ hx, ordersOf_traded]

/-- A level with two orders. -/
theorem time_priority_sample :
    ((bookAfter .production (fun _ => 0)
        [.new ⟨1, 1, 0, .sell, 100, 10⟩, .new ⟨2, 1, 0, .sell, 100, 5⟩]).ordersOf
      ⟨0, by decide⟩).Pairwise
      (Later (bookAfter .production (fun _ => 0)
        [.new ⟨1, 1, 0, .sell, 100, 10⟩, .new ⟨2, 1, 0, .sell, 100, 5⟩])) :=
  (time_priority (runsTo_bookAfter (by decide +kernel)) (by decide)).1 _ (by decide +kernel)

end HftSys
