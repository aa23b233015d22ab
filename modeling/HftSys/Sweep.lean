import HftSys.Runs

/-!
# What a new order sweeps

`matchOrder` moves its own copy of the pointer to the remaining quantity, so the quantity
`findMatch` tests never goes down: a loop that ends has used up *every* order from the best one on
that the incoming price reaches, however small the incoming quantity. `sweep` is the list of these
orders, read off the book before the request, and `Sweeps.effect` says that matching removes exactly
them and changes nothing else about the orders.

The loop ends only if every level that it empties was emptied by an order of the level's own side:
otherwise the best pointer is left on a freed level and the next turn faults (`Stuck`).
-/

namespace HftSys

open Circular Exec

variable {B : Build}

/-- The other of the two sides. -/
def Side.other (s : Side) : Side := if s = .buy then .sell else .buy

/-- `BUY` or `SELL`. -/
def Side.Proper (s : Side) : Prop := s = .buy ∨ s = .sell

instance (s : Side) : Decidable s.Proper := inferInstanceAs (Decidable (_ ∨ _))

theorem Side.Proper.other_proper {s : Side} (h : s.Proper) : s.other.Proper := by
  rcases h with rfl | rfl
  · exact .inr rfl
  · exact .inl rfl

theorem Side.Proper.ne_other {s : Side} (h : s.Proper) : s ≠ s.other := by
  rcases h with rfl | rfl
  · decide
  · decide

theorem Side.Proper.eq_other {s t : Side} (hs : s.Proper) (ht : t.Proper) (h : t ≠ s) :
    t = s.other := by
  rcases hs with rfl | rfl <;> rcases ht with rfl | rfl <;> first | rfl | exact absurd rfl h

/-- Two proper sides share a best pointer only when they are the same. -/
theorem Side.Proper.sameBest_iff {s t : Side} (hs : s.Proper) (ht : t.Proper) :
    OrderBook.SameBest s t ↔ s = t := by
  rcases hs with rfl | rfl <;> rcases ht with rfl | rfl <;> decide

/-- The best pointer `findMatch` looks at. -/
theorem opposite_eq (b : OrderBook B) {s : Side} (h : s.Proper) :
    b.opposite s = b.bestOf s.other := by
  rcases h with rfl | rfl
  · rfl
  · rfl

/-- A side with an opposite is proper. -/
theorem proper_of_opposite {b : OrderBook B} {s : Side} {best : LevelPtr B}
    (h : b.opposite s = some best) : s.Proper := by
  unfold OrderBook.opposite at h
  split at h
  · exact .inl ‹_›
  · split at h
    · exact .inr ‹_›
    · cases h

/-! ## The orders in reach -/

/-- The incoming order's price reaches a resting order. -/
def NewOrder.reaches (taker : NewOrder) (b : OrderBook B) (p : OrderPtr) : Bool :=
  !misses taker.side taker.price (b.order p).price

/-- The orders of the opposite side from the best one on, as far as the incoming price reaches. -/
def OrderBook.sweep (b : OrderBook B) (taker : NewOrder) : List OrderPtr :=
  if taker.qty = 0 then []
  else ((b.levelsFrom (b.opposite taker.side)).flatMap b.ordersOf).takeWhile (taker.reaches b)

/-! ## One turn -/

/-- `levels` are the levels of the side a new order looks at, from the best pointer on. -/
structure Front (b : OrderBook B) (taker : NewOrder) (levels : List (LevelPtr B)) : Prop where
  head : b.opposite taker.side = levels.head?
  ring : b.levelLinks.IsRing levels
  live : ∀ l ∈ levels, b.LiveLevel l

/-- The orders of some levels, in order. -/
def queued (b : OrderBook B) (queue : Queues B) (levels : List (LevelPtr B)) : List OrderPtr :=
  levels.flatMap fun l => queue (slotOf B (b.level l).price)

theorem queued_cons (b : OrderBook B) (queue : Queues B) (l : LevelPtr B)
    (levels : List (LevelPtr B)) :
    queued b queue (l :: levels) = queue (slotOf B (b.level l).price) ++ queued b queue levels :=
  List.flatMap_cons

/-- The best pointer that a new order looks at is left on a freed level. -/
def Stuck (b : OrderBook B) (taker : NewOrder) : Prop :=
  ∃ l, b.opposite taker.side = some l ∧ ¬ b.LiveLevel l

section turn

variable {stray : ℕ → Qty} {taker : NewOrder} {newMarketOid : OrderID} {b b' b₁ : OrderBook B}
  {queue : Queues B} {levels rest : List (LevelPtr B)} {p : OrderPtr} {best : LevelPtr B}

/-- No turn starts on a book that is stuck. -/
theorem Stuck.not_ok (h : Stuck b taker) (hqty : taker.qty ≠ 0) {next : Option OrderPtr} :
    nextMatch taker taker.qty b ≠ .ok next b' := by
  intro hnext
  obtain ⟨l, hl, hdead⟩ := h
  cases next with
  | some p =>
    obtain ⟨-, best, hr⟩ := nextMatch_some hnext
    rw [hr.opposite] at hl
    cases hl
    exact hdead hr.liveLevel
  | none =>
    obtain ⟨-, hzero | hnone | ⟨best, p, hbest, hlive, -⟩⟩ := nextMatch_none hnext
    · exact hqty hzero
    · rw [hl] at hnone
      cases hnone
    · rw [hbest] at hl
      cases hl
      exact hdead hlive

/-- Different levels in use are in different slots. -/
theorem Sound.slot_ne (h : Sound b queue) {l l' : LevelPtr B} (hl : b.LiveLevel l)
    (hl' : b.LiveLevel l') (hne : l ≠ l') :
    slotOf B (b.level l).price ≠ slotOf B (b.level l').price := by
  intro hslot
  have h₁ := h.slot_of_live hl
  rw [hslot, h.slot_of_live hl'] at h₁
  exact hne (Option.some.inj h₁).symm

/-- The orders of levels in other slots than the one that changes. -/
theorem queued_update (s₀ : PriceSlot B) (q : List OrderPtr)
    (hslot : ∀ l ∈ levels, slotOf B (b.level l).price ≠ s₀)
    (hprice : ∀ l, (b₁.level l).price = (b.level l).price) :
    queued b₁ (Function.update queue s₀ q) levels = queued b queue levels := by
  induction levels with
  | nil => rfl
  | cons l levels ih =>
    rw [queued_cons, queued_cons, hprice, Function.update_of_ne (hslot l List.mem_cons_self),
      ih fun l' hl' => hslot l' (List.mem_cons_of_mem _ hl')]

/-- Taking the first order of the front out: the front loses it, or the book is stuck. -/
theorem Front.detach (hs : Sound b queue) (hf : Front b taker (best :: rest)) (hp : b.LiveOrder p)
    (hslot : b.getLevelForPrice (b.order p).price = some best)
    (hhead : (queue (slotOf B (b.order p).price)).head? = some p) :
    Stuck (b.detach p best) taker ∨ ∃ levels,
      Front (b.detach p best) taker levels ∧
      queued b queue (best :: rest) = p :: queued (b.detach p best)
        (Function.update queue (slotOf B (b.order p).price)
          ((queue (slotOf B (b.order p).price)).erase p)) levels := by
  have hbest : b.LiveLevel best := hf.live best List.mem_cons_self
  have hprice : slotOf B (b.level best).price = slotOf B (b.order p).price :=
    hs.slot_price _ best hslot
  have hproper : taker.side.Proper := proper_of_opposite hf.head
  have hopp : ∀ c : OrderBook B, c.opposite taker.side = c.bestOf taker.side.other :=
    fun c => opposite_eq c hproper
  have hbestOf : b.bestOf taker.side.other = some best := by
    rw [← hopp, hf.head]
    rfl
  have hlevel : ∀ l, ((b.detach p best).level l).price = (b.level l).price := fun l =>
    b.level_price_detach p best l
  -- the levels behind the best one are in other slots
  have hrest : ∀ l ∈ rest, slotOf B (b.level l).price ≠ slotOf B (b.order p).price := by
    intro l hl
    rw [← hprice]
    apply hs.slot_ne (hf.live l (List.mem_cons_of_mem _ hl)) hbest
    rintro rfl
    exact (List.nodup_cons.mp hf.ring.nodup).1 hl
  obtain ⟨back, hback⟩ := List.head?_eq_some_iff.mp hhead
  have herase : (queue (slotOf B (b.order p).price)).erase p = back := by
    rw [hback, List.erase_cons_head]
  rw [queued_cons, hprice, hback, List.cons_append, ← hback, herase]
  by_cases ha : b.Alone p
  · have hnil : back = [] := by
      have := (hs.alone_iff hp).mp ha
      rw [hback] at this
      exact (List.cons.inj this).2
    have hdead : ¬ (b.detach p best).LiveLevel best := by
      rw [OrderBook.liveLevel_detach]
      exact fun h => h.2 ⟨ha, rfl⟩
    by_cases hsame : OrderBook.SameBest (b.order p).side taker.side.other
    · -- the best pointer moves on to the next level
      refine .inr ⟨rest, ⟨?_, ?_, ?_⟩, ?_⟩
      · rw [hopp, OrderBook.bestOf_detach, if_pos ⟨ha, hsame⟩,
          OrderBook.bestWithout_head b hf.ring hbestOf]
      · rw [OrderBook.levelLinks_detach, if_pos ha]
        have hring := hf.ring.bypass (p := best) List.mem_cons_self
        rwa [List.erase_cons_head] at hring
      · intro l hl
        rw [OrderBook.liveLevel_detach]
        refine ⟨hf.live l (List.mem_cons_of_mem _ hl), ?_⟩
        rintro ⟨-, rfl⟩
        exact hrest l hl hprice
      · rw [queued_update _ _ hrest hlevel, hnil, List.nil_append]
    · -- the other side's best pointer is repaired
      refine .inl ⟨best, ?_, hdead⟩
      rw [hopp, OrderBook.bestOf_detach, if_neg (fun h => hsame h.2), hbestOf]
  · refine .inr ⟨best :: rest, ⟨?_, ?_, ?_⟩, ?_⟩
    · rw [hopp, OrderBook.bestOf_detach, if_neg (fun h => ha h.1), hbestOf]
      rfl
    · rw [OrderBook.levelLinks_detach, if_neg ha]
      exact hf.ring
    · intro l hl
      rw [OrderBook.liveLevel_detach]
      exact ⟨hf.live l hl, fun h => ha h.1⟩
    · rw [queued_cons, hlevel, hprice, Function.update_self, queued_update _ _ hrest hlevel]

/-- A turn on the front: it loses its first order when that is used up, or the book is stuck. -/
theorem Front.turn (stray : ℕ → Qty) (newMarketOid : OrderID) (hv : Valid b queue)
    (hf : Front b taker (best :: rest)) (hr : Reaches b taker taker.qty best p)
    (hslot : b.getLevelForPrice (b.order p).price = some best)
    (hhead : (queue (slotOf B (b.order p).price)).head? = some p) :
    Stuck (b.matched stray taker newMarketOid p best taker.qty) taker ∨ ∃ levels,
      Front (b.matched stray taker newMarketOid p best taker.qty) taker levels ∧
      queued b queue (best :: rest) =
        if b.Exhausts p taker.qty then
          p :: queued (b.matched stray taker newMarketOid p best taker.qty)
            (b.queuesAfter queue p taker.qty) levels
        else queued (b.matched stray taker newMarketOid p best taker.qty)
          (b.queuesAfter queue p taker.qty) levels := by
  have hf' : Front (b.traded stray taker newMarketOid p taker.qty) taker (best :: rest) :=
    ⟨hf.head, hf.ring, hf.live⟩
  have hprice := b.price_traded stray taker newMarketOid p p taker.qty
  by_cases hx : b.Exhausts p taker.qty
  · simp only [OrderBook.matched_of_exhausts b stray taker newMarketOid p best taker.qty hx,
      OrderBook.queuesAfter, if_pos hx]
    have hd := hf'.detach (hv.toSound.traded stray taker newMarketOid p taker.qty)
      ((b.liveOrder_traded stray taker newMarketOid p p taker.qty).mpr hr.live)
      (by rw [hprice]; exact hslot) (by rw [hprice]; exact hhead)
    rw [hprice] at hd
    exact hd
  · simp only [OrderBook.matched_of_not_exhausts b stray taker newMarketOid p best taker.qty hx,
      OrderBook.queuesAfter, if_neg hx]
    exact .inr ⟨best :: rest, hf', rfl⟩

/-! ## The loop -/

/-- What matching does to the orders: those of `swept` go, the others stay as they are. -/
structure Swept (b b' : OrderBook B) (calls : List (OrderBook B × OrderPtr))
    (swept : List OrderPtr) : Prop where
  mem_live : ∀ q ∈ swept, b.LiveOrder q
  live : ∀ q, b'.LiveOrder q ↔ b.LiveOrder q ∧ q ∉ swept
  data : ∀ q, q ∉ swept → b'.data q = b.data q
  called : ∀ q, q ∈ swept ↔ ∃ c ∈ calls, c.2 = q
  entry_of_mem : ∀ q ∈ swept,
    b'.mapClientIdToOrder (b.order q).clientId (b.order q).clientOrderId = none
  entry_of_not_mem : ∀ c k, (∀ q ∈ swept, ¬ ((b.order q).clientId = c ∧
    (b.order q).clientOrderId = k)) → b'.mapClientIdToOrder c k = b.mapClientIdToOrder c k

/-- Nothing is swept. -/
theorem swept_nil (b : OrderBook B) : Swept b b [] [] where
  mem_live q hq := by simp at hq
  live q := by simp
  data _ _ := rfl
  called q := by simp
  entry_of_mem q hq := by simp at hq
  entry_of_not_mem _ _ _ := rfl

/-- The client map only loses entries in a turn. -/
theorem clientMap_matched_none {c : ClientID} {k : OrderID}
    (h : b.mapClientIdToOrder c k = none) (l : LevelPtr B) (qtyRemains : Qty) :
    (b.matched stray taker newMarketOid p l qtyRemains).mapClientIdToOrder c k = none := by
  rw [OrderBook.clientMap_matched]
  split
  · rw [mapWith_apply]
    split
    · rfl
    · exact h
  · exact h

/-- The client map only loses entries in the loop. -/
theorem Fills.clientMap_none {calls : List (OrderBook B × OrderPtr)}
    (h : Fills stray taker newMarketOid taker.qty b calls b') (hv : Valid b queue) {c : ClientID}
    {k : OrderID} (hnone : b.mapClientIdToOrder c k = none) :
    b'.mapClientIdToOrder c k = none := by
  obtain ⟨⟨_, -, hend⟩, -⟩ := h.carries
    (P := fun _ b => b.mapClientIdToOrder c k = none)
    (fun _ _ _ best _ hP _ _ _ => clientMap_matched_none hP best _) hv hnone
  exact hend

/-- One more turn in front of a sweep: it uses its order up. -/
theorem Swept.cons {calls : List (OrderBook B × OrderPtr)} {swept : List OrderPtr}
    (h : Swept (b.matched stray taker newMarketOid p best taker.qty) b' calls swept)
    (hlive : b.LiveOrder p) (hx : b.Exhausts p taker.qty) (hp : p ∉ swept)
    (hnone : b'.mapClientIdToOrder (b.order p).clientId (b.order p).clientOrderId = none) :
    Swept b b' ((b, p) :: calls) (p :: swept) where
  mem_live q hq := by
    rcases List.mem_cons.mp hq with rfl | hq
    · exact hlive
    · exact ((b.liveOrder_matched stray taker newMarketOid p q best taker.qty).mp
        (h.mem_live q hq)).1
  live q := by
    rw [h.live, OrderBook.liveOrder_matched, List.mem_cons, not_or, and_assoc]
    simp [hx]
  data q hq := by
    rw [List.mem_cons, not_or] at hq
    rw [h.data q hq.2, OrderBook.data_matched_of_ne b stray taker newMarketOid p best taker.qty hq.1]
  called q := by
    rw [List.mem_cons, h.called q]
    simp [eq_comm]
  entry_of_mem q hq := by
    rcases List.mem_cons.mp hq with rfl | hq
    · exact hnone
    · have := h.entry_of_mem q hq
      rwa [OrderBook.clientId_matched, OrderBook.clientOrderId_matched] at this
  entry_of_not_mem c k hkey := by
    have hkeyp := hkey p List.mem_cons_self
    rw [h.entry_of_not_mem c k, OrderBook.clientMap_matched, if_pos hx, mapWith_apply,
      if_neg (fun e => hkeyp ⟨e.1.symm, e.2.symm⟩)]
    intro q hq
    rw [OrderBook.clientId_matched, OrderBook.clientOrderId_matched]
    exact hkey q (List.mem_cons_of_mem _ hq)

/-- One more turn in front of a sweep: its order keeps a quantity, and is met again. -/
theorem Swept.again {calls : List (OrderBook B × OrderPtr)} {swept : List OrderPtr}
    (h : Swept (b.matched stray taker newMarketOid p best taker.qty) b' calls swept)
    (hx : ¬ b.Exhausts p taker.qty) (hp : p ∈ swept) :
    Swept b b' ((b, p) :: calls) swept where
  mem_live q hq := ((b.liveOrder_matched stray taker newMarketOid p q best taker.qty).mp
    (h.mem_live q hq)).1
  live q := by
    rw [h.live, OrderBook.liveOrder_matched]
    simp [hx]
  data q hq := by
    have hne : q ≠ p := fun e => hq (e ▸ hp)
    rw [h.data q hq, OrderBook.data_matched_of_ne b stray taker newMarketOid p best taker.qty hne]
  called q := by
    rw [h.called q]
    constructor
    · rintro ⟨c, hc, rfl⟩
      exact ⟨c, List.mem_cons_of_mem _ hc, rfl⟩
    · rintro ⟨c, hc, rfl⟩
      rcases List.mem_cons.mp hc with rfl | hc
      · exact (h.called p).mp hp
      · exact ⟨c, hc, rfl⟩
  entry_of_mem q hq := by
    have := h.entry_of_mem q hq
    rwa [OrderBook.clientId_matched, OrderBook.clientOrderId_matched] at this
  entry_of_not_mem c k hkey := by
    rw [h.entry_of_not_mem c k, OrderBook.clientMap_matched, if_neg hx]
    intro q hq
    rw [OrderBook.clientId_matched, OrderBook.clientOrderId_matched]
    exact hkey q hq

/-- Prices do not change in a turn. -/
theorem reaches_matched (qtyRemains : Qty) :
    taker.reaches (b.matched stray taker newMarketOid p best qtyRemains) = taker.reaches b := by
  funext q
  unfold NewOrder.reaches
  rw [OrderBook.price_matched]

/-- **The loop of a new order** removes the orders at the front of the other side that its price
reaches, and changes no other order. -/
theorem Fills.swept {calls : List (OrderBook B × OrderPtr)}
    (h : Fills stray taker newMarketOid taker.qty b calls b') (hv : Valid b queue)
    (hqty : taker.qty ≠ 0) (hf : Front b taker levels) :
    Swept b b' calls ((queued b queue levels).takeWhile (taker.reaches b)) := by
  induction h generalizing queue levels with
  | @done b hnext =>
    have hnil : (queued b queue levels).takeWhile (taker.reaches b) = [] := by
      obtain ⟨-, hzero | hnone | ⟨best, p, hbest, hlive, h0, -, hmiss⟩⟩ := nextMatch_none hnext
      · exact absurd hzero hqty
      · rw [hf.head] at hnone
        rw [List.head?_eq_none_iff.mp hnone]
        rfl
      · obtain ⟨rest, rfl⟩ := List.head?_eq_some_iff.mp (hf.head.symm.trans hbest)
        obtain ⟨-, hslot, hhead⟩ := hv.head_of_level hlive h0
        obtain ⟨back, hback⟩ := List.head?_eq_some_iff.mp hhead
        rw [queued_cons, hv.slot_price _ best hslot, hback, List.cons_append,
          List.takeWhile_cons_of_neg]
        simp [NewOrder.reaches, hmiss]
    rw [hnil]
    exact swept_nil b
  | @step b b₁ b' p calls hnext hmatch hrest ih =>
    obtain ⟨best, hr, hslot, hhead, rfl⟩ := hv.turn hnext hmatch
    obtain ⟨rest, rfl⟩ := List.head?_eq_some_iff.mp (hf.head.symm.trans hr.opposite)
    have hv₁ := hv.matched stray taker newMarketOid taker.qty hr.live hslot
    have hreach : taker.reaches b p = true := by simp [NewOrder.reaches, hr.price]
    rcases hf.turn stray newMarketOid hv hr hslot hhead with hstuck | ⟨levels₁, hf₁, hqueued⟩
    · -- the loop ends, so no turn can have left it stuck
      cases hrest with
      | done hnext₁ => exact absurd hnext₁ (hstuck.not_ok hqty)
      | step hnext₁ _ _ => exact absurd hnext₁ (hstuck.not_ok hqty)
    · have hswept := ih hv₁ hf₁
      rw [reaches_matched] at hswept
      by_cases hx : b.Exhausts p taker.qty
      · rw [hqueued, if_pos hx, List.takeWhile_cons_of_pos hreach]
        have hnone : b'.mapClientIdToOrder (b.order p).clientId (b.order p).clientOrderId = none := by
          apply hrest.clientMap_none hv₁
          rw [OrderBook.clientMap_matched, if_pos hx, mapWith_apply, if_pos ⟨rfl, rfl⟩]
        refine hswept.cons hr.live hx ?_ hnone
        -- an order that has gone is not met again
        intro hmem
        obtain ⟨l, hl, hpl⟩ := List.mem_flatMap.mp ((List.takeWhile_sublist _).subset hmem)
        have hlive := hv₁.live_of_mem hpl
        rw [OrderBook.liveOrder_matched] at hlive
        exact hlive.2 ⟨hx, rfl⟩
      · have hmem : p ∈ (queued b queue (best :: rest)).takeWhile (taker.reaches b) := by
          obtain ⟨back, hback⟩ := List.head?_eq_some_iff.mp hhead
          rw [queued_cons, hv.slot_price _ best hslot, hback, List.cons_append,
            List.takeWhile_cons_of_pos hreach]
          exact List.mem_cons_self
        rw [hqueued, if_neg hx] at hmem ⊢
        exact hswept.again hx hmem

/-- The front of a book on which the loop ends. -/
theorem exists_front {next : Option OrderPtr} (hv : Valid b queue) (hqty : taker.qty ≠ 0)
    (hnext : nextMatch taker taker.qty b = .ok next b') : ∃ levels, Front b taker levels := by
  cases hbest : b.opposite taker.side with
  | none => exact ⟨[], hbest, Links.isRing_nil, by simp⟩
  | some best =>
    have hlive : b.LiveLevel best := by
      by_contra hdead
      exact Stuck.not_ok ⟨best, hbest, hdead⟩ hqty hnext
    obtain ⟨rest, hring, hmem⟩ := hv.levels_closed.exists_ring hlive
    exact ⟨best :: rest, hbest, hring, hmem⟩

/-- The front of a book is what the walk from the best pointer meets. -/
theorem Front.sweep_eq (hv : Valid b queue) (hqty : taker.qty ≠ 0) (hf : Front b taker levels) :
    b.sweep taker = (queued b queue levels).takeWhile (taker.reaches b) := by
  have horders : levels.flatMap b.ordersOf = queued b queue levels := by
    apply List.flatMap_congr
    intro l hl
    exact hv.ordersOf_eq (hv.slot_of_live (hf.live l hl))
  rw [OrderBook.sweep, if_neg hqty, hf.head, OrderBook.levelsFrom_eq hf.ring, horders]

end turn

section effect

variable {stray : ℕ → Qty} {taker : NewOrder} {b b₁ : OrderBook B} {queue : Queues B}

/-- Without a quantity nothing is matched. -/
theorem Sweeps.of_zero (h : Sweeps stray taker b b₁) (hqty : taker.qty = 0) :
    b₁ = b.accept taker ∧ newOrderCalls stray taker b = [] := by
  have hstop : nextMatch taker taker.qty (b.accept taker) = .ok none (b.accept taker) := by
    unfold nextMatch
    rw [if_pos hqty]
    rfl
  unfold Sweeps at h
  generalize newOrderCalls stray taker b = calls at h ⊢
  cases h with
  | done _ => exact ⟨rfl, rfl⟩
  | step hnext _ _ =>
    rw [hstop] at hnext
    cases hnext

/-- **What a new order's matching does**: it removes the orders of `sweep`, and these are the orders
`matchOrder` is called on. -/
theorem Sweeps.effect (h : Sweeps stray taker b b₁) (hv : Valid b queue) :
    Swept b b₁ (newOrderCalls stray taker b) (b.sweep taker) := by
  by_cases hqty : taker.qty = 0
  · obtain ⟨rfl, hcalls⟩ := h.of_zero hqty
    rw [hcalls, OrderBook.sweep, if_pos hqty]
    refine ⟨by simp, fun q => ?_, fun _ _ => rfl, by simp, by simp, fun _ _ _ => rfl⟩
    exact ⟨fun hq => ⟨hq, List.not_mem_nil⟩, fun hq => hq.1⟩
  · have hva := hv.accept taker
    obtain ⟨levels, hf⟩ : ∃ levels, Front (b.accept taker) taker levels := by
      unfold Sweeps at h
      generalize newOrderCalls stray taker b = calls at h
      cases h with
      | done hnext => exact exists_front hva hqty hnext
      | step hnext _ _ => exact exists_front hva hqty hnext
    have hswept := h.swept hva hqty hf
    rw [← hf.sweep_eq hva hqty] at hswept
    exact ⟨hswept.mem_live, hswept.live, hswept.data, hswept.called, hswept.entry_of_mem,
      hswept.entry_of_not_mem⟩

end effect

end HftSys
