import HftSys.AddCancel
import HftSys.MatchingEngine
import HftSys.Responses

/-!
# Floods of responses

Every turn of `findMatch`'s loop sees the quantity the loop began with, so an order of quantity `1`
that meets one of quantity `n` makes `n` turns, of two responses each.

* `LoneMatch`: a new order meets one order, alone in its level and on its side.
* `LoneMatch.matchLoop_floods` and `LoneMatch.addOrder_floods`: how many responses there are at
  least.
-/

namespace HftSys

open Exec

variable {B : Build}

/-- Order `p` is the only one on the side that a new order looks at, and its price is reached. -/
structure LoneMatch (b : OrderBook B) (taker : NewOrder) (ring : Side → List (LevelPtr B))
    (l : LevelPtr B) (p : OrderPtr) : Prop where
  reaches : Reaches b taker taker.qty l p
  twoSided : TwoSided b ring
  ring_eq : ring taker.side.other = [l]
  alone : b.Alone p
  own : (b.order p).side = taker.side.other
  /-- One client has placed both orders. -/
  client : (b.order p).clientId = taker.clientId

/-- Between two books, `n` units have been traded by fills of at most the quantity of `taker`, each
with two responses to its client. -/
def Floods (b b' : OrderBook B) (taker : NewOrder) (n : ℕ) : Prop :=
  ∃ log, b'.ome = b.ome ++ log ∧
    2 * n ≤ taker.qty.toNat * countFrom taker.clientId (responsesOf log)

section flood

variable {stray : ℕ → Qty} {taker : NewOrder} {newMarketOid : OrderID} {b b' : OrderBook B}
  {queue : Queues B} {ring : Side → List (LevelPtr B)} {l : LevelPtr B} {p : OrderPtr}

/-- No turn is made without a best pointer. -/
theorem nextMatch_of_opposite_none {qtyRemains : Qty} (h : b.opposite taker.side = none) :
    nextMatch taker qtyRemains b = .ok none b := by
  unfold nextMatch
  split
  · rfl
  · rw [get_bind, h]
    rfl

namespace LoneMatch

theorem accept (h : LoneMatch b taker ring l p) : LoneMatch (b.accept taker) taker ring l p :=
  ⟨⟨h.reaches.qty, h.reaches.opposite, h.reaches.liveLevel, h.reaches.order0, h.reaches.live,
    h.reaches.price⟩, h.twoSided.congr rfl rfl rfl, h.ring_eq, h.alone, h.own, h.client⟩

/-- A fill leaves the order where it is. -/
theorem traded (stray : ℕ → Qty) (newMarketOid : OrderID) (h : LoneMatch b taker ring l p) :
    LoneMatch (b.traded stray taker newMarketOid p taker.qty) taker ring l p := by
  refine ⟨⟨h.reaches.qty, h.reaches.opposite, h.reaches.liveLevel, h.reaches.order0, ?_, ?_⟩,
    h.twoSided.congr rfl rfl rfl, h.ring_eq, ?_, ?_, ?_⟩
  · rw [OrderBook.liveOrder_traded]
    exact h.reaches.live
  · rw [OrderBook.price_traded]
    exact h.reaches.price
  · rw [OrderBook.Alone, OrderBook.order_traded_eq]
    exact h.alone
  · rw [OrderBook.side_traded]
    exact h.own
  · rw [OrderBook.clientId_traded]
    exact h.client

/-- Once it is taken out, its side is empty. -/
theorem detach (h : LoneMatch b taker ring l p) (hs : Sound b queue) :
    ∃ ring', TwoSided (b.detach p l) ring' ∧ (b.detach p l).opposite taker.side = none := by
  have hside : taker.side.Proper := proper_of_opposite h.reaches.opposite
  have hother := hside.other_proper
  obtain ⟨-, hslot, -⟩ := hs.head_of_level h.reaches.liveLevel h.reaches.order0
  have hmem : l ∈ ring taker.side.other := by
    rw [h.ring_eq]
    exact List.mem_singleton_self l
  have hlevel : (b.level l).side = taker.side.other := h.twoSided.side _ hother l hmem
  have hsafe : ¬ Orphans b p l := fun ⟨_, hne, _⟩ => hne (h.own.trans hlevel.symm)
  have htwo := h.twoSided.detach hs hslot (h.own ▸ hother) hsafe
  refine ⟨_, htwo, ?_⟩
  rw [opposite_eq _ hside, htwo.head _ hother, OrderBook.ringsWithout, if_pos h.alone, hlevel,
    Function.update_self, h.ring_eq, List.erase_cons_head]
  rfl

end LoneMatch

/-- Other messages may come in between. -/
theorem Floods.of_log {log : List Emission} (h : b'.ome = b.ome ++ log) : Floods b b' taker 0 :=
  ⟨log, h, Nat.zero_le _⟩

theorem Floods.trans {b₁ : OrderBook B} {m n : ℕ} (h : Floods b b₁ taker m)
    (h' : Floods b₁ b' taker n) : Floods b b' taker (m + n) := by
  obtain ⟨log, hlog, hm⟩ := h
  obtain ⟨log', hlog', hn⟩ := h'
  refine ⟨log ++ log', by rw [hlog', hlog, List.append_assoc], ?_⟩
  rw [responsesOf_append, countFrom_append, Nat.mul_add, Nat.mul_add]
  exact Nat.add_le_add hm hn

/-- A turn of the loop floods with what it trades. -/
theorem LoneMatch.matched_floods (stray : ℕ → Qty) (newMarketOid : OrderID) (h : LoneMatch b taker ring l p) :
    Floods b (b.matched stray taker newMarketOid p l taker.qty) taker
      (b.fillQty p taker.qty).toNat := by
  refine ⟨_, OrderBook.ome_matched .., ?_⟩
  have htwo : countFrom taker.clientId
      (responsesOf (b.matchLog stray taker newMarketOid p taker.qty)) = 2 := by
    have hclient : (b.orderAfter p taker.qty).clientId = taker.clientId := h.client
    unfold OrderBook.matchLog matchEvents
    split <;> simp [responsesOf, countFrom, hclient]
  rw [htwo, OrderBook.fillQty_toNat, Nat.mul_comm]
  exact Nat.mul_le_mul_right 2 (min_le_left _ _)

/-- What the loop of a lone match leaves behind. -/
structure Emptied (b b' : OrderBook B) (taker : NewOrder) (n : ℕ) : Prop where
  valid : ∃ queue, Valid b' queue
  twoSided : ∃ ring, TwoSided b' ring
  free : ∃ p, ¬ b'.LiveOrder p
  floods : Floods b b' taker n

/-- **The loop makes turns until the order it meets is used up.** -/
theorem LoneMatch.matchLoop_floods (stray : ℕ → Qty) (newMarketOid : OrderID)
    (h : LoneMatch b taker ring l p) (hv : Valid b queue) {fuel : ℕ} (hfuel : (b.order p).qty.toNat < fuel) :
    ∃ b', matchLoop stray taker newMarketOid taker.qty fuel b = .ok taker.qty b' ∧
      Emptied b b' taker (b.order p).qty.toNat := by
  induction fuel generalizing b queue with
  | zero => exact absurd hfuel (Nat.not_lt_zero _)
  | succ fuel ih =>
    obtain ⟨hp, hslot, -⟩ := hv.head_of_level h.reaches.liveLevel h.reaches.order0
    have hmatch := matchOrder_eq hv.toSound stray taker newMarketOid taker.qty hp hslot
    have hfloods := h.matched_floods stray newMarketOid
    have hv₁ := hv.matched stray taker newMarketOid taker.qty hp hslot
    have htaker : taker.qty.toNat ≠ 0 := fun hzero => h.reaches.qty (UInt32.toNat_inj.mp hzero)
    have hfill := b.fillQty_toNat p taker.qty
    have hafter := b.orderAfter_qty_toNat p taker.qty
    unfold matchLoop
    rw [bind_of_ok h.reaches.next]
    simp only []
    rw [bind_of_ok hmatch]
    by_cases hx : b.Exhausts p taker.qty
    · -- the last turn
      have hdead : ¬ (b.matched stray taker newMarketOid p l taker.qty).LiveOrder p := by
        rw [OrderBook.liveOrder_matched]
        exact fun hlive => hlive.2 ⟨hx, rfl⟩
      have hle := UInt32.le_iff_toNat_le.mp ((b.exhausts_iff p taker.qty).mp hx)
      rw [hfill, min_eq_right hle] at hfloods
      rw [OrderBook.matched_of_exhausts b stray taker newMarketOid p l taker.qty hx] at hfloods hdead hv₁ ⊢
      obtain ⟨ring', htwo, hnone⟩ := (h.traded stray newMarketOid).detach
        (hv.toSound.traded stray taker newMarketOid p taker.qty)
      have hpos : (b.order p).qty.toNat ≠ 0 := fun hzero => hv.qtyPos p hp (UInt32.toNat_inj.mp hzero)
      obtain ⟨fuel', rfl⟩ : ∃ k, fuel = k + 1 := ⟨fuel - 1, by omega⟩
      unfold matchLoop
      rw [bind_of_ok (nextMatch_of_opposite_none hnone)]
      exact ⟨_, rfl, ⟨_, hv₁⟩, ⟨ring', htwo⟩, ⟨p, hdead⟩, hfloods⟩
    · -- the order keeps a quantity, and is met again
      have hlt : taker.qty.toNat < (b.order p).qty.toNat := by
        rw [OrderBook.exhausts_iff, UInt32.le_iff_toNat_le] at hx
        omega
      rw [hfill, min_eq_left hlt.le] at hfloods hafter
      rw [OrderBook.matched_of_not_exhausts b stray taker newMarketOid p l taker.qty hx] at hfloods hv₁ ⊢
      have hqty : ((b.traded stray taker newMarketOid p taker.qty).order p).qty.toNat =
          (b.order p).qty.toNat - taker.qty.toNat := by
        rw [OrderBook.order_traded, if_pos rfl, hafter]
      obtain ⟨b', hloop, hemptied⟩ := ih (h.traded stray newMarketOid) hv₁ (by omega)
      refine ⟨b', hloop, hemptied.valid, hemptied.twoSided, hemptied.free, ?_⟩
      have hall := hfloods.trans hemptied.floods
      rwa [hqty, Nat.add_sub_cancel' hlt.le] at hall

/-- **A new order that meets one order alone** gets two responses a turn, however small its own
quantity, and comes to rest. -/
theorem LoneMatch.addOrder_floods (h : LoneMatch b taker ring l p) (hv : Valid b queue)
    (hpools : PoolsWellFormed b) (hin : InClientMap B taker.clientId taker.clientOid)
    (stray : ℕ → Qty) :
    ∃ b', addOrder stray taker b = .ok () b' ∧ Floods b b' taker (b.order p).qty.toNat := by
  have hfuel : ((b.accept taker).order p).qty.toNat < matchFuel := by
    have hlt := ((b.accept taker).order p).qty.toNat_lt
    unfold matchFuel maxOrderIds
    omega
  obtain ⟨b₁, hfind, ⟨queue₁, hv₁⟩, ⟨ring₁, htwo₁⟩, hfree, hfloods⟩ :=
    h.accept.matchLoop_floods stray b.nextMarketOid (hv.accept taker) hfuel
  have hpools₁ : PoolsWellFormed b₁ :=
    keepsPools_matchLoop _ _ _ _ _ (b.accept taker) _ _ ⟨hpools.orders, hpools.levels⟩ hfind
  have hstanding : Standing b₁ ring₁ b₁.ordersOf :=
    ⟨htwo₁.linked hv₁, fun l hl => ⟨_, htwo₁.mem l hl⟩, hpools₁⟩
  obtain ⟨q, b₂, u, hrest⟩ := hstanding.restOrder_eq hfree b.nextMarketOid taker.qty
  rw [bind_of_ok (setClientOrder_of_mem (some q) hin), publishMarketUpdate_apply] at hrest
  obtain ⟨p', b₃, o, -, hfiles, hb'⟩ :=
    restOrder_ok hstanding.rings hstanding.levels_closed hrest
  rw [hb'] at hrest
  refine ⟨{ b₃ with ome := b₃.ome ++ [.update o.added] }, ?_, ?_⟩
  · have hid : getNewMarketOrderId b =
        .ok b.nextMarketOid { b with nextMarketOid := b.nextMarketOid + 1 } := rfl
    unfold addOrder
    rw [bind_of_ok hid, bind_of_ok (dispatchClientResponse_apply _ _)]
    refine (bind_of_ok (show findMatch stray taker b.nextMarketOid _ = _ from hfind)).trans ?_
    rw [if_neg h.reaches.qty]
    exact hrest
  · have haccept : Floods b (b.accept taker) taker 0 := .of_log rfl
    have hrests : Floods b₁ { b₃ with ome := b₃.ome ++ [.update o.added] } taker 0 := by
      apply Floods.of_log
      rw [← hfiles.1.ome]
    have hall := (haccept.trans hfloods).trans hrests
    rwa [Nat.zero_add, Nat.add_zero] at hall

/-- So does the engine. -/
theorem LoneMatch.engine_floods (stray : Ticker → ℕ → Qty) {e : MatchingEngine B}
    {r : OMEClientRequest} {ticker : Ticker}
    (h : LoneMatch (e.orderBookForTicker ticker) taker ring l p)
    (hcall : r.bookCall = some (.new taker)) (hticker : ticker.val = r.tickerId.toNat)
    (hv : Valid (e.orderBookForTicker ticker) queue)
    (hpools : PoolsWellFormed (e.orderBookForTicker ticker))
    (hin : InClientMap B taker.clientId taker.clientOid) :
    ∃ e' calls, e.handleClientRequest stray r = .ok (e', calls) ∧
      2 * ((e.orderBookForTicker ticker).order p).qty.toNat ≤
        taker.qty.toNat * countFrom taker.clientId (responsesOf calls) := by
  obtain ⟨b', hadd, log, hlog, hcount⟩ := h.addOrder_floods hv hpools hin (stray ticker)
  have hhandled := handleClientRequest_of_ok hcall hticker
    (show handleRequest (stray ticker) (.new taker) _ = .ok () b' from hadd)
  rw [hlog, List.drop_left] at hhandled
  exact ⟨_, log, hhandled, hcount⟩

end flood

end HftSys
