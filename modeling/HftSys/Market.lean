import HftSys.Lib.Ladder
import HftSys.RemovalFrame

/-!
# A book as a market

What a book is for, without pointers, pools and a price table: two ladders of price levels with
their orders, the next order id, and what has been said so far (`Market`). A new order uses up the
levels of the other side that its price reaches, from the best one on, each order in executions of
at most the incoming quantity, and then rests with the whole of it; a cancel takes out the order of
its key.

That the incoming quantity is not reduced, and that a level behind all others of its side goes right
behind the best one, is what `findMatch` and `addPriceLevel` do and is taken over here.

* `Market.handle`: a request on a market.
* `Market.Admits`: the requests a book handles as its market does. A remainder has to come with a
  free key inside the client map, has to find a block, and must not share the slot of its price with
  a level of another side or price.
* `OrderBook.market`: the market of a book.
-/

namespace HftSys

open Ladders

variable {B : Build}

/-- What an order book stands for. -/
structure Market where
  bids : Ladder Price Order
  asks : Ladder Price Order
  nextMarketOid : OrderID
  ome : List Emission

/-- The order has the key of a request. -/
def Order.hasKey (c : ClientID) (k : OrderID) (o : Order) : Bool :=
  o.clientId = c ∧ o.clientOrderId = k

/-- An incoming order is matched at all: it asks for something, on one of the two sides. -/
def NewOrder.Matches (taker : NewOrder) : Prop := taker.qty ≠ 0 ∧ taker.side.Proper

instance (taker : NewOrder) : Decidable taker.Matches := inferInstanceAs (Decidable (_ ∧ _))

/-- The incoming price reaches a level. -/
def NewOrder.meets (taker : NewOrder) (r : Price × List Order) : Bool :=
  !misses taker.side taker.price r.1

/-- The executions by which an order is used up when each asks for `q`: the order after each of
them, and the quantity executed. -/
def fillsOf (q : Qty) (o : Order) : List (Order × Qty) :=
  if q = 0 ∨ o.qty ≤ q then [({ o with qty := 0 }, o.qty)]
  else ({ o with qty := o.qty - q }, q) :: fillsOf q { o with qty := o.qty - q }
termination_by o.qty.toNat
decreasing_by
  rename_i h
  rw [not_or, UInt32.not_le, UInt32.lt_iff_toNat_lt, ← UInt32.toNat_inj] at h
  have hsub : (o.qty - q).toNat = o.qty.toNat - q.toNat :=
    UInt32.toNat_sub_of_le _ _ (UInt32.le_iff_toNat_le.mpr h.2.le)
  rw [hsub]
  have hq : q.toNat ≠ 0 := h.1
  omega

/-- The calls on the engine about some executions, the first of which is the `n`-th call. -/
def tradeLog (stray : ℕ → Qty) (taker : NewOrder) (newMarketOid : OrderID) :
    ℕ → List (Order × Qty) → List Emission
  | _, [] => []
  | n, (o, fillQty) :: fills =>
    matchEvents taker newMarketOid (stray n) o fillQty ++
      tradeLog stray taker newMarketOid (n + 4) fills

namespace Market

/-- The ladder of a side. -/
def side (m : Market) (s : Side) : Ladder Price Order := if s = .buy then m.bids else m.asks

/-- The market with the ladder of a side replaced. -/
def setSide (m : Market) (s : Side) (L : Ladder Price Order) : Market :=
  if s = .buy then { m with bids := L } else { m with asks := L }

/-- All resting orders. -/
def orders (m : Market) : List Order := m.bids.orders ++ m.asks.orders

/-- An order is given its id and accepted. -/
def accept (m : Market) (taker : NewOrder) : Market :=
  { m with
    nextMarketOid := m.nextMarketOid + 1
    ome := m.ome ++ [.response (taker.acceptance m.nextMarketOid)] }

/-- The orders an incoming one uses up. -/
def inReach (m : Market) (taker : NewOrder) : List Order :=
  if taker.Matches then Ladder.orders ((m.side taker.side.other).takeWhile taker.meets) else []

/-- The market without the levels an incoming order reaches. -/
def cleared (m : Market) (taker : NewOrder) : Market :=
  if taker.Matches then
    m.setSide taker.side.other ((m.side taker.side.other).dropWhile taker.meets)
  else m

/-- The executions of an incoming order. -/
def executions (m : Market) (taker : NewOrder) : List (Order × Qty) :=
  (m.inReach taker).flatMap (fillsOf taker.qty)

/-- The ladder of the other side after its first order has been executed once, the incoming order
asking for `q`. -/
def front (q : Qty) : Ladder Price Order → Ladder Price Order
  | (k, o :: os) :: L =>
    if o.qty ≤ q then if os = [] then L else (k, os) :: L
    else (k, { o with qty := o.qty - q } :: os) :: L
  | L => L

/-- The calls on the engine about the first execution of order `o`. -/
def turnLog (stray : ℕ → Qty) (m : Market) (taker : NewOrder) (newMarketOid : OrderID) (o : Order) :
    List Emission :=
  matchEvents taker newMarketOid (stray m.ome.length)
    { o with qty := o.qty - min taker.qty o.qty } (min taker.qty o.qty)

/-- One execution of the first order in reach, which is `o`. -/
def turn (stray : ℕ → Qty) (m : Market) (taker : NewOrder) (newMarketOid : OrderID) (o : Order) :
    Market :=
  { m.setSide taker.side.other (front taker.qty (m.side taker.side.other)) with
    ome := m.ome ++ m.turnLog stray taker newMarketOid o }

/-- An incoming order uses up what it reaches. -/
def sweep (stray : ℕ → Qty) (m : Market) (taker : NewOrder) (newMarketOid : OrderID) : Market :=
  { m.cleared taker with
    ome := m.ome ++ tradeLog stray taker newMarketOid m.ome.length (m.executions taker) }

/-- Where a level goes among the others of its side. -/
def place (s : Side) (n : Price × List Order) (L : Ladder Price Order) : Ladder Price Order :=
  ringWith (fun r => addsAfter s n.1 r.1) (fun r => becomesBest s n.1 r.1) n L

/-- The order an incoming one rests as, behind the last one of its price. -/
def resting (m : Market) (taker : NewOrder) (newMarketOid : OrderID) : Order :=
  taker.toOrder newMarketOid taker.qty
    (match (m.side taker.side).last taker.price with
      | none => 1
      | some o => o.priority + 1)

/-- An incoming order comes to rest. -/
def rest (m : Market) (taker : NewOrder) (newMarketOid : OrderID) : Market :=
  { m.setSide taker.side ((m.side taker.side).enter (place taker.side) taker.price
      (m.resting taker newMarketOid)) with
    ome := m.ome ++ [.update (m.resting taker newMarketOid).added] }

/-- The market without the order of a key. -/
def withdraw (m : Market) (c : ClientID) (k : OrderID) : Market :=
  { m with
    bids := m.bids.without (Order.hasKey c k)
    asks := m.asks.without (Order.hasKey c k) }

/-- A cancel takes out the order of its key, or is rejected. -/
def cancel (m : Market) (r : CancelOrder) : Market :=
  match m.orders.find? (Order.hasKey r.clientId r.orderId) with
  | none => { m with ome := m.ome ++ [.response r.rejection] }
  | some o => { m.withdraw r.clientId r.orderId with ome := m.ome ++ r.events o }

/-- A request on a market. -/
def handle (stray : ℕ → Qty) (m : Market) : Request → Market
  | .new taker =>
    if taker.qty = 0 then m.accept taker
    else ((m.accept taker).sweep stray taker m.nextMarketOid).rest taker m.nextMarketOid
  | .cancel r => m.cancel r

/-- The requests one after the other. -/
def handleAll (stray : ℕ → Qty) (m : Market) (rs : List Request) : Market :=
  rs.foldl (handle stray) m

/-- A new market. -/
def empty : Market := ⟨[], [], 1, []⟩

/-- There is a place for an incoming order to rest in a book of build `B`. -/
structure HasPlace (B : Build) (m : Market) (taker : NewOrder) : Prop where
  proper : taker.side.Proper
  key : InClientMap B taker.clientId taker.clientOid
  free : ∀ o ∈ m.orders, o.hasKey taker.clientId taker.clientOid = false
  room : m.orders.length < maxOrderIds
  own : ∀ r ∈ m.side taker.side, slotOf B r.1 = slotOf B taker.price → r.1 = taker.price
  other : ∀ r ∈ m.side taker.side.other, slotOf B r.1 ≠ slotOf B taker.price

instance (B : Build) (m : Market) (taker : NewOrder) : Decidable (HasPlace B m taker) :=
  decidable_of_iff (taker.side.Proper ∧ InClientMap B taker.clientId taker.clientOid ∧
      (∀ o ∈ m.orders, o.hasKey taker.clientId taker.clientOid = false) ∧
      m.orders.length < maxOrderIds ∧
      (∀ r ∈ m.side taker.side, slotOf B r.1 = slotOf B taker.price → r.1 = taker.price) ∧
      ∀ r ∈ m.side taker.side.other, slotOf B r.1 ≠ slotOf B taker.price)
    ⟨fun ⟨h₁, h₂, h₃, h₄, h₅, h₆⟩ => ⟨h₁, h₂, h₃, h₄, h₅, h₆⟩,
      fun h => ⟨h.proper, h.key, h.free, h.room, h.own, h.other⟩⟩

/-- The requests a book of build `B` handles to the end, whatever it makes of them: a remainder
needs a key inside the client map and a block, a cancel an order id inside the map. -/
def Survives (B : Build) (m : Market) : Request → Prop
  | .new taker => taker.qty ≠ 0 → InClientMap B taker.clientId taker.clientOid ∧
      (m.cleared taker).orders.length < maxOrderIds
  | .cancel r => r.clientId.toNat < maxNClients B → r.orderId.toNat < maxOrderIds

instance (B : Build) (m : Market) : DecidablePred (m.Survives B)
  | .new _ => inferInstanceAs (Decidable (_ → _))
  | .cancel _ => inferInstanceAs (Decidable (_ → _))

/-- The requests a book of build `B` handles as its market does. -/
def Admits (B : Build) (m : Market) : Request → Prop
  | .new taker => taker.qty ≠ 0 → HasPlace B (m.cleared taker) taker
  | .cancel r => r.clientId.toNat < maxNClients B → r.orderId.toNat < maxOrderIds

instance (B : Build) (m : Market) : DecidablePred (m.Admits B)
  | .new _ => inferInstanceAs (Decidable (_ → _))
  | .cancel _ => inferInstanceAs (Decidable (_ → _))

/-- Every request is admitted by the market it meets. -/
def AdmitsAll (B : Build) (stray : ℕ → Qty) (m : Market) : List Request → Prop
  | [] => True
  | r :: rs => m.Admits B r ∧ (m.handle stray r).AdmitsAll B stray rs

instance decidableAdmitsAll (B : Build) (stray : ℕ → Qty) (m : Market) :
    DecidablePred (m.AdmitsAll B stray)
  | [] => inferInstanceAs (Decidable True)
  | r :: rs =>
    have := decidableAdmitsAll B stray (m.handle stray r) rs
    inferInstanceAs (Decidable (_ ∧ _))

end Market

/-- A level put in among the images of a ring's levels. -/
theorem map_ringWith {ι κ : Type} (f : ι → κ) (after better : κ → Bool) (n : ι) (ring : List ι) :
    (ringWith (fun z => after (f z)) (fun z => better (f z)) n ring).map f =
      ringWith after better (f n) (ring.map f) := by
  cases ring with
  | nil => rfl
  | cons best rest =>
    have htake : (rest.takeWhile fun z => after (f z)).map f = (rest.map f).takeWhile after :=
      List.takeWhile_map.symm
    have hdrop : (rest.dropWhile fun z => after (f z)).map f = (rest.map f).dropWhile after :=
      List.dropWhile_map.symm
    have hall : (rest.map f).all after = rest.all fun z => after (f z) := List.all_map
    simp only [ringWith, placeLevel, List.map_cons, hall]
    split_ifs <;> simp [htake, hdrop]

/-! ## Executions one at a time -/

theorem min_qty_of_le {q x : Qty} (h : x ≤ q) : min q x = x := by
  show (if q ≤ x then q else x) = x
  split
  · rename_i hqx
    exact UInt32.le_antisymm hqx h
  · rfl

theorem min_qty_of_lt {q x : Qty} (h : ¬ x ≤ q) : min q x = q :=
  if_pos (UInt32.le_of_lt (UInt32.not_le.mp h))

theorem fillsOf_of_le {q : Qty} {o : Order} (h : o.qty ≤ q) :
    fillsOf q o = [({ o with qty := 0 }, o.qty)] := by
  rw [fillsOf, if_pos (Or.inr h)]

theorem fillsOf_of_lt {q : Qty} {o : Order} (hq : q ≠ 0) (h : ¬ o.qty ≤ q) :
    fillsOf q o =
      ({ o with qty := o.qty - q }, q) :: fillsOf q { o with qty := o.qty - q } := by
  rw [fillsOf, if_neg (by simp [hq, h])]

namespace Market

variable {m : Market} {s t : Side}

theorem side_setSide (hs : s.Proper) (ht : t.Proper) (m : Market) (L : Ladder Price Order) :
    (m.setSide s L).side t = if t = s then L else m.side t := by
  rcases hs with rfl | rfl <;> rcases ht with rfl | rfl <;> simp [side, setSide]

@[simp] theorem nextMarketOid_setSide (m : Market) (s : Side) (L : Ladder Price Order) :
    (m.setSide s L).nextMarketOid = m.nextMarketOid := by
  unfold setSide
  split <;> rfl

/-- A market is its two sides, its counter and its log. -/
theorem ext_sides {m m' : Market} (hside : ∀ s : Side, s.Proper → m.side s = m'.side s)
    (hoid : m.nextMarketOid = m'.nextMarketOid) (home : m.ome = m'.ome) : m = m' := by
  obtain ⟨bids, asks, oid, ome⟩ := m
  obtain ⟨bids', asks', oid', ome'⟩ := m'
  have hbids : bids = bids' := hside .buy (.inl rfl)
  have hasks : asks = asks' := hside .sell (.inr rfl)
  cases hbids
  cases hasks
  cases hoid
  cases home
  rfl

/-- What a side keeps of the levels an incoming order reaches. -/
theorem side_cleared {taker : NewOrder} (hqty : taker.qty ≠ 0) (hs : taker.side.Proper)
    (ht : t.Proper) :
    (m.cleared taker).side t =
      if t = taker.side.other then (m.side taker.side.other).dropWhile taker.meets
      else m.side t := by
  rw [cleared, if_pos ⟨hqty, hs⟩, side_setSide hs.other_proper ht]

@[simp] theorem nextMarketOid_cleared (m : Market) (taker : NewOrder) :
    (m.cleared taker).nextMarketOid = m.nextMarketOid := by
  unfold cleared
  split <;> simp

/-- Nothing in reach, nothing done. -/
theorem sweep_of_none (stray : ℕ → Qty) {taker : NewOrder} (newMarketOid : OrderID)
    (hqty : taker.qty ≠ 0) (hs : taker.side.Proper)
    (h : ∀ r ∈ (m.side taker.side.other).head?, taker.meets r = false) :
    m.sweep stray taker newMarketOid = m := by
  have htake : (m.side taker.side.other).takeWhile taker.meets = [] := by
    cases hL : m.side taker.side.other with
    | nil => rfl
    | cons r L =>
      rw [hL] at h
      rw [List.takeWhile_cons_of_neg (by simp [h r rfl])]
  have hdrop : (m.side taker.side.other).dropWhile taker.meets = m.side taker.side.other := by
    have := List.takeWhile_append_dropWhile (p := taker.meets) (l := m.side taker.side.other)
    rwa [htake, List.nil_append] at this
  apply ext_sides
  · intro t ht
    show (m.cleared taker).side t = m.side t
    rw [side_cleared hqty hs ht, hdrop]
    split
    next h => rw [h]
    · rfl
  · exact nextMarketOid_cleared m taker
  · show m.ome ++ _ = m.ome
    rw [executions, inReach, if_pos ⟨hqty, hs⟩, htake]
    simp [tradeLog]

/-- **An execution at a time**: what is in reach is still used up after the first execution. -/
theorem sweep_turn (stray : ℕ → Qty) {taker : NewOrder} (newMarketOid : OrderID)
    (hqty : taker.qty ≠ 0) (hs : taker.side.Proper) {k : Price} {o : Order} {os : List Order}
    {L : Ladder Price Order} (hL : m.side taker.side.other = (k, o :: os) :: L)
    (hmeets : taker.meets (k, o :: os) = true) :
    (m.turn stray taker newMarketOid o).sweep stray taker newMarketOid =
      m.sweep stray taker newMarketOid := by
  have hside : ∀ t : Side, t.Proper → (m.turn stray taker newMarketOid o).side t =
      if t = taker.side.other then front taker.qty (m.side taker.side.other) else m.side t :=
    fun t ht => side_setSide hs.other_proper ht m _
  have hmeets' : ∀ os', taker.meets (k, os') = true := fun _ => hmeets
  -- the levels in reach, before and after
  have hdrop : (front taker.qty (m.side taker.side.other)).dropWhile taker.meets =
      (m.side taker.side.other).dropWhile taker.meets := by
    rw [hL, List.dropWhile_cons_of_pos hmeets]
    simp only [front]
    split_ifs
    · rfl
    · rw [List.dropWhile_cons_of_pos (hmeets' _)]
    · rw [List.dropWhile_cons_of_pos (hmeets' _)]
  have hfills : m.executions taker =
      ({ o with qty := o.qty - min taker.qty o.qty }, min taker.qty o.qty) ::
        (m.turn stray taker newMarketOid o).executions taker := by
    rw [executions, executions, inReach, inReach, if_pos ⟨hqty, hs⟩, if_pos ⟨hqty, hs⟩,
      hside _ hs.other_proper, if_pos rfl, hL, List.takeWhile_cons_of_pos hmeets, front,
      Ladder.orders_cons, List.cons_append, List.flatMap_cons]
    by_cases hle : o.qty ≤ taker.qty
    · have hmin : min taker.qty o.qty = o.qty := min_qty_of_le hle
      rw [fillsOf_of_le hle, if_pos hle, hmin, UInt32.sub_self, List.singleton_append]
      congr 1
      split_ifs with hos
      · rw [hos]
        rfl
      · rw [List.takeWhile_cons_of_pos (hmeets' _), Ladder.orders_cons]
    · have hmin : min taker.qty o.qty = taker.qty := min_qty_of_lt hle
      rw [fillsOf_of_lt hqty hle, if_neg hle, hmin, List.takeWhile_cons_of_pos (hmeets' _),
        Ladder.orders_cons, List.cons_append]
      rfl
  apply ext_sides
  · intro t ht
    show ((m.turn stray taker newMarketOid o).cleared taker).side t = (m.cleared taker).side t
    rw [side_cleared hqty hs ht, side_cleared hqty hs ht, hside _ hs.other_proper, if_pos rfl,
      hdrop, hside t ht]
    split <;> rfl
  · show ((m.turn stray taker newMarketOid o).cleared taker).nextMarketOid =
      (m.cleared taker).nextMarketOid
    rw [nextMarketOid_cleared, nextMarketOid_cleared]
    exact nextMarketOid_setSide m _ _
  · have hlen : (m.turnLog stray taker newMarketOid o).length = 4 := rfl
    show m.ome ++ m.turnLog stray taker newMarketOid o ++ _ = m.ome ++ _
    rw [hfills, tradeLog, List.append_assoc]
    congr 2
    show tradeLog stray taker newMarketOid
      (m.ome ++ m.turnLog stray taker newMarketOid o).length _ = _
    rw [List.length_append, hlen]

end Market

/-! ## The market of a book -/

/-- The levels of a side as its ring spells them out, each with its orders. -/
def OrderBook.ladder (b : OrderBook B) (s : Side) : Ladder Price Order :=
  (b.levelsFrom (b.bestOf s)).map fun l => ((b.level l).price, (b.ordersOf l).map b.data)

/-- What a book stands for. -/
def OrderBook.market (b : OrderBook B) : Market :=
  ⟨b.ladder .buy, b.ladder .sell, b.nextMarketOid, b.ome⟩

end HftSys
