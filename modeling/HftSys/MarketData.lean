import HftSys.Numbering

/-!
# Market data replays to the book

A subscriber folds the updates the book publishes into a map from order ids to what it knows of the
order (`replay`). After every request of a run that accepts fewer than `2 ^ 64` orders that map is
the book's own, and no update ever names an order the subscriber does not know.

The invariant (`Replayed`) holds at every step of a request: a turn of the matching loop publishes
before it takes an order out, but both happen within the turn.
-/

namespace HftSys

variable {B : Build}

/-! ## The subscriber -/

/-- What market data say about an order. -/
structure PublicOrder where
  side : Side
  price : Price
  qty : Qty
  priority : Priority
deriving DecidableEq, Repr

/-- A subscriber's map from order ids. -/
abbrev Snapshot := OrderID → Option PublicOrder

/-- One update: `ADD` inserts, `MODIFY` replaces the quantity, `CANCEL` deletes, and the others
change nothing. -/
def Snapshot.apply (m : Snapshot) (u : OMEMarketUpdate) : Snapshot :=
  match u.type with
  | .add => Function.update m u.orderId (some ⟨u.side, u.price, u.qty, u.priority⟩)
  | .modify => Function.update m u.orderId ((m u.orderId).map fun o => { o with qty := u.qty })
  | .cancel => Function.update m u.orderId none
  | _ => m

/-- The updates folded over an empty map. -/
def replay (us : List OMEMarketUpdate) : Snapshot := us.foldl Snapshot.apply fun _ => none

/-- The update changes or deletes an order that must be known. -/
def OMEMarketUpdate.Refers (u : OMEMarketUpdate) : Prop := u.type = .modify ∨ u.type = .cancel

/-- No update refers to an order absent from the map at that point. -/
def AllKnown (us : List OMEMarketUpdate) : Prop :=
  ∀ us₁ u us₂, us = us₁ ++ u :: us₂ → u.Refers → replay us₁ u.orderId ≠ none

/-- What market data should say about an order. -/
def Order.public (o : Order) : PublicOrder := ⟨o.side, o.price, o.qty, o.priority⟩

/-- The map is that of the orders in use. -/
def Shows (m : Snapshot) (b : OrderBook B) : Prop :=
  ∀ id o, m id = some o ↔
    ∃ p, b.LiveOrder p ∧ (b.order p).marketOrderId = id ∧ (b.order p).public = o

/-- The updates published so far replay to the book. -/
structure Replayed (b : OrderBook B) : Prop where
  shows : Shows (replay (updatesOf b.ome)) b
  known : AllKnown (updatesOf b.ome)

/-! ## Folding -/

theorem replay_append (us us' : List OMEMarketUpdate) :
    replay (us ++ us') = us'.foldl Snapshot.apply (replay us) := List.foldl_append

theorem allKnown_nil : AllKnown [] := by
  intro us₁ u us₂ h
  simp at h

/-- One more update. -/
theorem AllKnown.concat {us : List OMEMarketUpdate} {u : OMEMarketUpdate} (h : AllKnown us)
    (hu : u.Refers → replay us u.orderId ≠ none) : AllKnown (us ++ [u]) := by
  intro us₁ v us₂ heq hv
  rcases List.eq_nil_or_concat us₂ with rfl | ⟨us₃, w, rfl⟩
  · obtain ⟨rfl, hvu⟩ := List.append_inj' heq rfl
    cases hvu
    exact hu hv
  · have heq' : us ++ [u] = (us₁ ++ v :: us₃) ++ [w] := by simpa using heq
    obtain ⟨rfl, -⟩ := List.append_inj' heq' rfl
    exact h us₁ v us₃ rfl hv

/-- One more update, applied. -/
theorem replay_concat (us : List OMEMarketUpdate) (u : OMEMarketUpdate) :
    replay (us ++ [u]) = (replay us).apply u := replay_append us [u]

/-! ## The map at each step -/

section shows

variable {b b' : OrderBook B} {m : Snapshot} {n : ℕ}

/-- A known order, as the map has it. -/
theorem Shows.eq_some (h : Shows m b) {p : OrderPtr} (hp : b.LiveOrder p) :
    m (b.order p).marketOrderId = some (b.order p).public :=
  (h _ _).mpr ⟨p, hp, rfl, rfl⟩

/-- Two books with the same orders have the same map. -/
theorem Shows.congr (h : Shows m b) (hlive : ∀ p, b'.LiveOrder p ↔ b.LiveOrder p)
    (hdata : ∀ p, b.LiveOrder p → b'.data p = b.data p) : Shows m b' := by
  intro id o
  rw [h id o]
  apply exists_congr
  intro p
  rw [hlive]
  apply and_congr_right
  intro hp
  rw [OrderBook.marketOrderId_of_data (hdata p hp), Order.public, Order.public,
    OrderBook.side_of_data (hdata p hp), OrderBook.price_of_data (hdata p hp),
    OrderBook.qty_of_data (hdata p hp), OrderBook.priority_of_data (hdata p hp)]

/-- Deleting the id of the order that is taken out. -/
theorem Shows.delete (h : Shows m b) (hnum : Numbered b n) {p : OrderPtr} (hp : b.LiveOrder p)
    (hlive : ∀ q, b'.LiveOrder q ↔ b.LiveOrder q ∧ q ≠ p)
    (hdata : ∀ q, q ≠ p → b'.data q = b.data q) :
    Shows (Function.update m (b.order p).marketOrderId none) b' := by
  intro id o
  by_cases hid : id = (b.order p).marketOrderId
  · subst hid
    rw [Function.update_self]
    constructor
    · intro hnone
      cases hnone
    · rintro ⟨q, hq, hqid, -⟩
      obtain ⟨hq, hne⟩ := (hlive q).mp hq
      rw [OrderBook.marketOrderId_of_data (hdata q hne)] at hqid
      exact absurd (hnum.id_inj q p hq hp hqid) hne
  · rw [Function.update_of_ne hid, h id o]
    apply exists_congr
    intro q
    by_cases hne : q = p
    · subst hne
      constructor
      · rintro ⟨-, hqid, -⟩
        exact absurd hqid.symm hid
      · rintro ⟨hq, -⟩
        exact absurd rfl ((hlive q).mp hq).2
    · rw [hlive, OrderBook.marketOrderId_of_data (hdata q hne), Order.public, Order.public,
        OrderBook.side_of_data (hdata q hne), OrderBook.price_of_data (hdata q hne),
        OrderBook.qty_of_data (hdata q hne), OrderBook.priority_of_data (hdata q hne)]
      simp [hne]

/-- Replacing the quantity of an order. -/
theorem Shows.modify (h : Shows m b) (hnum : Numbered b n) {p : OrderPtr} {qty : Qty}
    (hp : b.LiveOrder p) (hlive : ∀ q, b'.LiveOrder q ↔ b.LiveOrder q)
    (hdata : ∀ q, q ≠ p → b'.data q = b.data q)
    (hself : b'.data p = { b.data p with qty := qty }) :
    Shows (Function.update m (b.order p).marketOrderId
      ((m (b.order p).marketOrderId).map fun o => { o with qty := qty })) b' := by
  have hpublic : (b'.order p).public = { (b.order p).public with qty := qty } :=
    congrArg Order.public hself
  have hpid : (b'.order p).marketOrderId = (b.order p).marketOrderId := by
    have := congrArg Order.marketOrderId hself
    exact this
  intro id o
  by_cases hid : id = (b.order p).marketOrderId
  · subst hid
    rw [Function.update_self, h.eq_some hp, Option.map_some, ← hpublic]
    constructor
    · intro ho
      exact ⟨p, (hlive p).mpr hp, hpid, Option.some.inj ho⟩
    · rintro ⟨q, hq, hqid, rfl⟩
      have hqp : q = p := by
        by_contra hne
        rw [OrderBook.marketOrderId_of_data (hdata q hne)] at hqid
        exact hne (hnum.id_inj q p ((hlive q).mp hq) hp hqid)
      rw [hqp]
  · rw [Function.update_of_ne hid, h id o]
    apply exists_congr
    intro q
    by_cases hne : q = p
    · subst hne
      rw [hpid]
      simp [Ne.symm hid]
    · rw [hlive, OrderBook.marketOrderId_of_data (hdata q hne), Order.public, Order.public,
        OrderBook.side_of_data (hdata q hne), OrderBook.price_of_data (hdata q hne),
        OrderBook.qty_of_data (hdata q hne), OrderBook.priority_of_data (hdata q hne)]

/-- Inserting the order that is filed. -/
theorem Shows.insert {queue : Queues B} {p : OrderPtr} {o : Order} (h : Shows m b)
    (hnum : Numbered b n) (hf : Files b b' queue p o) (hid : o.marketOrderId.toNat = n + 1) :
    Shows (Function.update m o.marketOrderId (some o.public)) b' := by
  have hfiled := hf.1
  have hpublic : (b'.order p).public = o.public := by
    have := congrArg Order.public hfiled.data_self
    exact this
  have hnew : ∀ q, b.LiveOrder q → (b.order q).marketOrderId ≠ o.marketOrderId := by
    intro q hq e
    have hle := hnum.id_le q hq
    rw [e, hid] at hle
    omega
  have hne : ∀ q, b.LiveOrder q → q ≠ p := fun q hq e => hfiled.fresh (e ▸ hq)
  intro id o'
  by_cases hido : id = o.marketOrderId
  · subst hido
    rw [Function.update_self]
    constructor
    · intro ho
      exact ⟨p, (hfiled.liveOrder p).mpr (.inl rfl), hfiled.marketOrderId_self,
        hpublic.trans (Option.some.inj ho)⟩
    · rintro ⟨q, hq, hqid, rfl⟩
      rcases (hfiled.liveOrder q).mp hq with rfl | hq
      · rw [hpublic]
      · rw [OrderBook.marketOrderId_of_data (hfiled.data_of_ne q (hne q hq))] at hqid
        exact absurd hqid (hnew q hq)
  · rw [Function.update_of_ne hido, h id o']
    apply exists_congr
    intro q
    by_cases hq : q = p
    · subst hq
      constructor
      · exact fun hq => absurd hq.1 hfiled.fresh
      · rintro ⟨-, hqid, -⟩
        rw [hfiled.marketOrderId_self] at hqid
        exact absurd hqid.symm hido
    · rw [hfiled.liveOrder, OrderBook.marketOrderId_of_data (hfiled.data_of_ne q hq), Order.public,
        Order.public, OrderBook.side_of_data (hfiled.data_of_ne q hq),
        OrderBook.price_of_data (hfiled.data_of_ne q hq),
        OrderBook.qty_of_data (hfiled.data_of_ne q hq),
        OrderBook.priority_of_data (hfiled.data_of_ne q hq)]
      simp [hq]

end shows

/-! ## The steps of a request -/

section steps

variable {b b' : OrderBook B} {queue : Queues B} {n : ℕ}

/-- A call on the engine that is no update. -/
theorem Replayed.response (h : Replayed b) {log : List Emission} (hlog : updatesOf log = [])
    (hlive : ∀ p, b'.LiveOrder p ↔ b.LiveOrder p)
    (hdata : ∀ p, b.LiveOrder p → b'.data p = b.data p) (home : b'.ome = b.ome ++ log) :
    Replayed b' := by
  have hsame : updatesOf b'.ome = updatesOf b.ome := by
    rw [home, updatesOf_append, hlog, List.append_nil]
  refine ⟨?_, ?_⟩
  · rw [hsame]
    exact h.shows.congr hlive hdata
  · rw [hsame]
    exact h.known

/-- A turn of the matching loop: `TRADE`, then `CANCEL` or `MODIFY`. -/
theorem Replayed.matched (h : Replayed b) (hnum : Numbered b n) (stray : ℕ → Qty)
    (taker : NewOrder) (newMarketOid : OrderID) {p : OrderPtr} (l : LevelPtr B) (qtyRemains : Qty)
    (hp : b.LiveOrder p) : Replayed (b.matched stray taker newMarketOid p l qtyRemains) := by
  have hdata : ∀ q, q ≠ p → (b.matched stray taker newMarketOid p l qtyRemains).data q = b.data q :=
    fun q hq => b.data_matched_of_ne stray taker newMarketOid p l qtyRemains hq
  have hlive := fun q => b.liveOrder_matched stray taker newMarketOid p q l qtyRemains
  set us := updatesOf b.ome with hus
  set trade : OMEMarketUpdate := ⟨.trade, orderIdInvalid, taker.tickerId, taker.side,
    (b.order p).price, b.fillQty p qtyRemains, priorityInvalid⟩ with htrade
  have hknown : AllKnown (us ++ [trade]) :=
    h.known.concat (fun hr => by rcases hr with e | e <;> cases e)
  have hshows : replay (us ++ [trade]) = replay us := replay_concat us trade
  have hpresent : replay (us ++ [trade]) (b.order p).marketOrderId ≠ none := by
    rw [hshows, h.shows.eq_some hp]
    simp
  by_cases hx : b.Exhausts p qtyRemains
  · have hlog : updatesOf (b.matched stray taker newMarketOid p l qtyRemains).ome =
        us ++ [trade] ++ [⟨.cancel, (b.order p).marketOrderId, taker.tickerId, (b.order p).side,
          (b.order p).price, b.fillQty p qtyRemains, priorityInvalid⟩] := by
      have hzero : (b.orderAfter p qtyRemains).qty = 0 := hx
      rw [OrderBook.ome_matched, updatesOf_append, OrderBook.matchLog, matchEvents, if_pos hzero,
        List.append_assoc]
      rfl
    refine ⟨?_, ?_⟩
    · rw [hlog, replay_concat, hshows]
      refine h.shows.delete hnum hp ?_ hdata
      intro q
      rw [hlive]
      simp [hx]
    · rw [hlog]
      exact hknown.concat fun _ => hpresent
  · have hlog : updatesOf (b.matched stray taker newMarketOid p l qtyRemains).ome =
        us ++ [trade] ++ [⟨.modify, (b.order p).marketOrderId, taker.tickerId, (b.order p).side,
          (b.order p).price, (b.orderAfter p qtyRemains).qty, (b.order p).priority⟩] := by
      have hnonzero : ¬ (b.orderAfter p qtyRemains).qty = 0 := hx
      rw [OrderBook.ome_matched, updatesOf_append, OrderBook.matchLog, matchEvents,
        if_neg hnonzero, List.append_assoc]
      rfl
    refine ⟨?_, ?_⟩
    · rw [hlog, replay_concat, hshows]
      refine h.shows.modify hnum hp ?_ hdata ?_
      · intro q
        rw [hlive]
        simp [hx]
      · rw [OrderBook.data_matched_eq, OrderBook.qty_matched, if_pos rfl]
    · rw [hlog]
      exact hknown.concat fun _ => hpresent

/-- The remainder of a new order: `ADD`. -/
theorem Replayed.rests (h : Replayed b) (hnum : Numbered b n) {taker : NewOrder}
    {newMarketOid : OrderID} {p : OrderPtr} {o : Order} {b₁ : OrderBook B}
    (hoid : newMarketOid.toNat = n + 1) (hr : Rests b b' queue taker newMarketOid p o b₁) :
    Replayed b' := by
  have hid : o.marketOrderId.toNat = n + 1 := by
    rw [hr.order]
    exact hoid
  have hlog : updatesOf b'.ome = updatesOf b.ome ++ [o.added] := by
    rw [hr.book, updatesOf_append, hr.files.1.ome]
    rfl
  refine ⟨?_, ?_⟩
  · rw [hlog, replay_concat]
    have hshows := h.shows.insert hnum hr.files hid
    rw [hr.book]
    exact hshows
  · rw [hlog]
    exact h.known.concat (fun href => by rcases href with e | e <;> cases e)

/-- A cancelled order: `CANCEL`. -/
theorem Replayed.cancel (h : Replayed b) (hnum : Numbered b n) {r : CancelOrder} {p : OrderPtr}
    {l : LevelPtr B} (hf : Finds b r p l) : Replayed (b.cancel r p l) := by
  have hlog : updatesOf (b.cancel r p l).ome = updatesOf b.ome ++
      [⟨.cancel, (b.order p).marketOrderId, r.tickerId, (b.order p).side, (b.order p).price, 0,
        (b.order p).priority⟩] := by
    show updatesOf (b.ome ++ r.events (b.order p)) = _
    rw [updatesOf_append]
    rfl
  refine ⟨?_, ?_⟩
  · rw [hlog, replay_concat]
    exact h.shows.delete hnum hf.live (fun q => b.liveOrder_detach p q l)
      (fun q _ => b.data_detach p q l)
  · rw [hlog]
    apply h.known.concat
    intro _
    rw [h.shows.eq_some hf.live]
    simp

end steps

/-- Every step of a request keeps the subscriber's map that of the book. -/
theorem preserved_replayed (stray : ℕ → Qty) (B : Build) :
    Preserved (B := B) stray (2 ^ 64) (fun _ _ b => Replayed b) (fun _ _ _ _ b => Replayed b) where
  bound_le := le_refl _
  accept _ _ _ h := h.response rfl (fun _ => Iff.rfl) (fun _ _ => rfl) rfl
  turn _ _ hnum _ hr _ _ h := h.matched hnum _ _ _ _ _ hr.live
  done h := h
  rest _ _ _ hnum hoid hr h := h.rests hnum hoid hr
  cancel _ hs hf h := h.cancel hs.toNumbered hf
  reject _ _ h := h.response rfl (fun _ => Iff.rfl) (fun _ _ => rfl) rfl

/-- A new book has nothing to publish. -/
theorem replayed_create (B : Build) : Replayed (OrderBook.create B) where
  shows id o := by
    have hnone : replay (updatesOf (OrderBook.create B).ome) id = none := rfl
    rw [hnone]
    constructor
    · intro h
      cases h
    · rintro ⟨p, hp, -⟩
      exact absurd hp (not_liveOrder_create p)
  known := allKnown_nil

/-- **Market data replay to the book**: after every request of a run that accepts fewer than `2 ^
64` orders, the updates published so far fold to the map from ids to sides, prices, quantities and
priorities of the orders in use, and no `MODIFY` or `CANCEL` among them names an absent id. -/
theorem marketData_replays {stray : ℕ → Qty} {rs : List Request} {b : OrderBook B}
    (h : RunsTo stray rs b) (hn : accepted rs < 2 ^ 64) :
    Shows (replay (updatesOf b.ome)) b ∧ AllKnown (updatesOf b.ome) := by
  obtain ⟨queue, -, hreplayed⟩ := (preserved_replayed stray B).run hn (replayed_create B) h
  exact ⟨hreplayed.shows, hreplayed.known⟩

/-- A run with an order added, partly filled, used up and replaced by another. -/
theorem marketData_replays_sample :
    Shows (replay (updatesOf (bookAfter .production (fun _ => 0)
        [.new ⟨1, 1, 0, .sell, 100, 10⟩, .new ⟨2, 1, 0, .sell, 101, 5⟩,
          .new ⟨3, 1, 0, .buy, 100, 4⟩, .cancel ⟨2, 1, 0⟩]).ome))
      (bookAfter .production (fun _ => 0)
        [.new ⟨1, 1, 0, .sell, 100, 10⟩, .new ⟨2, 1, 0, .sell, 101, 5⟩,
          .new ⟨3, 1, 0, .buy, 100, 4⟩, .cancel ⟨2, 1, 0⟩]) :=
  (marketData_replays (runsTo_bookAfter (by decide +kernel)) (by decide)).1

end HftSys
