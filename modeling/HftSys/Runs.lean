import HftSys.Filing
import HftSys.Lib.Runs
import HftSys.Matching

/-!
# Requests and runs

A request taken apart into the steps it is made of, and the induction over the requests of a run.

* `addOrder_ok`: the order is accepted, `findMatch`'s loop runs, and the quantity it returns, which
  is the whole quantity of the order, is put to rest unless it is zero.
* `cancelOrder_ok`: the request is rejected, or the order its key maps to is taken out.
* `runsOf_book`: the runs of a book are runs, so that the rules for these hold.
* `RunsTo.valid` says that every book a run reaches is valid.
-/

namespace HftSys

open Exec

variable {B : Build}

/-! ## A new order -/

/-- The response that accepts a new order. -/
def NewOrder.acceptance (taker : NewOrder) (newMarketOid : OrderID) : OMEClientResponse :=
  ⟨.accepted, taker.clientId, taker.tickerId, taker.clientOid, newMarketOid, taker.side,
    taker.price, 0, taker.qty⟩

/-- The book after a new order has been given its id and accepted. -/
def OrderBook.accept (b : OrderBook B) (taker : NewOrder) : OrderBook B :=
  { b with
    nextMarketOid := b.nextMarketOid + 1
    ome := b.ome ++ [.response (taker.acceptance b.nextMarketOid)] }

/-- The `matchOrder` calls made for a new order. -/
def newOrderCalls (stray : ℕ → Qty) (taker : NewOrder) (b : OrderBook B) :
    List (OrderBook B × OrderPtr) :=
  matchCalls stray taker b.nextMarketOid taker.qty matchFuel (b.accept taker)

/-- The loop of a new order, from the book it is accepted in. -/
abbrev Sweeps (stray : ℕ → Qty) (taker : NewOrder) (b b₁ : OrderBook B) : Prop :=
  Fills stray taker b.nextMarketOid taker.qty (b.accept taker) (newOrderCalls stray taker b) b₁

/-- The remainder `qty` of a new order with id `newMarketOid` is filed as order `p` and
published. -/
structure Rests (b b' : OrderBook B) (queue : Queues B) (taker : NewOrder)
    (newMarketOid : OrderID) (p : OrderPtr) (o : Order) (b₁ : OrderBook B) : Prop where
  order : o = taker.toOrder newMarketOid taker.qty
    (b.priorityAfter (queue (slotOf B taker.price)))
  files : Files b b₁ queue p o
  book : b' = { b₁ with ome := b₁.ome ++ [.update o.added] }

/-- **`addOrder` taken apart.** -/
theorem addOrder_ok {stray : ℕ → Qty} {taker : NewOrder} {b b' : OrderBook B}
    (h : addOrder stray taker b = .ok () b') :
    ∃ b₁, Sweeps stray taker b b₁ ∧
      (taker.qty = 0 ∧ b' = b₁ ∨
        taker.qty ≠ 0 ∧ restOrder taker b.nextMarketOid taker.qty b₁ = .ok () b') := by
  unfold addOrder at h
  have hid : getNewMarketOrderId b =
      .ok b.nextMarketOid { b with nextMarketOid := b.nextMarketOid + 1 } := rfl
  rw [bind_of_ok hid, bind_of_ok (dispatchClientResponse_apply _ _)] at h
  obtain ⟨r, b₁, hloop, hrest⟩ := bind_eq_ok.mp h
  obtain ⟨rfl, hfills⟩ := matchLoop_ok hloop
  refine ⟨b₁, hfills, ?_⟩
  split at hrest
  · rename_i hqty
    obtain ⟨-, rfl⟩ := pure_eq_ok.mp hrest
    exact .inl ⟨hqty, rfl⟩
  · rename_i hqty
    exact .inr ⟨hqty, hrest⟩

/-- The remainder of a new order at rest, taken apart. -/
theorem rests_of_restOrder {b b' : OrderBook B} {queue : Queues B} {taker : NewOrder}
    {newMarketOid : OrderID} (hs : Sound b queue)
    (h : restOrder taker newMarketOid taker.qty b = .ok () b') :
    ∃ p o b₁, Rests b b' queue taker newMarketOid p o b₁ := by
  obtain ⟨p, b₁, o, ho, hfiles, hb'⟩ := restOrder_ok hs.rings hs.levels_closed h
  exact ⟨p, o, b₁, ho, hfiles, hb'⟩

/-! ## A cancel -/

/-- The response to a cancel for which there is no order. -/
def CancelOrder.rejection (r : CancelOrder) : OMEClientResponse :=
  ⟨.cancelRejected, r.clientId, r.tickerId, r.orderId, orderIdInvalid, .invalid, priceInvalid,
    qtyInvalid, qtyInvalid⟩

/-- The calls on the engine about a cancelled order. -/
def CancelOrder.events (r : CancelOrder) (o : Order) : List Emission :=
  [.update ⟨.cancel, o.marketOrderId, r.tickerId, o.side, o.price, 0, o.priority⟩,
    .response ⟨.cancelled, r.clientId, r.tickerId, r.orderId, o.marketOrderId, o.side, o.price,
      qtyInvalid, o.qty⟩]

/-- The book after a rejected cancel. -/
def OrderBook.reject (b : OrderBook B) (r : CancelOrder) : OrderBook B :=
  { b with ome := b.ome ++ [.response r.rejection] }

/-- The book after order `p` of level `l` has been cancelled. -/
def OrderBook.cancel (b : OrderBook B) (r : CancelOrder) (p : OrderPtr) (l : LevelPtr B) :
    OrderBook B :=
  { b.detach p l with ome := b.ome ++ r.events (b.order p) }

/-- The key of a cancel leads to order `p` of level `l`. -/
structure Finds (b : OrderBook B) (r : CancelOrder) (p : OrderPtr) (l : LevelPtr B) : Prop where
  clientId_lt : r.clientId.toNat < maxNClients B
  orderId_lt : r.orderId.toNat < maxOrderIds
  entry : b.mapClientIdToOrder r.clientId r.orderId = some p
  live : b.LiveOrder p
  slot : b.getLevelForPrice (b.order p).price = some l

/-- The entry of the client map a cancel looks up, when its ids are inside the map. -/
theorem lookupOrder_eq (b : OrderBook B) {c : ClientID} {k : OrderID}
    (hc : c.toNat < maxNClients B) (hk : k.toNat < maxOrderIds) :
    lookupOrder c k b = .ok (b.mapClientIdToOrder c k) b := by
  unfold lookupOrder
  rw [if_pos hc, if_pos hk]

/-- A cancel whose key leads to an order takes it out of its ring, without a fault. -/
theorem Rings.cancelOrder_found {b : OrderBook B} {queue : Queues B} {r : CancelOrder}
    {p : OrderPtr} {l : LevelPtr B} (hr : Rings b queue)
    (hmem : p ∈ queue (slotOf B (b.order p).price))
    (hin : InClientMap B (b.order p).clientId (b.order p).clientOrderId) (h : Finds b r p l) :
    cancelOrder r b = .ok () (b.cancel r p l) := by
  unfold cancelOrder
  rw [bind_of_ok (lookupOrder_eq b h.clientId_lt h.orderId_lt), h.entry]
  simp only []
  rw [bind_of_ok (derefOrder_of_live h.live),
    bind_of_ok (hr.removeOrderFromBook_eq hmem hin h.slot),
    bind_of_ok (publishMarketUpdate_apply _ _), dispatchClientResponse_apply]
  simp only [OrderBook.ome_detach, List.append_assoc, List.cons_append, List.nil_append]
  rfl

/-- A cancel on a sound book whose key leads to an order. -/
theorem cancelOrder_found {b : OrderBook B} {queue : Queues B} {r : CancelOrder} {p : OrderPtr}
    {l : LevelPtr B} (hs : Sound b queue) (h : Finds b r p l) :
    cancelOrder r b = .ok () (b.cancel r p l) :=
  hs.rings.cancelOrder_found (hs.mem_queue_of_live h.live) (hs.inClientMap p h.live) h

/-- **`cancelOrder` taken apart** on a sound book. -/
theorem cancelOrder_ok {b b' : OrderBook B} {queue : Queues B} {r : CancelOrder}
    (hs : Sound b queue) (h : cancelOrder r b = .ok () b') :
    (b' = b.reject r ∧
        ¬ ∃ p, r.clientId.toNat < maxNClients B ∧
          b.mapClientIdToOrder r.clientId r.orderId = some p) ∨
      ∃ p l, Finds b r p l ∧ b' = b.cancel r p l := by
  have hrun := h
  unfold cancelOrder at h
  obtain ⟨found, b₁, hlookup, hcancel⟩ := bind_eq_ok.mp h
  clear h
  unfold lookupOrder at hlookup
  split at hlookup
  · rename_i hc
    split at hlookup
    · rename_i hk
      cases hlookup
      cases hentry : b.mapClientIdToOrder r.clientId r.orderId with
      | none =>
        rw [hentry] at hcancel
        refine .inl ⟨?_, ?_⟩
        · cases hcancel
          rfl
        · rintro ⟨p, -, hp⟩
          cases hp
      | some p =>
        obtain ⟨hp, -⟩ := hs.clientMap _ _ _ hentry
        obtain ⟨l, hl⟩ := hs.exists_level hp
        have hfinds : Finds b r p l := ⟨hc, hk, hentry, hp, hl⟩
        rw [cancelOrder_found hs hfinds] at hrun
        cases hrun
        exact .inr ⟨p, l, hfinds, rfl⟩
    · cases hlookup
  · rename_i hc
    cases hlookup
    refine .inl ⟨?_, fun ⟨_, hlt, _⟩ => hc hlt⟩
    cases hcancel
    rfl

/-! ## Runs -/

section runs

variable {stray : ℕ → Qty} {rs : List Request} {r : Request} {b b' : OrderBook B}

/-- A run and one more request. -/
theorem handleAll_append (rs rs' : List Request) :
    handleAll (B := B) stray (rs ++ rs') b = .ok () b' ↔
      ∃ b₁, handleAll stray rs b = .ok () b₁ ∧ handleAll stray rs' b₁ = .ok () b' := by
  induction rs generalizing b with
  | nil =>
    constructor
    · exact fun h => ⟨b, rfl, h⟩
    · rintro ⟨b₁, hb, h⟩
      cases hb
      exact h
  | cons r rs ih =>
    rw [List.cons_append, handleAll, handleAll, bind_eq_ok]
    constructor
    · rintro ⟨_, b₁, hr, hrest⟩
      obtain ⟨b₂, hrs, hrs'⟩ := ih.mp hrest
      exact ⟨b₂, bind_eq_ok.mpr ⟨_, b₁, hr, hrs⟩, hrs'⟩
    · rintro ⟨b₂, hhead, hrs'⟩
      obtain ⟨_, b₁, hr, hrs⟩ := bind_eq_ok.mp hhead
      exact ⟨_, b₁, hr, ih.mpr ⟨b₂, hrs, hrs'⟩⟩

/-- One request. -/
theorem handleAll_singleton : handleAll stray [r] b = .ok () b' ↔ handleRequest stray r b = .ok () b' := by
  rw [handleAll, bind_eq_ok]
  constructor
  · rintro ⟨_, b₁, hr, hrest⟩
    cases hrest
    exact hr
  · exact fun h => ⟨(), b', h, rfl⟩

/-- A run one request longer. -/
theorem runsTo_concat : RunsTo stray (rs ++ [r]) b' ↔
    ∃ b : OrderBook B, RunsTo stray rs b ∧ handleRequest stray r b = .ok () b' := by
  rw [RunsTo, handleAll_append]
  simp only [handleAll_singleton, RunsTo]

/-- A run around one of its requests. -/
theorem runsTo_split {rs₀ rs₁ : List Request} : RunsTo stray (rs₀ ++ r :: rs₁) b' ↔
    ∃ b₀ b₁ : OrderBook B, RunsTo stray rs₀ b₀ ∧ handleRequest stray r b₀ = .ok () b₁ ∧
      handleAll stray rs₁ b₁ = .ok () b' := by
  rw [RunsTo, handleAll_append]
  constructor
  · rintro ⟨b₀, hrun, hrest⟩
    obtain ⟨_, b₁, hr, hrest⟩ := bind_eq_ok.mp hrest
    exact ⟨b₀, b₁, hrun, hr, hrest⟩
  · rintro ⟨b₀, b₁, hrun, hr, hrest⟩
    exact ⟨b₀, hrun, bind_eq_ok.mpr ⟨(), b₁, hr, hrest⟩⟩

/-- The runs of a book from a new one. -/
theorem runsOf_book (B : Build) (stray : ℕ → Qty) :
    Runs.RunsOf (fun b r b' => handleRequest stray r b = .ok () b') (OrderBook.create B)
      (RunsTo stray) where
  nil {b} := by
    constructor
    · intro h
      cases h
      rfl
    · rintro rfl
      rfl
  concat := runsTo_concat

/-- A run reaches one book. -/
theorem RunsTo.unique (h : RunsTo stray rs b) (h' : RunsTo stray rs b') : b = b' := by
  refine (runsOf_book B stray).unique ?_ h h'
  intro s r s₁ s₂ h₁ h₂
  rw [h₁] at h₂
  cases h₂
  rfl

variable (B stray rs) in
/-- A run from a new book ends without a fault. -/
def completes : Bool :=
  match handleAll stray rs (OrderBook.create B) with
  | .ok _ _ => true
  | .error _ _ => false

variable (B stray rs) in
/-- The book a run from a new book stops in. -/
def bookAfter : OrderBook B :=
  match handleAll stray rs (OrderBook.create B) with
  | .ok _ b => b
  | .error _ b => b

/-- A run that ends without a fault reaches its last book. -/
theorem runsTo_bookAfter (h : completes B stray rs = true) :
    RunsTo stray rs (bookAfter B stray rs) := by
  unfold completes at h
  unfold RunsTo bookAfter
  cases hrun : handleAll stray rs (OrderBook.create B) with
  | ok _ b => rfl
  | error e b =>
    rw [hrun] at h
    cases h

/-- A book that a run reaches is the one the run stops in. -/
theorem RunsTo.eq_bookAfter (h : RunsTo stray rs b) : b = bookAfter B stray rs := by
  unfold bookAfter
  rw [show handleAll stray rs (OrderBook.create B) = .ok () b from h]

/-- The prices of the levels from `best` on, each with the quantities of its orders. -/
def OrderBook.quotesFrom (b : OrderBook B) (best : Option (LevelPtr B)) : List (Price × List Qty) :=
  (b.levelsFrom best).map fun l =>
    ((b.level l).price, (b.ordersOf l).map fun p => (b.order p).qty)

/-- Three levels of asks, the second with two orders, and two of bids. Then a `BUY` takes the best
ask and comes to rest in front of the bids, and the first order of the second level is cancelled. -/
def ladders : List Request :=
  [.new ⟨1, 1, 0, .sell, 102, 10⟩, .new ⟨1, 2, 0, .sell, 101, 10⟩, .new ⟨1, 3, 0, .sell, 100, 10⟩,
    .new ⟨2, 1, 0, .sell, 101, 5⟩, .new ⟨3, 1, 0, .buy, 98, 10⟩, .new ⟨3, 2, 0, .buy, 99, 10⟩,
    .new ⟨4, 1, 0, .buy, 100, 4⟩, .cancel ⟨1, 2, 0⟩]

/-- The book before the match. -/
theorem runsTo_ladders_take : ∃ b : OrderBook .production,
    RunsTo (fun _ => 0) (ladders.take 6) b ∧
      b.quotesFrom b.asksByPrice = [(100, [10]), (101, [10, 5]), (102, [10])] ∧
      b.quotesFrom b.bidsByPrice = [(99, [10]), (98, [10])] :=
  ⟨_, runsTo_bookAfter (by decide +kernel), by decide +kernel, by decide +kernel⟩

/-- The book in the end. -/
theorem runsTo_ladders : ∃ b : OrderBook .production,
    RunsTo (fun _ => 0) ladders b ∧
      b.quotesFrom b.asksByPrice = [(101, [5]), (102, [10])] ∧
      b.quotesFrom b.bidsByPrice = [(100, [4]), (99, [10]), (98, [10])] :=
  ⟨_, runsTo_bookAfter (by decide +kernel), by decide +kernel, by decide +kernel⟩

/-! ## Every reachable book is valid -/

variable {queue : Queues B}

theorem valid_create (B : Build) : Valid (OrderBook.create B) fun _ => [] :=
  ⟨sound_create B, fun p hp => absurd hp (not_liveOrder_create p)⟩

theorem Valid.accept (h : Valid b queue) (taker : NewOrder) : Valid (b.accept taker) queue :=
  ⟨h.congr_counters _ _, h.qtyPos⟩

theorem Valid.reject (h : Valid b queue) (r : CancelOrder) : Valid (b.reject r) queue :=
  ⟨h.congr_counters _ _, h.qtyPos⟩

theorem Valid.cancel {r : CancelOrder} {p : OrderPtr} {l : LevelPtr B} (h : Valid b queue)
    (hf : Finds b r p l) :
    Valid (b.cancel r p l) (Function.update queue (slotOf B (b.order p).price)
      ((queue (slotOf B (b.order p).price)).erase p)) := by
  refine ⟨(h.detach hf.live hf.slot).congr_counters _ _, ?_⟩
  intro q hq
  exact b.forall_live_detach p q l (P := fun o => o.qty ≠ 0) h.qtyPos hq

theorem Valid.rests {taker : NewOrder} {newMarketOid : OrderID} {p : OrderPtr} {o : Order}
    {b₁ : OrderBook B} (h : Valid b queue) (hqty : taker.qty ≠ 0)
    (hr : Rests b b' queue taker newMarketOid p o b₁) :
    Valid b' (Function.update queue (slotOf B o.price) (queue (slotOf B o.price) ++ [p])) := by
  rw [hr.book]
  refine ⟨(h.files hr.files).congr_counters _ _, ?_⟩
  apply hr.files.1.forall_live (P := fun o => o.qty ≠ 0) _ h.qtyPos
  rw [hr.order]
  exact hqty

/-- **`addOrder` taken apart on a valid book**, with a `P` that holds from the acceptance on and
survives every turn. -/
theorem addOrder_cases {P : Queues B → OrderBook B → Prop} {taker : NewOrder}
    (hturn : ∀ queue b₁ p best, Valid b₁ queue → P queue b₁ → Reaches b₁ taker taker.qty best p →
      b₁.getLevelForPrice (b₁.order p).price = some best →
      (queue (slotOf B (b₁.order p).price)).head? = some p →
      P (b₁.queuesAfter queue p taker.qty)
        (b₁.matched stray taker b.nextMarketOid p best taker.qty))
    (hv : Valid b queue) (hP : P queue (b.accept taker))
    (h : addOrder stray taker b = .ok () b') :
    ∃ queue₁ b₁, Valid b₁ queue₁ ∧ P queue₁ b₁ ∧ Sweeps stray taker b b₁ ∧
      (taker.qty = 0 ∧ b' = b₁ ∨
        taker.qty ≠ 0 ∧ ∃ p o b₂, Rests b₁ b' queue₁ taker b.nextMarketOid p o b₂) := by
  obtain ⟨b₁, hloop, hrest⟩ := addOrder_ok h
  obtain ⟨⟨queue₁, hv₁, hP₁⟩, -⟩ := hloop.carries hturn (hv.accept taker) hP
  refine ⟨queue₁, b₁, hv₁, hP₁, hloop, ?_⟩
  rcases hrest with hzero | ⟨hqty, hrest⟩
  · exact .inl hzero
  · exact .inr ⟨hqty, rests_of_restOrder hv₁.toSound hrest⟩

/-- A request keeps a book valid. -/
theorem Valid.request (hv : Valid b queue) (h : handleRequest stray r b = .ok () b') :
    ∃ queue', Valid b' queue' := by
  cases r with
  | new taker =>
    obtain ⟨queue₁, b₁, hv₁, -, -, ⟨-, rfl⟩ | ⟨hqty, p, o, b₂, hr⟩⟩ :=
      addOrder_cases (P := fun _ _ => True) (fun _ _ _ _ _ _ _ _ _ => trivial) hv trivial h
    · exact ⟨queue₁, hv₁⟩
    · exact ⟨_, hv₁.rests hqty hr⟩
  | cancel r =>
    rcases cancelOrder_ok hv.toSound h with ⟨rfl, -⟩ | ⟨p, l, hf, rfl⟩
    · exact ⟨queue, hv.reject r⟩
    · exact ⟨_, hv.cancel hf⟩

/-- **Every book a run reaches is valid.** -/
theorem RunsTo.valid (h : RunsTo stray rs b) : ∃ queue, Valid b queue := by
  refine (runsOf_book B stray).induction (P := fun _ b => ∃ queue, Valid b queue)
    ⟨_, valid_create B⟩ ?_ h
  rintro rs r b b' _ ⟨queue, hv⟩ hreq
  exact hv.request hreq

/-! ## Runs whose requests meet a condition -/

/-- Every request of the run meets a condition on the book it is handled by. -/
abbrev Meets (Cond : OrderBook B → Request → Prop) (stray : ℕ → Qty) (rs : List Request) : Prop :=
  Runs.Meets (RunsTo stray) Cond rs

/-- Every book the run reaches has a property. -/
abbrev Throughout (P : OrderBook B → Prop) (stray : ℕ → Qty) (rs : List Request) : Prop :=
  Runs.Throughout (RunsTo stray) P rs

/-- **The rule for conditions**, on valid books. -/
theorem Meets.invariant {Cond : OrderBook B → Request → Prop} {P : OrderBook B → Prop}
    (h : Meets Cond stray rs) (hcreate : P (OrderBook.create B))
    (hstep : ∀ queue b r b', Valid b queue → P b → Cond b r →
      handleRequest stray r b = .ok () b' → P b') : Throughout P stray rs := by
  apply h.throughout (runsOf_book B stray) hcreate
  intro rs b r b' hrun hb hk hreq
  obtain ⟨queue, hv⟩ := RunsTo.valid hrun
  exact hstep queue b r b' hv hb hk hreq

/-- The requests of a run are checked one by one, each on the book the run has led to. -/
theorem meets_of_forall {Cond : OrderBook B → Request → Prop}
    (h : ∀ n (hn : n < rs.length), Cond (bookAfter B stray (rs.take n)) (rs.get ⟨n, hn⟩)) :
    Meets Cond stray rs := by
  rintro rs₀ r rs₁ b rfl hrun
  have hlen : rs₀.length < (rs₀ ++ r :: rs₁).length := by simp
  have hcond := h rs₀.length hlen
  rw [List.take_left, ← hrun.eq_bookAfter] at hcond
  simpa using hcond

/-- A run of one request. -/
theorem meets_singleton {Cond : OrderBook B → Request → Prop} (h : Cond (OrderBook.create B) r) :
    Meets Cond stray [r] :=
  Runs.Meets.singleton (runsOf_book B stray) h

end runs

end HftSys
