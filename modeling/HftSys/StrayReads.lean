import HftSys.Runs
import HftSys.Walk

/-!
# What the moved pointer lets out

`matchOrder` reports the incoming order's remainder through a pointer that it has moved by then, so
that the value is whatever the memory there holds (`readMovedQty`). Nothing is decided by it: two
books whose reads differ handle the same requests alike.

* `Emission.UpToRemain`: two calls on the engine are the same, up to the remainder in a `FILLED`.
* `OrderBook.UpToRemain`: two books are the same, up to such calls. No function of the book looks
  at the calls made, so that each is `Blind` to the difference (`blindToRemain`).
* `RunsTo.upToRemain`: two runs of the same requests, each with its own memory, end in such books.
-/

namespace HftSys

open Exec Runs

variable {B : Build}

/-- The calls are the same, or both are a `FILLED` that differs in the remainder only. -/
inductive Emission.UpToRemain : Emission → Emission → Prop
  | same (c : Emission) : UpToRemain c c
  | filled {r : OMEClientResponse} (qty : Qty) (h : r.type = .filled) :
      UpToRemain (.response r) (.response { r with qtyRemain := qty })

/-- The books are the same, up to the remainders in the calls made. -/
inductive OrderBook.UpToRemain (b : OrderBook B) : OrderBook B → Prop
  | mk {log : List Emission} (calls : List.Forall₂ Emission.UpToRemain b.ome log) :
      b.UpToRemain { b with ome := log }

/-- Two books that differ in the calls made only, by these. -/
theorem OrderBook.UpToRemain.calls {b b' : OrderBook B} (h : b.UpToRemain b') :
    List.Forall₂ Emission.UpToRemain b.ome b'.ome := by
  cases h with
  | mk calls => exact calls

/-- A program on a book that does not tell remainders apart. -/
abbrev BlindToRemain {α : Type} (x : BookM B α) : Prop := Blind OrderBook.UpToRemain x

/-! ## The accesses -/

section accesses

/-- A read through a pointer. -/
theorem blind_derefOrder (q : Option OrderPtr) : BlindToRemain (B := B) (derefOrder q) := by
  rintro b _ ⟨calls⟩
  unfold derefOrder
  cases b.orderPool.deref q with
  | ok o => exact .ok rfl ⟨calls⟩
  | error e => exact .error e

/-- See `blind_derefOrder`. -/
theorem blind_derefLevel (q : Option (LevelPtr B)) : BlindToRemain (derefLevel q) := by
  rintro b _ ⟨calls⟩
  unfold derefLevel
  cases b.ordersAtPricePool.deref q with
  | ok l => exact .ok rfl ⟨calls⟩
  | error e => exact .error e

/-- A write through a pointer. -/
theorem blind_storeOrder (q : Option OrderPtr) (f : Order → Order) :
    BlindToRemain (B := B) (storeOrder q f) := by
  rintro b _ ⟨calls⟩
  unfold storeOrder
  dsimp only
  cases b.orderPool.store f q with
  | ok pool => exact .ok rfl (.mk (b := { b with orderPool := pool }) calls)
  | error e => exact .error e

/-- See `blind_storeOrder`. -/
theorem blind_storeLevel (q : Option (LevelPtr B)) (f : OrdersAtPrice B → OrdersAtPrice B) :
    BlindToRemain (storeLevel q f) := by
  rintro b _ ⟨calls⟩
  unfold storeLevel
  dsimp only
  cases b.ordersAtPricePool.store f q with
  | ok pool => exact .ok rfl (.mk (b := { b with ordersAtPricePool := pool }) calls)
  | error e => exact .error e

/-- A block is handed out by its flag, whatever has been reported. -/
theorem blind_allocateOrder (o : Order) : BlindToRemain (B := B) (allocateOrder o) := by
  rintro b _ ⟨calls⟩
  unfold allocateOrder
  dsimp only
  cases b.orderPool.allocate o with
  | ok result => exact .ok rfl (.mk (b := { b with orderPool := result.2 }) calls)
  | error e => exact .error e

/-- See `blind_allocateOrder`. -/
theorem blind_allocateLevel (l : OrdersAtPrice B) : BlindToRemain (allocateLevel l) := by
  rintro b _ ⟨calls⟩
  unfold allocateLevel
  dsimp only
  cases b.ordersAtPricePool.allocate l with
  | ok result => exact .ok rfl (.mk (b := { b with ordersAtPricePool := result.2 }) calls)
  | error e => exact .error e

/-- A block is given back. -/
theorem blind_deallocateOrder (q : Option OrderPtr) :
    BlindToRemain (B := B) (deallocateOrder q) := by
  rintro b _ ⟨calls⟩
  unfold deallocateOrder
  dsimp only
  cases b.orderPool.deallocate q with
  | ok pool => exact .ok rfl (.mk (b := { b with orderPool := pool }) calls)
  | error e => exact .error e

/-- See `blind_deallocateOrder`. -/
theorem blind_deallocateLevel (q : Option (LevelPtr B)) : BlindToRemain (deallocateLevel q) := by
  rintro b _ ⟨calls⟩
  unfold deallocateLevel
  dsimp only
  cases b.ordersAtPricePool.deallocate q with
  | ok pool => exact .ok rfl (.mk (b := { b with ordersAtPricePool := pool }) calls)
  | error e => exact .error e

/-- A subscript of the table of orders, checked against its bounds. -/
theorem blind_setClientOrder (c : ClientID) (k : OrderID) (q : Option OrderPtr) :
    BlindToRemain (B := B) (setClientOrder c k q) := by
  rintro b _ ⟨calls⟩
  unfold setClientOrder
  split
  · exact .ok rfl (.mk (b := { b with mapClientIdToOrder := _ }) calls)
  · exact .error _

/-- A look-up in the client map, checked like `setClientOrder`. -/
theorem blind_lookupOrder (c : ClientID) (k : OrderID) :
    BlindToRemain (B := B) (lookupOrder c k) := by
  rintro b _ ⟨calls⟩
  unfold lookupOrder
  split
  · split
    · exact .ok rfl ⟨calls⟩
    · exact .error _
  · exact .ok rfl ⟨calls⟩

/-- A write to the best pointer of a side. -/
theorem blind_setBest (side : Side) (p : Option (LevelPtr B)) : BlindToRemain (setBest side p) := by
  rintro b _ ⟨calls⟩
  unfold setBest
  split
  · exact .ok rfl (.mk (b := { b with bidsByPrice := p }) calls)
  · exact .ok rfl (.mk (b := { b with asksByPrice := p }) calls)

/-- A write to a slot of the table of prices. -/
theorem blind_setLevelForPrice (price : Price) (p : Option (LevelPtr B)) :
    BlindToRemain (setLevelForPrice price p) := by
  rintro b _ ⟨calls⟩
  exact .ok rfl (.mk (b := { b with mapPriceToPriceLevel := _ }) calls)

/-- The counter of market order ids is the same in both books, and stays so. -/
theorem blind_getNewMarketOrderId : BlindToRemain (B := B) getNewMarketOrderId := by
  rintro b _ ⟨calls⟩
  exact .ok rfl (.mk (b := { b with nextMarketOid := b.nextMarketOid + 1 }) calls)

/-- One more call on each side. -/
theorem OrderBook.UpToRemain.concat {b b' : OrderBook B} {c c' : Emission} (h : b.UpToRemain b')
    (hc : c.UpToRemain c') :
    OrderBook.UpToRemain { b with ome := b.ome ++ [c] } { b' with ome := b'.ome ++ [c'] } := by
  cases h with
  | mk calls =>
    exact .mk (b := { b with ome := b.ome ++ [c] }) (List.rel_append calls (.cons hc .nil))

/-- The same response is added to the calls of both books. -/
theorem blind_dispatchClientResponse (r : OMEClientResponse) :
    BlindToRemain (B := B) (dispatchClientResponse r) :=
  fun _ _ h => .ok rfl (h.concat (.same _))

/-- The same update is added to the calls of both books. -/
theorem blind_publishMarketUpdate (u : OMEMarketUpdate) :
    BlindToRemain (B := B) (publishMarketUpdate u) :=
  fun _ _ h => .ok rfl (h.concat (.same _))

/-- A look at the book, which shows the same but for the calls made. -/
theorem blind_get_bind {β : Type} {f : OrderBook B → BookM B β} (hf : ∀ b, BlindToRemain (f b))
    (hlog : ∀ b log, f { b with ome := log } = f b) :
    BlindToRemain ((get : BookM B (OrderBook B)) >>= f) := by
  apply Alike.get_bind
  intro b b' hbooks
  cases hbooks with
  | @mk log calls =>
    rw [hlog b log]
    exact hf b

end accesses

/-- **No access of a book tells remainders apart.** -/
theorem blindToRemain (B : Build) : Walk (B := B) fun x => BlindToRemain x where
  pure := .pure
  diverges := .throw _
  bind := .bind
  get_bind := blind_get_bind
  derefOrder := blind_derefOrder
  derefLevel := blind_derefLevel
  storeOrder := blind_storeOrder
  storeLevel := blind_storeLevel
  allocateOrder := blind_allocateOrder
  allocateLevel := blind_allocateLevel
  setBest := blind_setBest
  setLevelForPrice := blind_setLevelForPrice
  deallocateOrder := blind_deallocateOrder
  deallocateLevel := blind_deallocateLevel
  setClientOrder := blind_setClientOrder
  lookupOrder := blind_lookupOrder
  getNewMarketOrderId := blind_getNewMarketOrderId
  dispatchClientResponse := blind_dispatchClientResponse
  publishMarketUpdate := blind_publishMarketUpdate

/-! ## The programs that read -/

section reads

variable (stray stray' : ℕ → Qty) (taker : NewOrder) (newMarketOid : OrderID)

/-- **The one read of the moved pointer goes into one `FILLED`**: whatever the two memories hold,
the orders are matched alike. -/
theorem alike_matchOrder (p : Option OrderPtr) (qtyRemains : Qty) :
    Alike OrderBook.UpToRemain Eq (matchOrder (B := B) stray taker newMarketOid p qtyRemains)
      (matchOrder stray' taker newMarketOid p qtyRemains) := by
  unfold matchOrder
  refine Alike.bind (blind_derefOrder _) ?_
  rintro resting _ rfl
  refine Alike.bind (blind_storeOrder _ _) fun _ _ _ => ?_
  refine Alike.bind (blind_derefOrder _) ?_
  rintro o _ rfl
  have hread : Alike (OrderBook.UpToRemain (B := B)) (fun _ _ => True)
      (readMovedQty stray qtyRemains (min qtyRemains resting.qty))
      (readMovedQty stray' qtyRemains (min qtyRemains resting.qty)) :=
    fun _ _ h => .ok trivial h
  refine Alike.bind hread fun reported reported' _ => ?_
  refine Alike.bind (V := Eq) (fun _ _ h => .ok rfl (h.concat (.filled reported' rfl)))
    fun _ _ _ => ?_
  refine Blind.bind (blind_dispatchClientResponse _) fun _ => ?_
  refine Blind.bind (blind_publishMarketUpdate _) fun _ => ?_
  refine Blind.ite (.bind (blind_publishMarketUpdate _) fun _ => ?_) ?_
  · exact (blindToRemain B).removeOrderFromBook _
  · exact blind_publishMarketUpdate _

/-- The loop of `findMatch`: both books find the same order to match, turn by turn. -/
theorem alike_matchLoop (qtyRemains : Qty) (fuel : ℕ) :
    Alike OrderBook.UpToRemain Eq (matchLoop (B := B) stray taker newMarketOid qtyRemains fuel)
      (matchLoop stray' taker newMarketOid qtyRemains fuel) := by
  induction fuel with
  | zero => exact Blind.throw _
  | succ fuel ih =>
    unfold matchLoop
    refine Alike.bind ((blindToRemain B).nextMatch _ _) ?_
    rintro next _ rfl
    cases next with
    | none => exact .pure rfl
    | some p => exact Alike.bind (alike_matchOrder stray stray' _ _ _ _) fun _ _ _ => ih

/-- **A request is handled alike**, whatever the two memories hold. -/
theorem alike_handleRequest (call : Request) :
    Alike OrderBook.UpToRemain Eq (handleRequest (B := B) stray call)
      (handleRequest stray' call) := by
  cases call with
  | cancel r => exact (blindToRemain B).cancelOrder r
  | new taker =>
    show Alike OrderBook.UpToRemain Eq (addOrder stray taker) (addOrder stray' taker)
    unfold addOrder
    refine Alike.bind blind_getNewMarketOrderId ?_
    rintro newMarketOid _ rfl
    refine Alike.bind (blind_dispatchClientResponse _) fun _ _ _ => ?_
    refine Alike.bind (alike_matchLoop stray stray' _ _ _ _) ?_
    rintro qtyRemains _ rfl
    exact Blind.ite (.pure _) ((blindToRemain B).restOrder _ _ _)

end reads

/-- **The memory behind the moved pointer decides nothing**: two runs of the same requests, each
with its own memory, end in the same book, up to the remainders they have reported. -/
theorem RunsTo.upToRemain {stray stray' : ℕ → Qty} {calls : List Request} {b b' : OrderBook B}
    (h : RunsTo stray calls b) (h' : RunsTo stray' calls b') : b.UpToRemain b' := by
  induction calls using List.reverseRecOn generalizing b b' with
  | nil =>
    cases h
    cases h'
    exact .mk .nil
  | append_singleton calls call ih =>
    obtain ⟨b₁, hrun, hreq⟩ := runsTo_concat.mp h
    obtain ⟨b₁', hrun', hreq'⟩ := runsTo_concat.mp h'
    have hresults := alike_handleRequest stray stray' call b₁ b₁' (ih hrun hrun')
    rw [hreq, hreq'] at hresults
    cases hresults with
    | ok _ hbooks => exact hbooks

end HftSys
