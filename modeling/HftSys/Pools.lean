import HftSys.PoolInvariant
import HftSys.Runs
import HftSys.Walk

/-!
# The pools of a book

Every program on a book keeps its two pools well-formed: it only reaches them through `allocate`,
`deallocate` and assignments to objects in use (`keepsPools`). So on a reachable book `allocate`
returns null or a block, and neither its assertions nor its scan can stop the process
(`pools_wellFormed`).
-/

namespace HftSys

open Exec

variable {B : Build}

/-- Both pools agree with their counts and cursors. -/
structure PoolsWellFormed (b : OrderBook B) : Prop where
  orders : b.orderPool.WellFormed
  levels : b.ordersAtPricePool.WellFormed

namespace MemoryPool

variable {T : Type} {size : ℕ} {pool pool' : MemoryPool T size}

/-- An assignment through a pointer to a block in use. One through any other pointer is a fault, and
then there is no pool to speak of. -/
theorem WellFormed.store {f : T → T} {q : Option (Fin size)} (h : pool.WellFormed)
    (hs : pool.store f q = .ok pool') : pool'.WellFormed := by
  cases q with
  | none => cases hs
  | some i =>
    simp only [MemoryPool.store] at hs
    split at hs
    · cases hs
      exact h.set i _
    · cases hs

/-- `allocate` finds no block free, or takes the one at the cursor; the cursor is moved on to a free
block if there is one left. -/
theorem WellFormed.allocate {x : T} {q : Option (Fin size)} (h : pool.WellFormed)
    (hq : pool.allocate x = .ok (q, pool')) : pool'.WellFormed := by
  rcases Nat.eq_zero_or_pos pool.freeBlocksCount with hzero | hpos
  · rw [allocate_of_zero hzero] at hq
    cases hq
    exact h
  · obtain ⟨pool₁, hok, -, -, hwf⟩ := h.allocate_of_pos hpos x
    rw [hok] at hq
    cases hq
    exact hwf

/-- `deallocate` takes back a block in use only: its assertion refuses null and blocks that are
free. -/
theorem WellFormed.deallocate {q : Option (Fin size)} (h : pool.WellFormed)
    (hq : pool.deallocate q = .ok pool') : pool'.WellFormed := by
  cases q with
  | none => cases hq
  | some i =>
    by_cases hi : pool.Live i
    · rw [deallocate_of_live hi] at hq
      cases hq
      exact h.release hi
    · simp only [MemoryPool.deallocate, if_neg hi] at hq
      cases hq

end MemoryPool

/-! ## The accesses -/

/-- A program keeps the pools well-formed. -/
abbrev KeepsPools {α : Type} (x : BookM B α) : Prop := Keeps PoolsWellFormed x

section accesses

/-- A read through a pointer to an order: it finds the order, or is a fault. -/
theorem keepsPools_derefOrder (q : Option OrderPtr) : KeepsPools (B := B) (derefOrder q) := by
  intro b o b' hb h
  obtain ⟨-, -, -, -, rfl⟩ := derefOrder_eq_ok.mp h
  exact hb

/-- See `keepsPools_derefOrder`. -/
theorem keepsPools_derefLevel (q : Option (LevelPtr B)) : KeepsPools (derefLevel q) := by
  intro b l b' hb h
  obtain ⟨-, -, -, -, rfl⟩ := derefLevel_eq_ok.mp h
  exact hb

/-- A write through a pointer to an order: the flag of its block stays as it is. -/
theorem keepsPools_storeOrder (q : Option OrderPtr) (f : Order → Order) :
    KeepsPools (B := B) (storeOrder q f) := by
  intro b u b' hb h
  unfold storeOrder at h
  split at h
  · rename_i pool hpool
    cases h
    exact ⟨hb.orders.store hpool, hb.levels⟩
  · cases h

/-- See `keepsPools_storeOrder`. -/
theorem keepsPools_storeLevel (q : Option (LevelPtr B)) (f : OrdersAtPrice B → OrdersAtPrice B) :
    KeepsPools (storeLevel q f) := by
  intro b u b' hb h
  unfold storeLevel at h
  split at h
  · rename_i pool hpool
    cases h
    exact ⟨hb.orders, hb.levels.store hpool⟩
  · cases h

/-- The pool of orders hands out a block, or null. -/
theorem keepsPools_allocateOrder (o : Order) : KeepsPools (B := B) (allocateOrder o) := by
  intro b q b' hb h
  unfold allocateOrder at h
  split at h
  · rename_i q' pool hpool
    cases h
    exact ⟨hb.orders.allocate hpool, hb.levels⟩
  · cases h

/-- See `keepsPools_allocateOrder`. -/
theorem keepsPools_allocateLevel (l : OrdersAtPrice B) : KeepsPools (allocateLevel l) := by
  intro b q b' hb h
  unfold allocateLevel at h
  split at h
  · rename_i q' pool hpool
    cases h
    exact ⟨hb.orders, hb.levels.allocate hpool⟩
  · cases h

/-- The pool of orders takes a block back. -/
theorem keepsPools_deallocateOrder (q : Option OrderPtr) :
    KeepsPools (B := B) (deallocateOrder q) := by
  intro b u b' hb h
  unfold deallocateOrder at h
  split at h
  · rename_i pool hpool
    cases h
    exact ⟨hb.orders.deallocate hpool, hb.levels⟩
  · cases h

/-- See `keepsPools_deallocateOrder`. -/
theorem keepsPools_deallocateLevel (q : Option (LevelPtr B)) : KeepsPools (deallocateLevel q) := by
  intro b u b' hb h
  unfold deallocateLevel at h
  split at h
  · rename_i pool hpool
    cases h
    exact ⟨hb.orders, hb.levels.deallocate hpool⟩
  · cases h

/-- The client map is no part of the pools. -/
theorem keepsPools_setClientOrder (c : ClientID) (k : OrderID) (q : Option OrderPtr) :
    KeepsPools (B := B) (setClientOrder c k q) := by
  intro b u b' hb h
  obtain ⟨-, rfl⟩ := setClientOrder_ok h
  exact ⟨hb.orders, hb.levels⟩

/-- An update of the book that leaves its pools alone. -/
theorem keepsPools_modify {f : OrderBook B → OrderBook B}
    (horders : ∀ b, (f b).orderPool = b.orderPool)
    (hlevels : ∀ b, (f b).ordersAtPricePool = b.ordersAtPricePool) :
    KeepsPools (modify f : BookM B Unit) := by
  intro b u b' hb h
  cases h
  refine ⟨?_, ?_⟩
  · rw [horders]
    exact hb.orders
  · rw [hlevels]
    exact hb.levels

/-- The best pointers are no part of the pools. -/
theorem keepsPools_setBest (side : Side) (p : Option (LevelPtr B)) : KeepsPools (setBest side p) := by
  apply keepsPools_modify
  · intro b
    split <;> rfl
  · intro b
    split <;> rfl

/-- The table of prices is no part of the pools. -/
theorem keepsPools_setLevelForPrice (price : Price) (p : Option (LevelPtr B)) :
    KeepsPools (setLevelForPrice price p) :=
  keepsPools_modify (fun _ => rfl) (fun _ => rfl)

/-- A response is one more call on the engine. -/
theorem keepsPools_dispatchClientResponse (r : OMEClientResponse) :
    KeepsPools (B := B) (dispatchClientResponse r) :=
  keepsPools_modify (fun _ => rfl) (fun _ => rfl)

/-- An update is one more call on the engine. -/
theorem keepsPools_publishMarketUpdate (u : OMEMarketUpdate) :
    KeepsPools (B := B) (publishMarketUpdate u) :=
  keepsPools_modify (fun _ => rfl) (fun _ => rfl)

/-- A new market order id advances the counter only. -/
theorem keepsPools_getNewMarketOrderId : KeepsPools (B := B) getNewMarketOrderId := by
  intro b u b' hb h
  cases h
  exact ⟨hb.orders, hb.levels⟩

/-- A look-up in the client map, which may be out of range, changes nothing. -/
theorem keepsPools_lookupOrder (c : ClientID) (k : OrderID) :
    KeepsPools (B := B) (lookupOrder c k) := by
  intro b q b' hb h
  unfold lookupOrder at h
  split at h
  · split at h
    · cases h
      exact hb
    · cases h
  · cases h
    exact hb

/-- The read through the moved pointer changes nothing. -/
theorem keepsPools_readMovedQty (stray : ℕ → Qty) (qtyRemains fillQty : Qty) :
    KeepsPools (B := B) (readMovedQty stray qtyRemains fillQty) := by
  intro b r b' hb h
  cases h
  exact hb

end accesses

/-! ## The functions of the source -/

section functions

/-- **No access of a book upsets its pools.** -/
theorem keepsPools (B : Build) : Walk (B := B) fun x => KeepsPools x where
  pure := .pure
  diverges := .throw _
  bind := .bind
  get_bind hf _ := .get_bind hf
  derefOrder := keepsPools_derefOrder
  derefLevel := keepsPools_derefLevel
  storeOrder := keepsPools_storeOrder
  storeLevel := keepsPools_storeLevel
  allocateOrder := keepsPools_allocateOrder
  allocateLevel := keepsPools_allocateLevel
  setBest := keepsPools_setBest
  setLevelForPrice := keepsPools_setLevelForPrice
  deallocateOrder := keepsPools_deallocateOrder
  deallocateLevel := keepsPools_deallocateLevel
  setClientOrder := keepsPools_setClientOrder
  lookupOrder := keepsPools_lookupOrder
  getNewMarketOrderId := keepsPools_getNewMarketOrderId
  dispatchClientResponse := keepsPools_dispatchClientResponse
  publishMarketUpdate := keepsPools_publishMarketUpdate

/-- An order that is removed gives its block back, and its level's if it was alone. -/
theorem keepsPools_removeOrderFromBook (p : Option OrderPtr) :
    KeepsPools (B := B) (removeOrderFromBook p) := (keepsPools B).removeOrderFromBook p

/-- The loop of `findMatch` gives back the blocks of the orders it takes out. -/
theorem keepsPools_matchLoop (stray : ℕ → Qty) (taker : NewOrder) (newMarketOid : OrderID)
    (qtyRemains : Qty) (fuel : ℕ) :
    KeepsPools (B := B) (matchLoop stray taker newMarketOid qtyRemains fuel) :=
  (keepsPools B).matchLoop (keepsPools_readMovedQty stray) taker newMarketOid qtyRemains fuel

/-- An order that comes to rest takes a block, and another one if it opens a level. -/
theorem keepsPools_restOrder (taker : NewOrder) (newMarketOid : OrderID) (qtyRemains : Qty) :
    KeepsPools (B := B) (restOrder taker newMarketOid qtyRemains) :=
  (keepsPools B).restOrder taker newMarketOid qtyRemains

/-- A new order gives blocks back while it is matched, and may take some when it comes to rest. -/
theorem keepsPools_addOrder (stray : ℕ → Qty) (taker : NewOrder) :
    KeepsPools (B := B) (addOrder stray taker) :=
  (keepsPools B).addOrder (keepsPools_readMovedQty stray) taker

/-- A cancel gives blocks back if it finds its order. -/
theorem keepsPools_cancelOrder (r : CancelOrder) : KeepsPools (B := B) (cancelOrder r) :=
  (keepsPools B).cancelOrder r

end functions

/-! ## Runs -/

/-- A new book's pools hold free blocks only, and their cursors are on the first one. -/
theorem poolsWellFormed_create (B : Build) : PoolsWellFormed (OrderBook.create B) :=
  ⟨MemoryPool.wellFormed_create _ _, MemoryPool.wellFormed_create _ _⟩

/-- **The pools of a reachable book are well-formed.** -/
theorem pools_wellFormed {stray : ℕ → Qty} {rs : List Request} {b : OrderBook B}
    (h : RunsTo stray rs b) : PoolsWellFormed b := by
  refine (runsOf_book B stray).induction (P := fun _ b => PoolsWellFormed b)
    (poolsWellFormed_create B) ?_ h
  intro rs r b b' _ hb hreq
  cases r with
  | new taker => exact keepsPools_addOrder stray taker b () b' hb hreq
  | cancel r => exact keepsPools_cancelOrder r b () b' hb hreq

end HftSys
