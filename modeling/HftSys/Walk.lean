import HftSys.OrderBook
import HftSys.Lib.Exec

/-!
# The functions of a book, access by access

Every function of `OrderBook.lean` is put together from a few accesses: to an object through a
pointer, to a pool, to the client map, to the book's own fields, and from the two calls on the
engine. So a property of programs that each access has, and that goes through sequencing, is one of
every function.

* `LevelWalk W`: `W` goes through sequencing, and the accesses to levels, orders and their pools
  have it. `LevelWalk.openLevel`: the functions that open a price level have it then, and
  `nextMatch`.
* `Walk W`: the accesses to the client map, the releases and the calls have it, too. `Walk.addOrder`
  and `Walk.cancelOrder`: every function has it then.

Where a function looks at the book itself, it does not look at the calls made so far, and
`LevelWalk.get_bind` may use that.
-/

namespace HftSys

open Exec

variable {B : Build}

/-- A property that goes through sequencing, and that the accesses have by which levels are opened
and orders are found. -/
structure LevelWalk (W : ∀ {α : Type}, BookM B α → Prop) : Prop where
  pure : ∀ {α : Type} (a : α), W (pure a : BookM B α)
  /-- A loop that does not end. -/
  diverges : ∀ {α : Type}, W (throw .diverges : BookM B α)
  bind : ∀ {α β : Type} {x : BookM B α} {f : α → BookM B β}, W x → (∀ a, W (f a)) → W (x >>= f)
  /-- A look at the book. What comes next does not depend on the calls made so far. -/
  get_bind : ∀ {β : Type} {f : OrderBook B → BookM B β}, (∀ b, W (f b)) →
    (∀ b log, f { b with ome := log } = f b) → W ((get : BookM B (OrderBook B)) >>= f)
  derefOrder : ∀ q, W (derefOrder q)
  derefLevel : ∀ q, W (derefLevel q)
  storeOrder : ∀ q f, W (storeOrder q f)
  storeLevel : ∀ q f, W (storeLevel q f)
  allocateOrder : ∀ o, W (allocateOrder o)
  allocateLevel : ∀ l, W (allocateLevel l)
  setBest : ∀ side p, W (setBest side p)
  setLevelForPrice : ∀ price p, W (setLevelForPrice price p)

/-- A property that all accesses have, besides. -/
structure Walk (W : ∀ {α : Type}, BookM B α → Prop) : Prop extends LevelWalk W where
  deallocateOrder : ∀ q, W (deallocateOrder q)
  deallocateLevel : ∀ q, W (deallocateLevel q)
  setClientOrder : ∀ c k q, W (setClientOrder c k q)
  lookupOrder : ∀ c k, W (lookupOrder c k)
  getNewMarketOrderId : W getNewMarketOrderId
  dispatchClientResponse : ∀ r, W (dispatchClientResponse r)
  publishMarketUpdate : ∀ u, W (publishMarketUpdate u)

namespace LevelWalk

variable {W : ∀ {α : Type}, BookM B α → Prop}

/-- A property goes through a choice, whatever the condition is. -/
theorem ite (_ : LevelWalk W) {α : Type} {c : Prop} [Decidable c] {x y : BookM B α} (hx : W x)
    (hy : W y) : W (if c then x else y) := by
  split
  · exact hx
  · exact hy

section functions

variable (h : LevelWalk W)
include h

/-! ### Opening a level -/

/-- The search for the neighbour of a new level reads two levels a turn. -/
theorem searchTarget (side : Side) (price : Price) (best : Option (LevelPtr B)) (fuel : ℕ)
    (target : Option (LevelPtr B)) : W (searchTarget side price best fuel target) := by
  induction fuel generalizing target with
  | zero => exact h.diverges
  | succ fuel ih =>
    unfold HftSys.searchTarget
    refine h.bind (h.derefLevel _) fun here => ?_
    refine h.bind (h.derefLevel _) fun there => ?_
    exact h.ite (ih _) (h.pure _)

/-- The neighbour is found by the search, or is the best level. -/
theorem findTarget (side : Side) (price : Price) (best : Option (LevelPtr B)) :
    W (findTarget side price best) := by
  unfold HftSys.findTarget
  refine h.bind (h.derefLevel _) fun level => ?_
  exact h.ite (h.searchTarget _ _ _ _ _) (h.pure _)

/-- Four links are written, each through a pointer that is read before. -/
theorem insertAfter (n target : Option (LevelPtr B)) : W (insertAfter n target) := by
  unfold HftSys.insertAfter
  refine h.bind (h.storeLevel _ _) fun _ => ?_
  refine h.bind (h.derefLevel _) fun _ => ?_
  refine h.bind (h.storeLevel _ _) fun _ => ?_
  refine h.bind (h.derefLevel _) fun _ => ?_
  exact h.bind (h.storeLevel _ _) fun _ => h.storeLevel _ _

/-- See `insertAfter`. -/
theorem insertBefore (n target : Option (LevelPtr B)) : W (insertBefore n target) := by
  unfold HftSys.insertBefore
  refine h.bind (h.storeLevel _ _) fun _ => ?_
  refine h.bind (h.derefLevel _) fun _ => ?_
  refine h.bind (h.storeLevel _ _) fun _ => ?_
  refine h.bind (h.derefLevel _) fun _ => ?_
  exact h.bind (h.storeLevel _ _) fun _ => h.storeLevel _ _

/-- The best pointer of a side is written when the new level comes before it. -/
theorem insertLevel (n best target : Option (LevelPtr B)) (side : Side) (price : Price)
    (shouldAddAfter : Bool) : W (insertLevel n best target side price shouldAddAfter) := by
  unfold HftSys.insertLevel
  refine h.ite (h.insertAfter _ _) (h.bind (h.insertBefore _ _) fun _ => ?_)
  refine h.bind (h.derefLevel _) fun _ => ?_
  exact h.ite (h.setBest _ _) (h.pure _)

/-- A new level gets its slot, and its place in the ring of its side. -/
theorem addPriceLevel (n : Option (LevelPtr B)) : W (addPriceLevel n) := by
  unfold HftSys.addPriceLevel
  refine h.bind (h.derefLevel _) fun level => ?_
  refine h.bind (h.setLevelForPrice _ _) fun _ => ?_
  refine h.get_bind (fun b => ?_) fun _ _ => rfl
  split
  · exact h.bind (h.setBest _ _) fun _ => h.storeLevel _ _
  · exact h.bind (h.findTarget _ _ _) fun _ => h.insertLevel _ _ _ _ _ _

/-- An order without a level is linked to itself, and a level is allocated for it. -/
theorem openLevel (p : Option OrderPtr) : W (openLevel (B := B) p) := by
  unfold HftSys.openLevel
  refine h.bind (h.storeOrder _ _) fun _ => ?_
  refine h.bind (h.derefOrder _) fun _ => ?_
  exact h.bind (h.allocateLevel _) fun _ => h.addPriceLevel _

/-- An order that finds a level is linked behind its last order. -/
theorem appendOrder (p : Option OrderPtr) (l : Option (LevelPtr B)) : W (appendOrder p l) := by
  unfold HftSys.appendOrder
  refine h.bind (h.derefLevel _) fun _ => ?_
  refine h.bind (h.derefOrder _) fun _ => ?_
  refine h.bind (h.storeOrder _ _) fun _ => ?_
  refine h.bind (h.storeOrder _ _) fun _ => ?_
  refine h.bind (h.derefOrder _) fun _ => ?_
  exact h.bind (h.storeOrder _ _) fun _ => h.storeOrder _ _

/-! ### Looking for orders -/

/-- The priority of a new order is one more than that of the last order of its level. -/
theorem getNextPriority (price : Price) : W (getNextPriority (B := B) price) := by
  unfold HftSys.getNextPriority
  refine h.get_bind (fun b => ?_) fun _ _ => rfl
  split
  · exact h.pure _
  · refine h.bind (h.derefLevel _) fun level => ?_
    refine h.bind (h.derefOrder _) fun first => ?_
    exact h.bind (h.derefOrder _) fun last => h.pure _

/-- What a new order is matched with is read from the best level of the other side. -/
theorem nextMatch (taker : NewOrder) (qtyRemains : Qty) :
    W (nextMatch (B := B) taker qtyRemains) := by
  unfold HftSys.nextMatch
  refine h.ite (h.pure _) (h.get_bind (fun b => ?_) fun _ _ => rfl)
  split
  · exact h.pure _
  · refine h.bind (h.derefLevel _) fun level => ?_
    refine h.bind (h.derefOrder _) fun resting => ?_
    exact h.ite (h.pure _) (h.pure _)

end functions

end LevelWalk

namespace Walk

variable {W : ∀ {α : Type}, BookM B α → Prop} (h : Walk W)
include h

/-! ### Removing an order -/

/-- Three links are written, and the best pointer when the level was the best. -/
theorem unlinkLevel (side : Side) (l : Option (LevelPtr B)) : W (unlinkLevel side l) := by
  unfold HftSys.unlinkLevel
  refine h.bind (h.derefLevel _) fun _ => ?_
  refine h.bind (h.storeLevel _ _) fun _ => ?_
  refine h.bind (h.derefLevel _) fun _ => ?_
  refine h.bind (h.storeLevel _ _) fun _ => ?_
  refine h.bind (h.derefLevel _) fun _ => ?_
  refine h.get_bind (fun b => ?_) fun _ _ => rfl
  refine h.ite (h.bind (h.setBest _ _) fun _ => ?_) ?_
  · exact h.storeLevel _ _
  · exact h.storeLevel _ _

/-- The last level of a side leaves no best pointer, any other one is unlinked; both are
released. -/
theorem removePriceLevel (side : Side) (price : Price) :
    W (removePriceLevel (B := B) side price) := by
  unfold HftSys.removePriceLevel
  refine h.get_bind (fun b => ?_) fun _ _ => rfl
  refine h.bind (h.derefLevel _) fun l => ?_
  refine h.ite (h.bind (h.setBest _ _) fun _ => ?_) (h.bind (h.unlinkLevel _ _) fun _ => ?_)
  · exact h.bind (h.setLevelForPrice _ _) fun _ => h.deallocateLevel _
  · exact h.bind (h.setLevelForPrice _ _) fun _ => h.deallocateLevel _

/-- An order with others in its level is linked out of it, and the level may get a new first
order. -/
theorem unlinkOrder (p : Option OrderPtr) (l : Option (LevelPtr B)) : W (unlinkOrder p l) := by
  unfold HftSys.unlinkOrder
  refine h.bind (h.derefOrder _) fun _ => ?_
  refine h.bind (h.storeOrder _ _) fun _ => ?_
  refine h.bind (h.derefOrder _) fun _ => ?_
  refine h.bind (h.storeOrder _ _) fun _ => ?_
  refine h.bind (h.derefLevel _) fun _ => ?_
  refine h.bind (h.derefOrder _) fun _ => ?_
  refine h.ite (h.bind (h.storeLevel _ _) fun _ => ?_) ?_
  · exact h.storeOrder _ _
  · exact h.storeOrder _ _

/-- The level or the order is unlinked; then the order's entry in the client map is cleared and its
block is given back. -/
theorem removeOrderFromBook (p : Option OrderPtr) : W (removeOrderFromBook (B := B) p) := by
  unfold HftSys.removeOrderFromBook
  refine h.bind (h.derefOrder _) fun o => ?_
  have htail : W (HftSys.derefOrder (B := B) p >>= fun o =>
      HftSys.setClientOrder o.clientId o.clientOrderId none >>= fun _ =>
        HftSys.deallocateOrder p) := by
    refine h.bind (h.derefOrder _) fun _ => ?_
    exact h.bind (h.setClientOrder _ _ _) fun _ => h.deallocateOrder _
  refine h.get_bind (fun b => ?_) fun _ _ => rfl
  exact h.ite (h.bind (h.removePriceLevel _ _) fun _ => htail)
    (h.bind (h.unlinkOrder _ _) fun _ => htail)

/-- `cancelOrder` finds no order and answers, or removes the one it finds and tells both sides. -/
theorem cancelOrder (r : CancelOrder) : W (cancelOrder (B := B) r) := by
  unfold HftSys.cancelOrder
  refine h.bind (h.lookupOrder _ _) fun found => ?_
  cases found with
  | none => exact h.dispatchClientResponse _
  | some p =>
    refine h.bind (h.derefOrder _) fun o => ?_
    refine h.bind (h.removeOrderFromBook _) fun _ => ?_
    exact h.bind (h.publishMarketUpdate _) fun _ => h.dispatchClientResponse _

/-! ### Adding an order -/

/-- An order opens a level or is appended to one, and gets its entry in the client map. -/
theorem addOrderToBook (p : Option OrderPtr) : W (addOrderToBook (B := B) p) := by
  unfold HftSys.addOrderToBook
  refine h.bind (h.derefOrder _) fun o => ?_
  refine h.get_bind (fun b => ?_) fun _ _ => rfl
  refine h.ite (h.bind (h.openLevel _) fun _ => ?_) (h.bind (h.appendOrder _ _) fun _ => ?_)
  · exact h.bind (h.derefOrder _) fun _ => h.setClientOrder _ _ _
  · exact h.bind (h.derefOrder _) fun _ => h.setClientOrder _ _ _

/-- What is left of a new order is numbered, allocated, put to rest and published. -/
theorem restOrder (taker : NewOrder) (newMarketOid : OrderID) (qtyRemains : Qty) :
    W (restOrder (B := B) taker newMarketOid qtyRemains) := by
  unfold HftSys.restOrder
  refine h.bind (h.getNextPriority _) fun _ => ?_
  refine h.bind (h.allocateOrder _) fun _ => ?_
  exact h.bind (h.addOrderToBook _) fun _ => h.publishMarketUpdate _

section reads

variable {stray : ℕ → Qty} (hread : ∀ qtyRemains fillQty,
  W (readMovedQty stray qtyRemains fillQty : BookM B Qty))
include hread

/-- `matchOrder` besides reads through the pointer it has moved. -/
theorem matchOrder (taker : NewOrder) (newMarketOid : OrderID) (p : Option OrderPtr)
    (qtyRemains : Qty) : W (matchOrder (B := B) stray taker newMarketOid p qtyRemains) := by
  unfold HftSys.matchOrder
  refine h.bind (h.derefOrder _) fun resting => ?_
  refine h.bind (h.storeOrder _ _) fun _ => ?_
  refine h.bind (h.derefOrder _) fun o => ?_
  refine h.bind (hread _ _) fun _ => ?_
  refine h.bind (h.dispatchClientResponse _) fun _ => ?_
  refine h.bind (h.dispatchClientResponse _) fun _ => ?_
  refine h.bind (h.publishMarketUpdate _) fun _ => ?_
  refine h.ite (h.bind (h.publishMarketUpdate _) fun _ => ?_) ?_
  · exact h.removeOrderFromBook _
  · exact h.publishMarketUpdate _

/-- The loop of `findMatch`, turn by turn. -/
theorem matchLoop (taker : NewOrder) (newMarketOid : OrderID) (qtyRemains : Qty) (fuel : ℕ) :
    W (matchLoop (B := B) stray taker newMarketOid qtyRemains fuel) := by
  induction fuel with
  | zero => exact h.diverges
  | succ fuel ih =>
    unfold HftSys.matchLoop
    refine h.bind (h.nextMatch _ _) fun next => ?_
    cases next with
    | none => exact h.pure _
    | some p => exact h.bind (h.matchOrder hread _ _ _ _) fun _ => ih

/-- `addOrder` numbers the order, accepts it, matches it, and puts what is left to rest. -/
theorem addOrder (taker : NewOrder) : W (addOrder (B := B) stray taker) := by
  unfold HftSys.addOrder
  refine h.bind h.getNewMarketOrderId fun _ => ?_
  refine h.bind (h.dispatchClientResponse _) fun _ => ?_
  refine h.bind (h.matchLoop hread _ _ _ _) fun _ => ?_
  exact h.ite (h.pure _) (h.restOrder _ _ _)

end reads

end Walk

end HftSys
