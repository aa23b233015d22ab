import HftSys.RemovalFrame

/-!
# Printing a book

`OrderBook::toString` prints the levels of both sides from the best pointers on, each with its
orders, and on request checks that every level is priced behind the one before it. The check starts
from the smallest price there is for the asks and from the largest for the bids, so a best ask at
the one and a best bid at the other fail it, with no level in front of them. `~OrderBook` runs the
check, and what it throws leaves a destructor.

* `forOrders_ring`, `forLevels_ring`: on rings the two loops are folds over their nodes.
* `Decides c x`: `x` comes to an end, by throwing exactly when `c` is false.
* `validity_check_iff`: when the check is exact.
* `printable_throughout`: the books of a run have the rings the check walks round.

`assignedTicker_` is only printed, so it is an argument here.
-/

namespace HftSys

open Circular Exec

variable {B : Build}

/-! ## Numbers as texts -/

/-- `numericToStr`: "INVALID" for the largest value. Source: `types.h` -/
def numericToStr {T : Type} [DecidableEq T] [ToString T] (invalid id : T) : String :=
  if id = invalid then "INVALID" else toString id

/-- Source: `types.h`, `orderIdToStr` -/
def orderIdToStr (id : OrderID) : String := numericToStr orderIdInvalid id

/-- Source: `types.h`, `tickerIdToStr` -/
def tickerIdToStr (id : TickerID) : String := numericToStr 4294967295 id

/-- Source: `types.h`, `clientIdToStr` -/
def clientIdToStr (id : ClientID) : String := numericToStr 4294967295 id

/-- Source: `types.h`, `priceToStr` -/
def priceToStr (price : Price) : String := numericToStr priceInvalid price

/-- Source: `types.h`, `qtyToStr` -/
def qtyToStr (qty : Qty) : String := numericToStr qtyInvalid qty

/-- Source: `types.h`, `priorityToStr` -/
def priorityToStr (priority : Priority) : String := numericToStr priorityInvalid priority

/-- Source: `types.h`, `sideToStr` -/
def sideToStr (side : Side) : String :=
  if side = .buy then "BUY"
  else if side = .sell then "SELL"
  else if side = .invalid then "INVALID"
  else "UNKNOWN"

/-- `std::format` of a string to a width: it stands on the left. -/
def formatLeft (width : ℕ) (s : String) : String := s ++ "".pushn ' ' (width - s.length)

/-- `std::format` of a number to a width: it stands on the right. -/
def formatRight (width n : ℕ) : String := "".pushn ' ' (width - (toString n).length) ++ toString n

/-! ## The source -/

/-- What keeps `toString` from returning: it goes wrong, or it throws. -/
inductive PrintStop where
  | fault (f : Fault)
  | runtimeError (what : String)
deriving DecidableEq

/-- `*p` for an `Order *`. -/
def readOrder (b : OrderBook B) (p : Option OrderPtr) : Except PrintStop Order :=
  (b.orderPool.deref p).mapError .fault

/-- `*p` for an `OrdersAtPrice *`. -/
def readLevel (b : OrderBook B) (p : Option (LevelPtr B)) : Except PrintStop (OrdersAtPrice B) :=
  (b.ordersAtPricePool.deref p).mapError .fault

/-- `p ? p->marketOrderId_ : OrderID_INVALID`. -/
def marketOrderIdOf (b : OrderBook B) : Option OrderPtr → Except PrintStop OrderID
  | none => .ok orderIdInvalid
  | some p => do
    let order ← readOrder b (some p)
    .ok order.marketOrderId

/-- `p ? p->price_ : Price_INVALID`. -/
def priceOf (b : OrderBook B) : Option (LevelPtr B) → Except PrintStop Price
  | none => .ok priceInvalid
  | some l => do
    let level ← readLevel b (some l)
    .ok level.price

/-- Source: `matching_engine_order.h`, `Order::to_string` -/
def orderToString (b : OrderBook B) (o : Order) : Except PrintStop String := do
  let prev ← marketOrderIdOf b o.prev
  let next ← marketOrderIdOf b o.next
  .ok ("<Order>[ticker: " ++ tickerIdToStr o.tickerId ++ ", client: " ++ clientIdToStr o.clientId ++
    ", oid_client: " ++ orderIdToStr o.clientOrderId ++ ", oid_market: " ++
    orderIdToStr o.marketOrderId ++ ", side_: " ++ sideToStr o.side ++ ", price_: " ++
    priceToStr o.price ++ ", qty_: " ++ qtyToStr o.qty ++ ", priority_: " ++
    priorityToStr o.priority ++ ", prev_: " ++ orderIdToStr prev ++ ", next_: " ++
    orderIdToStr next ++ "]")

/-- Source: `matching_engine_order.h`, `OrdersAtPrice::toString` -/
def levelToString (b : OrderBook B) (levels : OrdersAtPrice B) : Except PrintStop String := do
  let order0 ← match levels.order0 with
    | none => .ok "NULL"
    | some p => do
      let order ← readOrder b (some p)
      orderToString b order
  let prev ← priceOf b levels.prev
  let next ← priceOf b levels.next
  .ok ("<OrdersAtPrice>[side_: " ++ sideToStr levels.side ++ ", price_: " ++
    priceToStr levels.price ++ ", order0_: " ++ order0 ++ ", prev_: " ++ priceToStr prev ++
    ", next_: " ++ priceToStr next ++ "]")

/-- The loop over the orders of a level, which tests for the end behind its body; at most `fuel`
turns. Source: `order_book.cpp`, `OrderBook::toString` -/
def forOrders {α : Type} (b : OrderBook B) (order0 : Option OrderPtr)
    (body : α → Order → Except PrintStop α) : ℕ → Option OrderPtr → α → Except PrintStop α
  | 0, _, _ => .error (.fault .diverges)
  | fuel + 1, p, acc => do
    let order ← readOrder b p
    let acc ← body acc order
    if order.next = order0 then .ok acc else forOrders b order0 body fuel order.next acc

/-- The loop over the levels of a side, which goes on from null when it is round; at most `fuel`
turns. Source: `order_book.cpp`, `OrderBook::toString` -/
def forLevels {α : Type} (b : OrderBook B) (best : Option (LevelPtr B))
    (body : α → ℕ → OrdersAtPrice B → Except PrintStop α) :
    ℕ → ℕ → Option (LevelPtr B) → α → Except PrintStop α
  | 0, _, _, _ => .error (.fault .diverges)
  | _ + 1, _, none, acc => .ok acc
  | fuel + 1, count, some l, acc => do
    let levels ← readLevel b (some l)
    let acc ← body acc count levels
    forLevels b best body fuel (count + 1) (if levels.next = best then none else levels.next) acc

/-- The line of a level. -/
def levelLine (price prev next : Price) (totalQty : Qty) (orderCount : ℕ) : String :=
  " \x7b p:" ++ formatLeft 3 (priceToStr price) ++ " [-]:" ++ formatLeft 3 (priceToStr prev) ++
    " [+]:" ++ formatLeft 3 (priceToStr next) ++ " \x7d " ++ formatLeft 5 (qtyToStr totalQty) ++
    " @ " ++ formatLeft 3 (priceToStr price) ++ " (" ++ formatRight 4 orderCount ++ ")\n"

/-- The line of an order. -/
def orderLine (oid : OrderID) (qty : Qty) (prev next : OrderID) : String :=
  "\t\t\t\x7b oid:" ++ orderIdToStr oid ++ ", q:" ++ qtyToStr qty ++ ", p:" ++ orderIdToStr prev ++
    ", n:" ++ orderIdToStr next ++ " \x7d\n"

/-- The test `isSorted`: the level priced `price` stands behind one priced `lastPrice`. -/
def isSorted (sideEnum : Side) (lastPrice price : Price) : Bool :=
  (sideEnum = .sell ∧ lastPrice < price) ∨ (sideEnum = .buy ∧ price < lastPrice)

/-- The lines of the orders of a level, if they are wanted. Source: `order_book.cpp`,
`OrderBook::toString` -/
def printOrders (b : OrderBook B) (isDetailed : Bool) (levels : OrdersAtPrice B) (result : String) :
    Except PrintStop String :=
  if isDetailed then
    forOrders b levels.order0
      (fun result order => do
        let prev ← marketOrderIdOf b order.prev
        let next ← marketOrderIdOf b order.next
        .ok (result ++ orderLine order.marketOrderId order.qty prev next))
      maxOrderIds levels.order0 result
  else .ok result

/-- The closure `printer`, which yields `result` and `lastPrice`.
Source: `order_book.cpp`, `OrderBook::toString` -/
def printer (b : OrderBook B) (isDetailed hasValidityCheck : Bool) (sideEnum : Side)
    (result : String) (lastPrice : Price) (levels : OrdersAtPrice B) :
    Except PrintStop (String × Price) := do
  let (totalQty, orderCount) ← forOrders b levels.order0
    (fun (acc : Qty × ℕ) order => .ok (acc.1 + order.qty, acc.2 + 1)) maxOrderIds levels.order0 (0, 0)
  let prev ← readLevel b levels.prev
  let next ← readLevel b levels.next
  let result ← printOrders b isDetailed levels
    (result ++ levelLine levels.price prev.price next.price totalQty orderCount)
  if hasValidityCheck then
    if isSorted sideEnum lastPrice levels.price then .ok (result, levels.price)
    else do
      let text ← levelToString b levels
      .error (.runtimeError ("Bid/ask price levels not sorted correctly: " ++
        priceToStr lastPrice ++ " levels:" ++ text))
  else .ok (result, lastPrice)

/-- The block that prints a side. Source: `order_book.cpp`, `OrderBook::toString` -/
def printSide (b : OrderBook B) (isDetailed hasValidityCheck : Bool) (label noneOnBook : String)
    (sideEnum : Side) (best : Option (LevelPtr B)) (lastPrice : Price) (result : String) :
    Except PrintStop String :=
  if best = none then .ok (result ++ noneOnBook)
  else do
    let (result, _) ← forLevels b best
      (fun acc count levels => printer b isDetailed hasValidityCheck sideEnum
        (acc.1 ++ label ++ "[" ++ toString count ++ "] => ") acc.2 levels)
      (maxPriceLevels B + 1) 0 best (result, lastPrice)
    .ok result

/-- Source: `order_book.cpp`, `OrderBook::toString` -/
def OrderBook.toString (b : OrderBook B) (assignedTicker : TickerID)
    (isDetailed hasValidityCheck : Bool) : Except PrintStop String := do
  let result := "\n----- ORDER BOOK FOR TICKER: " ++ tickerIdToStr assignedTicker ++ " -----\n"
  let result ← printSide b isDetailed hasValidityCheck "ASKS"
    "\n                  [NO ASKS ON BOOK]\n" .sell b.asksByPrice Int64.minValue result
  let result := result ++ "\n                          X\n\n"
  printSide b isDetailed hasValidityCheck "BIDS"
    "\n                  [NO BIDS ON BOOK]\n" .buy b.bidsByPrice Int64.maxValue result

/-- `~OrderBook`: the text that is logged, and the book without pointers. What `toString` throws
leaves a destructor, which ends the process. Source: `order_book.cpp`, `OrderBook::~OrderBook` -/
def OrderBook.destroy (b : OrderBook B) (assignedTicker : TickerID) :
    Except Fault (String × OrderBook B) :=
  match b.toString assignedTicker false true with
  | .ok text => .ok (text,
      { b with bidsByPrice := none, asksByPrice := none, mapClientIdToOrder := fun _ _ => none })
  | .error (.runtimeError _) => .error .abort
  | .error (.fault f) => .error f

/-! ## Reading through live pointers -/

section reading

variable {b : OrderBook B} {p : OrderPtr} {l : LevelPtr B}

theorem readOrder_of_live (h : b.LiveOrder p) : readOrder b (some p) = .ok (b.order p) := by
  have hderef : b.orderPool.deref (some p) = .ok (b.order p) := if_pos h
  rw [readOrder, hderef]
  rfl

theorem readLevel_of_live (h : b.LiveLevel l) : readLevel b (some l) = .ok (b.level l) := by
  have hderef : b.ordersAtPricePool.deref (some l) = .ok (b.level l) := if_pos h
  rw [readLevel, hderef]
  rfl

theorem marketOrderIdOf_of_live (h : b.LiveOrder p) :
    marketOrderIdOf b (some p) = .ok (b.order p).marketOrderId := by
  rw [marketOrderIdOf, readOrder_of_live h]
  rfl

theorem priceOf_of_live (h : b.LiveLevel l) : priceOf b (some l) = .ok (b.level l).price := by
  rw [priceOf, readLevel_of_live h]
  rfl

end reading

/-! ## The loops on rings -/

section loops

variable {α : Type} {b : OrderBook B}

/-- The loop over the orders, from order `p` of the ring on. -/
theorem forOrders_chain {body : α → Order → Except PrintStop α} {stop p : OrderPtr}
    {rest : List OrderPtr} {fuel : ℕ}
    (hchain : List.IsChain b.orderLinks.Joined (p :: rest ++ [stop])) (hstop : stop ∉ rest)
    (hlive : ∀ q ∈ p :: rest, b.LiveOrder q) (hfuel : rest.length < fuel) (acc : α) :
    forOrders b (some stop) body fuel (some p) acc =
      (p :: rest).foldlM (fun acc q => body acc (b.order q)) acc := by
  induction rest generalizing p fuel acc with
  | nil =>
    obtain ⟨fuel, rfl⟩ := Nat.exists_eq_succ_of_ne_zero (Nat.ne_zero_of_lt hfuel)
    have hnext : (b.order p).next = some stop := (List.isChain_cons_cons.mp hchain).1.1
    rw [forOrders, readOrder_of_live (hlive p List.mem_cons_self), except_ok_bind, List.foldlM_cons]
    refine bind_congr fun acc => ?_
    rw [if_pos hnext]
    rfl
  | cons q rest ih =>
    obtain ⟨fuel, rfl⟩ := Nat.exists_eq_succ_of_ne_zero (Nat.ne_zero_of_lt hfuel)
    obtain ⟨hpq, hchain⟩ := List.isChain_cons_cons.mp hchain
    have hnext : (b.order p).next = some q := hpq.1
    have hne : ¬ (b.order p).next = some stop := by
      rw [hnext]
      rintro ⟨⟩
      exact hstop List.mem_cons_self
    rw [forOrders, readOrder_of_live (hlive p List.mem_cons_self), except_ok_bind, List.foldlM_cons]
    refine bind_congr fun acc => ?_
    rw [if_neg hne, hnext]
    exact ih hchain (fun hmem => hstop (List.mem_cons_of_mem _ hmem))
      (fun r hr => hlive r (List.mem_cons_of_mem _ hr)) (Nat.lt_of_succ_lt_succ hfuel) acc

/-- **The loop over the orders of a ring** is a fold over them. -/
theorem forOrders_ring {body : α → Order → Except PrintStop α} {orders : List OrderPtr}
    (hring : b.orderLinks.IsRing orders) (hne : orders ≠ [])
    (hlive : ∀ p ∈ orders, b.LiveOrder p) (acc : α) :
    forOrders b orders.head? body maxOrderIds orders.head? acc =
      orders.foldlM (fun acc p => body acc (b.order p)) acc := by
  have hlen : orders.length ≤ maxOrderIds := by
    have hcard := hring.nodup.length_le_card
    rwa [Fintype.card_fin] at hcard
  obtain ⟨p, rest, rfl⟩ := List.exists_cons_of_ne_nil hne
  exact forOrders_chain hring.chain (List.nodup_cons.mp hring.nodup).1 hlive hlen acc

/-- The loop over the levels, from level `l` of the ring on. -/
theorem forLevels_chain {body : α → ℕ → OrdersAtPrice B → Except PrintStop α} {stop l : LevelPtr B}
    {rest : List (LevelPtr B)} {fuel : ℕ} (count : ℕ)
    (hchain : List.IsChain b.levelLinks.Joined (l :: rest ++ [stop])) (hstop : stop ∉ rest)
    (hlive : ∀ m ∈ l :: rest, b.LiveLevel m) (hfuel : rest.length + 1 < fuel) (acc : α) :
    forLevels b (some stop) body fuel count (some l) acc =
      ((l :: rest).zipIdx count).foldlM (fun acc m => body acc m.2 (b.level m.1)) acc := by
  induction rest generalizing l fuel count acc with
  | nil =>
    obtain ⟨fuel, rfl⟩ := Nat.exists_eq_add_of_lt hfuel
    have hnext : (b.level l).next = some stop := (List.isChain_cons_cons.mp hchain).1.1
    rw [forLevels, readLevel_of_live (hlive l List.mem_cons_self), except_ok_bind, List.zipIdx_cons,
      List.foldlM_cons]
    refine bind_congr fun acc => ?_
    rw [if_pos hnext, List.length_nil, Nat.zero_add, Nat.add_comm, forLevels]
    rfl
  | cons m rest ih =>
    obtain ⟨fuel, rfl⟩ := Nat.exists_eq_succ_of_ne_zero (Nat.ne_zero_of_lt hfuel)
    obtain ⟨hlm, hchain⟩ := List.isChain_cons_cons.mp hchain
    have hnext : (b.level l).next = some m := hlm.1
    have hne : ¬ (b.level l).next = some stop := by
      rw [hnext]
      rintro ⟨⟩
      exact hstop List.mem_cons_self
    rw [forLevels, readLevel_of_live (hlive l List.mem_cons_self), except_ok_bind, List.zipIdx_cons,
      List.foldlM_cons]
    refine bind_congr fun acc => ?_
    rw [if_neg hne, hnext]
    exact ih (count + 1) hchain (fun hmem => hstop (List.mem_cons_of_mem _ hmem))
      (fun r hr => hlive r (List.mem_cons_of_mem _ hr)) (Nat.lt_of_succ_lt_succ hfuel) acc

/-- **The loop over the levels of a ring** is a fold over them, counted. -/
theorem forLevels_ring {body : α → ℕ → OrdersAtPrice B → Except PrintStop α}
    {levels : List (LevelPtr B)} (hring : b.levelLinks.IsRing levels) (hne : levels ≠ [])
    (hlive : ∀ l ∈ levels, b.LiveLevel l) (acc : α) :
    forLevels b levels.head? body (maxPriceLevels B + 1) 0 levels.head? acc =
      levels.zipIdx.foldlM (fun acc m => body acc m.2 (b.level m.1)) acc := by
  have hlen : levels.length ≤ maxPriceLevels B := by
    have hcard := hring.nodup.length_le_card
    rwa [Fintype.card_fin] at hcard
  obtain ⟨l, rest, rfl⟩ := List.exists_cons_of_ne_nil hne
  exact forLevels_chain 0 hring.chain (List.nodup_cons.mp hring.nodup).1 hlive
    (Nat.succ_le_succ hlen) acc

end loops

/-! ## What ends by throwing -/

/-- `x` comes to an end: with a result that `Q` holds of when `c` does, else by throwing. -/
def Decides {α : Type} (c : Prop) (Q : α → Prop) (x : Except PrintStop α) : Prop :=
  (c ∧ ∃ a, x = .ok a ∧ Q a) ∨ (¬ c ∧ ∃ what, x = .error (.runtimeError what))

section decides

variable {α β : Type} {c d : Prop} {Q : α → Prop} {R : β → Prop} {x : Except PrintStop α}

theorem Decides.congr (h : Decides c Q x) (hcd : c ↔ d) : Decides d Q x := by
  unfold Decides at h ⊢
  rwa [← hcd]

/-- A first part that may throw, and what follows it. -/
theorem Decides.bind {f : α → Except PrintStop β} (hx : Decides c Q x)
    (hf : ∀ a, Q a → Decides d R (f a)) : Decides (c ∧ d) R (x >>= f) := by
  rcases hx with ⟨hc, a, rfl, ha⟩ | ⟨hc, what, rfl⟩
  · rw [except_ok_bind]
    apply (hf a ha).congr
    exact (and_iff_right hc).symm
  · exact .inr ⟨fun h => hc h.1, what, rfl⟩

/-- A first part that returns, and what follows it. -/
theorem Decides.of_ok {f : α → Except PrintStop β} (hx : ∃ a, x = .ok a)
    (hf : ∀ a, Decides d R (f a)) : Decides d R (x >>= f) := by
  obtain ⟨a, rfl⟩ := hx
  exact hf a

theorem Decides.throws_iff (h : Decides c Q x) :
    (∃ what, x = .error (.runtimeError what)) ↔ ¬ c := by
  rcases h with ⟨hc, a, rfl, -⟩ | ⟨hc, what, rfl⟩
  · refine iff_of_false ?_ (not_not_intro hc)
    rintro ⟨what, ⟨⟩⟩
  · exact iff_of_true ⟨what, rfl⟩ hc

theorem Decides.ne_fault (h : Decides c Q x) (f : Fault) : x ≠ .error (.fault f) := by
  rcases h with ⟨-, a, rfl, -⟩ | ⟨-, what, rfl⟩
  · rintro ⟨⟩
  · rintro ⟨⟩

/-- A fold whose steps all return. -/
theorem foldlM_returns {f : β → α → Except PrintStop β} {l : List α}
    (h : ∀ acc, ∀ a ∈ l, ∃ acc', f acc a = .ok acc') (acc : β) :
    ∃ acc', l.foldlM f acc = .ok acc' := by
  induction l generalizing acc with
  | nil => exact ⟨acc, rfl⟩
  | cons a l ih =>
    obtain ⟨acc', ha⟩ := h acc a List.mem_cons_self
    rw [List.foldlM_cons, ha, except_ok_bind]
    exact ih (fun acc a hmem => h acc a (List.mem_cons_of_mem _ hmem)) acc'

end decides

/-! ## A side -/

/-- The rings of a side: its levels from the best pointer on, and the orders of each. -/
structure PrintableSide (b : OrderBook B) (best : Option (LevelPtr B)) (levels : List (LevelPtr B))
    (orders : LevelPtr B → List OrderPtr) : Prop where
  isRing : b.levelLinks.IsRing levels
  head : best = levels.head?
  live : ∀ l ∈ levels, b.LiveLevel l
  orders_isRing : ∀ l ∈ levels, b.orderLinks.IsRing (orders l)
  orders_ne_nil : ∀ l ∈ levels, orders l ≠ []
  orders_head : ∀ l ∈ levels, (b.level l).order0 = (orders l).head?
  orders_live : ∀ l ∈ levels, ∀ p ∈ orders l, b.LiveOrder p

section side

variable {b : OrderBook B} {best : Option (LevelPtr B)} {levels : List (LevelPtr B)}
  {orders : LevelPtr B → List OrderPtr} {l : LevelPtr B} {p : OrderPtr}

namespace PrintableSide

/-- The neighbours of a level can be read. -/
theorem level_neighbours (h : PrintableSide b best levels orders) (hl : l ∈ levels) :
    ∃ x y, (b.level l).prev = some x ∧ b.LiveLevel x ∧ (b.level l).next = some y ∧
      b.LiveLevel y := by
  obtain ⟨x, hx, hxl⟩ := h.isRing.exists_prev hl
  obtain ⟨y, hy, hly⟩ := h.isRing.exists_next hl
  exact ⟨x, y, hxl.2, h.live x hx, hly.1, h.live y hy⟩

/-- So can those of an order. -/
theorem order_neighbours (h : PrintableSide b best levels orders) (hl : l ∈ levels)
    (hp : p ∈ orders l) :
    ∃ x y, (b.order p).prev = some x ∧ b.LiveOrder x ∧ (b.order p).next = some y ∧
      b.LiveOrder y := by
  obtain ⟨x, hx, hxp⟩ := (h.orders_isRing l hl).exists_prev hp
  obtain ⟨y, hy, hpy⟩ := (h.orders_isRing l hl).exists_next hp
  exact ⟨x, y, hxp.2, h.orders_live l hl x hx, hpy.1, h.orders_live l hl y hy⟩

/-- A loop over the orders of a level whose body returns on each of them. -/
theorem forOrders_returns {α : Type} {body : α → Order → Except PrintStop α}
    (h : PrintableSide b best levels orders) (hl : l ∈ levels)
    (hbody : ∀ acc, ∀ p ∈ orders l, ∃ acc', body acc (b.order p) = .ok acc') (acc : α) :
    ∃ acc', forOrders b (b.level l).order0 body maxOrderIds (b.level l).order0 acc = .ok acc' := by
  rw [h.orders_head l hl, forOrders_ring (h.orders_isRing l hl) (h.orders_ne_nil l hl)
    (h.orders_live l hl)]
  exact foldlM_returns hbody acc

/-- The text of the exception can be made. -/
theorem levelToString_returns (h : PrintableSide b best levels orders) (hl : l ∈ levels) :
    ∃ text, levelToString b (b.level l) = .ok text := by
  obtain ⟨p, hp⟩ : ∃ p, (orders l).head? = some p := by
    rw [← Option.isSome_iff_exists, List.isSome_head?]
    exact h.orders_ne_nil l hl
  have hmem : p ∈ orders l := List.mem_of_head? hp
  obtain ⟨x, y, hprev, hx, hnext, hy⟩ := h.level_neighbours hl
  obtain ⟨v, w, hoprev, hv, honext, hw⟩ := h.order_neighbours hl hmem
  have horder : ∃ text, orderToString b (b.order p) = .ok text := by
    unfold orderToString
    rw [hoprev, marketOrderIdOf_of_live hv, except_ok_bind, honext, marketOrderIdOf_of_live hw,
      except_ok_bind]
    exact ⟨_, rfl⟩
  obtain ⟨text, htext⟩ := horder
  unfold levelToString
  rw [h.orders_head l hl, hp]
  simp only []
  rw [readOrder_of_live (h.orders_live l hl p hmem), except_ok_bind, htext, except_ok_bind, hprev,
    priceOf_of_live hx, except_ok_bind, hnext, priceOf_of_live hy, except_ok_bind]
  exact ⟨_, rfl⟩

/-- The lines of the orders can be printed. -/
theorem printOrders_returns (h : PrintableSide b best levels orders) (hl : l ∈ levels)
    (isDetailed : Bool) (result : String) :
    ∃ text, printOrders b isDetailed (b.level l) result = .ok text := by
  unfold printOrders
  split
  · refine h.forOrders_returns hl ?_ _
    intro result p hp
    obtain ⟨v, w, hoprev, hv, honext, hw⟩ := h.order_neighbours hl hp
    rw [hoprev, marketOrderIdOf_of_live hv, except_ok_bind, honext, marketOrderIdOf_of_live hw,
      except_ok_bind]
    exact ⟨_, rfl⟩
  · exact ⟨_, rfl⟩

/-- **The closure throws when its test fails**, and else hands the level's price on. -/
theorem printer_decides (h : PrintableSide b best levels orders) (hl : l ∈ levels)
    (isDetailed : Bool) (sideEnum : Side) (result : String) (lastPrice : Price) :
    Decides (isSorted sideEnum lastPrice (b.level l).price = true)
      (fun r : String × Price => r.2 = (b.level l).price)
      (printer b isDetailed true sideEnum result lastPrice (b.level l)) := by
  obtain ⟨x, y, hprev, hx, hnext, hy⟩ := h.level_neighbours hl
  unfold printer
  refine .of_ok (h.forOrders_returns hl ?_ (0, 0)) ?_
  · exact fun acc p _ => ⟨(acc.1 + (b.order p).qty, acc.2 + 1), rfl⟩
  rintro ⟨totalQty, orderCount⟩
  simp only []
  rw [hprev, readLevel_of_live hx, except_ok_bind, hnext, readLevel_of_live hy, except_ok_bind]
  refine .of_ok (h.printOrders_returns hl _ _) fun text => ?_
  rw [if_pos trivial]
  by_cases hsorted : isSorted sideEnum lastPrice (b.level l).price = true
  · rw [if_pos hsorted]
    exact .inl ⟨hsorted, _, rfl, rfl⟩
  · obtain ⟨what, hwhat⟩ := h.levelToString_returns hl
    rw [if_neg hsorted, hwhat, except_ok_bind]
    exact .inr ⟨hsorted, _, rfl⟩

/-- The levels one after the other, from a last price on. -/
theorem fold_decides (h : PrintableSide b best levels orders) (isDetailed : Bool) (label : String)
    (sideEnum : Side) {ls : List (LevelPtr B)} (hls : ∀ l ∈ ls, l ∈ levels) (count : ℕ)
    (acc : String × Price) :
    Decides
      (List.IsChain (fun x y => isSorted sideEnum x y = true)
        (acc.2 :: ls.map fun l => (b.level l).price))
      (fun _ => True)
      ((ls.zipIdx count).foldlM (fun acc m => printer b isDetailed true sideEnum
        (acc.1 ++ label ++ "[" ++ toString m.2 ++ "] => ") acc.2 (b.level m.1)) acc) := by
  induction ls generalizing count acc with
  | nil => exact .inl ⟨List.isChain_singleton _, acc, rfl, trivial⟩
  | cons l ls ih =>
    rw [List.zipIdx_cons, List.foldlM_cons, List.map_cons, List.isChain_cons_cons]
    apply Decides.bind (h.printer_decides (hls l List.mem_cons_self) _ _ _ _)
    intro r hr
    have hrest := ih (fun m hm => hls m (List.mem_cons_of_mem _ hm)) (count + 1) r
    rwa [hr] at hrest

/-- **A side passes the check** when its prices are in order behind the one the check starts
from. -/
theorem printSide_decides (h : PrintableSide b best levels orders) (isDetailed : Bool)
    (label noneOnBook : String) (sideEnum : Side) (lastPrice : Price) (result : String) :
    Decides
      (List.IsChain (fun x y => isSorted sideEnum x y = true)
        (lastPrice :: levels.map fun l => (b.level l).price))
      (fun _ => True)
      (printSide b isDetailed true label noneOnBook sideEnum best lastPrice result) := by
  unfold printSide
  by_cases hnil : levels = []
  · rw [h.head, hnil, List.head?_nil, if_pos rfl]
    exact .inl ⟨List.isChain_singleton _, _, rfl, trivial⟩
  · have hbest : best ≠ none := by
      rw [h.head, Ne, List.head?_eq_none_iff]
      exact hnil
    rw [if_neg hbest, h.head, forLevels_ring h.isRing hnil h.live]
    have hfold := h.fold_decides isDetailed label sideEnum (fun l hl => hl) 0 (result, lastPrice)
    refine (hfold.bind (d := True) ?_).congr (and_iff_left trivial)
    exact fun r _ => .inl ⟨trivial, r.1, rfl, trivial⟩

end PrintableSide

end side

/-! ## The check -/

/-- Both sides of a book, their levels in the order in which they are printed. -/
structure Printable (b : OrderBook B) (asks bids : List (LevelPtr B))
    (orders : LevelPtr B → List OrderPtr) : Prop where
  asks : PrintableSide b b.asksByPrice asks orders
  bids : PrintableSide b b.bidsByPrice bids orders

/-- Two neighbouring levels are out of order: an ask is not dearer than the one before it, or a bid
not cheaper. -/
def OutOfOrder (b : OrderBook B) (asks bids : List (LevelPtr B)) : Prop :=
  ¬ asks.IsChain (fun x y => (b.level x).price < (b.level y).price) ∨
    ¬ bids.IsChain (fun x y => (b.level y).price < (b.level x).price)

instance (b : OrderBook B) (asks bids : List (LevelPtr B)) : Decidable (OutOfOrder b asks bids) :=
  inferInstanceAs (Decidable (¬ _ ∨ ¬ _))

/-- The check ends, throws exactly on a book that is out of order, and lets any other be
destroyed. -/
structure CheckExact (b : OrderBook B) (asks bids : List (LevelPtr B)) (assignedTicker : TickerID) :
    Prop where
  terminates : ∀ isDetailed f, b.toString assignedTicker isDetailed true ≠ .error (.fault f)
  throws_iff : ∀ isDetailed,
    (∃ what, b.toString assignedTicker isDetailed true = .error (.runtimeError what)) ↔
      OutOfOrder b asks bids
  destroys : ¬ OutOfOrder b asks bids → ∃ r, b.destroy assignedTicker = .ok r

/-- The best ask is not at the smallest price there is, nor the best bid at the largest. -/
def InsideLimits (b : OrderBook B) (asks bids : List (LevelPtr B)) : Prop :=
  (∀ best, asks.head? = some best → (b.level best).price ≠ Int64.minValue) ∧
    ∀ best, bids.head? = some best → (b.level best).price ≠ Int64.maxValue

instance (b : OrderBook B) (asks bids : List (LevelPtr B)) : Decidable (InsideLimits b asks bids) :=
  inferInstanceAs (Decidable ((∀ best ∈ asks.head?, _ ≠ _) ∧ ∀ best ∈ bids.head?, _ ≠ _))

section check

variable {b : OrderBook B} {asks bids : List (LevelPtr B)} {orders : LevelPtr B → List OrderPtr}

theorem isSorted_sell {lastPrice price : Price} :
    isSorted .sell lastPrice price = true ↔ lastPrice < price := by
  simp [isSorted]

theorem isSorted_buy {lastPrice price : Price} :
    isSorted .buy lastPrice price = true ↔ price < lastPrice := by
  simp [isSorted]

theorem minValue_lt_iff {price : Price} : Int64.minValue < price ↔ price ≠ Int64.minValue := by
  have hle := price.minValue_le_toInt
  rw [Int64.lt_iff_toInt_lt, Ne, ← Int64.toInt_inj]
  omega

theorem lt_maxValue_iff {price : Price} : price < Int64.maxValue ↔ price ≠ Int64.maxValue := by
  have hle := price.toInt_le
  rw [Int64.lt_iff_toInt_lt, Ne, ← Int64.toInt_inj]
  omega

/-- The check of the asks starts from the smallest price. -/
theorem asks_pass_iff :
    List.IsChain (fun x y => isSorted .sell x y = true)
        (Int64.minValue :: asks.map fun l => (b.level l).price) ↔
      (∀ best, asks.head? = some best → (b.level best).price ≠ Int64.minValue) ∧
        asks.IsChain (fun x y => (b.level x).price < (b.level y).price) := by
  rw [List.isChain_cons, List.isChain_map, List.head?_map]
  simp only [isSorted_sell, minValue_lt_iff, Option.mem_def, Option.map_eq_some_iff]
  apply and_congr_left'
  constructor
  · exact fun h best hbest => h _ ⟨best, hbest, rfl⟩
  · rintro h _ ⟨best, hbest, rfl⟩
    exact h best hbest

/-- That of the bids starts from the largest. -/
theorem bids_pass_iff :
    List.IsChain (fun x y => isSorted .buy x y = true)
        (Int64.maxValue :: bids.map fun l => (b.level l).price) ↔
      (∀ best, bids.head? = some best → (b.level best).price ≠ Int64.maxValue) ∧
        bids.IsChain (fun x y => (b.level y).price < (b.level x).price) := by
  rw [List.isChain_cons, List.isChain_map, List.head?_map]
  simp only [isSorted_buy, lt_maxValue_iff, Option.mem_def, Option.map_eq_some_iff]
  apply and_congr_left'
  constructor
  · exact fun h best hbest => h _ ⟨best, hbest, rfl⟩
  · rintro h _ ⟨best, hbest, rfl⟩
    exact h best hbest

/-- **When the check passes**: nothing is out of order, and the limits are not reached. -/
theorem Printable.toString_decides (h : Printable b asks bids orders) (assignedTicker : TickerID)
    (isDetailed : Bool) :
    Decides (¬ OutOfOrder b asks bids ∧ InsideLimits b asks bids) (fun _ => True)
      (b.toString assignedTicker isDetailed true) := by
  have hsides := Decides.bind (h.asks.printSide_decides isDetailed "ASKS"
    "\n                  [NO ASKS ON BOOK]\n" .sell Int64.minValue
    ("\n----- ORDER BOOK FOR TICKER: " ++ tickerIdToStr assignedTicker ++ " -----\n"))
    fun result _ => h.bids.printSide_decides isDetailed "BIDS"
      "\n                  [NO BIDS ON BOOK]\n" .buy Int64.maxValue
      (result ++ "\n                          X\n\n")
  apply hsides.congr
  rw [asks_pass_iff, bids_pass_iff, OutOfOrder, InsideLimits, not_or, not_not, not_not]
  tauto

/-- **When the validity check is exact**: a book out of order is found out, and one in order passes
unless its best ask or its best bid is at the limit of the prices. -/
theorem validity_check_iff (b : OrderBook B) (asks bids : List (LevelPtr B))
    (orders : LevelPtr B → List OrderPtr) (h : Printable b asks bids orders)
    (assignedTicker : TickerID) :
    CheckExact b asks bids assignedTicker ↔ OutOfOrder b asks bids ∨ InsideLimits b asks bids := by
  have hdecides := h.toString_decides assignedTicker
  constructor
  · intro hexact
    by_contra hnot
    obtain ⟨hsorted, hlimit⟩ := not_or.mp hnot
    have hthrows := (hdecides false).throws_iff.mpr fun hpass => hlimit hpass.2
    exact hsorted ((hexact.throws_iff false).mp hthrows)
  · intro hcond
    have hpass : ¬ OutOfOrder b asks bids → ¬ OutOfOrder b asks bids ∧ InsideLimits b asks bids :=
      fun hsorted => ⟨hsorted, hcond.resolve_left hsorted⟩
    refine ⟨fun isDetailed => (hdecides isDetailed).ne_fault, ?_, ?_⟩
    · intro isDetailed
      rw [(hdecides isDetailed).throws_iff]
      constructor
      · exact fun hfails => by_contra fun hsorted => hfails (hpass hsorted)
      · exact fun hout hpasses => hpasses.1 hout
    · intro hsorted
      rcases hdecides false with ⟨-, text, htext, -⟩ | ⟨hfails, -⟩
      · unfold OrderBook.destroy
        rw [htext]
        exact ⟨_, rfl⟩
      · exact absurd (hpass hsorted) hfails

end check

/-! ## Books that are printed -/

/-- The sides of a book with linked rings. -/
theorem Linked.printable {b : OrderBook B} {ring : Side → List (LevelPtr B)}
    {orders : LevelPtr B → List OrderPtr} (h : Linked b ring orders) :
    Printable b (ring .sell) (ring .buy) orders := by
  have hside : ∀ s : Side, s.Proper → PrintableSide b (b.bestOf s) (ring s) orders := by
    intro s hs
    constructor
    · exact h.isRing s hs
    · exact h.head s hs
    · exact fun l hl => h.liveLevel l ⟨s, hs, hl⟩
    · exact fun l hl => h.orders_isRing l ⟨s, hs, hl⟩
    · exact fun l hl => h.orders_ne_nil l ⟨s, hs, hl⟩
    · exact fun l hl => h.orders_head l ⟨s, hs, hl⟩
    · exact fun l hl => h.orders_live l ⟨s, hs, hl⟩
  exact ⟨hside .sell (.inr rfl), hside .buy (.inl rfl)⟩

/-- **The books of a run can be printed**, as long as both best pointers are kept on levels in
use. -/
theorem printable_throughout {stray : ℕ → Qty} {rs : List Request}
    (h : Meets (B := B) KeepsBest stray rs) :
    Throughout (B := B) (fun b =>
      Printable b (b.levelsFrom b.asksByPrice) (b.levelsFrom b.bidsByPrice) b.ordersOf) stray rs := by
  intro rs₀ rs₁ b₀ hrs hrun
  obtain ⟨queue, hv⟩ := hrun.valid
  obtain ⟨⟨ring, htwo⟩, -⟩ := hasSides_throughout h rs₀ rs₁ b₀ hrs hrun
  have hasks : b₀.levelsFrom b₀.asksByPrice = ring .sell := htwo.levelsFrom_eq (.inr rfl)
  have hbids : b₀.levelsFrom b₀.bidsByPrice = ring .buy := htwo.levelsFrom_eq (.inl rfl)
  rw [hasks, hbids]
  exact (htwo.linked hv).printable

/-- Level `l` is the only ask, and order `p` its only order; there are no bids. -/
abbrev IsLoneAsk (b : OrderBook B) (l : LevelPtr B) (p : OrderPtr) : Prop :=
  b.asksByPrice = some l ∧ b.bidsByPrice = none ∧ b.LiveLevel l ∧ b.LiveOrder p ∧
    (b.level l).order0 = some p ∧ (b.level l).next = some l ∧ (b.level l).prev = some l ∧
    (b.order p).next = some p ∧ (b.order p).prev = some p

theorem IsLoneAsk.printable {b : OrderBook B} {l : LevelPtr B} {p : OrderPtr}
    (h : IsLoneAsk b l p) : Printable b [l] [] fun _ => [p] := by
  obtain ⟨hasks, hbids, hl, hp, h0, hlnext, hlprev, hpnext, hpprev⟩ := h
  refine ⟨⟨Links.isRing_singleton.mpr ⟨hlnext, hlprev⟩, hasks, ?_, ?_, ?_, ?_, ?_⟩,
    ⟨Links.isRing_nil, hbids, ?_, ?_, ?_, ?_, ?_⟩⟩
  · simpa using hl
  · exact fun _ _ => Links.isRing_singleton.mpr ⟨hpnext, hpprev⟩
  · exact fun _ _ => List.cons_ne_nil p []
  · simpa using h0
  · simpa using hp
  all_goals exact fun _ hnil => absurd hnil List.not_mem_nil

/-- Asks at 100, 101 and 102: the third comes right behind the best. -/
def ascending : List Request :=
  [.new ⟨1, 1, 0, .sell, 100, 10⟩, .new ⟨2, 1, 0, .sell, 101, 10⟩, .new ⟨3, 1, 0, .sell, 102, 10⟩]

/-- The book after one `SELL`. -/
abbrev loneAsk (price : Price) : OrderBook .production :=
  bookAfter .production (fun _ => 0) [.new ⟨1, 1, 0, .sell, price, 10⟩]

/-- Three asks and two bids in order, which pass the check; and three asks the last of which has
come right behind the first, which do not. -/
theorem validity_check_iff_sample :
    (∃ b : OrderBook .production, RunsTo (fun _ => 0) (ladders.take 6) b ∧
      b.quotesFrom b.asksByPrice = [(100, [10]), (101, [10, 5]), (102, [10])] ∧
      b.quotesFrom b.bidsByPrice = [(99, [10]), (98, [10])] ∧
      ¬ OutOfOrder b (b.levelsFrom b.asksByPrice) (b.levelsFrom b.bidsByPrice) ∧
      CheckExact b (b.levelsFrom b.asksByPrice) (b.levelsFrom b.bidsByPrice) 0) ∧
    ∃ b : OrderBook .production, RunsTo (fun _ => 0) ascending b ∧
      b.quotesFrom b.asksByPrice = [(100, [10]), (102, [10]), (101, [10])] ∧
      OutOfOrder b (b.levelsFrom b.asksByPrice) (b.levelsFrom b.bidsByPrice) ∧
      CheckExact b (b.levelsFrom b.asksByPrice) (b.levelsFrom b.bidsByPrice) 0 := by
  have hladders : RunsTo (fun _ => 0) (ladders.take 6)
      (bookAfter .production (fun _ => 0) (ladders.take 6)) := runsTo_bookAfter (by decide +kernel)
  have hascending : RunsTo (fun _ => 0) ascending (bookAfter .production (fun _ => 0) ascending) :=
    runsTo_bookAfter (by decide +kernel)
  have hkeeps : Meets (B := .production) KeepsBest (fun _ => 0) (ladders.take 6) :=
    meets_of_forall (by decide +kernel)
  have hkeeps' : Meets (B := .production) KeepsBest (fun _ => 0) ascending :=
    meets_of_forall (by decide +kernel)
  have hprintable := printable_throughout hkeeps _ [] _ (List.append_nil _).symm hladders
  have hprintable' := printable_throughout hkeeps' _ [] _ (List.append_nil _).symm hascending
  have hexact := (validity_check_iff _ _ _ _ hprintable 0).mpr (.inr (by decide +kernel))
  have hexact' := (validity_check_iff _ _ _ _ hprintable' 0).mpr (.inl (by decide +kernel))
  exact ⟨⟨_, hladders, by decide +kernel, by decide +kernel, by decide +kernel, hexact⟩,
    _, hascending, by decide +kernel, by decide +kernel, hexact'⟩

/-- The only ask stands at the smallest price there is: nothing is out of order, and the check
throws. -/
theorem ask_at_lower_limit :
    ¬ ∀ (b : OrderBook .production) (asks bids : List (LevelPtr .production))
      (orders : LevelPtr .production → List OrderPtr) (assignedTicker : TickerID),
      Printable b asks bids orders → CheckExact b asks bids assignedTicker := by
  intro h
  have hlone : IsLoneAsk (loneAsk Int64.minValue) ⟨0, by decide⟩ ⟨0, by decide⟩ := by
    decide +kernel
  have hexact := h _ _ _ _ 0 hlone.printable
  have hthrows : ∃ what, (loneAsk Int64.minValue).toString 0 false true =
      .error (.runtimeError what) := by
    rw [(hlone.printable.toString_decides 0 false).throws_iff]
    rintro ⟨-, hask, -⟩
    exact hask _ rfl (by decide +kernel)
  rcases (hexact.throws_iff false).mp hthrows with hasks | hbids
  · exact hasks (List.isChain_singleton _)
  · exact hbids List.isChain_nil

end HftSys
