import HftSys.BookPrinting
import HftSys.Refinement

/-!
# What is printed of a book

`OrderBook::toString` walks the rings, reads every neighbour through its links and adds up as it
goes. `Market.text` is the text of a market, written down from its two ladders alone.
`toString_renders`: as long as both best pointers are kept on levels in use, the one is the other,
and the check throws exactly where the prices of the ladders are not in order.
-/

namespace HftSys

open Circular Exec Ladders

variable {B : Build}

/-! ## The text of a market -/

/-- The quantity of some orders, added up with the overflow of the type. -/
def totalQty (os : List Order) : Qty := os.foldl (fun q o => q + o.qty) 0

/-- The line of an order between its neighbours. -/
def orderText (n : Order × Order × Order) : String :=
  orderLine n.2.1.marketOrderId n.2.1.qty n.1.marketOrderId n.2.2.marketOrderId

/-- The lines of a level between its neighbours. -/
def rungText (isDetailed : Bool)
    (n : (Price × List Order) × (Price × List Order) × (Price × List Order)) : String :=
  levelLine n.2.1.1 n.1.1 n.2.2.1 (totalQty n.2.1.2) n.2.1.2.length ++
    if isDetailed then String.join ((around n.2.1.2).map orderText) else ""

/-- The lines of a level, behind its number. -/
def numberedText (isDetailed : Bool) (label : String)
    (n : ((Price × List Order) × (Price × List Order) × (Price × List Order)) × ℕ) : String :=
  label ++ "[" ++ toString n.2 ++ "] => " ++ rungText isDetailed n.1

/-- The lines of a side. -/
def sideText (isDetailed : Bool) (label noneOnBook : String) (L : Ladder Price Order) : String :=
  if L = [] then noneOnBook
  else String.join ((around L).zipIdx.map (numberedText isDetailed label))

/-- The text of a market. -/
def Market.text (m : Market) (assignedTicker : TickerID) (isDetailed : Bool) : String :=
  "\n----- ORDER BOOK FOR TICKER: " ++ tickerIdToStr assignedTicker ++ " -----\n" ++
    sideText isDetailed "ASKS" "\n                  [NO ASKS ON BOOK]\n" m.asks ++
    "\n                          X\n\n" ++
    sideText isDetailed "BIDS" "\n                  [NO BIDS ON BOOK]\n" m.bids

/-- The prices of both sides are in order, behind the ones the check starts from. -/
def Market.PassesCheck (m : Market) : Prop :=
  List.IsChain (fun x y => isSorted .sell x y = true) (Int64.minValue :: m.asks.map Prod.fst) ∧
    List.IsChain (fun x y => isSorted .buy x y = true) (Int64.maxValue :: m.bids.map Prod.fst)

instance (m : Market) : Decidable m.PassesCheck := inferInstanceAs (Decidable (_ ∧ _))

/-! ## Folds that add text -/

/-- The loop of a level's sums. -/
theorem foldl_sums (os : List Order) (q : Qty) (k : ℕ) :
    os.foldl (fun (acc : Qty × ℕ) o => (acc.1 + o.qty, acc.2 + 1)) (q, k) =
      (os.foldl (fun q o => q + o.qty) q, k + os.length) := by
  induction os generalizing q k with
  | nil => rfl
  | cons o os ih => rw [List.foldl_cons, ih, List.foldl_cons, List.length_cons, Nat.add_right_comm,
      Nat.add_assoc]

/-- A loop that adds the text of each element. -/
theorem foldlM_adds {α : Type} {body : String → α → Except PrintStop String} {text : α → String}
    {ns : List α} (h : ∀ result, ∀ n ∈ ns, body result n = .ok (result ++ text n))
    (result : String) : ns.foldlM body result = .ok (result ++ String.join (ns.map text)) := by
  induction ns generalizing result with
  | nil => simp [String.join_nil, pure, Except.pure]
  | cons n ns ih =>
    rw [List.foldlM_cons, h result n List.mem_cons_self, except_ok_bind,
      ih fun result m hm => h result m (List.mem_cons_of_mem _ hm), List.map_cons, String.join_cons,
      String.append_assoc]

/-- A loop that adds the text of each element, if it comes to its end. -/
theorem foldlM_adds_of_ok {α β : Type} {body : String × β → α → Except PrintStop (String × β)}
    {text : α → String} {ns : List α} {acc r : String × β}
    (h : ∀ acc r, ∀ n ∈ ns, body acc n = .ok r → r.1 = acc.1 ++ text n)
    (hr : ns.foldlM body acc = .ok r) : r.1 = acc.1 ++ String.join (ns.map text) := by
  induction ns generalizing acc with
  | nil =>
    cases hr
    simp [String.join_nil]
  | cons n ns ih =>
    rw [List.foldlM_cons] at hr
    obtain ⟨acc₁, hfirst, hrest⟩ := except_bind_eq_ok.mp hr
    rw [ih (fun acc r m hm => h acc r m (List.mem_cons_of_mem _ hm)) hrest,
      h acc acc₁ n List.mem_cons_self hfirst, List.map_cons, String.join_cons, String.append_assoc]

/-! ## A side -/

namespace PrintableSide

variable {b : OrderBook B} {best : Option (LevelPtr B)} {levels : List (LevelPtr B)}
  {orders : LevelPtr B → List OrderPtr} {l : LevelPtr B}

/-- A level with its orders. -/
abbrev rung (b : OrderBook B) (orders : LevelPtr B → List OrderPtr) (l : LevelPtr B) :
    Price × List Order :=
  ((b.level l).price, (orders l).map b.data)

/-- A level and its neighbours, with their orders. -/
abbrev rungs (b : OrderBook B) (orders : LevelPtr B → List OrderPtr)
    (n : LevelPtr B × LevelPtr B × LevelPtr B) :
    (Price × List Order) × (Price × List Order) × (Price × List Order) :=
  (rung b orders n.1, rung b orders n.2.1, rung b orders n.2.2)

/-- The sums over a level's orders. -/
theorem sums_eq (h : PrintableSide b best levels orders) (hl : l ∈ levels) :
    forOrders b (b.level l).order0
        (fun (acc : Qty × ℕ) order => .ok (acc.1 + order.qty, acc.2 + 1)) maxOrderIds
        (b.level l).order0 (0, 0) =
      .ok (totalQty ((orders l).map b.data), ((orders l).map b.data).length) := by
  rw [h.orders_head l hl, forOrders_ring (h.orders_isRing l hl) (h.orders_ne_nil l hl)
    (h.orders_live l hl)]
  have hsums := foldl_sums ((orders l).map b.data) 0 0
  rw [List.foldl_map, Nat.zero_add] at hsums
  exact (List.foldlM_pure ..).trans (congrArg Except.ok hsums)

/-- The lines of a level's orders. -/
theorem printOrders_eq (h : PrintableSide b best levels orders) (hl : l ∈ levels)
    (isDetailed : Bool) (result : String) :
    printOrders b isDetailed (b.level l) result = .ok (result ++
      if isDetailed then String.join ((around ((orders l).map b.data)).map orderText) else "") := by
  unfold printOrders
  cases isDetailed with
  | false => simp
  | true =>
    rw [if_pos rfl, if_pos rfl, h.orders_head l hl, forOrders_ring (h.orders_isRing l hl)
      (h.orders_ne_nil l hl) (h.orders_live l hl), around_map, List.map_map]
    -- every order is read between its neighbours on the ring
    conv_lhs => rw [← map_around (orders l), List.foldlM_map]
    apply foldlM_adds
    rintro result ⟨w, v, y⟩ hn
    obtain ⟨hprev, hnext⟩ := (h.orders_isRing l hl).joined_around hn
    have hv : v ∈ orders l := by
      rw [← map_around (orders l)]
      exact List.mem_map.mpr ⟨_, hn, rfl⟩
    obtain ⟨w', y', hw', hwlive, hy', hylive⟩ := h.order_neighbours hl hv
    obtain rfl : w = w' := Option.some.inj (hprev.2.symm.trans hw')
    obtain rfl : y = y' := Option.some.inj (hnext.1.symm.trans hy')
    rw [hw', marketOrderIdOf_of_live hwlive, except_ok_bind, hy', marketOrderIdOf_of_live hylive,
      except_ok_bind]
    rfl

/-- **The closure prints a level between its neighbours**, and then tests it. -/
theorem printer_eq (h : PrintableSide b best levels orders)
    {n : LevelPtr B × LevelPtr B × LevelPtr B} (hn : n ∈ around levels)
    (isDetailed hasValidityCheck : Bool) (sideEnum : Side) (result : String) (lastPrice : Price) :
    printer b isDetailed hasValidityCheck sideEnum result lastPrice (b.level n.2.1) =
      if hasValidityCheck then
        if isSorted sideEnum lastPrice (b.level n.2.1).price then
          .ok (result ++ rungText isDetailed (rungs b orders n), (b.level n.2.1).price)
        else do
          let text ← levelToString b (b.level n.2.1)
          .error (.runtimeError ("Bid/ask price levels not sorted correctly: " ++
            priceToStr lastPrice ++ " levels:" ++ text))
      else .ok (result ++ rungText isDetailed (rungs b orders n), lastPrice) := by
  obtain ⟨w, v, y⟩ := n
  obtain ⟨hprev, hnext⟩ := h.isRing.joined_around hn
  have hv : v ∈ levels := by
    rw [← map_around levels]
    exact List.mem_map.mpr ⟨_, hn, rfl⟩
  obtain ⟨w', y', hw', hwlive, hy', hylive⟩ := h.level_neighbours hv
  obtain rfl : w = w' := Option.some.inj (hprev.2.symm.trans hw')
  obtain rfl : y = y' := Option.some.inj (hnext.1.symm.trans hy')
  unfold printer
  rw [h.sums_eq hv, except_ok_bind]
  simp only []
  rw [hw', readLevel_of_live hwlive, except_ok_bind, hy', readLevel_of_live hylive, except_ok_bind,
    h.printOrders_eq hv, except_ok_bind, rungText, String.append_assoc]

/-- What the closure adds, if it returns. -/
theorem printer_text (h : PrintableSide b best levels orders)
    {n : LevelPtr B × LevelPtr B × LevelPtr B} (hn : n ∈ around levels)
    {isDetailed hasValidityCheck : Bool} {sideEnum : Side} {result : String} {lastPrice : Price}
    {r : String × Price}
    (hr : printer b isDetailed hasValidityCheck sideEnum result lastPrice (b.level n.2.1) = .ok r) :
    r.1 = result ++ rungText isDetailed (rungs b orders n) := by
  rw [h.printer_eq hn] at hr
  split at hr
  · split at hr
    · cases hr
      rfl
    · obtain ⟨text, -, herror⟩ := except_bind_eq_ok.mp hr
      cases herror
  · cases hr
    rfl

/-- The loop over the levels, each between its neighbours. -/
theorem levels_eq (f : String × Price → LevelPtr B × ℕ → Except PrintStop (String × Price))
    (acc : String × Price) :
    levels.zipIdx.foldlM f acc =
      (around levels).zipIdx.foldlM (fun acc n => f acc (n.1.2.1, n.2)) acc := by
  conv_lhs => rw [← map_around levels, List.zipIdx_map, List.foldlM_map]
  rfl

/-- **What is printed of a side**, if all of it is. -/
theorem printSide_text (h : PrintableSide b best levels orders)
    {isDetailed hasValidityCheck : Bool} {label noneOnBook : String} {sideEnum : Side}
    {lastPrice : Price} {result text : String}
    (hr : printSide b isDetailed hasValidityCheck label noneOnBook sideEnum best lastPrice result =
      .ok text) :
    text = result ++ sideText isDetailed label noneOnBook (levels.map (rung b orders)) := by
  unfold printSide at hr
  unfold sideText
  by_cases hnil : levels = []
  · rw [h.head, hnil, List.head?_nil, if_pos rfl] at hr
    cases hr
    rw [hnil, List.map_nil, if_pos rfl]
  · have hbest : best ≠ none := by
      rw [h.head, Ne, List.head?_eq_none_iff]
      exact hnil
    rw [if_neg hbest, h.head, forLevels_ring h.isRing hnil h.live, levels_eq] at hr
    rw [if_neg (by simpa using hnil), around_map, List.zipIdx_map, List.map_map]
    obtain ⟨r, hfold, htext⟩ := except_bind_eq_ok.mp hr
    cases htext
    refine foldlM_adds_of_ok ?_ hfold
    rintro acc r ⟨n, k⟩ hn hprinted
    rw [h.printer_text (List.fst_mem_of_mem_zipIdx hn) hprinted, Function.comp_apply, numberedText]
    simp only [String.append_assoc]
    rfl

/-- Without the check a side is printed. -/
theorem printSide_returns (h : PrintableSide b best levels orders) (isDetailed : Bool)
    (label noneOnBook : String) (sideEnum : Side) (lastPrice : Price) (result : String) :
    ∃ text, printSide b isDetailed false label noneOnBook sideEnum best lastPrice result =
      .ok text := by
  unfold printSide
  by_cases hnil : levels = []
  · rw [h.head, hnil, List.head?_nil, if_pos rfl]
    exact ⟨_, rfl⟩
  · have hbest : best ≠ none := by
      rw [h.head, Ne, List.head?_eq_none_iff]
      exact hnil
    rw [if_neg hbest, h.head, forLevels_ring h.isRing hnil h.live, levels_eq]
    obtain ⟨r, hr⟩ := foldlM_returns (f := fun (acc : String × Price) n =>
        printer b isDetailed false sideEnum (acc.1 ++ label ++ "[" ++ toString n.2 ++ "] => ") acc.2
          (b.level n.1.2.1)) (l := (around levels).zipIdx)
      (fun acc n hn => ⟨_, h.printer_eq (List.fst_mem_of_mem_zipIdx hn) ..⟩) (result, lastPrice)
    rw [hr, except_ok_bind]
    exact ⟨_, rfl⟩

end PrintableSide

/-! ## A book -/

section book

variable {b : OrderBook B} {ring : Side → List (LevelPtr B)} {assignedTicker : TickerID}
  {isDetailed hasValidityCheck : Bool} {text : String}

/-- The ladders of a book with linked rings. -/
theorem Linked.market_eq (h : Linked b ring b.ordersOf) :
    b.market.asks = (ring .sell).map (PrintableSide.rung b b.ordersOf) ∧
      b.market.bids = (ring .buy).map (PrintableSide.rung b b.ordersOf) := by
  constructor
  · rw [← h.levelsFrom_eq (.inr rfl)]
    rfl
  · rw [← h.levelsFrom_eq (.inl rfl)]
    rfl

/-- What is printed is the text of the market. -/
theorem Linked.toString_text (h : Linked b ring b.ordersOf)
    (hr : b.toString assignedTicker isDetailed hasValidityCheck = .ok text) :
    text = b.market.text assignedTicker isDetailed := by
  obtain ⟨hasks, hbids⟩ := h.market_eq
  simp only [OrderBook.toString] at hr
  obtain ⟨result, hfirst, hsecond⟩ := except_bind_eq_ok.mp hr
  have hresult := h.printable.asks.printSide_text hfirst
  have htext := h.printable.bids.printSide_text hsecond
  unfold Market.text
  rw [htext, hresult, hasks, hbids]

/-- Without the check a book is printed. -/
theorem Linked.toString_returns (h : Linked b ring b.ordersOf) (assignedTicker : TickerID)
    (isDetailed : Bool) : ∃ text, b.toString assignedTicker isDetailed false = .ok text := by
  simp only [OrderBook.toString]
  obtain ⟨result, hfirst⟩ := h.printable.asks.printSide_returns isDetailed "ASKS"
    "\n                  [NO ASKS ON BOOK]\n" .sell Int64.minValue
    ("\n----- ORDER BOOK FOR TICKER: " ++ tickerIdToStr assignedTicker ++ " -----\n")
  rw [hfirst, except_ok_bind]
  exact h.printable.bids.printSide_returns ..

/-- When the check passes. -/
theorem Linked.passesCheck_iff (h : Linked b ring b.ordersOf) :
    b.market.PassesCheck ↔
      ¬ OutOfOrder b (ring .sell) (ring .buy) ∧ InsideLimits b (ring .sell) (ring .buy) := by
  obtain ⟨hasks, hbids⟩ := h.market_eq
  have hprices : ∀ levels : List (LevelPtr B),
      (levels.map (PrintableSide.rung b b.ordersOf)).map Prod.fst =
        levels.map fun l => (b.level l).price := fun levels => by
    rw [List.map_map]
    rfl
  rw [Market.PassesCheck, hasks, hbids, hprices, hprices, asks_pass_iff, bids_pass_iff, OutOfOrder,
    InsideLimits, not_or, not_not, not_not]
  tauto

end book

/-- **`toString` prints the market**: in every run whose requests leave both best pointers on levels
in use, the text of the book is the text of its market, level by level and order by order; with the
check it is that text too if the prices of both ladders are in order, and an exception if they are
not. -/
theorem toString_renders {stray : ℕ → Qty} {rs : List Request} {b : OrderBook B}
    (hkeeps : Meets (B := B) KeepsBest stray rs) (h : RunsTo stray rs b)
    (assignedTicker : TickerID) (isDetailed : Bool) :
    b.toString assignedTicker isDetailed false = .ok (b.market.text assignedTicker isDetailed) ∧
      (b.market.PassesCheck → b.toString assignedTicker isDetailed true =
        .ok (b.market.text assignedTicker isDetailed)) ∧
      (¬ b.market.PassesCheck → ∃ what, b.toString assignedTicker isDetailed true =
        .error (.runtimeError what)) := by
  obtain ⟨queue, hv⟩ := h.valid
  obtain ⟨⟨ring, htwo⟩, -⟩ := hasSides_throughout hkeeps rs [] b (List.append_nil rs).symm h
  have hlinked := htwo.linked hv
  have hdecides := hlinked.printable.toString_decides assignedTicker isDetailed
  rw [← hlinked.passesCheck_iff] at hdecides
  refine ⟨?_, fun hpasses => ?_, hdecides.throws_iff.mpr⟩
  · obtain ⟨text, htext⟩ := hlinked.toString_returns assignedTicker isDetailed
    rw [htext, hlinked.toString_text htext]
  · rcases hdecides with ⟨-, text, htext, -⟩ | ⟨hfails, -⟩
    · rw [htext, hlinked.toString_text htext]
    · exact absurd hpasses hfails

/-- Two asks, the better one second, and a bid. -/
def threeQuotes : List Request :=
  [.new ⟨1, 1, 0, .sell, 101, 5⟩, .new ⟨1, 2, 0, .sell, 100, 10⟩, .new ⟨2, 1, 0, .buy, 99, 4⟩]

/-- The book they lead to passes the check, and is printed as its market. -/
theorem toString_renders_sample :
    ∃ b : OrderBook .production, b.market.asks.map Prod.fst = [100, 101] ∧
      b.market.bids.map Prod.fst = [99] ∧ b.toString 0 true true = .ok (b.market.text 0 true) := by
  have hkeeps : Meets (B := .production) KeepsBest (fun _ => 0) threeQuotes := by
    rintro before r after b heq -
    have hmem : r ∈ threeQuotes := by simp [heq]
    simp only [threeQuotes, List.mem_cons, List.not_mem_nil, or_false] at hmem
    rcases hmem with rfl | rfl | rfl
    · exact .inr rfl
    · exact .inr rfl
    · exact .inl rfl
  have hrun : RunsTo (fun _ => 0) threeQuotes (bookAfter .production (fun _ => 0) threeQuotes) :=
    runsTo_bookAfter (by decide +kernel)
  obtain ⟨-, hchecked, -⟩ := toString_renders hkeeps hrun 0 true
  exact ⟨_, by decide +kernel, by decide +kernel, hchecked (by decide +kernel)⟩

end HftSys
