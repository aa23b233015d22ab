import HftSys.Conservation
import HftSys.Lib.Mirror
import HftSys.Numbering

/-!
# Execution reports replay to the book

A drop copy reads every response of a book and keeps a record of the open orders. The `FILLED`
response to the incoming order carries a remainder that is not the order's (`matchOrder` moves the
pointer it is given, not the quantity), so the record passes over the responses about the order
accepted last, and goes by those about resting orders.

* `DropCopy.apply`, `DropCopy.Fits`: what a response does to the record, and what it takes for
  granted about it.
* `DropCopy.quantities`: in any sequence of fitting responses, the quantity an order is accepted
  with is what it is filled for at rest, what is cancelled, and what is open.
* `reports_replay`: the responses of a run fit, and their record is the book's orders.
* `quantity_reported`: in every run, and for every order id, accepted = filled at rest + cancelled +
  resting.
-/

namespace HftSys

open Mirror

variable {B : Build}

/-! ## The record -/

/-- What the responses say of an order in the book. -/
structure OpenOrder where
  clientId : ClientID
  clientOrderId : OrderID
  side : Side
  price : Price
  qty : Qty
deriving DecidableEq, Repr

/-- The open orders by market order id, and the id accepted last. -/
structure DropCopy where
  orders : OrderID → Option OpenOrder
  last : Option OrderID

/-- An order with this quantity left, if any is left. -/
def OpenOrder.leaving (o : OpenOrder) (qty : Qty) : Option OpenOrder :=
  if qty = 0 then none else some { o with qty := qty }

/-- The order a response is about, with the quantity it says is left. -/
def OMEClientResponse.openOrder (r : OMEClientResponse) : OpenOrder :=
  ⟨r.clientId, r.clientOrderId, r.side, r.price, r.qtyRemain⟩

namespace DropCopy

/-- Nothing has been reported. -/
def empty : DropCopy := ⟨fun _ => none, none⟩

/-- The order `m` becomes `o`. -/
def put (d : DropCopy) (m : OrderID) (o : Option OpenOrder) : DropCopy :=
  { d with orders := Function.update d.orders m o }

/-- One response. -/
def apply (d : DropCopy) (r : OMEClientResponse) : DropCopy :=
  match r.type with
  | .accepted =>
    { d.put r.marketOrderId (r.openOrder.leaving r.qtyRemain) with last := some r.marketOrderId }
  | .filled =>
    if d.last = some r.marketOrderId then d
    else d.put r.marketOrderId ((d.orders r.marketOrderId).bind fun o => o.leaving r.qtyRemain)
  | .cancelled => d.put r.marketOrderId none
  | _ => d

/-- What a response takes for granted: an accepted order is new; a filled one is open and its
owner's, the price is within its limit, and, if it was at rest, the price is its own and the
quantities add up; a cancelled one is open just as the response has it. -/
def Fits (d : DropCopy) (r : OMEClientResponse) : Prop :=
  match r.type with
  | .accepted => d.orders r.marketOrderId = none
  | .filled => ∃ o, d.orders r.marketOrderId = some o ∧ r.clientId = o.clientId ∧
      r.clientOrderId = o.clientOrderId ∧ r.side = o.side ∧ r.qtyExec ≠ 0 ∧
      if d.last = some r.marketOrderId then misses r.side o.price r.price = false
      else r.price = o.price ∧ r.qtyExec.toNat + r.qtyRemain.toNat = o.qty.toNat
  | .cancelled => d.orders r.marketOrderId = some r.openOrder
  | _ => True

/-- The record after some responses. -/
def after (d : DropCopy) (rs : List OMEClientResponse) : DropCopy := rs.foldl apply d

/-- Each of the responses fits the record at that point. -/
inductive AllFit : DropCopy → List OMEClientResponse → Prop
  | nil (d : DropCopy) : AllFit d []
  | cons {d : DropCopy} {r : OMEClientResponse} {rs : List OMEClientResponse} (first : d.Fits r)
    (rest : AllFit (d.apply r) rs) : AllFit d (r :: rs)

/-- The open quantity of order `m`. -/
def openQty (d : DropCopy) (m : OrderID) : ℕ := ((d.orders m).map fun o => o.qty.toNat).getD 0

/-- The quantity executed for order `m` by a response while the order was at rest. -/
def fillAtRest (d : DropCopy) (m : OrderID) (r : OMEClientResponse) : ℕ :=
  if r.type = .filled ∧ r.marketOrderId = m ∧ d.last ≠ some m then r.qtyExec.toNat else 0

/-- The quantity executed for order `m` while it was at rest. -/
def filledAtRest (d : DropCopy) (m : OrderID) : List OMEClientResponse → ℕ
  | [] => 0
  | r :: rs => d.fillAtRest m r + (d.apply r).filledAtRest m rs

end DropCopy

/-- The quantity that responses of type `t` give for order `m`. -/
def reportedQty (t : ResponseType) (m : OrderID) (rs : List OMEClientResponse) : ℕ :=
  (rs.map fun r => if r.type = t ∧ r.marketOrderId = m then r.qtyRemain.toNat else 0).sum

/-! ## Records and quantities -/

namespace DropCopy

variable {d : DropCopy} {r : OMEClientResponse} {rs : List OMEClientResponse} {m m' : OrderID}

@[simp] theorem after_nil : d.after [] = d := rfl

@[simp] theorem after_concat : d.after (rs ++ [r]) = (d.after rs).apply r :=
  List.foldl_concat _ _ _ _

theorem allFit_cons {r : OMEClientResponse} :
    d.AllFit (r :: rs) ↔ d.Fits r ∧ (d.apply r).AllFit rs :=
  ⟨fun h => by cases h with | cons first rest => exact ⟨first, rest⟩, fun h => .cons h.1 h.2⟩

theorem allFit_concat : d.AllFit (rs ++ [r]) ↔ d.AllFit rs ∧ (d.after rs).Fits r := by
  induction rs generalizing d with
  | nil => simp [allFit_cons, AllFit.nil]
  | cons r' rs ih =>
    rw [List.cons_append, allFit_cons, ih, allFit_cons, and_assoc]
    rfl

@[simp] theorem openQty_put_self (o : Option OpenOrder) :
    (d.put m o).openQty m = (o.map fun o => o.qty.toNat).getD 0 := by
  simp [openQty, put]

theorem openQty_put_of_ne (o : Option OpenOrder) (h : m ≠ m') :
    (d.put m' o).openQty m = d.openQty m := by
  simp [openQty, put, h]

theorem qty_leaving (o : OpenOrder) (qty : Qty) :
    ((o.leaving qty).map fun o => o.qty.toNat).getD 0 = qty.toNat := by
  unfold OpenOrder.leaving
  split
  · rename_i h
    rw [h]
    rfl
  · rfl

/-- What a response says about an order is what it does to the order's open quantity. -/
theorem Fits.quantities (h : d.Fits r) (m : OrderID) :
    d.openQty m + (if r.type = .accepted ∧ r.marketOrderId = m then r.qtyRemain.toNat else 0) =
      d.fillAtRest m r +
        (if r.type = .cancelled ∧ r.marketOrderId = m then r.qtyRemain.toNat else 0) +
        (d.apply r).openQty m := by
  unfold Fits at h
  unfold fillAtRest apply
  cases ht : r.type with
  | accepted =>
    rw [ht] at h
    simp only [true_and, reduceCtorEq, false_and, if_false, zero_add]
    by_cases hm : r.marketOrderId = m
    · subst hm
      have hnew : d.openQty r.marketOrderId = 0 := by rw [openQty, h]; rfl
      rw [if_pos rfl, hnew, zero_add]
      exact ((openQty_put_self _).trans (qty_leaving _ _)).symm
    · rw [if_neg hm, add_zero]
      exact (openQty_put_of_ne _ (Ne.symm hm)).symm
  | filled =>
    rw [ht] at h
    obtain ⟨o, ho, -, -, -, -, hlast⟩ := h
    simp only [reduceCtorEq, true_and, false_and, if_false, add_zero]
    by_cases hm : r.marketOrderId = m
    · subst hm
      by_cases hl : d.last = some r.marketOrderId
      · rw [if_pos hl, if_neg fun h => h.2 hl, zero_add]
      · rw [if_neg hl] at hlast
        rw [if_neg hl, if_pos ⟨rfl, hl⟩, openQty_put_self, ho, Option.bind_some, qty_leaving,
          openQty, ho]
        exact hlast.2.symm
    · rw [if_neg fun h => hm h.1, zero_add]
      split
      · rfl
      · exact (openQty_put_of_ne _ (Ne.symm hm)).symm
  | cancelled =>
    rw [ht] at h
    simp only [reduceCtorEq, true_and, false_and, if_false, zero_add, add_zero]
    by_cases hm : r.marketOrderId = m
    · subst hm
      rw [if_pos rfl, openQty_put_self, openQty, h]
      rfl
    · rw [if_neg hm, zero_add]
      exact (openQty_put_of_ne _ (Ne.symm hm)).symm
  | invalid => simp
  | cancelRejected => simp

/-- **Quantities of fitting responses**: what an order had open and was accepted with is what it was
filled for at rest, what was cancelled, and what is open. -/
theorem AllFit.quantities (h : d.AllFit rs) (m : OrderID) :
    d.openQty m + reportedQty .accepted m rs =
      d.filledAtRest m rs + reportedQty .cancelled m rs + (d.after rs).openQty m := by
  induction h with
  | nil d => simp [reportedQty, filledAtRest]
  | @cons d r rs first rest ih =>
    have hr := first.quantities m
    simp only [reportedQty, List.map_cons, List.sum_cons, filledAtRest] at ih ⊢
    have hafter : d.after (r :: rs) = (d.apply r).after rs := rfl
    rw [hafter]
    omega

end DropCopy

/-- The quantities in a log are those of its responses. -/
theorem sum_qtyOf (t : ResponseType) (m : OrderID) (log : List Emission) :
    (log.map (Emission.qtyOf t OMEClientResponse.qtyRemain m)).sum =
      reportedQty t m (responsesOf log) := by
  induction log with
  | nil => rfl
  | cons e log ih =>
    rw [List.map_cons, List.sum_cons, ih]
    cases e with
    | response r => rfl
    | update u => exact zero_add _

/-! ## The record of a book -/

/-- What the responses should say of an order. -/
def Order.openOrder (o : Order) : OpenOrder := ⟨o.clientId, o.clientOrderId, o.side, o.price, o.qty⟩

/-- What they should say of an incoming order. -/
def NewOrder.openOrder (taker : NewOrder) : OpenOrder :=
  ⟨taker.clientId, taker.clientOid, taker.side, taker.price, taker.qty⟩

namespace OrderBook

/-- The id an order in the book goes by. -/
abbrev idOf (b : OrderBook B) (p : OrderPtr) : OrderID := (b.order p).marketOrderId

/-- An order in the book, as responses have it. -/
abbrev openOf (b : OrderBook B) (p : OrderPtr) : OpenOrder := (b.order p).openOrder

/-- The record of the responses so far. -/
def dropCopy (b : OrderBook B) : DropCopy := DropCopy.empty.after (responsesOf b.ome)

/-- The responses so far fit. -/
def ReportsFit (b : OrderBook B) : Prop := DropCopy.empty.AllFit (responsesOf b.ome)

/-- A map of open orders is that of the book. -/
abbrev OpenIn (b : OrderBook B) (m : OrderID → Option OpenOrder) : Prop :=
  Mirrors m b.LiveOrder b.idOf b.openOf

end OrderBook

/-- The responses so far fit, and their record is the book's orders. -/
structure Reported (b : OrderBook B) : Prop where
  fits : b.ReportsFit
  shows : b.OpenIn b.dropCopy.orders

/-- The same inside the matching of order `m`, which is on record beside the book's orders. -/
structure Reporting (taker : NewOrder) (m : OrderID) (n : ℕ) (b : OrderBook B) : Prop where
  numbered : Numbered b n
  fits : b.ReportsFit
  last : b.dropCopy.last = some m
  shows : ∃ known, b.OpenIn known ∧
    b.dropCopy.orders = Function.update known m (taker.openOrder.leaving taker.qty)

section steps

variable {b b' b₁ : OrderBook B} {queue : Queues B} {n : ℕ} {taker : NewOrder}
  {newMarketOid : OrderID}

/-- The views of an order whose data are those of another book. -/
theorem openOrder_of_data {p : OrderPtr} (h : b'.data p = b.data p) : b'.openOf p = b.openOf p := by
  have := congrArg Order.openOrder h
  exact this

/-- One more response. -/
theorem dropCopy_concat (b b' : OrderBook B) (r : OMEClientResponse) (log : List Emission)
    (home : b'.ome = b.ome ++ log) (hlog : responsesOf log = [r]) :
    b'.dropCopy = b.dropCopy.apply r ∧ (b'.ReportsFit ↔ b.ReportsFit ∧ b.dropCopy.Fits r) := by
  have hsame : responsesOf b'.ome = responsesOf b.ome ++ [r] := by
    rw [home, responsesOf_append, hlog]
  constructor
  · rw [OrderBook.dropCopy, hsame, DropCopy.after_concat, OrderBook.dropCopy]
  · rw [OrderBook.ReportsFit, hsame, DropCopy.allFit_concat, OrderBook.ReportsFit,
      OrderBook.dropCopy]

theorem Numbered.keysDiffer (h : Numbered b n) : KeysDiffer b.LiveOrder b.idOf := h.id_inj

/-- The next id is no order's. -/
theorem Numbered.id_ne (h : Numbered b n) (hoid : newMarketOid.toNat = n + 1) {p : OrderPtr}
    (hp : b.LiveOrder p) : b.idOf p ≠ newMarketOid := by
  intro e
  have hle : (b.idOf p).toNat ≤ n := h.id_le p hp
  rw [e, hoid] at hle
  omega

/-- The response to the incoming order in one `matchOrder` call. -/
def OrderBook.incomingFill (b : OrderBook B) (stray : ℕ → Qty) (taker : NewOrder)
    (newMarketOid : OrderID) (p : OrderPtr) : OMEClientResponse :=
  ⟨.filled, taker.clientId, taker.tickerId, taker.clientOid, newMarketOid, taker.side,
    (b.order p).price, b.fillQty p taker.qty, b.reported stray p taker.qty⟩

/-- The response to the resting order. -/
def OrderBook.restingFill (b : OrderBook B) (taker : NewOrder) (p : OrderPtr) : OMEClientResponse :=
  ⟨.filled, (b.order p).clientId, taker.tickerId, (b.order p).clientOrderId, b.idOf p,
    (b.order p).side, (b.order p).price, b.fillQty p taker.qty, (b.orderAfter p taker.qty).qty⟩

/-- The responses of one `matchOrder` call. -/
theorem responsesOf_matched (stray : ℕ → Qty) (p : OrderPtr) (l : LevelPtr B) :
    responsesOf (b.matched stray taker newMarketOid p l taker.qty).ome = responsesOf b.ome ++
      [b.incomingFill stray taker newMarketOid p] ++ [b.restingFill taker p] := by
  rw [OrderBook.ome_matched, responsesOf_append, OrderBook.matchLog, matchEvents, List.append_assoc]
  split <;> rfl

/-! ### A turn of the matching loop -/

section turn

variable {p : OrderPtr} {best : LevelPtr B}

/-- The resting order is on record, and is not the order accepted last. -/
theorem Reporting.resting (h : Reporting taker newMarketOid n b) (hoid : newMarketOid.toNat = n + 1)
    (hp : b.LiveOrder p) :
    b.dropCopy.orders (b.idOf p) = some (b.openOf p) ∧ b.dropCopy.last ≠ some (b.idOf p) := by
  obtain ⟨known, hknown, horders⟩ := h.shows
  have hne : b.idOf p ≠ newMarketOid := h.numbered.id_ne hoid hp
  constructor
  · rw [horders, Function.update_of_ne hne]
    exact hknown.eq_some hp
  · rw [h.last]
    exact fun e => hne (Option.some.inj e).symm

/-- The response about the incoming order changes nothing on record, the other one the quantity of
the resting order. -/
theorem Reporting.dropCopy_matched (best : LevelPtr B) (h : Reporting taker newMarketOid n b)
    (hoid : newMarketOid.toNat = n + 1) (stray : ℕ → Qty) (hp : b.LiveOrder p) :
    b.dropCopy.apply (b.incomingFill stray taker newMarketOid p) = b.dropCopy ∧
      (b.matched stray taker newMarketOid p best taker.qty).dropCopy =
        b.dropCopy.put (b.idOf p) ((b.openOf p).leaving (b.orderAfter p taker.qty).qty) := by
  have hincoming : b.dropCopy.apply (b.incomingFill stray taker newMarketOid p) = b.dropCopy :=
    if_pos h.last
  obtain ⟨hrest, hlast⟩ := h.resting hoid hp
  refine ⟨hincoming, ?_⟩
  have hresting : b.dropCopy.apply (b.restingFill taker p) = b.dropCopy.put (b.idOf p)
      ((b.dropCopy.orders (b.idOf p)).bind fun o => o.leaving (b.orderAfter p taker.qty).qty) :=
    if_neg hlast
  rw [hrest, Option.bind_some] at hresting
  rw [OrderBook.dropCopy, responsesOf_matched, DropCopy.after_concat, DropCopy.after_concat,
    ← hresting]
  exact congrArg (DropCopy.apply · (b.restingFill taker p)) hincoming

/-- The incoming order is filled within its limit. -/
theorem Reporting.fits_incoming (h : Reporting taker newMarketOid n b) (hv : Valid b queue)
    (stray : ℕ → Qty) (hr : Reaches b taker taker.qty best p) :
    b.dropCopy.Fits (b.incomingFill stray taker newMarketOid p) := by
  obtain ⟨known, -, horders⟩ := h.shows
  have hfill := hv.qtyPos.fillQty_pos hr.live hr.qty
  refine ⟨taker.openOrder, ?_, rfl, rfl, rfl, ?_, ?_⟩
  · show b.dropCopy.orders newMarketOid = _
    rw [horders, Function.update_self, OpenOrder.leaving, if_neg hr.qty]
    rfl
  · exact fun e => absurd (e ▸ hfill : 0 < (0 : Qty).toNat) (Nat.lt_irrefl 0)
  · show if b.dropCopy.last = some newMarketOid then _ else _
    rw [if_pos h.last]
    exact hr.price

/-- The resting order is filled at its price, for a part of its quantity. -/
theorem Reporting.fits_resting (h : Reporting taker newMarketOid n b) (hv : Valid b queue)
    (hoid : newMarketOid.toNat = n + 1) (hr : Reaches b taker taker.qty best p) :
    b.dropCopy.Fits (b.restingFill taker p) := by
  obtain ⟨hrest, hlast⟩ := h.resting hoid hr.live
  have hfill := hv.qtyPos.fillQty_pos hr.live hr.qty
  refine ⟨b.openOf p, hrest, rfl, rfl, rfl, ?_, ?_⟩
  · exact fun e => absurd (e ▸ hfill : 0 < (0 : Qty).toNat) (Nat.lt_irrefl 0)
  · show if b.dropCopy.last = some (b.idOf p) then _ else _
    rw [if_neg hlast]
    refine ⟨rfl, ?_⟩
    have hle := b.fillQty_toNat p taker.qty
    have hleft := b.orderAfter_qty_toNat p taker.qty
    show (b.fillQty p taker.qty).toNat + (b.orderAfter p taker.qty).qty.toNat =
      (b.order p).qty.toNat
    omega

/-- The book's orders after the turn. -/
theorem openIn_matched {known : OrderID → Option OpenOrder} (hknown : b.OpenIn known)
    (hnum : Numbered b n) (hp : b.LiveOrder p) (stray : ℕ → Qty) :
    (b.matched stray taker newMarketOid p best taker.qty).OpenIn
      (Function.update known (b.idOf p) ((b.openOf p).leaving (b.orderAfter p taker.qty).qty)) := by
  have hview : ∀ q, q ≠ p →
      (b.matched stray taker newMarketOid p best taker.qty).openOf q = b.openOf q := fun q hq =>
    openOrder_of_data (b.data_matched_of_ne stray taker newMarketOid p best taker.qty hq)
  have hid := fun q => b.marketOrderId_matched stray taker newMarketOid p q best taker.qty
  have hlive := fun q => b.liveOrder_matched stray taker newMarketOid p q best taker.qty
  by_cases hx : b.Exhausts p taker.qty
  · have hzero : (b.orderAfter p taker.qty).qty = 0 := hx
    rw [OpenOrder.leaving, if_pos hzero]
    apply hknown.erase hnum.keysDiffer hp ?_ (fun q _ => hid q) hview
    intro q
    rw [hlive]
    simp [hx]
  · have hnonzero : ¬ (b.orderAfter p taker.qty).qty = 0 := hx
    have hself : (b.matched stray taker newMarketOid p best taker.qty).openOf p =
        { b.openOf p with qty := (b.orderAfter p taker.qty).qty } := by
      have hdata := b.data_matched_eq stray taker newMarketOid p p best taker.qty
      rw [OrderBook.qty_matched, if_pos rfl] at hdata
      have := congrArg Order.openOrder hdata
      exact this
    rw [OpenOrder.leaving, if_neg hnonzero, ← hself]
    apply hknown.replace hnum.keysDiffer hp ?_ (hid p) (fun q _ => hid q) hview
    intro q
    rw [hlive]
    simp [hx]

/-- A turn keeps the incoming order on record beside the book's. -/
theorem Reporting.matched (h : Reporting taker newMarketOid n b) (hv : Valid b queue)
    (hoid : newMarketOid.toNat = n + 1) (stray : ℕ → Qty) (hr : Reaches b taker taker.qty best p) :
    Reporting taker newMarketOid n (b.matched stray taker newMarketOid p best taker.qty) := by
  obtain ⟨hincoming, hrecord⟩ := h.dropCopy_matched best hoid stray hr.live
  refine ⟨h.numbered.matched stray taker newMarketOid p best taker.qty, ?_, ?_, ?_⟩
  · have hincoming' : (DropCopy.empty.after (responsesOf b.ome)).apply
        (b.incomingFill stray taker newMarketOid p) = b.dropCopy := hincoming
    rw [OrderBook.ReportsFit, responsesOf_matched, DropCopy.allFit_concat, DropCopy.allFit_concat,
      DropCopy.after_concat, hincoming']
    exact ⟨⟨h.fits, h.fits_incoming hv stray hr⟩, h.fits_resting hv hoid hr⟩
  · rw [hrecord]
    exact h.last
  · obtain ⟨known, hknown, horders⟩ := h.shows
    refine ⟨_, openIn_matched hknown h.numbered hr.live stray, ?_⟩
    rw [hrecord, DropCopy.put, horders]
    exact Function.update_comm (h.numbered.id_ne hoid hr.live).symm _ _ known

end turn

/-! ### The other steps -/

/-- An order accepted: on record, unless it has no quantity. -/
theorem Reported.accept (h : Reported b) (hs : Settled b queue n) (hn : n + 1 < 2 ^ 64)
    (taker : NewOrder) : Reporting taker b.nextMarketOid n (b.accept taker) := by
  obtain ⟨hrec, hfits⟩ := dropCopy_concat b (b.accept taker)
    (taker.acceptance b.nextMarketOid) _ rfl rfl
  refine ⟨hs.toNumbered.accept taker, hfits.mpr ⟨h.fits, ?_⟩, ?_, ?_⟩
  · exact h.shows.eq_none fun p hp => hs.id_ne (hs.next_toNat hn) hp
  · rw [hrec]
    rfl
  · exact ⟨b.dropCopy.orders, h.shows, by rw [hrec]; rfl⟩

/-- An order without a quantity leaves nothing on record. -/
theorem Reporting.done (h : Reporting taker newMarketOid n b) (hqty : taker.qty = 0)
    (hoid : newMarketOid.toNat = n + 1) : Reported b := by
  obtain ⟨known, hknown, horders⟩ := h.shows
  have hnone : known newMarketOid = none :=
    hknown.eq_none fun p hp => h.numbered.id_ne hoid hp
  refine ⟨h.fits, ?_⟩
  rw [horders, OpenOrder.leaving, if_pos hqty, ← hnone, Function.update_eq_self]
  exact hknown

/-- The remainder of a new order comes to rest: it is on record already. -/
theorem Reporting.rests (h : Reporting taker newMarketOid n b) (hqty : taker.qty ≠ 0)
    (hoid : newMarketOid.toNat = n + 1) {p : OrderPtr} {o : Order}
    (hr : Rests b b' queue taker newMarketOid p o b₁) : Reported b' := by
  obtain ⟨known, hknown, horders⟩ := h.shows
  have hf := hr.files.1
  have hlog : responsesOf b'.ome = responsesOf b.ome := by
    rw [hr.book, responsesOf_append, hf.ome]
    exact List.append_nil _
  have hself : b'.openOf p = taker.openOrder := by
    have hdata : b'.data p = taker.toOrder newMarketOid taker.qty
        (b.priorityAfter (queue (slotOf B taker.price))) := by
      rw [hr.book, ← hr.order]
      exact hf.data_self
    have := congrArg Order.openOrder hdata
    exact this
  have hid : b'.idOf p = newMarketOid := by
    have := hf.marketOrderId_self
    rw [hr.order] at this
    rw [hr.book]
    exact this
  have hdata : ∀ q, q ≠ p → b'.data q = b.data q := by
    rw [hr.book]
    exact hf.data_of_ne
  have hlive : ∀ q, b'.LiveOrder q ↔ q = p ∨ b.LiveOrder q := by
    rw [hr.book]
    exact hf.liveOrder
  refine ⟨by rw [OrderBook.ReportsFit, hlog]; exact h.fits, ?_⟩
  have hins : b'.OpenIn (Function.update known (b'.idOf p) (some (b'.openOf p))) :=
    hknown.insert hf.fresh (by rw [hid]; exact fun q hq => h.numbered.id_ne hoid hq) hlive
    (fun q hq => OrderBook.marketOrderId_of_data (hdata q hq))
    (fun q hq => openOrder_of_data (hdata q hq))
  rw [hid, hself] at hins
  have hsame : b'.dropCopy = b.dropCopy := by
    rw [OrderBook.dropCopy, hlog, OrderBook.dropCopy]
  rw [hsame, horders, OpenOrder.leaving, if_neg hqty]
  exact hins

/-- A cancelled order goes off the record. -/
theorem Reported.cancel (h : Reported b) (hs : Settled b queue n) {r : CancelOrder} {p : OrderPtr}
    {l : LevelPtr B} (hf : Finds b r p l) : Reported (b.cancel r p l) := by
  obtain ⟨hrec, hfits⟩ := dropCopy_concat b (b.cancel r p l)
    ⟨.cancelled, r.clientId, r.tickerId, r.orderId, b.idOf p, (b.order p).side,
      (b.order p).price, qtyInvalid, (b.order p).qty⟩ (r.events (b.order p)) rfl rfl
  obtain ⟨-, hclient, hkey⟩ := hs.clientMap _ _ _ hf.entry
  refine ⟨hfits.mpr ⟨h.fits, ?_⟩, ?_⟩
  · show b.dropCopy.orders (b.idOf p) = _
    rw [h.shows.eq_some hf.live, ← hclient, ← hkey]
    rfl
  · rw [hrec]
    exact h.shows.erase hs.keysDiffer hf.live (fun q => b.liveOrder_detach p q l)
      (fun q _ => OrderBook.marketOrderId_of_data (b.data_detach p q l))
      (fun q _ => openOrder_of_data (b.data_detach p q l))

/-- A rejected cancel leaves the record as it is. -/
theorem Reported.reject (h : Reported b) (r : CancelOrder) : Reported (b.reject r) := by
  obtain ⟨hrec, hfits⟩ := dropCopy_concat b (b.reject r) r.rejection _ rfl rfl
  refine ⟨hfits.mpr ⟨h.fits, trivial⟩, ?_⟩
  rw [hrec]
  exact h.shows

/-- One request. -/
theorem Reported.request {stray : ℕ → Qty} {r : Request} (h : Reported b) (hs : Settled b queue n)
    (hn : n + accepted [r] < 2 ^ 64) (hreq : handleRequest stray r b = .ok () b') :
    Reported b' := by
  cases r with
  | new taker =>
    have hoid := hs.next_toNat hn
    obtain ⟨queue₁, b₁, hv₁, h₁, -, ⟨hqty, rfl⟩ | ⟨hqty, p, o, b₂, hr⟩⟩ :=
      addOrder_cases (P := fun _ b₁ => Reporting taker b.nextMarketOid n b₁)
        (fun _ _ _ _ hv₁ h₁ hr _ _ => h₁.matched hv₁ hoid stray hr) hs.toValid
        (h.accept hs hn taker) hreq
    · exact h₁.done hqty hoid
    · exact h₁.rests hqty hoid hr
  | cancel r =>
    obtain ⟨rfl, -⟩ | ⟨p, l, hf, rfl⟩ := cancelOrder_ok hs.toSound hreq
    · exact h.reject r
    · exact h.cancel hs hf

end steps

/-- A new book has nothing to report. -/
theorem reported_create (B : Build) : Reported (OrderBook.create B) where
  fits := .nil _
  shows k a := by
    constructor
    · intro h
      cases h
    · rintro ⟨p, hp, -⟩
      exact absurd hp (not_liveOrder_create p)

variable {stray : ℕ → Qty} {rs : List Request} {b : OrderBook B}

/-- Every book of a run that accepts fewer than `2 ^ 64` orders is reported. -/
theorem RunsTo.reported (h : RunsTo stray rs b) (hn : accepted rs < 2 ^ 64) : Reported b := by
  induction rs using List.reverseRecOn generalizing b with
  | nil =>
    obtain ⟨rfl⟩ : b = OrderBook.create B := h.unique rfl
    exact reported_create B
  | append_singleton rs r ih =>
    obtain ⟨b₀, h₀, hreq⟩ := runsTo_concat.mp h
    rw [accepted_append] at hn
    obtain ⟨queue, hs⟩ := h₀.settled (by omega)
    exact (ih h₀ (by omega)).request hs hn hreq

/-- **Execution reports replay to the book**: in a run that accepts fewer than `2 ^ 64` orders every
response fits the record of those before it, and the record of all of them holds the orders in use
and no others, each with its client, its client's id for it, its side, its price and its
quantity. -/
theorem reports_replay (h : RunsTo stray rs b) (hn : accepted rs < 2 ^ 64) :
    DropCopy.empty.AllFit (responsesOf b.ome) ∧
      ∀ m o, (DropCopy.empty.after (responsesOf b.ome)).orders m = some o ↔
        ∃ p, b.LiveOrder p ∧ (b.order p).marketOrderId = m ∧ (b.order p).openOrder = o := by
  have hrep := h.reported hn
  exact ⟨hrep.fits, hrep.shows⟩

/-- A bid uses up two asks and comes to rest, where an ask fills it in part; of the ask all comes to
rest, and is cancelled. -/
def filledAndCancelled : List Request :=
  [.new ⟨1, 1, 0, .sell, 100, 10⟩, .new ⟨2, 1, 0, .sell, 100, 7⟩, .new ⟨3, 1, 0, .buy, 100, 4⟩,
    .new ⟨1, 2, 0, .sell, 100, 3⟩, .cancel ⟨1, 2, 0⟩]

theorem reports_replay_sample :
    DropCopy.empty.AllFit
      (responsesOf (bookAfter .production (fun _ => 0) filledAndCancelled).ome) := by
  have hrun : completes .production (fun _ => 0) filledAndCancelled = true := by decide +kernel
  have hcount : accepted filledAndCancelled < 2 ^ 64 := by decide +kernel
  exact (reports_replay (runsTo_bookAfter hrun) hcount).1

/-- **Quantities are conserved as the reports of resting orders have them**: for every order id,
what was accepted is what was filled at rest, what was cancelled, and what is resting. -/
theorem quantity_reported (h : RunsTo stray rs b) (hn : accepted rs < 2 ^ 64) (m : OrderID) :
    acceptedQty m b.ome =
      DropCopy.empty.filledAtRest m (responsesOf b.ome) + cancelledQty m b.ome +
        b.restingQty m := by
  have hrep := h.reported hn
  obtain ⟨queue, hs⟩ := h.settled hn
  have hsum := hrep.fits.quantities m
  have hresting : b.restingQty m = b.dropCopy.openQty m := by
    rw [DropCopy.openQty, ← hrep.shows.sum_of_key hs.keysDiffer (fun o => o.qty.toNat) m]
    apply Finset.sum_congr rfl
    intro p _
    unfold countFor
    by_cases hp : b.LiveOrder p
    · rw [OrderBook.liveQty_of_live hp]
      simp [hp, Order.openOrder]
    · rw [OrderBook.liveQty_of_not_live hp]
      simp [hp]
  have hnone : DropCopy.empty.openQty m = 0 := rfl
  rw [hnone, zero_add] at hsum
  rw [acceptedQty, cancelledQty, sum_qtyOf, sum_qtyOf, hsum, hresting]
  rfl

/-- The bid of that run, which was the third order to be accepted. -/
theorem quantity_reported_sample :
    acceptedQty 3 (bookAfter .production (fun _ => 0) filledAndCancelled).ome =
      DropCopy.empty.filledAtRest 3
          (responsesOf (bookAfter .production (fun _ => 0) filledAndCancelled).ome) +
        cancelledQty 3 (bookAfter .production (fun _ => 0) filledAndCancelled).ome +
        (bookAfter .production (fun _ => 0) filledAndCancelled).restingQty 3 := by
  have hrun : completes .production (fun _ => 0) filledAndCancelled = true := by decide +kernel
  have hcount : accepted filledAndCancelled < 2 ^ 64 := by decide +kernel
  exact quantity_reported (runsTo_bookAfter hrun) hcount 3

end HftSys
