import HftSys.Runs

/-!
# What a CANCEL answers

`cancelOrder` is to end, and to answer once: `CANCELLED` when the client has an order with that id
resting in the book, `CANCEL_REJECTED` and nothing else when it has none (`Answers`). On a reachable
book it does so exactly when the order id of a known client is inside the client map, where `at`
would throw, and the entry of an order that does rest has not been cleared by another order of the
same key (`cancel_answers_iff`). What it removes is always the canceller's own order, whatever ids
and blocks have been used again (`cancel_hits_own`).
-/

namespace HftSys

open Exec

variable {B : Build}

/-- Order `p` rests in the book under the key of the request. -/
def OwnOrder (b : OrderBook B) (r : CancelOrder) (p : OrderPtr) : Prop :=
  b.LiveOrder p ∧ (b.order p).clientId = r.clientId ∧ (b.order p).clientOrderId = r.orderId

/-- The cancel takes order `p` out, and says so in one response and one update. -/
def TakenOut (b b' : OrderBook B) (r : CancelOrder) (p : OrderPtr) : Prop :=
  (∀ q, b'.LiveOrder q ↔ b.LiveOrder q ∧ q ≠ p) ∧ b'.ome = b.ome ++ r.events (b.order p)

/-- The cancel ends, with the answer the book calls for. -/
def Answers (b : OrderBook B) (r : CancelOrder) : Prop :=
  ∃ b', cancelOrder r b = .ok () b' ∧
    ((∃ p, OwnOrder b r p ∧ TakenOut b b' r p) ∨
      (¬ ∃ p, OwnOrder b r p) ∧ b' = b.reject r)

/-- The order id of a known client is inside the client map, and an order resting under the key has
an entry there. -/
def Answerable (b : OrderBook B) (r : CancelOrder) : Prop :=
  (r.clientId.toNat < maxNClients B → r.orderId.toNat < maxOrderIds) ∧
    ((∃ p, OwnOrder b r p) → b.mapClientIdToOrder r.clientId r.orderId ≠ none)

section steps

variable {b b' : OrderBook B} {queue : Queues B} {r : CancelOrder} {p : OrderPtr}
  {l : LevelPtr B}

/-- The order a cancel finds is the client's. -/
theorem Finds.own (hs : Sound b queue) (h : Finds b r p l) : OwnOrder b r p :=
  hs.clientMap _ _ _ h.entry

/-- A cancelled order is taken out. -/
theorem takenOut_cancel (b : OrderBook B) (r : CancelOrder) (p : OrderPtr) (l : LevelPtr B) :
    TakenOut b (b.cancel r p l) r p :=
  ⟨fun q => b.liveOrder_detach p q l, rfl⟩

/-- A rejected cancel answers otherwise than a successful one. -/
theorem not_takenOut_reject : ¬ TakenOut b (b.reject r) r p := by
  intro h
  have hlog := List.append_cancel_left h.2
  simp [CancelOrder.events] at hlog

/-- A cancel that ends has not thrown. -/
theorem orderId_lt_of_cancelOrder (h : cancelOrder r b = .ok () b')
    (hc : r.clientId.toNat < maxNClients B) : r.orderId.toNat < maxOrderIds := by
  by_contra hk
  unfold cancelOrder at h
  obtain ⟨_, _, hlookup, -⟩ := bind_eq_ok.mp h
  unfold lookupOrder at hlookup
  rw [if_pos hc, if_neg hk] at hlookup
  cases hlookup

/-- A cancel whose key leads nowhere is rejected, the book left as it is. -/
theorem cancelOrder_missing (hk : r.clientId.toNat < maxNClients B → r.orderId.toNat < maxOrderIds)
    (hentry : r.clientId.toNat < maxNClients B → b.mapClientIdToOrder r.clientId r.orderId = none) :
    cancelOrder r b = .ok () (b.reject r) := by
  have hlookup : lookupOrder r.clientId r.orderId b = .ok none b := by
    by_cases hc : r.clientId.toNat < maxNClients B
    · rw [lookupOrder_eq b hc (hk hc), hentry hc]
    · unfold lookupOrder
      rw [if_neg hc]
  unfold cancelOrder
  rw [bind_of_ok hlookup]
  rfl

/-- A resting order has ids inside the client map. -/
theorem OwnOrder.inClientMap (h : OwnOrder b r p) (hs : Sound b queue) :
    InClientMap B r.clientId r.orderId := by
  obtain ⟨hp, hc, hk⟩ := h
  have hin := hs.inClientMap p hp
  rwa [hc, hk] at hin

/-- What is answerable is answered. -/
theorem Answerable.answers (h : Answerable b r) (hs : Sound b queue) : Answers b r := by
  obtain ⟨hk, hentered⟩ := h
  by_cases hfound : r.clientId.toNat < maxNClients B ∧
      ∃ p, b.mapClientIdToOrder r.clientId r.orderId = some p
  · obtain ⟨hc, p, hp⟩ := hfound
    obtain ⟨hlive, -⟩ := hs.clientMap _ _ _ hp
    obtain ⟨l, hl⟩ := hs.exists_level hlive
    have hfinds : Finds b r p l := ⟨hc, hk hc, hp, hlive, hl⟩
    exact ⟨_, cancelOrder_found hs hfinds, .inl ⟨p, hfinds.own hs, takenOut_cancel b r p l⟩⟩
  · have hnone : r.clientId.toNat < maxNClients B →
        b.mapClientIdToOrder r.clientId r.orderId = none := by
      intro hc
      by_contra hne
      obtain ⟨p, hp⟩ := Option.ne_none_iff_exists'.mp hne
      exact hfound ⟨hc, p, hp⟩
    refine ⟨_, cancelOrder_missing hk hnone, .inr ⟨?_, rfl⟩⟩
    rintro ⟨p, hp⟩
    exact hentered ⟨p, hp⟩ (hnone (hp.inClientMap hs).1)

/-- What is answered was answerable. -/
theorem Answers.answerable (h : Answers b r) (hs : Sound b queue) : Answerable b r := by
  obtain ⟨b', hrun, hanswer⟩ := h
  refine ⟨orderId_lt_of_cancelOrder hrun, ?_⟩
  rintro hown hnone
  rcases cancelOrder_ok hs hrun with ⟨rfl, -⟩ | ⟨p, l, hf, -⟩
  · rcases hanswer with ⟨p, -, hout⟩ | ⟨hnot, -⟩
    · exact not_takenOut_reject hout
    · exact hnot hown
  · rw [hf.entry] at hnone
    cases hnone

end steps

/-- **When a CANCEL is total and atomic.** On a reachable book it ends with the answer the book
calls for exactly when its order id does not throw and its client's resting order still has its
entry. -/
theorem cancel_answers_iff (stray : ℕ → Qty) (rs : List Request) (b : OrderBook B)
    (h : RunsTo stray rs b) (r : CancelOrder) : Answers b r ↔ Answerable b r := by
  obtain ⟨queue, hv⟩ := h.valid
  exact ⟨fun ha => ha.answerable hv.toSound, fun ha => ha.answers hv.toSound⟩

/-- A cancel of the first of two orders at 101, in a book with levels on both sides: it is answered,
and the order is taken out. -/
theorem cancel_answers_iff_sample :
    ∃ b b' : OrderBook .production, RunsTo (fun _ => 0) (ladders.take 7) b ∧
      b.quotesFrom b.asksByPrice = [(101, [10, 5]), (102, [10])] ∧
      b.quotesFrom b.bidsByPrice = [(100, [4]), (99, [10]), (98, [10])] ∧
      (Answers b ⟨1, 2, 0⟩ ↔ Answerable b ⟨1, 2, 0⟩) ∧ cancelOrder ⟨1, 2, 0⟩ b = .ok () b' ∧
      ∃ p, OwnOrder b ⟨1, 2, 0⟩ p ∧ TakenOut b b' ⟨1, 2, 0⟩ p := by
  have hrun : RunsTo (fun _ => 0) (ladders.take 7)
      (bookAfter .production (fun _ => 0) (ladders.take 7)) := runsTo_bookAfter (by decide +kernel)
  have hiff := cancel_answers_iff _ _ _ hrun ⟨1, 2, 0⟩
  have hanswerable : Answerable (bookAfter .production (fun _ => 0) (ladders.take 7)) ⟨1, 2, 0⟩ :=
    ⟨by decide, fun _ => by decide +kernel⟩
  have hlive : (bookAfter .production (fun _ => 0) (ladders.take 7)).LiveOrder ⟨1, by decide⟩ := by
    decide +kernel
  obtain ⟨b', hcancel, hout | ⟨hnone, -⟩⟩ := hiff.mpr hanswerable
  · exact ⟨_, b', hrun, by decide +kernel, by decide +kernel, hiff, hcancel, hout⟩
  · exact absurd ⟨_, hlive, by decide +kernel, by decide +kernel⟩ hnone

/-- The first order id behind the client map ends the process. -/
theorem cancel_throws :
    ¬ ∀ (stray : ℕ → Qty) (rs : List Request) (b : OrderBook .production) (r : CancelOrder),
      RunsTo stray rs b → Answers b r := by
  intro h
  obtain ⟨b', hrun, -⟩ := h (fun _ => 0) [] (.create .production) ⟨1, 1048576, 0⟩ rfl
  have hlt := orderId_lt_of_cancelOrder hrun (by decide)
  exact absurd hlt (by decide)

/-! ## Whose order a CANCEL takes out -/

/-- The cancel takes the order its entry points to, which is the client's own, or there is no entry
and it is rejected. -/
def HitsOwn (b : OrderBook B) (r : CancelOrder) : Prop :=
  ∃ b', cancelOrder r b = .ok () b' ∧
    (b.mapClientIdToOrder r.clientId r.orderId = none ∧ b' = b.reject r ∨
      ∃ p, b.mapClientIdToOrder r.clientId r.orderId = some p ∧ OwnOrder b r p ∧ TakenOut b b' r p)

/-- **A cancel hits the canceller's own order.** On a reachable book, whatever ids have been used
again and whatever blocks have been recycled, every entry of the client map points to a block in use
that holds an order of that client with that id; so what `cancelOrder` removes and reports is such
an order. -/
theorem cancel_hits_own (stray : ℕ → Qty) (rs : List Request) (b : OrderBook B)
    (h : RunsTo stray rs b) :
    (∀ c k p, b.mapClientIdToOrder c k = some p →
        b.LiveOrder p ∧ (b.order p).clientId = c ∧ (b.order p).clientOrderId = k) ∧
      ∀ r : CancelOrder, InClientMap B r.clientId r.orderId → HitsOwn b r := by
  obtain ⟨queue, hv⟩ := h.valid
  refine ⟨hv.clientMap, ?_⟩
  rintro r ⟨hc, hk⟩
  cases hentry : b.mapClientIdToOrder r.clientId r.orderId with
  | none => exact ⟨_, cancelOrder_missing (fun _ => hk) (fun _ => hentry), .inl ⟨hentry, rfl⟩⟩
  | some p =>
    have hown : OwnOrder b r p := hv.clientMap _ _ _ hentry
    obtain ⟨l, hl⟩ := hv.exists_level hown.1
    have hfinds : Finds b r p l := ⟨hc, hk, hentry, hown.1, hl⟩
    exact ⟨_, cancelOrder_found hv.toSound hfinds,
      .inr ⟨p, hentry, hown, takenOut_cancel b r p l⟩⟩

/-- An id used again for an order in a recycled block. -/
theorem cancel_hits_own_sample :
    HitsOwn (bookAfter .production (fun _ => 0)
      [.new ⟨1, 7, 0, .buy, 100, 10⟩, .cancel ⟨1, 7, 0⟩, .new ⟨2, 7, 0, .buy, 99, 5⟩]) ⟨1, 7, 0⟩ :=
  (cancel_hits_own (fun _ => 0) _ _ (runsTo_bookAfter (by decide +kernel))).2 ⟨1, 7, 0⟩
    ⟨by decide, by decide⟩

end HftSys
