import HftSys.Runs

/-!
# Market order ids

`getNewMarketOrderId` counts in 64 bits. In a run that accepts fewer than `2 ^ 64` orders the
counter has not come round, so the orders in the book have different ids, the `n`-th accepted order
has id `n`, and an order about to rest has an id no order in the book has (`Numbered`).

`Preserved` is the rule the results about such runs are proved by: a property of the books between
two requests (`Idle`) and one of the books inside a new order's matching (`During`), with one
condition for every step a request is made of. `Preserved.run` is the induction over the run.
-/

namespace HftSys

open Exec

variable {B : Build}

/-! ## Counting the accepted orders -/

/-- Every new order is accepted. -/
def Request.isNew : Request → Bool
  | .new _ => true
  | .cancel _ => false

/-- The number of orders a run accepts. -/
def accepted (rs : List Request) : ℕ := rs.countP Request.isNew

@[simp] theorem accepted_cons_new (taker : NewOrder) (rs : List Request) :
    accepted (.new taker :: rs) = accepted rs + 1 :=
  List.countP_cons_of_pos rfl

@[simp] theorem accepted_cons_cancel (r : CancelOrder) (rs : List Request) :
    accepted (.cancel r :: rs) = accepted rs :=
  List.countP_cons_of_neg (by simp [Request.isNew])

@[simp] theorem accepted_append (rs rs' : List Request) :
    accepted (rs ++ rs') = accepted rs + accepted rs' := by
  simp [accepted]

/-! ## The ids in the book -/

/-- The orders in use have different ids, all among the first `n`. -/
structure Numbered (b : OrderBook B) (n : ℕ) : Prop where
  id_pos : ∀ p, b.LiveOrder p → 0 < (b.order p).marketOrderId.toNat
  id_le : ∀ p, b.LiveOrder p → (b.order p).marketOrderId.toNat ≤ n
  id_inj : ∀ p q, b.LiveOrder p → b.LiveOrder q →
    (b.order p).marketOrderId = (b.order q).marketOrderId → p = q

/-- A book between two requests, `n` orders having been accepted so far. -/
structure Settled (b : OrderBook B) (queue : Queues B) (n : ℕ) : Prop
    extends Valid b queue, Numbered b n where
  next : b.nextMarketOid = UInt64.ofNat (n + 1)

namespace Numbered

variable {b b' : OrderBook B} {n : ℕ}

/-- Orders that go away, or change in something else than their ids, leave the numbering. -/
theorem mono (h : Numbered b n) (hlive : ∀ p, b'.LiveOrder p → b.LiveOrder p)
    (hid : ∀ p, b'.LiveOrder p → (b'.order p).marketOrderId = (b.order p).marketOrderId) :
    Numbered b' n where
  id_pos p hp := by
    rw [hid p hp]
    exact h.id_pos p (hlive p hp)
  id_le p hp := by
    rw [hid p hp]
    exact h.id_le p (hlive p hp)
  id_inj p q hp hq e := by
    rw [hid p hp, hid q hq] at e
    exact h.id_inj p q (hlive p hp) (hlive q hq) e

theorem accept (h : Numbered b n) (taker : NewOrder) : Numbered (b.accept taker) n :=
  ⟨h.id_pos, h.id_le, h.id_inj⟩

theorem reject (h : Numbered b n) (r : CancelOrder) : Numbered (b.reject r) n :=
  ⟨h.id_pos, h.id_le, h.id_inj⟩

theorem matched (h : Numbered b n) (stray : ℕ → Qty) (taker : NewOrder) (newMarketOid : OrderID)
    (p : OrderPtr) (l : LevelPtr B) (qtyRemains : Qty) :
    Numbered (b.matched stray taker newMarketOid p l qtyRemains) n := by
  refine h.mono ?_ ?_
  · intro q hq
    exact ((b.liveOrder_matched stray taker newMarketOid p q l qtyRemains).mp hq).1
  · intro q _
    exact b.marketOrderId_matched stray taker newMarketOid p q l qtyRemains

theorem cancel (h : Numbered b n) (r : CancelOrder) (p : OrderPtr) (l : LevelPtr B) :
    Numbered (b.cancel r p l) n := by
  refine h.mono ?_ ?_
  · intro q hq
    exact ((b.liveOrder_detach p q l).mp hq).1
  · intro q _
    exact OrderBook.marketOrderId_of_data (b.data_detach p q l)

/-- An order filed under the next id. -/
theorem files {queue : Queues B} {p : OrderPtr} {o : Order} (h : Numbered b n)
    (hf : Files b b' queue p o) (hid : o.marketOrderId.toNat = n + 1) : Numbered b' (n + 1) := by
  have hfiled := hf.1
  have hself : (b'.order p).marketOrderId = o.marketOrderId := hfiled.marketOrderId_self
  -- the other orders are old ones
  have hold : ∀ q, b'.LiveOrder q → q ≠ p → b.LiveOrder q ∧
      (b'.order q).marketOrderId = (b.order q).marketOrderId := by
    intro q hq hne
    refine ⟨?_, OrderBook.marketOrderId_of_data (hfiled.data_of_ne q hne)⟩
    rcases (hfiled.liveOrder q).mp hq with e | hq
    · exact absurd e hne
    · exact hq
  have hnew : ∀ q, b'.LiveOrder q → q ≠ p →
      (b'.order q).marketOrderId ≠ (b'.order p).marketOrderId := by
    intro q hq hne e
    obtain ⟨hlive, hq'⟩ := hold q hq hne
    have hle := h.id_le q hlive
    rw [← hq', e, hself, hid] at hle
    omega
  constructor
  · apply hfiled.forall_live (P := fun o => 0 < o.marketOrderId.toNat) _ h.id_pos
    omega
  · exact hfiled.forall_live (P := fun o => o.marketOrderId.toNat ≤ n + 1) hid.le
      fun q hq => (h.id_le q hq).trans (Nat.le_succ n)
  · intro q q' hq hq' e
    by_cases hne : q = p
    · by_cases hne' : q' = p
      · rw [hne, hne']
      · rw [hne] at e
        exact absurd e.symm (hnew q' hq' hne')
    · by_cases hne' : q' = p
      · rw [hne'] at e
        exact absurd e (hnew q hq hne)
      · rw [(hold q hq hne).2, (hold q' hq' hne').2] at e
        exact h.id_inj q q' (hold q hq hne).1 (hold q' hq' hne').1 e

end Numbered

theorem settled_create (B : Build) : Settled (OrderBook.create B) (fun _ => []) 0 where
  toValid := valid_create B
  id_pos p hp := absurd hp (not_liveOrder_create p)
  id_le p hp := absurd hp (not_liveOrder_create p)
  id_inj p _ hp := absurd hp (not_liveOrder_create p)
  next := rfl

/-- The id of the next order, as a number. -/
theorem Settled.next_toNat {b : OrderBook B} {queue : Queues B} {n : ℕ} (h : Settled b queue n)
    (hn : n + 1 < 2 ^ 64) : b.nextMarketOid.toNat = n + 1 := by
  rw [h.next]
  exact UInt64.toNat_ofNat_of_lt' hn

/-! ## The rule for runs -/

/-- `Idle n` holds between two requests, `n` orders having been accepted, and `During n` inside the
matching of the next one: what each step of a request has to show for that, in runs that accept
fewer than `bound` orders. -/
structure Preserved (stray : ℕ → Qty) (bound : ℕ)
    (Idle : ℕ → Queues B → OrderBook B → Prop)
    (During : ℕ → NewOrder → OrderID → Queues B → OrderBook B → Prop) : Prop where
  bound_le : bound ≤ 2 ^ 64
  accept : ∀ {n queue b} (taker : NewOrder), n + 1 < bound → Settled b queue n →
    Idle n queue b → During n taker b.nextMarketOid queue (b.accept taker)
  turn : ∀ {n taker newMarketOid queue b p best}, n + 1 < bound → Valid b queue →
    Numbered b n → newMarketOid.toNat = n + 1 → Reaches b taker taker.qty best p →
    b.getLevelForPrice (b.order p).price = some best →
    (queue (slotOf B (b.order p).price)).head? = some p →
    During n taker newMarketOid queue b →
    During n taker newMarketOid (b.queuesAfter queue p taker.qty)
      (b.matched stray taker newMarketOid p best taker.qty)
  done : ∀ {n taker newMarketOid queue b}, During n taker newMarketOid queue b →
    Idle (n + 1) queue b
  rest : ∀ {n taker newMarketOid queue b b' p o b₁}, n + 1 < bound → taker.qty ≠ 0 →
    Valid b queue → Numbered b n → newMarketOid.toNat = n + 1 →
    Rests b b' queue taker newMarketOid p o b₁ →
    During n taker newMarketOid queue b →
    Idle (n + 1) (Function.update queue (slotOf B o.price) (queue (slotOf B o.price) ++ [p])) b'
  cancel : ∀ {n queue b r p l}, n < bound → Settled b queue n → Finds b r p l → Idle n queue b →
    Idle n (Function.update queue (slotOf B (b.order p).price)
      ((queue (slotOf B (b.order p).price)).erase p)) (b.cancel r p l)
  reject : ∀ {n queue b} (r : CancelOrder), n < bound → Idle n queue b → Idle n queue (b.reject r)

namespace Preserved

variable {stray : ℕ → Qty} {bound n : ℕ} {Idle : ℕ → Queues B → OrderBook B → Prop}
  {During : ℕ → NewOrder → OrderID → Queues B → OrderBook B → Prop} {queue : Queues B}
  {b b' : OrderBook B} {taker : NewOrder} {rs : List Request}

/-- The loop, from any of its turns on: at every call, and at the end. -/
theorem fills (hp : Preserved stray bound Idle During) (hn : n + 1 < bound)
    {newMarketOid : OrderID} (hoid : newMarketOid.toNat = n + 1) {b₁ : OrderBook B}
    {calls : List (OrderBook B × OrderPtr)} (hv : Valid b queue) (hnum : Numbered b n)
    (hd : During n taker newMarketOid queue b)
    (h : Fills stray taker newMarketOid taker.qty b calls b₁) :
    (∃ queue', Valid b₁ queue' ∧ Numbered b₁ n ∧ b₁.nextMarketOid = b.nextMarketOid ∧
        During n taker newMarketOid queue' b₁) ∧
      ∀ c ∈ calls, ∃ queue', Valid c.1 queue' ∧ Numbered c.1 n ∧
        c.1.nextMarketOid = b.nextMarketOid ∧ During n taker newMarketOid queue' c.1 := by
  refine h.carries (P := fun queue b₁ => Numbered b₁ n ∧ b₁.nextMarketOid = b.nextMarketOid ∧
    During n taker newMarketOid queue b₁) ?_ hv ⟨hnum, rfl, hd⟩
  rintro queue b₁ p best hv ⟨hnum, hnext, hd⟩ hr hslot hhead
  exact ⟨hnum.matched stray taker newMarketOid p best taker.qty,
    (b₁.nextMarketOid_matched stray taker newMarketOid p best taker.qty).trans hnext,
    hp.turn hn hv hnum hoid hr hslot hhead hd⟩

/-- Inside the matching of a new order: at every call, and when the loop has ended. -/
theorem sweep (hp : Preserved stray bound Idle During) (hn : n + 1 < bound)
    (hs : Settled b queue n) (hidle : Idle n queue b) {b₁ : OrderBook B}
    (h : Sweeps stray taker b b₁) :
    (∃ queue', Valid b₁ queue' ∧ Numbered b₁ n ∧ b₁.nextMarketOid = b.nextMarketOid + 1 ∧
        During n taker b.nextMarketOid queue' b₁) ∧
      ∀ c ∈ newOrderCalls stray taker b, ∃ queue', Valid c.1 queue' ∧ Numbered c.1 n ∧
        c.1.nextMarketOid = b.nextMarketOid + 1 ∧ During n taker b.nextMarketOid queue' c.1 :=
  hp.fills hn (hs.next_toNat (hn.trans_le hp.bound_le)) (hs.toValid.accept taker)
    (hs.toNumbered.accept taker) (hp.accept taker hn hs hidle) h

/-- The step after the matching of a new order. -/
theorem afterSweep (hp : Preserved stray bound Idle During) (hn : n + 1 < bound)
    {newMarketOid : OrderID} {b₁ : OrderBook B} (hoid : newMarketOid = UInt64.ofNat (n + 1))
    (hv : Valid b₁ queue) (hnum : Numbered b₁ n) (hnext : b₁.nextMarketOid = newMarketOid + 1)
    (hd : During n taker newMarketOid queue b₁)
    (h : taker.qty = 0 ∧ b' = b₁ ∨
      taker.qty ≠ 0 ∧ restOrder taker newMarketOid taker.qty b₁ = .ok () b') :
    ∃ queue', Settled b' queue' (n + 1) ∧ Idle (n + 1) queue' b' := by
  have hoid' : newMarketOid.toNat = n + 1 := by
    rw [hoid]
    exact UInt64.toNat_ofNat_of_lt' (hn.trans_le hp.bound_le)
  have hnext' : b₁.nextMarketOid = UInt64.ofNat (n + 1 + 1) := by
    rw [hnext, hoid, UInt64.ofNat_add (n + 1) 1]
    rfl
  rcases h with ⟨-, rfl⟩ | ⟨hqty, hrest⟩
  · refine ⟨queue, ⟨hv, ?_, hnext'⟩, hp.done hd⟩
    exact ⟨hnum.id_pos, fun p hp => (hnum.id_le p hp).trans (Nat.le_succ n), hnum.id_inj⟩
  · obtain ⟨p, o, b₂, hr⟩ := rests_of_restOrder hv.toSound hrest
    refine ⟨_, ⟨hv.rests hqty hr, ?_, ?_⟩, hp.rest hn hqty hv hnum hoid' hr hd⟩
    · rw [hr.book]
      have ho : o.marketOrderId.toNat = n + 1 := by rw [hr.order]; exact hoid'
      have := hnum.files hr.files ho
      exact ⟨this.id_pos, this.id_le, this.id_inj⟩
    · rw [hr.book, ← hnext']
      exact hr.files.1.nextMarketOid

/-- One request. -/
theorem request (hp : Preserved stray bound Idle During) {r : Request}
    (hn : n + accepted [r] < bound) (hs : Settled b queue n) (hidle : Idle n queue b)
    (h : handleRequest stray r b = .ok () b') :
    ∃ queue', Settled b' queue' (n + accepted [r]) ∧ Idle (n + accepted [r]) queue' b' := by
  cases r with
  | new taker =>
    obtain ⟨b₁, hsweep, hrest⟩ := addOrder_ok h
    obtain ⟨⟨queue₁, hv, hnum, hnext, hd⟩, -⟩ := hp.sweep hn hs hidle hsweep
    exact hp.afterSweep hn hs.next hv hnum hnext hd hrest
  | cancel r =>
    rcases cancelOrder_ok hs.toSound h with ⟨rfl, -⟩ | ⟨p, l, hf, rfl⟩
    · exact ⟨queue, ⟨hs.toValid.reject r, hs.toNumbered.reject r, hs.next⟩,
        hp.reject r hn hidle⟩
    · refine ⟨_, ⟨hs.toValid.cancel hf, hs.toNumbered.cancel r p l, ?_⟩,
        hp.cancel hn hs hf hidle⟩
      exact (b.nextMarketOid_detach p l).trans hs.next

/-- The requests of a run, from any book between two requests. -/
theorem all (hp : Preserved stray bound Idle During) (hn : n + accepted rs < bound)
    (hs : Settled b queue n) (hidle : Idle n queue b) (h : handleAll stray rs b = .ok () b') :
    ∃ queue', Settled b' queue' (n + accepted rs) ∧ Idle (n + accepted rs) queue' b' := by
  induction rs generalizing n b queue with
  | nil =>
    cases h
    exact ⟨queue, hs, hidle⟩
  | cons r rs ih =>
    obtain ⟨_, b₁, hr, hrest⟩ := bind_eq_ok.mp h
    have hcount : n + accepted (r :: rs) = n + accepted [r] + accepted rs := by
      rw [← List.singleton_append, accepted_append, Nat.add_assoc]
    rw [hcount] at hn ⊢
    obtain ⟨queue₁, hs₁, hidle₁⟩ := hp.request (by omega) hs hidle hr
    exact ih hn hs₁ hidle₁ hrest

/-- **The run rule.** -/
theorem run (hp : Preserved stray bound Idle During) (hn : accepted rs < bound)
    (hcreate : Idle 0 (fun _ => []) (OrderBook.create B)) (h : RunsTo stray rs b) :
    ∃ queue, Settled b queue (accepted rs) ∧ Idle (accepted rs) queue b := by
  have hall := hp.all (by omega) (settled_create B) hcreate h
  rwa [Nat.zero_add] at hall

end Preserved

/-- Ids alone. -/
theorem preserved_settled (stray : ℕ → Qty) (B : Build) :
    Preserved (B := B) stray (2 ^ 64) (fun _ _ _ => True) (fun _ _ _ _ _ => True) where
  bound_le := le_refl _
  accept _ _ _ _ := trivial
  turn _ _ _ _ _ _ _ _ := trivial
  done _ := trivial
  rest _ _ _ _ _ _ _ := trivial
  cancel _ _ _ _ := trivial
  reject _ _ _ := trivial

/-- **The books of a run are numbered**, as long as it accepts fewer than `2 ^ 64` orders. -/
theorem RunsTo.settled {stray : ℕ → Qty} {rs : List Request} {b : OrderBook B}
    (h : RunsTo stray rs b) (hn : accepted rs < 2 ^ 64) :
    ∃ queue, Settled b queue (accepted rs) := by
  obtain ⟨queue, hs, -⟩ := (preserved_settled stray B).run hn trivial h
  exact ⟨queue, hs⟩

end HftSys
