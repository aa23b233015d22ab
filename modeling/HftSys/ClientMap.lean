import HftSys.Sweep

/-!
# Cancelling a resting order

`addOrderToBook` writes the client map whatever the entry holds, and `removeOrderFromBook` clears it
by key. An order stays cancellable as long as no other order is accepted to rest under its key:
`resting_orders_cancellable` says that every book of a run is `Withdrawable` exactly when every new
order that has a quantity finds the entry of its key empty or leading to an order it sweeps itself
(`FreshKey`).
-/

namespace HftSys

variable {B : Build}

/-- The owner of every resting order can take it out. -/
structure Withdrawable (b : OrderBook B) : Prop where
  entry : ∀ p, b.LiveOrder p →
    b.mapClientIdToOrder (b.order p).clientId (b.order p).clientOrderId = some p
  key_inj : ∀ p q, b.LiveOrder p → b.LiveOrder q → (b.order p).clientId = (b.order q).clientId →
    (b.order p).clientOrderId = (b.order q).clientOrderId → p = q
  cancels : ∀ p tickerId, b.LiveOrder p → ∃ b',
    cancelOrder ⟨(b.order p).clientId, (b.order p).clientOrderId, tickerId⟩ b = .ok () b' ∧
      ¬ b'.LiveOrder p

/-- The key of a new order that will rest is free, or leads to an order it sweeps. -/
def FreshKey (b : OrderBook B) : Request → Prop
  | .new taker => taker.qty ≠ 0 →
      ∀ p, b.mapClientIdToOrder taker.clientId taker.clientOid = some p → p ∈ b.sweep taker
  | .cancel _ => True

/-- The entry of every order in use leads to it. -/
def Entered (b : OrderBook B) : Prop :=
  ∀ p, b.LiveOrder p →
    b.mapClientIdToOrder (b.order p).clientId (b.order p).clientOrderId = some p

section steps

variable {stray : ℕ → Qty} {b b' b₁ : OrderBook B} {queue : Queues B} {taker : NewOrder}
  {p q : OrderPtr}

/-- Two orders with one key are one order. -/
theorem Entered.key_inj (h : Entered b) (hp : b.LiveOrder p) (hq : b.LiveOrder q)
    (hc : (b.order p).clientId = (b.order q).clientId)
    (hk : (b.order p).clientOrderId = (b.order q).clientOrderId) : p = q := by
  have hpe := h p hp
  rw [hc, hk, h q hq] at hpe
  exact (Option.some.inj hpe).symm

/-- A book whose entries lead to their orders is one whose orders can be taken out. -/
theorem Entered.withdrawable (h : Entered b) (hv : Valid b queue) : Withdrawable b where
  entry := h
  key_inj _ _ hp hq hc hk := h.key_inj hp hq hc hk
  cancels p tickerId hp := by
    obtain ⟨l, hl⟩ := hv.exists_level hp
    obtain ⟨hc, hk⟩ := hv.inClientMap p hp
    have hf : Finds b ⟨(b.order p).clientId, (b.order p).clientOrderId, tickerId⟩ p l :=
      ⟨hc, hk, h p hp, hp, hl⟩
    refine ⟨_, cancelOrder_found hv.toSound hf, ?_⟩
    intro hlive
    exact ((b.liveOrder_detach p p l).mp hlive).2 rfl

/-- The orders left after a sweep keep their entries. -/
theorem Entered.sweeps (h : Entered b) (hv : Valid b queue) (hs : Sweeps stray taker b b₁) :
    Entered b₁ := by
  have heff := hs.effect hv
  intro p hp
  obtain ⟨hlive, hnot⟩ := (heff.live p).mp hp
  rw [OrderBook.clientId_of_data (heff.data p hnot),
    OrderBook.clientOrderId_of_data (heff.data p hnot), heff.entry_of_not_mem, h p hlive]
  rintro q hq ⟨hc, hk⟩
  exact hnot (h.key_inj (heff.mem_live q hq) hlive hc hk ▸ hq)

/-- After the sweep of a new order with a fresh key, no order has its key. -/
theorem key_free (hv : Valid b queue) (hs : Sweeps stray taker b b₁)
    (hqty : taker.qty ≠ 0) (hfresh : FreshKey b (.new taker)) :
    b₁.mapClientIdToOrder taker.clientId taker.clientOid = none := by
  have heff := hs.effect hv
  cases hentry : b.mapClientIdToOrder taker.clientId taker.clientOid with
  | none => exact hs.clientMap_none (hv.accept taker) hentry
  | some p =>
    obtain ⟨-, hc, hk⟩ := hv.clientMap _ _ _ hentry
    have := heff.entry_of_mem p (hfresh hqty p hentry)
    rwa [hc, hk] at this

theorem Entered.rests {newMarketOid : OrderID} {o : Order} (h : Entered b)
    (hr : Rests b b' queue taker newMarketOid p o b₁)
    (hfree : b.mapClientIdToOrder taker.clientId taker.clientOid = none) : Entered b' := by
  have hf := hr.files.1
  have hkey : o.clientId = taker.clientId ∧ o.clientOrderId = taker.clientOid := by
    rw [hr.order]
    exact ⟨rfl, rfl⟩
  rw [hr.book]
  intro q hq
  show b₁.mapClientIdToOrder (b₁.order q).clientId (b₁.order q).clientOrderId = some q
  rw [hf.clientMap, mapWith_apply]
  by_cases hqp : q = p
  · rw [hqp, if_pos ⟨hf.clientId_self, hf.clientOrderId_self⟩]
  · have hlive : b.LiveOrder q := ((hf.liveOrder q).mp hq).resolve_left hqp
    rw [OrderBook.clientId_of_data (hf.data_of_ne q hqp),
      OrderBook.clientOrderId_of_data (hf.data_of_ne q hqp), if_neg, h q hlive]
    rintro ⟨hc, hk⟩
    have := h q hlive
    rw [hc, hk, hkey.1, hkey.2, hfree] at this
    cases this

theorem Entered.cancel {r : CancelOrder} {l : LevelPtr B} (h : Entered b) (hf : Finds b r p l) :
    Entered (b.cancel r p l) := by
  intro q hq
  obtain ⟨hlive, hne⟩ := (b.liveOrder_detach p q l).mp hq
  show (b.detach p l).mapClientIdToOrder ((b.detach p l).order q).clientId
    ((b.detach p l).order q).clientOrderId = some q
  rw [OrderBook.clientId_of_data (b.data_detach p q l),
    OrderBook.clientOrderId_of_data (b.data_detach p q l), OrderBook.mapClientIdToOrder_detach,
    mapWith_apply, if_neg, h q hlive]
  rintro ⟨hc, hk⟩
  exact hne (h.key_inj hlive hf.live hc hk)

/-- A request with a fresh key keeps the entries. -/
theorem Entered.request {r : Request} (h : Entered b) (hv : Valid b queue) (hfresh : FreshKey b r)
    (hreq : handleRequest stray r b = .ok () b') : Entered b' := by
  cases r with
  | new taker =>
    obtain ⟨b₁, hs, ⟨-, rfl⟩ | ⟨hqty, hrest⟩⟩ := addOrder_ok hreq
    · exact h.sweeps hv hs
    · obtain ⟨queue₁, hv₁⟩ := hs.valid (hv.accept taker)
      obtain ⟨p, o, b₂, hr⟩ := rests_of_restOrder hv₁.toSound hrest
      exact (h.sweeps hv hs).rests hr (key_free hv hs hqty hfresh)
  | cancel r =>
    rcases cancelOrder_ok hv.toSound hreq with ⟨rfl, -⟩ | ⟨p, l, hf, rfl⟩
    · exact h
    · exact h.cancel hf

/-- A new order that rests on the key of an order it does not sweep hides that order. -/
theorem freshKey_of_withdrawable {r : Request} (hv : Valid b queue)
    (hreq : handleRequest stray r b = .ok () b') (h' : Withdrawable b') : FreshKey b r := by
  cases r with
  | cancel r => trivial
  | new taker =>
    intro hqty z hentry
    by_contra hnot
    obtain ⟨hz, hc, hk⟩ := hv.clientMap _ _ _ hentry
    obtain ⟨b₁, hs, ⟨hzero, -⟩ | ⟨-, hrest⟩⟩ := addOrder_ok hreq
    · exact hqty hzero
    · have heff := hs.effect hv
      obtain ⟨queue₁, hv₁⟩ := hs.valid (hv.accept taker)
      obtain ⟨p, o, b₂, hr⟩ := rests_of_restOrder hv₁.toSound hrest
      have hf := hr.files.1
      have hz₁ : b₁.LiveOrder z := (heff.live z).mpr ⟨hz, hnot⟩
      have hzp : z ≠ p := fun e => hf.fresh (e ▸ hz₁)
      -- both orders are in use under the same key
      have hdata : b'.data z = b.data z := by
        rw [hr.book]
        exact (hf.data_of_ne z hzp).trans (heff.data z hnot)
      have hz' : b'.LiveOrder z := by
        rw [hr.book]
        exact (hf.liveOrder z).mpr (.inr hz₁)
      have hp' : b'.LiveOrder p := by
        rw [hr.book]
        exact (hf.liveOrder p).mpr (.inl rfl)
      have hpkey : (b'.order p).clientId = taker.clientId ∧
          (b'.order p).clientOrderId = taker.clientOid := by
        rw [hr.book]
        refine ⟨hf.clientId_self.trans ?_, hf.clientOrderId_self.trans ?_⟩
        · rw [hr.order]
          rfl
        · rw [hr.order]
          rfl
      refine hzp (h'.key_inj z p hz' hp' ?_ ?_)
      · rw [OrderBook.clientId_of_data hdata, hc, hpkey.1]
      · rw [OrderBook.clientOrderId_of_data hdata, hk, hpkey.2]

end steps

/-- **Every resting order stays cancellable** by its owner, throughout a run, exactly when every new
order of the run that has a quantity comes with a key whose entry is empty or leads to an order it
sweeps. -/
theorem resting_orders_cancellable {stray : ℕ → Qty} {rs : List Request} {b : OrderBook B}
    (h : RunsTo stray rs b) :
    Throughout (B := B) Withdrawable stray rs ↔ Meets (B := B) FreshKey stray rs := by
  constructor
  · rintro hall rs₀ r rs₁ b₀ rfl hrun₀
    obtain ⟨b₀', b₁, hrun₀', hreq, -⟩ := runsTo_split.mp h
    cases hrun₀.unique hrun₀'
    obtain ⟨queue, hv⟩ := hrun₀.valid
    refine freshKey_of_withdrawable hv hreq (hall (rs₀ ++ [r]) rs₁ b₁ (by simp) ?_)
    exact runsTo_concat.mpr ⟨b₀, hrun₀, hreq⟩
  · intro hmeets rs₀ rs₁ b₀ hrs hrun₀
    obtain ⟨queue, hv⟩ := hrun₀.valid
    have hcreate : Entered (OrderBook.create B) := fun p hp => absurd hp (not_liveOrder_create p)
    have hentered := hmeets.invariant hcreate fun queue b r b' hv hb hfresh hreq =>
      hb.request hv hfresh hreq
    exact (hentered rs₀ rs₁ b₀ hrs hrun₀).withdrawable hv

/-- A run in which an order is cancelled and its key used again. -/
theorem resting_orders_cancellable_sample :
    Throughout (B := .production) Withdrawable (fun _ => 0)
      [.new ⟨1, 7, 0, .buy, 100, 10⟩, .cancel ⟨1, 7, 0⟩, .new ⟨1, 7, 0, .buy, 99, 5⟩] ↔
    Meets (B := .production) FreshKey (fun _ => 0)
      [.new ⟨1, 7, 0, .buy, 100, 10⟩, .cancel ⟨1, 7, 0⟩, .new ⟨1, 7, 0, .buy, 99, 5⟩] :=
  resting_orders_cancellable (runsTo_bookAfter (by decide +kernel))

/-- The ids of a request are inside the client map. -/
def Request.InRange (B : Build) : Request → Prop
  | .new taker => InClientMap B taker.clientId taker.clientOid
  | .cancel r => InClientMap B r.clientId r.orderId

/-- A key used again while its order rests: the first order can no longer be found. -/
theorem live_key_reused :
    ¬ ∀ (stray : ℕ → Qty) (rs : List Request) (b : OrderBook .production),
      (∀ r ∈ rs, r.InRange .production) → RunsTo stray rs b → Withdrawable b := by
  intro h
  have hw := h (fun _ => 0) [.new ⟨1, 7, 0, .buy, 100, 10⟩, .new ⟨1, 7, 0, .buy, 99, 5⟩] _ ?_
    (runsTo_bookAfter (by decide +kernel))
  · have hsame := hw.key_inj ⟨0, by decide⟩ ⟨1, by decide⟩ (by decide +kernel) (by decide +kernel)
      (by decide +kernel) (by decide +kernel)
    exact absurd hsame (by decide)
  · intro r hr
    simp only [List.mem_cons, List.not_mem_nil, or_false] at hr
    rcases hr with rfl | rfl
    · exact ⟨by decide, by decide⟩
    · exact ⟨by decide, by decide⟩

end HftSys
