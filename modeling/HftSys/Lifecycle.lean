import HftSys.Numbering

/-!
# The life of a market order id

An id is introduced by one `ACCEPTED` response, before anything else carries it, and once its order
has been cancelled, or used up as the resting side of a fill, nothing carries it any more.

* `IntroducedOnce` is about the whole log, `Introduced` the invariant behind it.
* `Quiet m log` says that the log has grown from `log` without a message that carries `m`, and that
  no order in use has the id `m`; it holds once the order has gone and survives every step, since
  every message carries the id of an order in use, the id being assigned, or none.
-/

namespace HftSys

variable {B : Build}

/-! ## Messages and ids -/

/-- The market order id a message carries. -/
def Emission.id : Emission → OrderID
  | .response r => r.marketOrderId
  | .update u => u.orderId

/-- The message is an `ACCEPTED` response. -/
def Emission.Accepts : Emission → Prop
  | .response r => r.type = .accepted
  | .update _ => False

/-- The log holds one `ACCEPTED` response for `m`, before anything else that carries `m`. -/
def IntroducedOnce (log : List Emission) (m : OrderID) : Prop :=
  ∃ pre e post, log = pre ++ e :: post ∧ e.Accepts ∧ e.id = m ∧ (∀ e' ∈ pre, e'.id ≠ m) ∧
    ∀ e' ∈ post, e'.Accepts → e'.id ≠ m

/-- A new order of the run was given the id `m`. -/
def Assigned (B : Build) (stray : ℕ → Qty) (rs : List Request) (m : OrderID) : Prop :=
  ∃ rs₀ taker rs₁, rs = rs₀ ++ .new taker :: rs₁ ∧
    ∃ b₀ : OrderBook B, RunsTo stray rs₀ b₀ ∧ b₀.nextMarketOid = m

section messages

variable {b : OrderBook B} {stray : ℕ → Qty} {taker : NewOrder} {newMarketOid : OrderID}
  {p : OrderPtr} {qtyRemains : Qty} {e : Emission}

/-- The messages of a `matchOrder` call carry the ids of the two orders, or none. -/
theorem id_of_mem_matchLog (h : e ∈ b.matchLog stray taker newMarketOid p qtyRemains) :
    ¬ e.Accepts ∧ (e.id = newMarketOid ∨ e.id = (b.order p).marketOrderId ∨
      e.id = orderIdInvalid) := by
  unfold OrderBook.matchLog matchEvents at h
  simp only [List.mem_cons, List.not_mem_nil, or_false] at h
  rcases h with rfl | rfl | rfl | rfl
  · exact ⟨(fun h => by cases h), .inl rfl⟩
  · exact ⟨(fun h => by cases h), .inr (.inl rfl)⟩
  · exact ⟨fun h => h, .inr (.inr rfl)⟩
  · split
    · exact ⟨fun h => h, .inr (.inl rfl)⟩
    · exact ⟨fun h => h, .inr (.inl rfl)⟩

/-- The messages about a cancelled order carry its id. -/
theorem id_of_mem_cancelEvents {r : CancelOrder} {o : Order} (h : e ∈ r.events o) :
    ¬ e.Accepts ∧ e.id = o.marketOrderId := by
  unfold CancelOrder.events at h
  simp only [List.mem_cons, List.not_mem_nil, or_false] at h
  rcases h with rfl | rfl
  · exact ⟨fun h => h, rfl⟩
  · exact ⟨(fun h => by cases h), rfl⟩

end messages

/-! ## Introduction -/

/-- The first `n` ids have been introduced, and no message carries another one. -/
structure Introduced (n : ℕ) (log : List Emission) : Prop where
  once : ∀ m : OrderID, 0 < m.toNat → m.toNat ≤ n → IntroducedOnce log m
  known : ∀ e ∈ log, e.id = orderIdInvalid ∨ e.id.toNat ≤ n

theorem IntroducedOnce.append {log log' : List Emission} {m : OrderID} (h : IntroducedOnce log m)
    (h' : ∀ e ∈ log', e.Accepts → e.id ≠ m) : IntroducedOnce (log ++ log') m := by
  obtain ⟨pre, e, post, rfl, he, hm, hpre, hpost⟩ := h
  refine ⟨pre, e, post ++ log', by simp, he, hm, hpre, ?_⟩
  intro e' he'
  rcases List.mem_append.mp he' with he' | he'
  · exact hpost e' he'
  · exact h' e' he'

/-- Messages that accept nothing and carry known ids. -/
theorem Introduced.append {n : ℕ} {log log' : List Emission} (h : Introduced n log)
    (h' : ∀ e ∈ log', ¬ e.Accepts ∧ (e.id = orderIdInvalid ∨ e.id.toNat ≤ n)) :
    Introduced n (log ++ log') where
  once m hpos hle := (h.once m hpos hle).append fun e he ha => absurd ha (h' e he).1
  known e he := by
    rcases List.mem_append.mp he with he | he
    · exact h.known e he
    · exact (h' e he).2

/-- The acceptance of the next order. -/
theorem Introduced.accept {n : ℕ} {log : List Emission} (h : Introduced n log) {e : Emission}
    (he : e.Accepts) (hid : e.id.toNat = n + 1) (hn : n + 1 < 2 ^ 64 - 1) :
    Introduced (n + 1) (log ++ [e]) where
  once m hpos hle := by
    by_cases hm : e.id = m
    · refine ⟨log, e, [], rfl, he, hm, ?_, by simp⟩
      intro e' he' heq
      rcases h.known e' he' with hinv | hknown
      · rw [heq, ← hm] at hinv
        rw [hinv] at hid
        simp only [orderIdInvalid] at hid
        have : (18446744073709551615 : UInt64).toNat = 2 ^ 64 - 1 := rfl
        omega
      · rw [heq, ← hm] at hknown
        omega
    · have hlt : m.toNat ≤ n := by
        have hne : m.toNat ≠ n + 1 := fun e' => hm (UInt64.toNat_inj.mp (hid.trans e'.symm))
        omega
      apply (h.once m hpos hlt).append
      intro e' he' _
      rw [List.mem_singleton.mp he']
      exact hm
  known e' he' := by
    rcases List.mem_append.mp he' with he' | he'
    · exact (h.known e' he').imp_right fun hle => hle.trans (Nat.le_succ n)
    · rw [List.mem_singleton.mp he']
      exact .inr hid.le

/-- Every step of a request keeps the ids introduced. -/
theorem preserved_introduced (stray : ℕ → Qty) (B : Build) :
    Preserved (B := B) stray (2 ^ 64 - 1) (fun n _ b => Introduced n b.ome)
      (fun n _ _ _ b => Introduced (n + 1) b.ome) where
  bound_le := Nat.sub_le _ _
  accept taker hn hs h := h.accept rfl (hs.next_toNat (by omega)) hn
  turn {n taker newMarketOid _ b p best} _ _ hnum hoid hr _ _ h := by
    rw [OrderBook.ome_matched]
    apply h.append
    intro e he
    obtain ⟨ha, hid | hid | hid⟩ := id_of_mem_matchLog he
    · exact ⟨ha, .inr (by rw [hid, hoid])⟩
    · refine ⟨ha, .inr ?_⟩
      rw [hid]
      exact (hnum.id_le p hr.live).trans (Nat.le_succ n)
    · exact ⟨ha, .inl hid⟩
  done h := h
  rest {n taker newMarketOid _ b b' p o b₁} _ _ _ _ hoid hr h := by
    rw [hr.book, hr.files.1.ome]
    apply h.append
    intro e he
    rw [List.mem_singleton.mp he]
    refine ⟨fun ha => ha, .inr ?_⟩
    show o.marketOrderId.toNat ≤ n + 1
    rw [hr.order]
    exact hoid.le
  cancel {n _ b r p l} _ hs hf h := by
    apply Introduced.append h
    intro e he
    obtain ⟨ha, hid⟩ := id_of_mem_cancelEvents he
    refine ⟨ha, .inr ?_⟩
    rw [hid]
    exact hs.id_le p hf.live
  reject r _ h := by
    apply Introduced.append h
    intro e he
    rw [List.mem_singleton.mp he]
    exact ⟨(fun ha => by cases ha), .inl rfl⟩

theorem introduced_create (B : Build) : Introduced 0 (OrderBook.create B).ome where
  once m hpos hle := by omega
  known e he := by
    have : e ∈ ([] : List Emission) := he
    simp at this

/-! ## After the end -/

/-- Since `log` no message has carried `m`, and no order in use has the id `m`. -/
structure Quiet (m : OrderID) (log : List Emission) (b : OrderBook B) : Prop where
  silent : ∃ later, b.ome = log ++ later ∧ ∀ e ∈ later, e.id ≠ m
  gone : ∀ p, b.LiveOrder p → (b.order p).marketOrderId ≠ m

/-- A step that sends no message carrying `m` and brings no order with the id `m`. -/
theorem Quiet.step {m : OrderID} {log : List Emission} {b b' : OrderBook B}
    (h : Quiet m log b) (new : List Emission) (home : b'.ome = b.ome ++ new) (hnew : ∀ e ∈ new, e.id ≠ m)
    (hgone : ∀ p, b'.LiveOrder p → (b'.order p).marketOrderId ≠ m) : Quiet m log b' := by
  obtain ⟨later, hlater, hsilent⟩ := h.silent
  refine ⟨⟨later ++ new, ?_, ?_⟩, hgone⟩
  · rw [home, hlater, List.append_assoc]
  · intro e he
    rcases List.mem_append.mp he with he | he
    · exact hsilent e he
    · exact hnew e he

/-- An id that has been assigned is not the one being assigned, nor the invalid one. -/
theorem ne_of_assigned {m newMarketOid : OrderID} {n : ℕ} (hm : m.toNat ≤ n)
    (hn : n + 1 < 2 ^ 64 - 1) (hoid : newMarketOid.toNat = n + 1) :
    newMarketOid ≠ m ∧ orderIdInvalid ≠ m := by
  constructor
  · rintro rfl
    omega
  · rintro rfl
    have : orderIdInvalid.toNat = 2 ^ 64 - 1 := rfl
    omega

/-- Every step of a request keeps an ended order's id quiet. -/
theorem preserved_quiet (stray : ℕ → Qty) (B : Build) (m : OrderID) (log : List Emission) :
    Preserved (B := B) stray (2 ^ 64 - 1) (fun n _ b => m.toNat ≤ n ∧ Quiet m log b)
      (fun n _ _ _ b => m.toNat ≤ n ∧ Quiet m log b) where
  bound_le := Nat.sub_le _ _
  accept taker hn hs h := by
    obtain ⟨hm, hq⟩ := h
    refine ⟨hm, hq.step [_] rfl ?_ hq.gone⟩
    intro e he
    rw [List.mem_singleton.mp he]
    exact (ne_of_assigned hm hn (hs.next_toNat (by omega))).1
  turn {n taker newMarketOid _ b p best} hn _ _ hoid hr _ _ h := by
    obtain ⟨hm, hq⟩ := h
    obtain ⟨hne, hinv⟩ := ne_of_assigned hm hn hoid
    refine ⟨hm, hq.step _ (b.ome_matched stray taker newMarketOid p best taker.qty) ?_ ?_⟩
    · intro e he
      obtain ⟨-, hid | hid | hid⟩ := id_of_mem_matchLog he
      · rw [hid]
        exact hne
      · rw [hid]
        exact hq.gone p hr.live
      · rw [hid]
        exact hinv
    · intro q hq'
      rw [OrderBook.marketOrderId_matched]
      exact hq.gone q
        ((b.liveOrder_matched stray taker newMarketOid p q best taker.qty).mp hq').1
  done h := ⟨h.1.trans (Nat.le_succ _), h.2⟩
  rest {n taker newMarketOid _ b b' p o b₁} hn _ _ _ hoid hr h := by
    obtain ⟨hm, hq⟩ := h
    have hf := hr.files.1
    have hid : o.marketOrderId ≠ m := by
      rw [hr.order]
      exact (ne_of_assigned hm hn hoid).1
    refine ⟨hm.trans (Nat.le_succ n), hq.step [.update o.added] ?_ ?_ ?_⟩
    · rw [hr.book, hf.ome]
    · intro e he
      rw [List.mem_singleton.mp he]
      exact hid
    · rw [hr.book]
      exact hf.forall_live (P := fun o => o.marketOrderId ≠ m) hid hq.gone
  cancel {n _ b r p l} _ hs hf h := by
    obtain ⟨hm, hq⟩ := h
    refine ⟨hm, hq.step (r.events (b.order p)) rfl ?_ ?_⟩
    · intro e he
      rw [(id_of_mem_cancelEvents he).2]
      exact hq.gone p hf.live
    · intro q hq'
      exact b.forall_live_detach p q l (P := fun o => o.marketOrderId ≠ m) hq.gone hq'
  reject {n _ b} r hn h := by
    obtain ⟨hm, hq⟩ := h
    refine ⟨hm, hq.step [.response r.rejection] rfl ?_ hq.gone⟩
    intro e he
    rw [List.mem_singleton.mp he]
    rintro rfl
    have : orderIdInvalid.toNat = 2 ^ 64 - 1 := rfl
    have hm' : orderIdInvalid.toNat ≤ n := hm
    omega

/-! ## The ends -/

/-- Nothing after `log` carries `m`. -/
def SilentAfter (log : List Emission) (m : OrderID) (b : OrderBook B) : Prop :=
  ∃ later, b.ome = log ++ later ∧ ∀ e ∈ later, e.id ≠ m

section ends

variable {stray : ℕ → Qty} {rs₁ : List Request} {b₀ b₁ b : OrderBook B} {queue : Queues B} {n : ℕ}

/-- A cancelled order has gone. -/
theorem quiet_cancel (hs : Settled b₀ queue n) {r : CancelOrder} {p : OrderPtr} {l : LevelPtr B}
    (hf : Finds b₀ r p l) :
    Quiet (b₀.order p).marketOrderId (b₀.cancel r p l).ome (b₀.cancel r p l) where
  silent := ⟨[], (List.append_nil _).symm, by simp⟩
  gone q hq e := by
    obtain ⟨hlive, hne⟩ := (b₀.liveOrder_detach p q l).mp hq
    refine hne (hs.id_inj q p hlive hf.live ?_)
    exact (OrderBook.marketOrderId_of_data (b₀.data_detach p q l)).symm.trans e

/-- An order that a fill has used up has gone. -/
theorem quiet_matched (hnum : Numbered b₀ n) (taker : NewOrder) (newMarketOid : OrderID)
    {p : OrderPtr} (l : LevelPtr B) {qtyRemains : Qty} (hp : b₀.LiveOrder p)
    (hx : b₀.Exhausts p qtyRemains) :
    Quiet (b₀.order p).marketOrderId (b₀.matched stray taker newMarketOid p l qtyRemains).ome
      (b₀.matched stray taker newMarketOid p l qtyRemains) where
  silent := ⟨[], (List.append_nil _).symm, by simp⟩
  gone q hq e := by
    obtain ⟨hlive, hne⟩ := (b₀.liveOrder_matched stray taker newMarketOid p q l qtyRemains).mp hq
    rw [OrderBook.marketOrderId_matched] at e
    exact hne ⟨hx, hnum.id_inj q p hlive hp e⟩

/-- The response of a cancel names the order it has taken out. -/
theorem silentAfter_cancel (hs : Settled b₀ queue n) {r : CancelOrder} {log : List Emission}
    (hreq : handleRequest stray (.cancel r) b₀ = .ok () b₁) (hlog : b₁.ome = b₀.ome ++ log)
    {m : OrderID} {resp : OMEClientResponse} (hresp : .response resp ∈ log)
    (htype : resp.type = .cancelled) (hm : resp.marketOrderId = m)
    (hn : n + accepted rs₁ < 2 ^ 64 - 1) (hrest : handleAll stray rs₁ b₁ = .ok () b) :
    SilentAfter b₁.ome m b := by
  rcases cancelOrder_ok hs.toSound hreq with ⟨rfl, -⟩ | ⟨p, l, hf, rfl⟩
  · -- a rejection is no `CANCELLED` response
    have : log = [.response r.rejection] := (List.append_cancel_left hlog).symm
    rw [this, List.mem_singleton] at hresp
    cases hresp
    cases htype
  · have hevents : log = r.events (b₀.order p) := (List.append_cancel_left hlog).symm
    rw [hevents] at hresp
    have hid := (id_of_mem_cancelEvents hresp).2
    have hmp : m = (b₀.order p).marketOrderId := hm.symm.trans hid
    have hset : Settled (b₀.cancel r p l) _ n := ⟨hs.toValid.cancel hf,
      hs.toNumbered.cancel r p l, (b₀.nextMarketOid_detach p l).trans hs.next⟩
    rw [hmp]
    obtain ⟨_, -, -, hq⟩ := (preserved_quiet stray B (b₀.order p).marketOrderId
      (b₀.cancel r p l).ome).all hn hset ⟨hs.id_le p hf.live, quiet_cancel hs hf⟩ hrest
    exact hq.silent

/-- Nothing carries the id of an order after the fill that uses it up. -/
theorem silentAfter_matched (hs : Settled b₀ queue n) {taker : NewOrder}
    {c : OrderBook B × OrderPtr} {b₂ : OrderBook B}
    (hreq : handleRequest stray (.new taker) b₀ = .ok () b₂)
    (hc : c ∈ newOrderCalls stray taker b₀)
    (hmatch : matchOrder stray taker b₀.nextMarketOid (some c.2) taker.qty c.1 = .ok () b₁)
    (hx : c.1.Exhausts c.2 taker.qty) (hn : n + 1 + accepted rs₁ < 2 ^ 64 - 1)
    (hrest : handleAll stray rs₁ b₂ = .ok () b) :
    SilentAfter b₁.ome (c.1.order c.2).marketOrderId b := by
  obtain ⟨b₃, hsweep, htail⟩ := addOrder_ok hreq
  obtain ⟨queue', hv, hnum, hnext, -⟩ :=
    ((preserved_settled stray B).sweep (by omega) hs trivial hsweep).2 c hc
  obtain ⟨-, best, hr⟩ := nextMatch_some (hsweep.mem hc)
  obtain ⟨hp, hslot, -⟩ := hv.head_of_level hr.liveLevel hr.order0
  obtain ⟨b₁', calls', hmatch', hfills⟩ := hsweep.after hc
  rw [hmatch] at hmatch'
  cases hmatch'
  rw [matchOrder_eq hv.toSound stray taker b₀.nextMarketOid taker.qty hp hslot] at hmatch
  cases hmatch
  -- the rest of the loop, the rest of the request, the rest of the run
  have hpres := preserved_quiet stray B (c.1.order c.2).marketOrderId
    (c.1.matched stray taker b₀.nextMarketOid c.2 best taker.qty).ome
  obtain ⟨⟨queue₃, hv₃, hnum₃, hnext₃, hd₃⟩, -⟩ := hpres.fills (by omega)
    (hs.next_toNat (by omega)) (hv.matched stray taker b₀.nextMarketOid taker.qty hp hslot)
    (hnum.matched stray taker b₀.nextMarketOid c.2 best taker.qty)
    ⟨hnum.id_le c.2 hp, quiet_matched hnum taker b₀.nextMarketOid best hp hx⟩ hfills
  rw [OrderBook.nextMarketOid_matched, hnext] at hnext₃
  obtain ⟨queue₂, hs₂, hidle₂⟩ :=
    hpres.afterSweep (by omega) hs.next hv₃ hnum₃ hnext₃ hd₃ htail
  obtain ⟨_, -, -, hq⟩ := hpres.all hn hs₂ hidle₂ hrest
  exact hq.silent

end ends

/-- **Dead orders stay dead**: in a run that accepts fewer than `2 ^ 64 - 1` orders, every id that
is assigned is introduced by exactly one `ACCEPTED` response, before any other message that carries
it; nothing after a cancel whose response is `CANCELLED` carries that response's id; and nothing
after a `matchOrder` call that leaves its resting order with quantity `0` carries that order's
id. -/
theorem dead_orders_stay_dead {stray : ℕ → Qty} {rs : List Request} {b : OrderBook B}
    (h : RunsTo stray rs b) (hn : accepted rs < 2 ^ 64 - 1) :
    (∀ m, Assigned B stray rs m → IntroducedOnce b.ome m) ∧
      (∀ rs₀ r rs₁ (b₀ b₁ : OrderBook B) log resp, rs = rs₀ ++ .cancel r :: rs₁ →
        RunsTo stray rs₀ b₀ → handleRequest stray (.cancel r) b₀ = .ok () b₁ →
        b₁.ome = b₀.ome ++ log → .response resp ∈ log → resp.type = .cancelled →
        SilentAfter b₁.ome resp.marketOrderId b) ∧
      ∀ rs₀ taker rs₁ (b₀ b₁ : OrderBook B) c, rs = rs₀ ++ .new taker :: rs₁ →
        RunsTo stray rs₀ b₀ → c ∈ newOrderCalls stray taker b₀ →
        matchOrder stray taker b₀.nextMarketOid (some c.2) taker.qty c.1 = .ok () b₁ →
        (c.1.order c.2).qty - c.1.fillQty c.2 taker.qty = 0 →
        SilentAfter b₁.ome (c.1.order c.2).marketOrderId b := by
  refine ⟨?_, ?_, ?_⟩
  · rintro m ⟨rs₀, taker, rs₁, rfl, b₀, hrun₀, rfl⟩
    have hcount := hn
    rw [accepted_append, accepted_cons_new] at hcount
    obtain ⟨queue₀, hs₀⟩ := hrun₀.settled (by omega)
    have hid := hs₀.next_toNat (by omega)
    obtain ⟨_, -, hintro⟩ := (preserved_introduced stray B).run hn (introduced_create B) h
    refine hintro.once _ (by omega) ?_
    rw [accepted_append, accepted_cons_new]
    omega
  · rintro rs₀ r rs₁ b₀ b₁ log resp rfl hrun₀ hreq hlog hresp htype
    rw [accepted_append, accepted_cons_cancel] at hn
    obtain ⟨b₀', b₁', hrun₀', hreq', hrest⟩ := runsTo_split.mp h
    cases hrun₀.unique hrun₀'
    rw [hreq] at hreq'
    cases hreq'
    obtain ⟨queue₀, hs₀⟩ := hrun₀.settled (by omega)
    exact silentAfter_cancel hs₀ hreq hlog hresp htype rfl hn hrest
  · rintro rs₀ taker rs₁ b₀ b₁ c rfl hrun₀ hc hmatch hzero
    rw [accepted_append, accepted_cons_new] at hn
    obtain ⟨b₀', b₂, hrun₀', hreq, hrest⟩ := runsTo_split.mp h
    cases hrun₀.unique hrun₀'
    obtain ⟨queue₀, hs₀⟩ := hrun₀.settled (by omega)
    exact silentAfter_matched hs₀ hreq hc hmatch hzero (by omega) hrest

/-- An order used up by another, and its client order id used again. -/
theorem dead_orders_stay_dead_sample :
    IntroducedOnce (bookAfter .production (fun _ => 0)
      [.new ⟨1, 1, 0, .sell, 100, 10⟩, .new ⟨2, 1, 0, .buy, 100, 10⟩,
        .new ⟨1, 1, 0, .sell, 101, 10⟩, .cancel ⟨1, 1, 0⟩]).ome 1 :=
  (dead_orders_stay_dead (runsTo_bookAfter (by decide +kernel)) (by decide)).1 1
    ⟨[], ⟨1, 1, 0, .sell, 100, 10⟩, [.new ⟨2, 1, 0, .buy, 100, 10⟩,
      .new ⟨1, 1, 0, .sell, 101, 10⟩, .cancel ⟨1, 1, 0⟩], rfl, OrderBook.create .production, rfl,
      rfl⟩

end HftSys
