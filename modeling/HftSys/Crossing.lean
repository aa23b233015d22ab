import HftSys.LevelOrder

/-!
# The book is not crossed

`findMatch` looks at the first order of the best level only, and stops at the first one its price
does not reach. On a book whose rings are sorted and whose levels hold orders of their own side and
price only, what it stops at is the most aggressive order of the other side, so whatever comes to
rest afterwards does not cross. `book_not_crossed` says that a run stays uncrossed as long as no new
order breaks one of the two: none opens a level behind every level of a side that has two or more,
and none rests under a level of another side or price.
-/

namespace HftSys

variable {B : Build}

/-! ## The property -/

/-- Every resting `BUY` is below every resting `SELL`. -/
def Uncrossed (b : OrderBook B) : Prop :=
  ∀ p q, b.LiveOrder p → b.LiveOrder q → (b.order p).side = .buy → (b.order q).side = .sell →
    (b.order p).price < (b.order q).price

/-- The request leaves the levels sorted, and no order under a level of another side or price. -/
def RestsInPlace (b : OrderBook B) : Request → Prop
  | .new taker => taker.side.Proper ∧ ¬ AppendsWorst b taker ∧ Suits Eq b taker
  | .cancel _ => True

instance (b : OrderBook B) (r : Request) : Decidable (RestsInPlace b r) :=
  match r with
  | .new _ => inferInstanceAs (Decidable (_ ∧ _ ∧ _))
  | .cancel _ => .isTrue trivial

/-- A book with two sorted sides, every order under a level of its own side and price, that is not
crossed. -/
structure WellPlaced (b : OrderBook B) : Prop where
  sorted : HasSortedSides b
  agrees : Agrees Eq b
  uncrossed : Uncrossed b

section steps

variable {stray : ℕ → Qty} {b b' b₁ : OrderBook B} {queue : Queues B} {taker : NewOrder}
  {p q : OrderPtr} {o : Order} {ring : Side → List (LevelPtr B)}

/-- A price that misses a level misses those behind it. -/
theorem misses_trans {s : Side} {x y z : Price} (hs : s.Proper) (hxy : misses s x y = true)
    (hyz : addsAfter s.other z y = true) : misses s x z = true := by
  unfold misses at *
  unfold addsAfter at hyz
  rcases hs with rfl | rfl
  · exact decide_eq_true (Int64.lt_trans (of_decide_eq_true hxy) (of_decide_eq_true hyz))
  · exact decide_eq_true (Int64.lt_trans (of_decide_eq_true hyz) (of_decide_eq_true hxy))

/-- **Where the loop stops nothing is in reach**: the price misses every order of the other side. -/
theorem misses_all (htwo : TwoSided b ring) (hsorted : SortedRings b ring) (hagrees : Agrees Eq b)
    (hv : Valid b queue) (hside : taker.side.Proper) (hqty : taker.qty ≠ 0)
    (hend : nextMatch taker taker.qty b = .ok none b') (hq : b.LiveOrder q)
    (hother : (b.order q).side = taker.side.other) :
    misses taker.side taker.price (b.order q).price = true := by
  obtain ⟨l, hl⟩ := hv.exists_level hq
  have hquote := hagrees q l hq hl
  have hlside : (b.level l).side = taker.side.other :=
    (congrArg Quote.side hquote).symm.trans hother
  have hlprice : (b.order q).price = (b.level l).price := congrArg Quote.price hquote
  have hlring : l ∈ ring taker.side.other := hlside ▸ (htwo.mem l (hv.live_of_slot hl)).2
  have hhead := htwo.head _ hside.other_proper
  rw [← opposite_eq b hside] at hhead
  obtain ⟨-, hzero | hnone | ⟨best, p, hbest, hlive, h0, hp, hmiss⟩⟩ := nextMatch_none hend
  · exact absurd hzero hqty
  · rw [hnone] at hhead
    rw [List.head?_eq_none_iff.mp hhead.symm] at hlring
    simp at hlring
  · -- the order the loop stopped at has the price of the best level
    obtain ⟨-, hslot, -⟩ := hv.head_of_level hlive h0
    have hpquote := hagrees p best hp hslot
    have hpprice : (b.order p).price = (b.level best).price := congrArg Quote.price hpquote
    rw [hbest] at hhead
    obtain ⟨rest, hrest⟩ := List.head?_eq_some_iff.mp hhead.symm
    have hpair := hsorted _ hside.other_proper
    rw [hrest] at hlring hpair
    rw [hpprice] at hmiss
    rw [hlprice]
    rcases List.mem_cons.mp hlring with rfl | hmem
    · exact hmiss
    · exact misses_trans hside hmiss ((List.pairwise_cons.mp hpair).1 l hmem)

/-- Orders that go leave a book uncrossed. -/
theorem Uncrossed.thins (h : Uncrossed b) (ht : Thins b b') : Uncrossed b' := by
  intro p q hp hq hpside hqside
  rw [ht.side_order] at hpside hqside
  rw [ht.price_order, ht.price_order]
  exact h p q (ht.live p hp) (ht.live q hq) hpside hqside

/-- An order whose price misses every order of the other side. -/
theorem Uncrossed.files (h : Uncrossed b) (hf : Filed b b' p o)
    (hmiss : ∀ q, b.LiveOrder q → (b.order q).side = o.side.other →
      misses o.side o.price (b.order q).price = true) : Uncrossed b' := by
  have hold : ∀ z, b'.LiveOrder z → z ≠ p → b.LiveOrder z ∧
      (b'.order z).side = (b.order z).side ∧ (b'.order z).price = (b.order z).price := by
    intro z hz hne
    exact ⟨((hf.liveOrder z).mp hz).resolve_left hne,
      OrderBook.side_of_data (hf.data_of_ne z hne), hf.price_of_ne hne⟩
  intro x y hx hy hxside hyside
  by_cases hxp : x = p
  · by_cases hyp : y = p
    · rw [hxp] at hxside
      rw [hyp, hxside] at hyside
      cases hyside
    · obtain ⟨hlive, hs, hprice⟩ := hold y hy hyp
      rw [hs] at hyside
      rw [hxp, hf.side_self] at hxside
      have hm := hmiss y hlive (by rw [hyside, hxside]; rfl)
      rw [hxp, hf.price_self, hprice]
      rw [hxside] at hm
      exact of_decide_eq_true hm
  · obtain ⟨hlive, hs, hprice⟩ := hold x hx hxp
    rw [hs] at hxside
    by_cases hyp : y = p
    · rw [hyp, hf.side_self] at hyside
      have hm := hmiss x hlive (by rw [hxside, hyside]; rfl)
      rw [hyp, hf.price_self, hprice]
      rw [hyside] at hm
      exact of_decide_eq_true hm
    · obtain ⟨hlive', hs', hprice'⟩ := hold y hy hyp
      rw [hs'] at hyside
      rw [hprice, hprice']
      exact h x y hlive hlive' hxside hyside

/-- A new order that rests in place leaves the book uncrossed. -/
theorem WellPlaced.uncrossed_new (h : WellPlaced b) (hv : Valid b queue)
    (hside : taker.side.Proper) (hreq : handleRequest stray (.new taker) b = .ok () b') :
    Uncrossed b' := by
  obtain ⟨⟨⟨ring, htwo, hsorted⟩, hproper⟩, hagrees, huncrossed⟩ := h
  obtain ⟨b₁, hs, htail⟩ := addOrder_ok hreq
  have hthins := hs.thins hv
  have huncrossed₁ := huncrossed.thins hthins
  rcases htail with ⟨-, rfl⟩ | ⟨hqty, hrest⟩
  · exact huncrossed₁
  · obtain ⟨ring₁, hd⟩ := htwo.sweeps hproper hv hs
    obtain ⟨queue₁, hv₁⟩ := hs.valid (hv.accept taker)
    obtain ⟨p, o, b₂, hr⟩ := rests_of_restOrder hv₁.toSound hrest
    have hquote : o.side = taker.side ∧ o.price = taker.price := by
      rw [hr.order]
      exact ⟨rfl, rfl⟩
    have hfiled : Uncrossed b₂ := by
      apply huncrossed₁.files hr.files.1
      rw [hquote.1, hquote.2]
      intro q hq hother
      exact misses_all hd.twoSided (hsorted.during hside hd) (hagrees.thins hthins) hv₁ hside hqty
        hs.last hq hother
    rw [hr.book]
    exact hfiled

/-- **A request that leaves everything in place** leaves the book uncrossed. -/
theorem WellPlaced.request {r : Request} (h : WellPlaced b) (hv : Valid b queue)
    (hk : RestsInPlace b r) (hreq : handleRequest stray r b = .ok () b') : WellPlaced b' := by
  cases r with
  | new taker =>
    obtain ⟨hside, hworst, hsuits⟩ := hk
    exact ⟨h.sorted.request (r := .new taker) hv ⟨hside, hworst⟩ hreq,
      h.agrees.new (fun _ => rfl) hv hsuits hreq, h.uncrossed_new hv hside hreq⟩
  | cancel r =>
    have hsafe : CancelsSafely b r :=
      h.agrees.cancelsSafely (fun _ _ h => congrArg Quote.side h) hv r
    refine ⟨h.sorted.request (r := .cancel r) hv hsafe hreq, h.agrees.cancelled hv hreq, ?_⟩
    rcases cancelOrder_ok hv.toSound hreq with ⟨rfl, -⟩ | ⟨p, l, -, rfl⟩
    · exact h.uncrossed
    · exact (h.uncrossed.thins (Thins.detach b p l) : Uncrossed (b.detach p l))

end steps

/-! ## Runs -/

/-- **The book is not crossed** throughout a run of `BUY` and `SELL` orders in which no new order
opens a level behind every level of a side that has two or more, and none comes to rest under a
level of another side or price. -/
theorem book_not_crossed {stray : ℕ → Qty} {rs : List Request}
    (h : Meets (B := B) RestsInPlace stray rs) : Throughout (B := B) Uncrossed stray rs := by
  intro rs₀ rs₁ b₀ hrs hrun
  have hcreate : WellPlaced (OrderBook.create B) := by
    refine ⟨⟨⟨_, twoSided_create B, fun _ _ => List.Pairwise.nil⟩, properOrders_create B⟩,
      agrees_create _ B, ?_⟩
    exact fun p _ hp => absurd hp (not_liveOrder_create p)
  have hplaced := h.invariant hcreate fun queue b r b' hv hb hk hreq => hb.request hv hk hreq
  exact (hplaced rs₀ rs₁ b₀ hrs hrun).uncrossed

/-- Three levels of asks and two of bids; a `BUY` at 100 takes the best ask and comes to rest below
the next one. -/
theorem book_not_crossed_sample :
    Throughout (B := .production) Uncrossed (fun _ => 0) ladders ∧
      (∃ b : OrderBook .production, RunsTo (fun _ => 0) (ladders.take 6) b ∧
        b.quotesFrom b.asksByPrice = [(100, [10]), (101, [10, 5]), (102, [10])] ∧
        b.quotesFrom b.bidsByPrice = [(99, [10]), (98, [10])]) ∧
      ∃ b : OrderBook .production, RunsTo (fun _ => 0) ladders b ∧
        b.quotesFrom b.asksByPrice = [(101, [5]), (102, [10])] ∧
        b.quotesFrom b.bidsByPrice = [(100, [4]), (99, [10]), (98, [10])] :=
  ⟨book_not_crossed (meets_of_forall (by decide +kernel)), runsTo_ladders_take, runsTo_ladders⟩

/-- Asks at 100, 101 and 103, the last of them right behind the best: once 100 has been taken, a
`BUY` at 102 stops at 103 and comes to rest above the `SELL` at 101. -/
theorem crosses_misplaced_level :
    ¬ ∀ (stray : ℕ → Qty) (rs : List Request) (b : OrderBook .production), ProperSides rs →
      RunsTo stray rs b → Uncrossed b := by
  intro h
  have huncrossed := h (fun _ => 0)
    [.new ⟨1, 1, 0, .sell, 100, 10⟩, .new ⟨1, 2, 0, .sell, 101, 10⟩,
      .new ⟨1, 3, 0, .sell, 103, 10⟩, .new ⟨2, 1, 0, .buy, 100, 10⟩,
      .new ⟨2, 2, 0, .buy, 102, 10⟩] _ ?_ (runsTo_bookAfter (by decide +kernel))
  · have hlt := huncrossed ⟨3, by decide⟩ ⟨1, by decide⟩ (by decide +kernel) (by decide +kernel)
      (by decide +kernel) (by decide +kernel)
    exact absurd hlt (by decide +kernel)
  · intro taker htaker
    simp only [List.mem_cons, Request.new.injEq, List.not_mem_nil, or_false] at htaker
    rcases htaker with rfl | rfl | rfl | rfl | rfl
    · exact .inr rfl
    · exact .inr rfl
    · exact .inr rfl
    · exact .inl rfl
    · exact .inl rfl

end HftSys
