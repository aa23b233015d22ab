import HftSys.Quotes

/-!
# Sorted price levels

Each side's ring goes from the most aggressive price to the least (`LevelsSorted`). `addPriceLevel`
keeps that except in one case: a price behind *every* level of a ring of two or more comes round to
the best level with `shouldAddAfter` still set, and is put right behind the best one
(`AppendsWorst`). `levels_sorted` says that a run without that case, in which no `CANCEL` orphans a
best pointer, stays sorted.
-/

namespace HftSys

open Circular

variable {B : Build}

/-! ## The comparison of prices -/

theorem addsAfter_trans {s : Side} {x y z : Price} (hxy : addsAfter s x y = true)
    (hyz : addsAfter s y z = true) : addsAfter s x z = true := by
  unfold addsAfter at *
  by_cases hs : s = .sell
  · rw [if_pos hs] at *
    exact decide_eq_true (Int64.lt_trans (of_decide_eq_true hyz) (of_decide_eq_true hxy))
  · rw [if_neg hs] at *
    exact decide_eq_true (Int64.lt_trans (of_decide_eq_true hxy) (of_decide_eq_true hyz))

/-- Two different prices are in one of the two orders. -/
theorem addsAfter_of_ne {s : Side} {x y : Price} (hne : x ≠ y) (h : addsAfter s x y = false) :
    addsAfter s y x = true := by
  have hlt : x < y ∨ y < x := by
    rw [Int64.lt_iff_toInt_lt, Int64.lt_iff_toInt_lt]
    have : x.toInt ≠ y.toInt := fun e => hne (Int64.toInt_inj.mp e)
    omega
  unfold addsAfter at *
  by_cases hs : s = .sell
  · rw [if_pos hs] at *
    exact decide_eq_true (hlt.resolve_right (of_decide_eq_false h))
  · rw [if_neg hs] at *
    exact decide_eq_true (hlt.resolve_left (of_decide_eq_false h))

theorem addsAfter_asymm {s : Side} {x y : Price} (h : addsAfter s x y = true) :
    addsAfter s y x = false := by
  unfold addsAfter at *
  by_cases hs : s = .sell
  · rw [if_pos hs] at *
    exact decide_eq_false (Int64.lt_asymm (of_decide_eq_true h))
  · rw [if_neg hs] at *
    exact decide_eq_false (Int64.lt_asymm (of_decide_eq_true h))

/-- A level that becomes the best is one the best level belongs behind. -/
theorem becomesBest_eq {s : Side} (hs : s.Proper) (x y : Price) :
    becomesBest s x y = addsAfter s y x := by
  unfold becomesBest addsAfter
  rcases hs with rfl | rfl
  · simp
  · simp

/-! ## The property -/

/-- Level `l` is the most aggressive of the levels in `U`. -/
def MostAggressive (b : OrderBook B) (s : Side) (l : LevelPtr B) (U : LevelPtr B → Prop) : Prop :=
  U l ∧ ∀ z, U z → z ≠ l → addsAfter s (b.level z).price (b.level l).price = true

/-- The level is in use, on side `s`. -/
def OnSide (b : OrderBook B) (s : Side) (l : LevelPtr B) : Prop :=
  b.LiveLevel l ∧ (b.level l).side = s

/-- The walk from each best pointer goes from the most aggressive price to the least; the best
pointer designates the most aggressive level of the side, and is left on the most aggressive of the
others when that level is removed. -/
structure LevelsSorted (b : OrderBook B) : Prop where
  asks : (b.levelsFrom b.asksByPrice).Pairwise fun x y => (b.level x).price < (b.level y).price
  bids : (b.levelsFrom b.bidsByPrice).Pairwise fun x y => (b.level y).price < (b.level x).price
  best : ∀ s l, s.Proper → b.bestOf s = some l → MostAggressive b s l (OnSide b s)
  second : ∀ s l l', s.Proper → b.bestOf s = some l → b.bestWithout s l = some l' →
    MostAggressive b s l' fun z => OnSide b s z ∧ z ≠ l

/-! ## The condition -/

/-- A new order opens a level behind every level of a side that has two or more. -/
structure AppendsWorst (b : OrderBook B) (taker : NewOrder) : Prop where
  rests : taker.qty ≠ 0
  opens : Vacates b taker
  two : 2 ≤ (b.levelsFrom (b.bestOf taker.side)).length
  worst : ∀ l ∈ b.levelsFrom (b.bestOf taker.side),
    addsAfter taker.side taker.price (b.level l).price = true

instance (b : OrderBook B) (taker : NewOrder) : Decidable (AppendsWorst b taker) :=
  decidable_of_iff (taker.qty ≠ 0 ∧ Vacates b taker ∧
      2 ≤ (b.levelsFrom (b.bestOf taker.side)).length ∧
      ∀ l ∈ b.levelsFrom (b.bestOf taker.side),
        addsAfter taker.side taker.price (b.level l).price = true)
    ⟨fun ⟨h₁, h₂, h₃, h₄⟩ => ⟨h₁, h₂, h₃, h₄⟩, fun ⟨h₁, h₂, h₃, h₄⟩ => ⟨h₁, h₂, h₃, h₄⟩⟩

/-- The request leaves the levels sorted. -/
def KeepsSorted (b : OrderBook B) : Request → Prop
  | .new taker => taker.side.Proper ∧ ¬ AppendsWorst b taker
  | .cancel r => CancelsSafely b r

instance (b : OrderBook B) (r : Request) : Decidable (KeepsSorted b r) :=
  match r with
  | .new _ => inferInstanceAs (Decidable (_ ∧ _))
  | .cancel r => inferInstanceAs (Decidable (CancelsSafely b r))

/-! ## The invariant -/

/-- Level `y` comes behind level `x`. -/
def Ahead (b : OrderBook B) (s : Side) (x y : LevelPtr B) : Prop :=
  addsAfter s (b.level y).price (b.level x).price = true

/-- Both rings are sorted. -/
def SortedRings (b : OrderBook B) (ring : Side → List (LevelPtr B)) : Prop :=
  ∀ s, s.Proper → (ring s).Pairwise (Ahead b s)

/-- A book with two sorted sides. -/
def HasSortedSides (b : OrderBook B) : Prop :=
  (∃ ring, TwoSided b ring ∧ SortedRings b ring) ∧ ProperOrders b

section steps

variable {stray : ℕ → Qty} {b b' b₁ : OrderBook B} {queue : Queues B} {taker : NewOrder}
  {p : OrderPtr} {o : Order} {ring ring₁ : Side → List (LevelPtr B)}

theorem ahead_congr (hprice : ∀ l, (b'.level l).price = (b.level l).price) {s : Side}
    {levels : List (LevelPtr B)} (h : levels.Pairwise (Ahead b s)) :
    levels.Pairwise (Ahead b' s) := by
  apply h.imp
  intro x y hxy
  rw [Ahead, hprice, hprice]
  exact hxy

/-- Levels that go leave a ring sorted. -/
theorem SortedRings.during (h : SortedRings b ring) (hs : taker.side.Proper)
    (hd : SidesDuring b ring taker.side b₁ ring₁) : SortedRings b₁ ring₁ := by
  intro t ht
  apply ahead_congr hd.price
  by_cases hts : t = taker.side
  · rw [hts, hd.own]
    exact h _ hs
  · rw [hs.eq_other ht hts]
    exact (h _ hs.other_proper).sublist hd.other

/-- The price of a new level is not that of another. -/
theorem Opened.price_ne {s : Side} {price : Price} {n : LevelPtr B} {best' : Option (LevelPtr B)}
    (ho : Opened b b' p s price n best') (hs : Sound b queue) {l : LevelPtr B}
    (hl : b.LiveLevel l) : (b.level l).price ≠ price := by
  intro e
  have hslot := hs.slot_of_live hl
  rw [e] at hslot
  have hnone : b.mapPriceToPriceLevel (slotOf B price) = none := ho.slot
  rw [hslot] at hnone
  cases hnone

/-- A new level that is not behind every level of a ring of two or more keeps the rings sorted. -/
theorem SortedRings.opened {s : Side} {price : Price} {n : LevelPtr B}
    {best' : Option (LevelPtr B)} (h : SortedRings b ring) (htwo : TwoSided b ring)
    (hsound : Sound b queue) (ho : Opened b b' p s price n best') (hs : s.Proper)
    (hworst : (∀ l ∈ ring s, addsAfter s price (b.level l).price = true) → (ring s).length < 2) :
    SortedRings b' (Function.update ring s
      (ringWith (fun z => addsAfter s price (b'.level z).price)
        (fun z => becomesBest s price (b'.level z).price) n (ring s))) := by
  have hprice : ∀ t, t.Proper → ∀ l ∈ ring t, (b'.level l).price = (b.level l).price := by
    intro t ht l hl
    exact ho.price_of_ne l fun e => ho.fresh (e ▸ htwo.live t ht l hl)
  have hold : ∀ t, t.Proper → (ring t).Pairwise (Ahead b' t) := by
    intro t ht
    apply (h t ht).imp_of_mem
    intro x y hx hy hxy
    rw [Ahead, hprice t ht x hx, hprice t ht y hy]
    exact hxy
  have hne : ∀ l ∈ ring s, price ≠ (b'.level l).price := by
    intro l hl
    rw [hprice s hs l hl]
    exact (ho.price_ne hsound (htwo.live s hs l hl)).symm
  intro t ht
  by_cases hts : t = s
  · rw [hts, Function.update_self]
    refine ringWith_sorted ?_ ?_ ?_ ?_ (hold s hs) ?_
    · exact fun x y z hxy hyz => addsAfter_trans hyz hxy
    · intro l _ hafter
      rw [Ahead, ho.price_self]
      exact hafter
    · intro l hl hafter
      rw [Ahead, ho.price_self]
      exact addsAfter_of_ne (hne l hl) hafter
    · intro l hl
      rw [becomesBest_eq hs]
      cases hafter : addsAfter s price (b'.level l).price with
      | true => exact addsAfter_asymm hafter
      | false => exact addsAfter_of_ne (hne l hl) hafter
    · intro hall
      apply hworst
      intro l hl
      rw [← hprice s hs l hl]
      exact hall l hl
  · rw [Function.update_of_ne hts]
    exact hold t ht

theorem SortedRings.without {l : LevelPtr B} (h : SortedRings b ring) :
    SortedRings (b.detach p l) (b.ringsWithout ring p l) := by
  intro t ht
  apply ahead_congr (fun z => b.level_price_detach p l z)
  unfold OrderBook.ringsWithout
  split
  · by_cases hts : t = (b.level l).side
    · rw [hts, Function.update_self]
      rw [hts] at ht
      exact (h _ ht).sublist List.erase_sublist
    · rw [Function.update_of_ne hts]
      exact h t ht
  · exact h t ht

/-- **A request that does not append the worst level** of a side keeps both sides sorted. -/
theorem HasSortedSides.request {r : Request} (h : HasSortedSides b) (hv : Valid b queue)
    (hk : KeepsSorted b r) (hreq : handleRequest stray r b = .ok () b') : HasSortedSides b' := by
  obtain ⟨⟨ring, htwo, hsorted⟩, hproper⟩ := h
  cases r with
  | new taker =>
    obtain ⟨hside, hworst⟩ := hk
    obtain ⟨b₁, hs, htail⟩ := addOrder_ok hreq
    obtain ⟨ring₁, hd⟩ := htwo.sweeps hproper hv hs
    have hsorted₁ := hsorted.during hside hd
    rcases htail with ⟨-, rfl⟩ | ⟨hqty, hrest⟩
    · exact ⟨⟨ring₁, hd.twoSided, hsorted₁⟩, hd.proper⟩
    · obtain ⟨queue₁, hv₁⟩ := hs.valid (hv.accept taker)
      obtain ⟨p, o, b₂, hr⟩ := rests_of_restOrder hv₁.toSound hrest
      have hoside : o.side = taker.side := by
        rw [hr.order]
        rfl
      have hoprice : o.price = taker.price := by
        rw [hr.order]
        rfl
      rw [hr.book]
      refine ⟨?_, (hd.proper.files hr.files (hoside ▸ hside) : ProperOrders b₂)⟩
      obtain ⟨-, ⟨l, ha⟩ | ⟨n, best', ho⟩⟩ := hr.files
      · refine ⟨ring₁, hd.twoSided.congr ha.levels ha.bids ha.asks, fun t ht => ?_⟩
        refine ahead_congr (fun z => ?_) (hsorted₁ t ht)
        show (b₂.level z).price = _
        rw [OrderBook.level, ha.levels]
      · rw [hoside, hoprice] at ho
        refine ⟨_, (hd.twoSided.opened ho hside).congr rfl rfl rfl,
          (hsorted₁.opened hd.twoSided hv₁.toSound ho hside ?_ : SortedRings b₂ _)⟩
        intro hall
        by_contra hlong
        refine hworst ⟨hqty, vacates_of_none hv hs ho.slot, ?_, ?_⟩
        · rw [htwo.levelsFrom_eq hside, ← hd.own]
          omega
        · intro l hl
          rw [htwo.levelsFrom_eq hside, ← hd.own] at hl
          rw [← hd.price]
          exact hall l hl
  | cancel r =>
    rcases cancelOrder_ok hv.toSound hreq with ⟨rfl, -⟩ | ⟨p, l, hf, rfl⟩
    · exact ⟨⟨ring, htwo.congr rfl rfl rfl, hsorted⟩, hproper⟩
    · exact ⟨⟨_, htwo.cancel hproper hv hf (hk p l hf.entry hf.slot), hsorted.without⟩,
        hproper.cancel r p l⟩

end steps

/-! ## Runs -/

/-- The head of a sorted list of levels is the most aggressive one. -/
theorem mostAggressive_head {b : OrderBook B} {s : Side} {l : LevelPtr B}
    {rest : List (LevelPtr B)} {U : LevelPtr B → Prop}
    (hsorted : (l :: rest).Pairwise (Ahead b s)) (hU : ∀ z, U z ↔ z ∈ l :: rest) :
    MostAggressive b s l U := by
  refine ⟨(hU l).mpr List.mem_cons_self, ?_⟩
  intro z hz hne
  have hmem := (List.mem_cons.mp ((hU z).mp hz)).resolve_left hne
  exact (List.pairwise_cons.mp hsorted).1 z hmem

theorem HasSortedSides.levelsSorted {b : OrderBook B} (h : HasSortedSides b) : LevelsSorted b := by
  obtain ⟨⟨ring, htwo, hsorted⟩, -⟩ := h
  have hbuy : Side.buy.Proper := .inl rfl
  have hsell : Side.sell.Proper := .inr rfl
  have honSide : ∀ s, s.Proper → ∀ z, OnSide b s z ↔ z ∈ ring s := by
    intro s hs z
    constructor
    · rintro ⟨hlive, hside⟩
      have := (htwo.mem z hlive).2
      rwa [hside] at this
    · exact fun hz => ⟨htwo.live s hs z hz, htwo.side s hs z hz⟩
  constructor
  · have hwalk : b.levelsFrom b.asksByPrice = ring .sell := htwo.levelsFrom_eq hsell
    rw [hwalk]
    apply (hsorted _ hsell).imp
    intro x y hxy
    exact of_decide_eq_true hxy
  · have hwalk : b.levelsFrom b.bidsByPrice = ring .buy := htwo.levelsFrom_eq hbuy
    rw [hwalk]
    apply (hsorted _ hbuy).imp
    intro x y hxy
    exact of_decide_eq_true hxy
  · intro s l hs hl
    obtain ⟨rest, hring⟩ := List.head?_eq_some_iff.mp ((htwo.head s hs).symm.trans hl)
    have hpair := hsorted s hs
    rw [hring] at hpair
    apply mostAggressive_head hpair
    intro z
    rw [honSide s hs, hring]
  · intro s l l' hs hl hl'
    obtain ⟨rest, hring⟩ := List.head?_eq_some_iff.mp ((htwo.head s hs).symm.trans hl)
    have hisRing := htwo.isRing s hs
    have hpair := hsorted s hs
    rw [hring] at hisRing hpair
    rw [OrderBook.bestWithout_head b hisRing hl] at hl'
    obtain ⟨rest', rfl⟩ := List.head?_eq_some_iff.mp hl'
    apply mostAggressive_head (List.pairwise_cons.mp hpair).2
    intro z
    rw [honSide s hs, hring, List.mem_cons]
    have hnot := (List.nodup_cons.mp hisRing.nodup).1
    constructor
    · rintro ⟨rfl | hz, hne⟩
      · exact absurd rfl hne
      · exact hz
    · exact fun hz => ⟨.inr hz, fun e => hnot (e ▸ hz)⟩

/-- **Price levels stay sorted** throughout a run of `BUY` and `SELL` orders in which no new order
opens a level behind every level of a side that has two or more, and no `CANCEL` takes out an order
that is alone in the best level of the other side. -/
theorem levels_sorted {stray : ℕ → Qty} {rs : List Request}
    (h : Meets (B := B) KeepsSorted stray rs) : Throughout (B := B) LevelsSorted stray rs := by
  intro rs₀ rs₁ b₀ hrs hrun
  have hcreate : HasSortedSides (OrderBook.create B) :=
    ⟨⟨_, twoSided_create B, fun _ _ => List.Pairwise.nil⟩, properOrders_create B⟩
  have hsides := h.invariant hcreate fun queue b r b' hv hb hk hreq => hb.request hv hk hreq
  exact (hsides rs₀ rs₁ b₀ hrs hrun).levelsSorted

/-- Three levels of asks and three of bids: levels come in front of one and of two others, one is
emptied by a match, and an order is cancelled. -/
theorem levels_sorted_sample :
    Throughout (B := .production) LevelsSorted (fun _ => 0) ladders ∧
      ∃ b : OrderBook .production, RunsTo (fun _ => 0) ladders b ∧
        b.quotesFrom b.asksByPrice = [(101, [5]), (102, [10])] ∧
        b.quotesFrom b.bidsByPrice = [(100, [4]), (99, [10]), (98, [10])] :=
  ⟨levels_sorted (meets_of_forall (by decide +kernel)), runsTo_ladders⟩

/-- Asks at 100, 101 and 102: the third comes right behind the best. -/
theorem worst_level_misplaced :
    ¬ ∀ (stray : ℕ → Qty) (rs : List Request) (b : OrderBook .production), ProperSides rs →
      RunsTo stray rs b → LevelsSorted b := by
  intro h
  have hsorted := h (fun _ => 0)
    [.new ⟨1, 1, 0, .sell, 100, 10⟩, .new ⟨2, 1, 0, .sell, 101, 10⟩,
      .new ⟨3, 1, 0, .sell, 102, 10⟩] _ ?_ (runsTo_bookAfter (by decide +kernel))
  · exact absurd hsorted.asks (by decide +kernel)
  · intro taker htaker
    simp only [List.mem_cons, Request.new.injEq, List.not_mem_nil, or_false] at htaker
    rcases htaker with rfl | rfl | rfl
    · exact .inr rfl
    · exact .inr rfl
    · exact .inr rfl

end HftSys
