import HftSys.Sweep

/-!
# The two sides of a book

`TwoSided` is what the best pointers are for: each side's levels form one ring headed by its best
pointer, and every level in use is in the ring of its side. It is kept by everything a request does
except one step, the removal of an order that is alone in the best level of the *other* side
(`Orphans`): `removePriceLevel` repairs the best pointer of the order's side, and the one that
designates the freed level is left as it is.

In the matching of a new order that step leaves the loop stuck, so a request that comes to an end
has not taken it (`TwoSided.sweeps`).
-/

namespace HftSys

open Circular

variable {B : Build}

/-- Each side's ring, headed by its best pointer, holds levels of that side only. -/
structure SideRings (b : OrderBook B) (ring : Side → List (LevelPtr B)) : Prop where
  isRing : ∀ s, s.Proper → b.levelLinks.IsRing (ring s)
  head : ∀ s, s.Proper → b.bestOf s = (ring s).head?
  side : ∀ s, s.Proper → ∀ l ∈ ring s, (b.level l).side = s

/-- Each side's levels: a ring headed by the best pointer of the side. -/
structure TwoSided (b : OrderBook B) (ring : Side → List (LevelPtr B)) : Prop where
  isRing : ∀ s, s.Proper → b.levelLinks.IsRing (ring s)
  head : ∀ s, s.Proper → b.bestOf s = (ring s).head?
  live : ∀ s, s.Proper → ∀ l ∈ ring s, b.LiveLevel l
  side : ∀ s, s.Proper → ∀ l ∈ ring s, (b.level l).side = s
  mem : ∀ l, b.LiveLevel l → (b.level l).side.Proper ∧ l ∈ ring (b.level l).side

/-- Every order in use is a `BUY` or a `SELL`. -/
def ProperOrders (b : OrderBook B) : Prop := ∀ p, b.LiveOrder p → (b.order p).side.Proper

/-- Order `p` is alone in the best level of the other side: taking it out leaves that side's best
pointer on a freed level. -/
def Orphans (b : OrderBook B) (p : OrderPtr) (l : LevelPtr B) : Prop :=
  b.Alone p ∧ (b.order p).side ≠ (b.level l).side ∧ b.bestOf (b.level l).side = some l

instance (b : OrderBook B) (p : OrderPtr) (l : LevelPtr B) : Decidable (Orphans b p l) :=
  inferInstanceAs (Decidable (_ ∧ _ ∧ _))

/-- The rings after order `p` of level `l` has been taken out. -/
def OrderBook.ringsWithout (b : OrderBook B) (ring : Side → List (LevelPtr B)) (p : OrderPtr)
    (l : LevelPtr B) : Side → List (LevelPtr B) :=
  if b.Alone p then
    Function.update ring (b.level l).side ((ring (b.level l).side).erase l)
  else ring

namespace SideRings

variable {b : OrderBook B} {ring : Side → List (LevelPtr B)}

/-- The ring of a side is what the walk from its best pointer meets. -/
theorem levelsFrom_eq (h : SideRings b ring) {s : Side} (hs : s.Proper) :
    b.levelsFrom (b.bestOf s) = ring s := by
  rw [h.head s hs]
  exact OrderBook.levelsFrom_eq (h.isRing s hs)

/-- A ring headed by a best pointer is the ring of the side. -/
theorem ring_eq (h : SideRings b ring) {s : Side} (hs : s.Proper) {levels : List (LevelPtr B)}
    (hring : b.levelLinks.IsRing levels) (hhead : b.bestOf s = levels.head?) :
    ring s = levels := by
  rw [← h.levelsFrom_eq hs, hhead]
  exact OrderBook.levelsFrom_eq hring

/-- The two rings share no level. -/
theorem disjoint (h : SideRings b ring) {s t : Side} (hs : s.Proper) (ht : t.Proper) (hne : s ≠ t)
    {l : LevelPtr B} (hl : l ∈ ring s) : l ∉ ring t := by
  intro hl'
  exact hne ((h.side s hs l hl).symm.trans (h.side t ht l hl'))

/-! ## Taking an order out -/

/-- The best pointer of a side after one of its levels has gone, through an order of that side. -/
theorem bestWithout_own (h : SideRings b ring) {s : Side} (hs : s.Proper) {l : LevelPtr B}
    (hl : l ∈ ring s) : b.bestWithout s l = ((ring s).erase l).head? := by
  have hring := h.isRing s hs
  have hhead := h.head s hs
  generalize ring s = levels at hl hring hhead
  cases levels with
  | nil => simp at hl
  | cons best rest =>
    by_cases hbest : l = best
    · subst hbest
      rw [OrderBook.bestWithout_head b hring hhead, List.erase_cons_head]
    · obtain ⟨x, hx, hlx⟩ := hring.exists_next hl
      have hne : x ≠ l := by
        rintro rfl
        have := hring.eq_singleton hl hlx.1
        simp only [List.cons.injEq] at this
        exact hbest this.1.symm
      rw [OrderBook.bestWithout_of_ne b l hlx.1 hne, hhead, List.erase_cons_tail (by simpa using Ne.symm hbest)]
      · rfl
      · rw [hhead]
        exact fun e => hbest (Option.some.inj e).symm

/-- The best pointer of a side after a level of the other side has gone that is not its best. -/
theorem bestWithout_other (h : SideRings b ring) {s t : Side} (hs : s.Proper) (ht : t.Proper)
    (hne : s ≠ t) {l : LevelPtr B} (hl : l ∈ ring t) (hbest : b.bestOf t ≠ some l) :
    b.bestWithout s l = b.bestOf s := by
  have hring := h.isRing t ht
  obtain ⟨x, hx, hlx⟩ := hring.exists_next hl
  have hxl : x ≠ l := by
    rintro rfl
    have hsingle := hring.eq_singleton hl hlx.1
    apply hbest
    rw [h.head t ht, hsingle]
    rfl
  apply OrderBook.bestWithout_of_ne b l hlx.1 hxl
  rw [h.head s hs]
  intro hhead
  exact h.disjoint hs ht hne (List.mem_of_head? hhead) hl

/-- The rings without one of their levels hold all the others. -/
theorem mem_erase (h : SideRings b ring) {s t : Side} (hs : s.Proper) (ht : t.Proper)
    {l z : LevelPtr B} (hl : l ∈ ring t) :
    z ∈ Function.update ring t ((ring t).erase l) s ↔ z ∈ ring s ∧ z ≠ l := by
  by_cases hst : s = t
  · rw [hst, Function.update_self, (h.isRing t ht).nodup.mem_erase_iff, and_comm]
  · rw [Function.update_of_ne hst]
    constructor
    · intro hz
      refine ⟨hz, ?_⟩
      rintro rfl
      exact h.disjoint hs ht hst hz hl
    · exact fun hz => hz.1

/-- The rings stay rings over the gap an erased level leaves. -/
theorem isRing_erase (h : SideRings b ring) {s t : Side} (hs : s.Proper) (ht : t.Proper)
    {l : LevelPtr B} (hl : l ∈ ring t) :
    (b.levelLinks.bypass l).IsRing (Function.update ring t ((ring t).erase l) s) := by
  by_cases hst : s = t
  · rw [hst, Function.update_self]
    exact (h.isRing t ht).bypass hl
  · rw [Function.update_of_ne hst]
    apply (h.isRing s hs).bypass_other (h.isRing t ht) hl
    exact fun z hz => h.disjoint hs ht hst hz

/-- A ring that loses a level other than its head keeps its head. -/
theorem head_erase_of_ne (h : SideRings b ring) {t : Side} (ht : t.Proper) {l : LevelPtr B}
    (hbest : b.bestOf t ≠ some l) : ((ring t).erase l).head? = b.bestOf t := by
  rw [h.head t ht] at hbest ⊢
  generalize ring t = levels at hbest ⊢
  cases levels with
  | nil => rfl
  | cons best rest =>
    have hne : best ≠ l := fun e => hbest (by rw [e]; rfl)
    rw [List.erase_cons_tail (by simpa using hne)]
    rfl

/-- The best pointers after a level has been emptied through an order `p` that does not orphan
them. -/
theorem head_detach {p : OrderPtr} {l : LevelPtr B} (h : SideRings b ring) (ha : b.Alone p)
    (ht : (b.level l).side.Proper) (hl : l ∈ ring (b.level l).side)
    (hside : (b.order p).side.Proper) (hsafe : ¬ Orphans b p l) {s : Side} (hs : s.Proper) :
    (b.detach p l).bestOf s =
      (Function.update ring (b.level l).side ((ring (b.level l).side).erase l) s).head? := by
  have hbest : (b.order p).side ≠ (b.level l).side → b.bestOf (b.level l).side ≠ some l :=
    fun hown e => hsafe ⟨ha, hown, e⟩
  rw [OrderBook.bestOf_detach]
  by_cases hst : s = (b.level l).side
  · rw [hst, Function.update_self]
    by_cases hown : (b.order p).side = (b.level l).side
    · rw [if_pos ⟨ha, (hside.sameBest_iff ht).mpr hown⟩]
      exact h.bestWithout_own ht hl
    · -- the order is of the other side, so its level is not the best one
      rw [if_neg (fun hc => hown ((hside.sameBest_iff ht).mp hc.2))]
      exact (h.head_erase_of_ne ht (hbest hown)).symm
  · rw [Function.update_of_ne hst, ← h.head s hs]
    by_cases hown : (b.order p).side = s
    · rw [if_pos ⟨ha, (hside.sameBest_iff hs).mpr hown⟩]
      exact h.bestWithout_other hs ht hst hl (hbest fun e => hst (hown.symm.trans e))
    · rw [if_neg (fun hc => hown ((hside.sameBest_iff hs).mp hc.2))]

/-- The rings after a removal hold the levels they held, without the one emptied. -/
theorem mem_ringsWithout (h : SideRings b ring) {p : OrderPtr} {l z : LevelPtr B}
    (ht : (b.level l).side.Proper) (hl : l ∈ ring (b.level l).side) {s : Side} (hs : s.Proper) :
    z ∈ b.ringsWithout ring p l s ↔ z ∈ ring s ∧ ¬ (b.Alone p ∧ z = l) := by
  unfold OrderBook.ringsWithout
  by_cases ha : b.Alone p
  · rw [if_pos ha, h.mem_erase hs ht hl]
    simp [ha]
  · rw [if_neg ha]
    simp [ha]

/-- **Taking an order out** keeps the rings of the sides, unless it orphans the other side's best
pointer. -/
theorem detach {p : OrderPtr} {l : LevelPtr B} (h : SideRings b ring)
    (ht : (b.level l).side.Proper) (hl : l ∈ ring (b.level l).side)
    (hside : (b.order p).side.Proper) (hsafe : ¬ Orphans b p l) :
    SideRings (b.detach p l) (b.ringsWithout ring p l) where
  isRing s hs := by
    rw [OrderBook.levelLinks_detach, OrderBook.ringsWithout]
    by_cases ha : b.Alone p
    · rw [if_pos ha, if_pos ha]
      exact h.isRing_erase hs ht hl
    · rw [if_neg ha, if_neg ha]
      exact h.isRing s hs
  head s hs := by
    unfold OrderBook.ringsWithout
    by_cases ha : b.Alone p
    · rw [if_pos ha]
      exact h.head_detach ha ht hl hside hsafe hs
    · rw [if_neg ha, OrderBook.bestOf_detach, if_neg (fun hc => ha hc.1)]
      exact h.head s hs
  side s hs z hz := by
    rw [OrderBook.level_side_detach]
    exact h.side s hs z ((h.mem_ringsWithout ht hl hs).mp hz).1

end SideRings

namespace TwoSided

variable {b b' : OrderBook B} {ring : Side → List (LevelPtr B)}

theorem sideRings (h : TwoSided b ring) : SideRings b ring := ⟨h.isRing, h.head, h.side⟩

/-- The ring of a side is what the walk from its best pointer meets. -/
theorem levelsFrom_eq (h : TwoSided b ring) {s : Side} (hs : s.Proper) :
    b.levelsFrom (b.bestOf s) = ring s :=
  h.sideRings.levelsFrom_eq hs

/-- The two rings share no level. -/
theorem disjoint (h : TwoSided b ring) {s t : Side} (hs : s.Proper) (ht : t.Proper) (hne : s ≠ t)
    {l : LevelPtr B} (hl : l ∈ ring s) : l ∉ ring t :=
  h.sideRings.disjoint hs ht hne hl

/-- Only the levels and the best pointers matter. -/
theorem congr (h : TwoSided b ring) (hlevels : b'.ordersAtPricePool = b.ordersAtPricePool)
    (hbids : b'.bidsByPrice = b.bidsByPrice) (hasks : b'.asksByPrice = b.asksByPrice) :
    TwoSided b' ring := by
  have hlevel : ∀ l, b'.level l = b.level l := by
    intro l
    rw [OrderBook.level, hlevels]
  have hlinks : b'.levelLinks = b.levelLinks := by
    simp only [OrderBook.levelLinks, hlevel]
  have hlive : ∀ l, b'.LiveLevel l ↔ b.LiveLevel l := by
    intro l
    rw [OrderBook.LiveLevel, hlevels]
  have hbest : ∀ s, b'.bestOf s = b.bestOf s := by
    intro s
    rw [OrderBook.bestOf, hbids, hasks, OrderBook.bestOf]
  constructor
  · intro s hs
    rw [hlinks]
    exact h.isRing s hs
  · intro s hs
    rw [hbest]
    exact h.head s hs
  · intro s hs l hl
    exact (hlive l).mpr (h.live s hs l hl)
  · intro s hs l hl
    rw [hlevel]
    exact h.side s hs l hl
  · intro l hl
    rw [hlevel]
    exact h.mem l ((hlive l).mp hl)

/-- **Taking an order out** keeps the sides, unless it orphans the other side's best pointer. -/
theorem detach {queue : Queues B} {p : OrderPtr} {l : LevelPtr B} (h : TwoSided b ring)
    (hsound : Sound b queue) (hslot : b.getLevelForPrice (b.order p).price = some l)
    (hside : (b.order p).side.Proper) (hsafe : ¬ Orphans b p l) :
    TwoSided (b.detach p l) (b.ringsWithout ring p l) := by
  obtain ⟨ht, hl⟩ := h.mem l (hsound.live_of_slot hslot)
  have hrings := h.sideRings.detach ht hl hside hsafe
  refine ⟨hrings.isRing, hrings.head, ?_, hrings.side, ?_⟩
  · intro s hs z hz
    obtain ⟨hz, hkeep⟩ := (h.sideRings.mem_ringsWithout ht hl hs).mp hz
    exact (b.liveLevel_detach p l z).mpr ⟨h.live s hs z hz, hkeep⟩
  · intro z hz
    obtain ⟨hlive, hkeep⟩ := (b.liveLevel_detach p l z).mp hz
    obtain ⟨hzs, hzmem⟩ := h.mem z hlive
    rw [OrderBook.level_side_detach]
    exact ⟨hzs, (h.sideRings.mem_ringsWithout ht hl hzs).mpr ⟨hzmem, hkeep⟩⟩

/-! ## Putting a level in -/

section opened

variable {p : OrderPtr} {s : Side} {price : Price} {n : LevelPtr B} {best' : Option (LevelPtr B)}

/-- The side's ring with the new level in it is one, headed by the new best pointer. -/
theorem ringWith_opened (h : TwoSided b ring) (ho : Opened b b' p s price n best')
    (hs : s.Proper) :
    b'.levelLinks.IsRing (ringWith (fun z => addsAfter s price (b'.level z).price)
        (fun z => becomesBest s price (b'.level z).price) n (ring s)) ∧
      best' = (ringWith (fun z => addsAfter s price (b'.level z).price)
        (fun z => becomesBest s price (b'.level z).price) n (ring s)).head? := by
  have hplaced := ho.placed
  cases hplaced with
  | only hbest hlinks =>
    have hnil : ring s = [] := by
      rw [h.head s hs] at hbest
      exact List.head?_eq_none_iff.mp hbest
    rw [hnil, hlinks]
    exact ⟨Links.isRing_join_self _ n, rfl⟩
  | beside best x y rest hbest hring hlive hx hy hxy hlinks hring' =>
    rw [h.sideRings.ring_eq hs hring hbest]
    obtain ⟨hringWith, hhead⟩ := isRing_ringWith
      (fun z => becomesBest s price (b'.level z).price) becomesBest_of_addsAfter hring'
    exact ⟨hringWith, hhead.symm⟩

/-- The ring of the other side holds none of the levels whose links are assigned. -/
theorem isRing_opened_other (h : TwoSided b ring) (ho : Opened b b' p s price n best')
    (hs : s.Proper) {t : Side} (ht : t.Proper) (hts : t ≠ s) : b'.levelLinks.IsRing (ring t) := by
  have hother := h.isRing t ht
  have hnew : n ∉ ring t := fun hn => ho.fresh (h.live t ht n hn)
  have hplaced := ho.placed
  cases hplaced with
  | only _ hlinks =>
    rw [hlinks]
    exact hother.join_self hnew
  | beside best x y rest hbest hring _ hx hy _ hlinks _ =>
    rw [← h.sideRings.ring_eq hs hring hbest] at hx hy
    rw [hlinks]
    exact hother.splice_other (h.disjoint hs ht (Ne.symm hts) hx) hnew
      (h.disjoint hs ht (Ne.symm hts) hy)

/-- Putting a new level in keeps the sides. -/
theorem opened (h : TwoSided b ring) (ho : Opened b b' p s price n best') (hs : s.Proper) :
    TwoSided b' (Function.update ring s
      (ringWith (fun z => addsAfter s price (b'.level z).price)
        (fun z => becomesBest s price (b'.level z).price) n (ring s))) := by
  obtain ⟨hring, hhead⟩ := h.ringWith_opened ho hs
  have hperm := ringWith_perm (fun z => addsAfter s price (b'.level z).price)
    (fun z => becomesBest s price (b'.level z).price) n (ring s)
  generalize ringWith (fun z => addsAfter s price (b'.level z).price)
    (fun z => becomesBest s price (b'.level z).price) n (ring s) = newRing at hring hhead hperm ⊢
  -- the new level is in the ring of its side, the others are where they were
  have hmem : ∀ t z, z ∈ Function.update ring s newRing t ↔ (t = s ∧ z = n) ∨ z ∈ ring t := by
    intro t z
    by_cases hts : t = s
    · simp [hts, hperm.mem_iff]
    · simp [hts]
  constructor
  · intro t ht
    by_cases hts : t = s
    · rw [hts, Function.update_self]
      exact hring
    · rw [Function.update_of_ne hts]
      exact h.isRing_opened_other ho hs ht hts
  · intro t ht
    have hbest : b'.bestOf t = if t = s then best' else b.bestOf t := by
      rw [OrderBook.bestOf, ho.bids, ho.asks, OrderBook.bestOf]
      rcases hs with rfl | rfl <;> rcases ht with rfl | rfl <;> rfl
    rw [hbest]
    by_cases hts : t = s
    · rw [if_pos hts, hts, Function.update_self]
      exact hhead
    · rw [if_neg hts, Function.update_of_ne hts]
      exact h.head t ht
  · intro t ht z hz
    rw [ho.liveLevel]
    rcases (hmem t z).mp hz with ⟨-, hzn⟩ | hz
    · exact .inl hzn
    · exact .inr (h.live t ht z hz)
  · intro t ht z hz
    rcases (hmem t z).mp hz with ⟨rfl, rfl⟩ | hz
    · exact ho.side_self
    · rw [ho.side_of_ne z (fun e => ho.fresh (e ▸ h.live t ht z hz))]
      exact h.side t ht z hz
  · intro z hz
    rw [hmem]
    rcases (ho.liveLevel z).mp hz with rfl | hz
    · rw [ho.side_self]
      exact ⟨hs, .inl ⟨rfl, rfl⟩⟩
    · rw [ho.side_of_ne z (fun e => ho.fresh (e ▸ hz))]
      obtain ⟨hzs, hzmem⟩ := h.mem z hz
      exact ⟨hzs, .inr hzmem⟩

end opened

end TwoSided

/-! ## The matching of a new order -/

/-- The sides in the middle of a new order's matching: its own side as it was, the other without the
levels that have been emptied. -/
structure SidesDuring (b : OrderBook B) (ring : Side → List (LevelPtr B)) (s : Side)
    (b' : OrderBook B) (ring' : Side → List (LevelPtr B)) : Prop where
  twoSided : TwoSided b' ring'
  proper : ProperOrders b'
  own : ring' s = ring s
  other : (ring' s.other).Sublist (ring s.other)
  price : ∀ l, (b'.level l).price = (b.level l).price
  side : ∀ l, (b'.level l).side = (b.level l).side

section sweeps

variable {stray : ℕ → Qty} {taker : NewOrder} {newMarketOid : OrderID} {b b' b₁ : OrderBook B}
  {ring ring' : Side → List (LevelPtr B)} {queue : Queues B} {p : OrderPtr} {best : LevelPtr B}

/-- Taking out the first order of the other side's best level: the sides stay, or the loop is
stuck. -/
theorem SidesDuring.detach (h : SidesDuring b ring taker.side b' ring') (hs : Sound b' queue)
    (hp : b'.LiveOrder p) (hslot : b'.getLevelForPrice (b'.order p).price = some best)
    (hopp : b'.opposite taker.side = some best) :
    Stuck (b'.detach p best) taker ∨
      ∃ ring₁, SidesDuring b ring taker.side (b'.detach p best) ring₁ := by
  have hside : taker.side.Proper := proper_of_opposite hopp
  have hother := hside.other_proper
  have hbest : b'.bestOf taker.side.other = some best := by rw [← opposite_eq b' hside, hopp]
  have hmem : best ∈ ring' taker.side.other := by
    rw [h.twoSided.head _ hother] at hbest
    exact List.mem_of_head? hbest
  have hlevel : (b'.level best).side = taker.side.other := h.twoSided.side _ hother best hmem
  by_cases horphan : Orphans b' p best
  · obtain ⟨ha, hne, -⟩ := horphan
    refine .inl ⟨best, ?_, ?_⟩
    · rw [opposite_eq _ hside, OrderBook.bestOf_detach, if_neg, hbest]
      rintro ⟨-, hsame⟩
      rw [((h.proper p hp).sameBest_iff hother).mp hsame, hlevel] at hne
      exact hne rfl
    · rw [OrderBook.liveLevel_detach]
      exact fun hlive => hlive.2 ⟨ha, rfl⟩
  · refine .inr ⟨_, h.twoSided.detach hs hslot (h.proper p hp) horphan, ?_, ?_, ?_, ?_, ?_⟩
    · intro q hq
      rw [OrderBook.side_of_data (b'.data_detach p q best)]
      exact h.proper q ((b'.liveOrder_detach p q best).mp hq).1
    · unfold OrderBook.ringsWithout
      split
      · rw [hlevel, Function.update_of_ne hside.ne_other]
        exact h.own
      · exact h.own
    · unfold OrderBook.ringsWithout
      split
      · rw [hlevel, Function.update_self]
        exact List.erase_sublist.trans h.other
      · exact h.other
    · intro l
      rw [OrderBook.level_price_detach]
      exact h.price l
    · intro l
      rw [OrderBook.level_side_detach]
      exact h.side l

/-- A turn of the matching: the sides stay, or the loop is stuck. -/
theorem SidesDuring.turn (h : SidesDuring b ring taker.side b' ring') (hv : Valid b' queue)
    (hr : Reaches b' taker taker.qty best p)
    (hslot : b'.getLevelForPrice (b'.order p).price = some best) :
    Stuck (b'.matched stray taker newMarketOid p best taker.qty) taker ∨
      ∃ ring₁, SidesDuring b ring taker.side
        (b'.matched stray taker newMarketOid p best taker.qty) ring₁ := by
  have ht : SidesDuring b ring taker.side (b'.traded stray taker newMarketOid p taker.qty) ring' := by
    refine ⟨h.twoSided.congr rfl rfl rfl, ?_, h.own, h.other, h.price, h.side⟩
    intro q hq
    rw [OrderBook.side_traded]
    exact h.proper q ((b'.liveOrder_traded stray taker newMarketOid p q taker.qty).mp hq)
  by_cases hx : b'.Exhausts p taker.qty
  · rw [OrderBook.matched_of_exhausts b' stray taker newMarketOid p best taker.qty hx]
    refine ht.detach (hv.toSound.traded stray taker newMarketOid p taker.qty) ?_ ?_ hr.opposite
    · exact (b'.liveOrder_traded stray taker newMarketOid p p taker.qty).mpr hr.live
    · rw [OrderBook.price_traded]
      exact hslot
  · rw [OrderBook.matched_of_not_exhausts b' stray taker newMarketOid p best taker.qty hx]
    exact .inr ⟨ring', ht⟩

/-- In the matching of a new order the sides stand, or the loop is stuck. -/
def SidesOrStuck (b : OrderBook B) (ring : Side → List (LevelPtr B)) (taker : NewOrder)
    (b' : OrderBook B) : Prop :=
  Stuck b' taker ∨ ∃ ring', SidesDuring b ring taker.side b' ring'

theorem SidesOrStuck.accept (h : TwoSided b ring) (hproper : ProperOrders b) (taker : NewOrder) :
    SidesOrStuck b ring taker (b.accept taker) :=
  .inr ⟨ring, h.congr rfl rfl rfl, hproper, rfl, List.Sublist.refl _, fun _ => rfl, fun _ => rfl⟩

theorem SidesOrStuck.turn (h : SidesOrStuck b ring taker b') (hv : Valid b' queue)
    (hr : Reaches b' taker taker.qty best p)
    (hslot : b'.getLevelForPrice (b'.order p).price = some best) :
    SidesOrStuck b ring taker (b'.matched stray taker newMarketOid p best taker.qty) := by
  rcases h with ⟨l, hl, hdead⟩ | ⟨ring', hd⟩
  · rw [hr.opposite] at hl
    cases hl
    exact absurd hr.liveLevel hdead
  · exact hd.turn hv hr hslot

/-- A turn is made on the best level of the other side. -/
theorem SidesOrStuck.side_best (h : SidesOrStuck b ring taker b')
    (hr : Reaches b' taker taker.qty best p) :
    taker.side.Proper ∧ (b'.level best).side = taker.side.other := by
  have hside : taker.side.Proper := proper_of_opposite hr.opposite
  have hother := hside.other_proper
  refine ⟨hside, ?_⟩
  rcases h with ⟨l, hl, hdead⟩ | ⟨ring', hd⟩
  · rw [hr.opposite] at hl
    cases hl
    exact absurd hr.liveLevel hdead
  · have hbest : b'.bestOf taker.side.other = some best := by
      rw [← opposite_eq b' hside, hr.opposite]
    rw [hd.twoSided.head _ hother] at hbest
    exact hd.twoSided.side _ hother best (List.mem_of_head? hbest)

/-- The end of a loop is not stuck. -/
theorem Fills.not_stuck {calls : List (OrderBook B × OrderPtr)}
    (h : Fills stray taker newMarketOid taker.qty b calls b') (hqty : taker.qty ≠ 0) :
    ¬ Stuck b' taker := by
  induction h with
  | done hnext => exact fun hstuck => hstuck.not_ok hqty hnext
  | step _ _ _ ih => exact ih

/-- **The matching of a new order keeps the sides**: its own side stays as it is, the other loses
levels. -/
theorem TwoSided.sweeps (h : TwoSided b ring) (hproper : ProperOrders b) (hv : Valid b queue)
    (hs : Sweeps stray taker b b₁) :
    ∃ ring₁, SidesDuring b ring taker.side b₁ ring₁ := by
  by_cases hqty : taker.qty = 0
  · obtain ⟨rfl, -⟩ := hs.of_zero hqty
    exact ⟨ring, h.congr rfl rfl rfl, hproper, rfl, List.Sublist.refl _, fun _ => rfl,
      fun _ => rfl⟩
  · obtain ⟨⟨_, -, hend⟩, -⟩ := hs.carries (P := fun _ b' => SidesOrStuck b ring taker b')
      (fun _ _ _ _ hv hd hr hslot _ => hd.turn hv hr hslot)
      (hv.accept taker) (.accept h hproper taker)
    exact hend.resolve_left (Fills.not_stuck hs hqty)

end sweeps

end HftSys
