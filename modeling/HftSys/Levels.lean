import HftSys.Sound
import Mathlib.Data.List.TakeWhile

/-!
# Putting a price level into its ring

What `addPriceLevel` does. The walk from the best level stops at the first level the new one does
not belong behind, or comes round to the best level with every level in front of the new one
(`stopAt`); the new level goes before the stop in the first case and *after* it, that is right
behind the best level, in the second. `placeLevel` is the resulting order of the ring, and
`addPriceLevel_eq` the source function on a ring. The ring stays one, whatever the order of its
prices (`addPriceLevel_keeps_ring`).
-/

namespace HftSys

open Circular Exec

variable {B : Build}

/-! ## The order of the ring -/

section place

variable {ι : Type}

/-- Where the walk along the levels behind `best` stops, and the value of `shouldAddAfter` there. -/
def stopAt (after : ι → Bool) (best : ι) : List ι → ι × Bool
  | [] => (best, true)
  | x :: xs => if after x then stopAt after best xs else (x, false)

/-- The ring `best :: rest` with level `n` put in, listed from `best` on: at the end when `n` does
not belong behind `best`, before the first level it does not belong behind, and right behind `best`
when there is no such level. -/
def placeLevel (after : ι → Bool) (n best : ι) (rest : List ι) : List ι :=
  if after best then
    if rest.all after then best :: n :: rest
    else best :: (rest.takeWhile after ++ n :: rest.dropWhile after)
  else best :: rest ++ [n]

theorem stopAt_of_all {after : ι → Bool} {best : ι} {xs : List ι} (h : xs.all after = true) :
    stopAt after best xs = (best, true) := by
  induction xs with
  | nil => rfl
  | cons x xs ih =>
    simp only [List.all_cons, Bool.and_eq_true] at h
    rw [stopAt, if_pos h.1, ih h.2]

theorem stopAt_of_dropWhile {after : ι → Bool} {best t : ι} {xs ys : List ι}
    (h : xs.dropWhile after = t :: ys) : stopAt after best xs = (t, false) := by
  induction xs with
  | nil => simp at h
  | cons x xs ih =>
    rw [stopAt]
    by_cases hx : after x
    · rw [if_pos hx]
      rw [List.dropWhile_cons_of_pos hx] at h
      exact ih h
    · rw [if_neg hx]
      rw [List.dropWhile_cons_of_neg hx] at h
      simp only [List.cons.injEq] at h
      rw [h.1]

/-- Placing a level adds it once and keeps the others. -/
theorem placeLevel_perm (after : ι → Bool) (n best : ι) (rest : List ι) :
    (placeLevel after n best rest).Perm (n :: best :: rest) := by
  unfold placeLevel
  split
  · split
    · exact List.Perm.swap n best rest
    · have hsplit : (rest.takeWhile after ++ n :: rest.dropWhile after).Perm (n :: rest) := by
        apply List.perm_middle.trans
        rw [List.takeWhile_append_dropWhile]
      exact (hsplit.cons best).trans (List.Perm.swap n best rest)
  · exact List.perm_append_singleton n (best :: rest)

/-- The ring of a side with level `n` put in, best level first. -/
def ringWith (after better : ι → Bool) (n : ι) : List ι → List ι
  | [] => [n]
  | best :: rest => if better best then n :: best :: rest else placeLevel after n best rest

theorem ringWith_perm (after better : ι → Bool) (n : ι) (ring : List ι) :
    (ringWith after better n ring).Perm (n :: ring) := by
  cases ring with
  | nil => exact List.Perm.refl _
  | cons best rest =>
    rw [ringWith]
    split
    · exact List.Perm.refl _
    · exact placeLevel_perm after n best rest

/-- Without the level put in, the ring is what it was, listed from the same level on. -/
theorem ringWith_erase [DecidableEq ι] (after better : ι → Bool) {n : ι} {ring : List ι}
    (hn : n ∉ ring) : (ringWith after better n ring).erase n = ring := by
  cases ring with
  | nil => simp [ringWith]
  | cons best rest =>
    have hbest : ¬ (best == n) = true := by
      rintro h
      exact hn (by simp [eq_of_beq h])
    have hrest : n ∉ rest := fun h => hn (List.mem_cons_of_mem _ h)
    have hfront : n ∉ rest.takeWhile after := fun h => hrest ((List.takeWhile_sublist _).subset h)
    rw [ringWith]
    split
    · exact List.erase_cons_head ..
    · unfold placeLevel
      split
      · split
        · rw [List.erase_cons_tail hbest, List.erase_cons_head]
        · rw [List.erase_cons_tail hbest, List.erase_append_right _ hfront, List.erase_cons_head,
            List.takeWhile_append_dropWhile]
      · rw [List.erase_append_right _ hn, List.erase_cons_head, List.append_nil]

/-- The walk starts at the best level, so that level stays in front. -/
theorem placeLevel_head (after : ι → Bool) (n best : ι) (rest : List ι) :
    (placeLevel after n best rest).head? = some best := by
  unfold placeLevel
  split
  · split <;> rfl
  · rfl

section sorted

variable {R : ι → ι → Prop} {after better : ι → Bool} {n best : ι} {ring rest : List ι}

/-- In a sorted list, what follows the first element `n` does not belong behind comes after `n`. -/
theorem dropWhile_behind (htrans : ∀ x y z, R x y → R y z → R x z)
    (hfront : ∀ z ∈ rest, after z = false → R n z) (hsorted : rest.Pairwise R) :
    ∀ z ∈ rest.dropWhile after, R n z := by
  induction rest with
  | nil => simp
  | cons x xs ih =>
    obtain ⟨hx, hxs⟩ := List.pairwise_cons.mp hsorted
    by_cases hax : after x = true
    · rw [List.dropWhile_cons_of_pos hax]
      exact ih (fun z hz => hfront z (List.mem_cons_of_mem _ hz)) hxs
    · rw [List.dropWhile_cons_of_neg hax]
      have hnx : R n x := hfront x List.mem_cons_self (by simpa using hax)
      intro z hz
      rcases List.mem_cons.mp hz with rfl | hz
      · exact hnx
      · exact htrans n x z hnx (hx z hz)

/-- **A level put in keeps the ring sorted**, unless it belongs behind every level of a ring of two
or more. -/
theorem ringWith_sorted (htrans : ∀ x y z, R x y → R y z → R x z)
    (hbehind : ∀ z ∈ ring, after z = true → R z n) (hfront : ∀ z ∈ ring, after z = false → R n z)
    (hbetter : ∀ z ∈ ring, better z = !after z) (hsorted : ring.Pairwise R)
    (hworst : (∀ z ∈ ring, after z = true) → ring.length < 2) :
    (ringWith after better n ring).Pairwise R := by
  cases ring with
  | nil => exact List.pairwise_singleton R n
  | cons best rest =>
    obtain ⟨hbest, hrest⟩ := List.pairwise_cons.mp hsorted
    have hmem : ∀ z ∈ rest, z ∈ best :: rest := fun z hz => List.mem_cons_of_mem _ hz
    rw [ringWith, hbetter best List.mem_cons_self]
    cases hab : after best with
    | false =>
      -- the new level is the best
      have hnb : R n best := hfront best List.mem_cons_self hab
      rw [if_pos (by simp)]
      refine List.pairwise_cons.mpr ⟨?_, hsorted⟩
      intro z hz
      rcases List.mem_cons.mp hz with rfl | hz
      · exact hnb
      · exact htrans n best z hnb (hbest z hz)
    | true =>
      have hbn : R best n := hbehind best List.mem_cons_self hab
      rw [if_neg (by simp), placeLevel, if_pos hab]
      by_cases hall : rest.all after = true
      · -- behind every level: there is only one
        have hshort := hworst (by
          intro z hz
          rcases List.mem_cons.mp hz with rfl | hz
          · exact hab
          · exact List.all_eq_true.mp hall z hz)
        have hnil : rest = [] := by
          rw [List.length_cons] at hshort
          exact List.length_eq_zero_iff.mp (by omega)
        rw [if_pos hall, hnil]
        simp [hbn]
      · rw [if_neg hall]
        have htake : (rest.takeWhile after).Sublist rest := List.takeWhile_sublist _
        have hdrop : (rest.dropWhile after).Sublist rest := List.dropWhile_sublist _
        have hnd := dropWhile_behind htrans (fun z hz => hfront z (hmem z hz)) hrest
        have hcross : ∀ x ∈ rest.takeWhile after, R x n := fun x hx =>
          hbehind x (hmem x (htake.subset hx)) (List.mem_takeWhile_imp hx)
        refine List.pairwise_cons.mpr ⟨?_, ?_⟩
        · intro z hz
          rcases List.mem_append.mp hz with hz | hz
          · exact hbest z (htake.subset hz)
          · rcases List.mem_cons.mp hz with rfl | hz
            · exact hbn
            · exact hbest z (hdrop.subset hz)
        · refine List.pairwise_append.mpr
            ⟨hrest.sublist htake, List.pairwise_cons.mpr ⟨hnd, hrest.sublist hdrop⟩, ?_⟩
          intro x hx y hy
          rcases List.mem_cons.mp hy with rfl | hy
          · exact hcross x hx
          · exact htrans x n y (hcross x hx) (hnd y hy)

end sorted

end place

/-! ## The walk -/

section walk

variable {b : OrderBook B}

/-- The `do … while` walk along a ring of levels in use. -/
theorem searchTarget_eq {side : Side} {price : Price} {best c : LevelPtr B}
    {done todo : List (LevelPtr B)} {fuel : ℕ} (hring : b.levelLinks.IsRing (done ++ c :: todo))
    (hhead : (done ++ c :: todo).head? = some best) (hlive : ∀ x ∈ done ++ c :: todo, b.LiveLevel x)
    (hbest : addsAfter side price (b.level best).price = true) (hfuel : todo.length < fuel) :
    searchTarget side price (some best) fuel (some c) b =
      .ok (some (stopAt (fun x => addsAfter side price (b.level x).price) best todo).1,
        (stopAt (fun x => addsAfter side price (b.level x).price) best todo).2) b := by
  induction todo generalizing c done fuel with
  | nil =>
    obtain ⟨fuel, rfl⟩ := Nat.exists_eq_succ_of_ne_zero
      (Nat.ne_of_gt (Nat.lt_of_le_of_lt (Nat.zero_le _) hfuel))
    have hc : b.LiveLevel c := hlive c (by simp)
    have hb : b.LiveLevel best := hlive best (List.mem_of_head? hhead)
    have hj : b.levelLinks.Joined c best := hring.joined_last (by simp) hhead
    have hnext : (b.level c).next = some best := hj.1
    rw [searchTarget, bind_of_ok (derefLevel_of_live hc), hnext,
      bind_of_ok (derefLevel_of_live hb)]
    simp [stopAt, hbest]
  | cons d todo ih =>
    obtain ⟨fuel, rfl⟩ := Nat.exists_eq_succ_of_ne_zero
      (Nat.ne_of_gt (Nat.lt_of_le_of_lt (Nat.zero_le _) hfuel))
    have hc : b.LiveLevel c := hlive c (by simp)
    have hd : b.LiveLevel d := hlive d (by simp)
    have hnext : (b.level c).next = some d := hring.joined.1
    have hdb : d ≠ best := by
      have hnd := hring.nodup
      cases done with
      | nil =>
        simp only [List.nil_append, List.head?_cons, Option.some.injEq] at hhead
        subst hhead
        simp only [List.nil_append, List.nodup_cons, List.mem_cons, not_or] at hnd
        exact fun e => hnd.1.1 e.symm
      | cons a done =>
        simp only [List.cons_append, List.head?_cons, Option.some.injEq] at hhead
        subst hhead
        simp only [List.cons_append, List.nodup_cons, List.mem_append, List.mem_cons, not_or] at hnd
        exact fun e => hnd.1.2.2.1 e.symm
    rw [searchTarget, bind_of_ok (derefLevel_of_live hc), hnext,
      bind_of_ok (derefLevel_of_live hd)]
    by_cases hafter : addsAfter side price (b.level d).price = true
    · have hne : some d ≠ some best := fun e => hdb (Option.some.inj e)
      have hassoc : done ++ c :: d :: todo = (done ++ [c]) ++ d :: todo := by simp
      rw [if_pos ⟨hafter, hne⟩, stopAt, if_pos hafter]
      rw [hassoc] at hring hhead hlive
      exact ih hring hhead hlive (by simpa using hfuel)
    · rw [if_neg (fun h => hafter h.1), stopAt, if_neg hafter]
      simp only [Bool.not_eq_true] at hafter
      rw [hafter]
      rfl

/-- The insertion point on a ring of levels in use. -/
theorem findTarget_eq {side : Side} {price : Price} {best : LevelPtr B}
    {rest : List (LevelPtr B)} (hring : b.levelLinks.IsRing (best :: rest))
    (hlive : ∀ x ∈ best :: rest, b.LiveLevel x) :
    findTarget side price (some best) b =
      .ok (if addsAfter side price (b.level best).price then
        (some (stopAt (fun x => addsAfter side price (b.level x).price) best rest).1,
          (stopAt (fun x => addsAfter side price (b.level x).price) best rest).2)
      else (some best, false)) b := by
  have hb : b.LiveLevel best := hlive best List.mem_cons_self
  have hlen : rest.length < maxPriceLevels B := by
    have := hring.nodup.length_le_card
    simp only [List.length_cons, Fintype.card_fin] at this
    omega
  unfold findTarget
  rw [bind_of_ok (derefLevel_of_live hb)]
  by_cases hafter : addsAfter side price (b.level best).price = true
  · rw [if_pos hafter, if_pos hafter]
    have hring' : b.levelLinks.IsRing ([] ++ best :: rest) := hring
    exact searchTarget_eq hring' rfl hlive hafter hlen
  · rw [if_neg hafter, if_neg hafter]
    rfl

/-! ## The splices -/

/-- "Insert after target". -/
theorem insertAfter_eq {n t y : LevelPtr B} (hn : b.LiveLevel n) (ht : b.LiveLevel t)
    (hy : b.LiveLevel y) (hty : b.levelLinks.Joined t y) (hnt : n ≠ t) :
    insertAfter (some n) (some t) b = .ok () (b.setLevelLinks (b.levelLinks.splice t n y)) := by
  have hnext : ∀ k : Links (LevelPtr B), k.next t = some y → ((b.setLevelLinks k).level t).next = some y :=
    fun _ h => h
  unfold insertAfter
  rw [bind_of_ok (storeLevel_prev _ hn)]
  set k₁ := b.levelLinks.setPrev n (some t) with hk₁
  have h₁ : k₁.next t = some y := hty.1
  rw [bind_of_ok (derefLevel_of_live (show (b.setLevelLinks k₁).LiveLevel t from ht)), hnext k₁ h₁,
    bind_of_ok (storeLevel_next _ (show (b.setLevelLinks k₁).LiveLevel n from hn)),
    OrderBook.setLevelLinks_setLevelLinks, OrderBook.levelLinks_setLevelLinks]
  set k₂ := k₁.setNext n (some y) with hk₂
  have h₂ : k₂.next t = some y := by simp [hk₂, Links.setNext, hnt.symm, h₁]
  rw [bind_of_ok (derefLevel_of_live (show (b.setLevelLinks k₂).LiveLevel t from ht)), hnext k₂ h₂,
    bind_of_ok (storeLevel_prev _ (show (b.setLevelLinks k₂).LiveLevel y from hy)),
    OrderBook.setLevelLinks_setLevelLinks, OrderBook.levelLinks_setLevelLinks,
    storeLevel_next _ (show (b.setLevelLinks (k₂.setPrev y (some n))).LiveLevel t from ht),
    OrderBook.setLevelLinks_setLevelLinks, OrderBook.levelLinks_setLevelLinks]
  -- the four assignments are those of a splice, in another order
  have hlinks : (k₂.setPrev y (some n)).setNext t (some n) = b.levelLinks.splice t n y := by
    simp only [hk₂, hk₁, Links.splice, Links.join, Links.setNext, Links.setPrev]
    rw [Function.update_comm hnt]
  rw [hlinks]

/-- "Insert before target". -/
theorem insertBefore_eq {n t x : LevelPtr B} (hn : b.LiveLevel n) (ht : b.LiveLevel t)
    (hx : b.LiveLevel x) (hxt : b.levelLinks.Joined x t) (hnt : n ≠ t) (hnx : n ≠ x) :
    insertBefore (some n) (some t) b = .ok () (b.setLevelLinks (b.levelLinks.splice x n t)) := by
  have hprev : ∀ k : Links (LevelPtr B), k.prev t = some x → ((b.setLevelLinks k).level t).prev = some x :=
    fun _ h => h
  unfold insertBefore
  rw [bind_of_ok (storeLevel_next _ hn)]
  set k₁ := b.levelLinks.setNext n (some t) with hk₁
  have h₁ : k₁.prev t = some x := hxt.2
  rw [bind_of_ok (derefLevel_of_live (show (b.setLevelLinks k₁).LiveLevel t from ht)), hprev k₁ h₁,
    bind_of_ok (storeLevel_prev _ (show (b.setLevelLinks k₁).LiveLevel n from hn)),
    OrderBook.setLevelLinks_setLevelLinks, OrderBook.levelLinks_setLevelLinks]
  set k₂ := k₁.setPrev n (some x) with hk₂
  have h₂ : k₂.prev t = some x := by simp [hk₂, Links.setPrev, hnt.symm, h₁]
  rw [bind_of_ok (derefLevel_of_live (show (b.setLevelLinks k₂).LiveLevel t from ht)), hprev k₂ h₂,
    bind_of_ok (storeLevel_next _ (show (b.setLevelLinks k₂).LiveLevel x from hx)),
    OrderBook.setLevelLinks_setLevelLinks, OrderBook.levelLinks_setLevelLinks,
    storeLevel_prev _ (show (b.setLevelLinks (k₂.setNext x (some n))).LiveLevel t from ht),
    OrderBook.setLevelLinks_setLevelLinks, OrderBook.levelLinks_setLevelLinks]
  have hlinks : (k₂.setNext x (some n)).setPrev t (some n) = b.levelLinks.splice x n t := by
    simp only [hk₂, hk₁, Links.splice, Links.join, Links.setNext, Links.setPrev]
    rw [Function.update_comm hnx]
  rw [hlinks]

/-! ## The source function -/

/-- `addPriceLevel` on a side with no levels. -/
theorem addPriceLevel_of_none {n : LevelPtr B} (hn : b.LiveLevel n)
    (hbest : b.bestOf (b.level n).side = none) :
    addPriceLevel (some n) b =
      .ok () (((b.setSlot (b.level n).price (some n)).setBestTo (b.level n).side (some n)).setLevelLinks
        (b.levelLinks.join n n)) := by
  have hbest' : (b.setSlot (b.level n).price (some n)).bestOf (b.level n).side = none := hbest
  unfold addPriceLevel
  rw [bind_of_ok (derefLevel_of_live hn), bind_of_ok (setLevelForPrice_apply _ _ _), get_bind, hbest']
  simp only []
  rw [bind_of_ok (setBest_apply _ _ _)]
  set b₁ := (b.setSlot (b.level n).price (some n)).setBestTo (b.level n).side (some n) with hb₁
  have hpool : b₁.ordersAtPricePool = b.ordersAtPricePool := by simp [hb₁, OrderBook.setSlot]
  have hn₁ : b₁.LiveLevel n := by rw [OrderBook.LiveLevel, hpool]; exact hn
  have hlinks : b₁.levelLinks = b.levelLinks := by
    simp only [OrderBook.levelLinks, OrderBook.level, hpool]
  rw [storeLevel_self hn₁, hlinks]

/-- A level that belongs behind the best one does not become the best. -/
theorem becomesBest_of_addsAfter {side : Side} {price other : Price}
    (h : addsAfter side price other = true) : becomesBest side price other = false := by
  unfold addsAfter at h
  unfold becomesBest
  by_cases hs : side = .sell
  · subst hs
    have hlt : other < price := by simpa using h
    simp [Int64.le_of_lt hlt]
  · have hlt : price < other := by simpa [hs] using h
    simp [hs, Int64.le_of_lt hlt]

/-- The insertion behind a level: the best pointer stays. -/
theorem insertLevel_after {n best t y : LevelPtr B} {side : Side} {price : Price}
    (hn : b.LiveLevel n) (ht : b.LiveLevel t) (hy : b.LiveLevel y)
    (hty : b.levelLinks.Joined t y) (hnt : n ≠ t) (hbest : b.bestOf side = some best)
    (hbehind : addsAfter side price (b.level best).price = true) :
    insertLevel (some n) (some best) (some t) side price true b =
      .ok () ((b.setLevelLinks (b.levelLinks.splice t n y)).setBestTo side
        (if becomesBest side price (b.level best).price then some n else some best)) := by
  have hbest' : (b.setLevelLinks (b.levelLinks.splice t n y)).bestOf side = some best := hbest
  unfold insertLevel
  rw [if_pos rfl, insertAfter_eq hn ht hy hty hnt, becomesBest_of_addsAfter hbehind]
  simp only [Bool.false_eq_true, if_false]
  rw [OrderBook.setBestTo_of_eq _ side _ hbest']

/-- The insertion in front of a level: the best pointer moves when the new level is better. -/
theorem insertLevel_before {n best t x : LevelPtr B} {side : Side} {price : Price}
    (hn : b.LiveLevel n) (ht : b.LiveLevel t) (hx : b.LiveLevel x) (hb : b.LiveLevel best)
    (hxt : b.levelLinks.Joined x t) (hnt : n ≠ t) (hnx : n ≠ x)
    (hbest : b.bestOf side = some best) :
    insertLevel (some n) (some best) (some t) side price false b =
      .ok () ((b.setLevelLinks (b.levelLinks.splice x n t)).setBestTo side
        (if becomesBest side price (b.level best).price then some n else some best)) := by
  set b₁ := b.setLevelLinks (b.levelLinks.splice x n t) with hb₁
  have hbest' : b₁.bestOf side = some best := hbest
  have hlive : b₁.LiveLevel best := hb
  have hprice : (b₁.level best).price = (b.level best).price := rfl
  unfold insertLevel
  rw [if_neg (by simp), bind_of_ok (insertBefore_eq hn ht hx hxt hnt hnx),
    bind_of_ok (derefLevel_of_live hlive), hprice]
  by_cases h : becomesBest side price (b.level best).price = true
  · rw [if_pos h, if_pos h]
    rfl
  · rw [if_neg h, if_neg h, OrderBook.setBestTo_of_eq _ side _ hbest']
    rfl

/-- The ring of `placeLevel`, listed from its best level on. -/
theorem isRing_ringWith {k : Links (LevelPtr B)} {n best : LevelPtr B} {rest : List (LevelPtr B)}
    {after : LevelPtr B → Bool} (better : LevelPtr B → Bool)
    (hexcl : after best = true → better best = false)
    (hring : k.IsRing (placeLevel after n best rest)) :
    k.IsRing (ringWith after better n (best :: rest)) ∧
      (ringWith after better n (best :: rest)).head? =
        if better best then some n else some best := by
  rw [ringWith]
  by_cases hbetter : better best = true
  · have hafter : ¬ after best = true := by
      intro hafter
      rw [hexcl hafter] at hbetter
      cases hbetter
    rw [if_pos hbetter, if_pos hbetter]
    rw [placeLevel, if_neg hafter] at hring
    exact ⟨hring.rotate, rfl⟩
  · rw [if_neg hbetter, if_neg hbetter, placeLevel_head]
    exact ⟨hring, rfl⟩

/-- **Where the search leads on a ring**: to two neighbours `x` and `y` between which the new level
makes the ring of `placeLevel`. It ends on `x` when the new level goes behind all others, and on `y`
otherwise, which is the best level when that is not in front of the new one. -/
theorem exists_splice {k : Links (LevelPtr B)} {n best : LevelPtr B} {rest : List (LevelPtr B)}
    (after : LevelPtr B → Bool) (hring : k.IsRing (best :: rest)) (hnew : n ∉ best :: rest) :
    ∃ x y, x ∈ best :: rest ∧ y ∈ best :: rest ∧ k.Joined x y ∧
      (k.splice x n y).IsRing (placeLevel after n best rest) ∧
      (after best = true ∧ stopAt after best rest = (x, true) ∨
        after best = true ∧ stopAt after best rest = (y, false) ∨ after best = false ∧ y = best) := by
  cases hbehind : after best with
  | false =>
    -- between the last level and the best
    obtain ⟨x, hx⟩ : ∃ x, (best :: rest).getLast? = some x :=
      ⟨_, List.getLast?_eq_some_getLast (by simp)⟩
    refine ⟨x, best, List.mem_of_getLast? hx, List.mem_cons_self, hring.joined_last hx rfl, ?_,
      .inr (.inr ⟨rfl, rfl⟩)⟩
    rw [placeLevel, if_neg (by simp [hbehind])]
    exact hring.append hx rfl hnew
  | true =>
    by_cases hall : rest.all after = true
    · -- every level is in front of the new one: behind the best level
      obtain ⟨y, hy⟩ : ∃ y, (rest ++ [best]).head? = some y := by
        cases rest <;> simp
      have hring' : k.IsRing ([best] ++ rest) := hring
      have hymem : y ∈ best :: rest := by
        have := List.mem_of_head? hy
        simpa [or_comm] using this
      refine ⟨best, y, List.mem_cons_self, hymem, hring'.rotate.joined_last (by simp) hy, ?_,
        .inl ⟨rfl, stopAt_of_all hall⟩⟩
      rw [placeLevel, if_pos hbehind, if_pos hall]
      exact hring'.insert (by simp) hy hnew
    · -- in front of the first level that is not
      obtain ⟨t, back, hback⟩ : ∃ t back, rest.dropWhile after = t :: back := by
        cases hd : rest.dropWhile after with
        | nil =>
          rw [List.dropWhile_eq_nil_iff] at hd
          exact absurd (List.all_eq_true.mpr hd) hall
        | cons t back => exact ⟨t, back, rfl⟩
      have hsplit : best :: rest = (best :: rest.takeWhile after) ++ t :: back := by
        rw [List.cons_append, ← hback, List.takeWhile_append_dropWhile]
      obtain ⟨x, hx⟩ : ∃ x, (best :: rest.takeWhile after).getLast? = some x :=
        ⟨_, List.getLast?_eq_some_getLast (by simp)⟩
      have hxmem : x ∈ best :: rest := by
        rw [hsplit]
        exact List.mem_append_left _ (List.mem_of_getLast? hx)
      have htmem : t ∈ best :: rest := by
        rw [hsplit]
        simp
      rw [hsplit] at hring
      have hlast : ((t :: back) ++ best :: rest.takeWhile after).getLast? = some x := by
        rw [List.getLast?_append, hx]
        rfl
      refine ⟨x, t, hxmem, htmem, hring.rotate.joined_last hlast rfl, ?_,
        .inr (.inl ⟨rfl, stopAt_of_dropWhile hback⟩)⟩
      rw [placeLevel, if_pos hbehind, if_neg hall, hback, ← List.cons_append]
      exact hring.insert hlast rfl (by rw [← hsplit]; exact hnew)

/-- **`addPriceLevel` on a ring of levels**: the new level is spliced in between two neighbours, the
ring is that of `placeLevel`, and the best pointer moves when the new level is better. -/
theorem addPriceLevel_of_ring {n best : LevelPtr B} {rest : List (LevelPtr B)}
    (hn : b.LiveLevel n) (hbest : b.bestOf (b.level n).side = some best)
    (hring : b.levelLinks.IsRing (best :: rest)) (hlive : ∀ x ∈ best :: rest, b.LiveLevel x)
    (hnew : n ∉ best :: rest) :
    ∃ x y, x ∈ best :: rest ∧ y ∈ best :: rest ∧ b.levelLinks.Joined x y ∧
      (b.levelLinks.splice x n y).IsRing (placeLevel
        (fun z => addsAfter (b.level n).side (b.level n).price (b.level z).price) n best rest) ∧
      addPriceLevel (some n) b =
        .ok () (((b.setSlot (b.level n).price (some n)).setLevelLinks
          (b.levelLinks.splice x n y)).setBestTo (b.level n).side
            (if becomesBest (b.level n).side (b.level n).price (b.level best).price then some n
              else some best)) := by
  set side := (b.level n).side with hside
  set price := (b.level n).price with hprice
  set after : LevelPtr B → Bool := fun z => addsAfter side price (b.level z).price with hafter
  have hb : b.LiveLevel best := hlive best List.mem_cons_self
  set b₀ := b.setSlot price (some n) with hb₀
  have hbest₀ : b₀.bestOf side = some best := hbest
  have hne : ∀ x ∈ best :: rest, n ≠ x := fun x hx e => hnew (e ▸ hx)
  -- the program up to the insertion
  have hfind : addPriceLevel (some n) b =
      insertLevel (some n) (some best)
        (if after best then some (stopAt after best rest).1 else some best) side price
        (if after best then (stopAt after best rest).2 else false) b₀ := by
    unfold addPriceLevel
    rw [bind_of_ok (derefLevel_of_live hn), bind_of_ok (setLevelForPrice_apply _ _ _), get_bind,
      hbest₀]
    simp only []
    rw [bind_of_ok (findTarget_eq (b := b₀) hring hlive)]
    by_cases hc : after best = true
    · rw [if_pos hc, if_pos hc, if_pos (show addsAfter _ _ (b₀.level best).price = true from hc)]
      rfl
    · rw [if_neg hc, if_neg hc, if_neg (show ¬ addsAfter _ _ (b₀.level best).price = true from hc)]
  obtain ⟨x, y, hx, hy, hxy, hring', hstop⟩ := exists_splice after hring hnew
  refine ⟨x, y, hx, hy, hxy, hring', ?_⟩
  rw [hfind]
  rcases hstop with ⟨hbehind, hstop⟩ | ⟨hbehind, hstop⟩ | ⟨hfront, rfl⟩
  · rw [if_pos hbehind, if_pos hbehind, hstop]
    exact insertLevel_after (b := b₀) hn (hlive x hx) (hlive y hy) hxy (hne x hx) hbest hbehind
  · rw [if_pos hbehind, if_pos hbehind, hstop]
    exact insertLevel_before (b := b₀) hn (hlive y hy) (hlive x hx) hb hxy (hne y hy) (hne x hx) hbest
  · rw [if_neg (by simp [hfront]), if_neg (by simp [hfront])]
    exact insertLevel_before (b := b₀) hn hb (hlive x hx) hb hxy (hne _ hy) (hne x hx) hbest

end walk

/-! ## What an insertion leaves behind -/

/-- The levels of `ring` are a side's: a circle of levels in use, headed by the best pointer. -/
structure SideRing (b : OrderBook B) (side : Side) (ring : List (LevelPtr B)) : Prop where
  isRing : b.levelLinks.IsRing ring
  head : b.bestOf side = ring.head?
  live : ∀ l ∈ ring, b.LiveLevel l
  side : ∀ l ∈ ring, (b.level l).side = side

/-- The first price is strictly more aggressive than the second. -/
def MoreAggressive (side : Side) (price other : Price) : Prop :=
  if side = .buy then other < price else price < other

instance (side : Side) (price other : Price) : Decidable (MoreAggressive side price other) :=
  inferInstanceAs (Decidable (if side = .buy then other < price else price < other))

/-- Level `n` has been put into `ring`: the old levels are a circle in their old order, with `n`
once among them, and nothing but links has changed about any level. -/
structure LevelInserted (b b' : OrderBook B) (n : LevelPtr B) (ring : List (LevelPtr B)) : Prop where
  ring : ∃ ring', SideRing b' (b.level n).side ring' ∧ ring'.count n = 1 ∧ ring'.erase n = ring
  best : b'.bestOf (b.level n).side =
    match b.bestOf (b.level n).side with
    | none => some n
    | some best =>
      if MoreAggressive (b.level n).side (b.level n).price (b.level best).price then some n
      else some best
  levels : ∀ l, b'.level l =
    { b.level l with prev := b'.levelLinks.prev l, next := b'.levelLinks.next l }

section insertion

variable {b b' : OrderBook B} {n : LevelPtr B} {ring ring' : List (LevelPtr B)} {side : Side}

/-- On a side of the book a level becomes the best exactly when its price is more aggressive. -/
theorem becomesBest_iff (hs : side = .buy ∨ side = .sell) (price other : Price) :
    becomesBest side price other = true ↔ MoreAggressive side price other := by
  unfold becomesBest MoreAggressive
  rcases hs with rfl | rfl <;> simp

/-- The book with a new level linked in by `k`, under the best pointer `best'`. -/
def OrderBook.insert (b : OrderBook B) (n : LevelPtr B) (k : Links (LevelPtr B))
    (best' : Option (LevelPtr B)) : OrderBook B :=
  ((b.setSlot (b.level n).price (some n)).setLevelLinks k).setBestTo (b.level n).side best'

section insert

variable (b n) (k : Links (LevelPtr B)) (best' : Option (LevelPtr B))

theorem liveLevel_insert (l : LevelPtr B) : (b.insert n k best').LiveLevel l ↔ b.LiveLevel l := by
  unfold OrderBook.insert OrderBook.LiveLevel
  rw [OrderBook.ordersAtPricePool_setBestTo]
  exact Iff.rfl

theorem levelLinks_insert : (b.insert n k best').levelLinks = k :=
  OrderBook.levelLinks_setBestTo _ _ _

theorem level_insert (l : LevelPtr B) :
    (b.insert n k best').level l = { b.level l with prev := k.prev l, next := k.next l } :=
  OrderBook.level_setBestTo _ _ _ l

theorem bestOf_insert : (b.insert n k best').bestOf (b.level n).side = best' := by
  rw [OrderBook.bestOf, OrderBook.insert, OrderBook.bidsByPrice_setBestTo,
    OrderBook.asksByPrice_setBestTo]
  split <;> rfl

end insert

/-- A circle with `n` put in, under the best pointer that heads it, is the side's. -/
theorem SideRing.insert {k : Links (LevelPtr B)} (h : SideRing b (b.level n).side ring)
    (hn : b.LiveLevel n) (hring : k.IsRing ring') (hperm : ring'.Perm (n :: ring)) :
    SideRing (b.insert n k ring'.head?) (b.level n).side ring' where
  isRing := by
    rw [levelLinks_insert]
    exact hring
  head := bestOf_insert b n k _
  live l hl := by
    rw [liveLevel_insert]
    rcases List.mem_cons.mp (hperm.mem_iff.mp hl) with rfl | hl
    · exact hn
    · exact h.live l hl
  side l hl := by
    rw [level_insert]
    rcases List.mem_cons.mp (hperm.mem_iff.mp hl) with rfl | hl
    · rfl
    · exact h.side l hl

/-- The ring of a side after level `n` has been put in. -/
def OrderBook.ringAfter (b : OrderBook B) (n : LevelPtr B) (ring : List (LevelPtr B)) :
    List (LevelPtr B) :=
  ringWith (fun z => addsAfter (b.level n).side (b.level n).price (b.level z).price)
    (fun z => becomesBest (b.level n).side (b.level n).price (b.level z).price) n ring

/-- `addPriceLevel` on a side's ring. -/
theorem SideRing.addPriceLevel_eq (h : SideRing b (b.level n).side ring) (hn : b.LiveLevel n)
    (hnew : n ∉ ring) :
    ∃ k, addPriceLevel (some n) b = .ok () (b.insert n k (b.ringAfter n ring).head?) ∧
      k.IsRing (b.ringAfter n ring) := by
  cases ring with
  | nil =>
    refine ⟨b.levelLinks.join n n, ?_, Links.isRing_join_self _ n⟩
    rw [addPriceLevel_of_none hn h.head]
    unfold OrderBook.insert OrderBook.setBestTo
    split <;> rfl
  | cons best rest =>
    obtain ⟨x, y, -, -, -, hring, heq⟩ := addPriceLevel_of_ring hn h.head h.isRing h.live hnew
    obtain ⟨hringWith, hhead⟩ := isRing_ringWith
      (fun z => becomesBest (b.level n).side (b.level n).price (b.level z).price)
      becomesBest_of_addsAfter hring
    refine ⟨_, ?_, hringWith⟩
    rw [OrderBook.ringAfter, hhead, heq]
    rfl

/-- The head of the ring with `n` put in. -/
theorem SideRing.head_ringAfter (h : SideRing b (b.level n).side ring)
    (hs : (b.level n).side = .buy ∨ (b.level n).side = .sell) :
    (b.ringAfter n ring).head? =
      match b.bestOf (b.level n).side with
      | none => some n
      | some best =>
        if MoreAggressive (b.level n).side (b.level n).price (b.level best).price then some n
        else some best := by
  rw [h.head]
  cases ring with
  | nil => rfl
  | cons best rest =>
    simp only [OrderBook.ringAfter, ringWith, becomesBest_iff hs, List.head?_cons]
    split
    · rfl
    · exact placeLevel_head _ n best rest

/-- **Level insertion keeps the ring intact**, whatever the order of its prices: `addPriceLevel`
ends, the old levels are a circle in their old order with the new one once among them, and the best
pointer moves to the new level when the side was empty or its price is strictly more aggressive than
the best's. -/
theorem addPriceLevel_keeps_ring (hn : b.LiveLevel n)
    (hs : (b.level n).side = .buy ∨ (b.level n).side = .sell)
    (h : SideRing b (b.level n).side ring) (hnew : n ∉ ring) :
    ∃ b', addPriceLevel (some n) b = .ok () b' ∧ LevelInserted b b' n ring := by
  obtain ⟨k, hrun, hring⟩ := h.addPriceLevel_eq hn hnew
  have hperm : (b.ringAfter n ring).Perm (n :: ring) := ringWith_perm _ _ n ring
  refine ⟨_, hrun, ⟨b.ringAfter n ring, h.insert hn hring hperm, ?_, ?_⟩, ?_, ?_⟩
  · rw [hperm.count_eq, List.count_cons_self, List.count_eq_zero_of_not_mem hnew]
  · exact ringWith_erase _ _ hnew
  · rw [bestOf_insert, h.head_ringAfter hs]
  · intro l
    rw [levelLinks_insert]
    exact level_insert b n k _ l

/-- Two bids, the second not yet linked in. -/
def twoBids : OrderBook .production :=
  let b := OrderBook.create .production
  let first : LevelPtr .production := ⟨0, by decide⟩
  let second : LevelPtr .production := ⟨1, by decide⟩
  { b with
    bidsByPrice := some first
    ordersAtPricePool := (b.ordersAtPricePool.take first ⟨.buy, 100, none, some first, some first⟩).take
      second ⟨.buy, 101, none, none, none⟩ }

/-- The second bid becomes the best. -/
theorem addPriceLevel_keeps_ring_sample :
    ∃ b', addPriceLevel (some ⟨1, by decide⟩) twoBids = .ok () b' ∧
      LevelInserted twoBids b' ⟨1, by decide⟩ [⟨0, by decide⟩] := by
  refine addPriceLevel_keeps_ring (by decide) (.inl (by decide)) ⟨?_, by decide, ?_, ?_⟩ (by decide)
  · exact Links.isRing_singleton.mpr ⟨by decide, by decide⟩
  · exact List.forall_mem_singleton.mpr (by decide)
  · exact List.forall_mem_singleton.mpr (by decide)

end insertion

end HftSys
