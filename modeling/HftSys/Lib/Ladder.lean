import Mathlib.Algebra.Ring.Nat
import Mathlib.Data.List.Basic
import Mathlib.Data.List.TakeWhile

/-!
# Price levels and their queues

One side of a market as a *ladder*: its price levels, in the order in which they are looked at, each
with the orders that wait there, first come first. Nothing is said about that order here. An order
is entered behind those of its level, or opens a level where the policy `place` of the market wants
it. Orders are taken out by a property (`without`); a level goes with its last order.

`portions q x` is what becomes of a quantity `x` that is executed in amounts of at most `q`.
-/

namespace Ladders

universe u v

/-- The levels of a side, one after the other, each with its orders in the order in which they
came. -/
abbrev Ladder (κ : Type u) (α : Type v) := List (κ × List α)

namespace Ladder

variable {κ : Type u} {α : Type v}

/-- The orders of a ladder, level by level. -/
def orders (L : Ladder κ α) : List α := L.flatMap Prod.snd

/-- The last order that waits at price `k`. -/
def last [DecidableEq κ] (k : κ) (L : Ladder κ α) : Option α :=
  (L.find? fun r => r.1 = k).bind fun r => r.2.getLast?

/-- Order `a` entered at price `k`. -/
def enter [DecidableEq κ] (place : κ × List α → Ladder κ α → Ladder κ α) (k : κ) (a : α)
    (L : Ladder κ α) : Ladder κ α :=
  if k ∈ L.map Prod.fst then L.map fun r => if r.1 = k then (r.1, r.2 ++ [a]) else r
  else place (k, [a]) L

/-- A level without the orders of a property, if any are left. -/
def keep (p : α → Bool) (r : κ × List α) : Option (κ × List α) :=
  if r.2.filter (fun a => !p a) = [] then none else some (r.1, r.2.filter fun a => !p a)

/-- The ladder without the orders of a property. -/
def without (p : α → Bool) (L : Ladder κ α) : Ladder κ α := L.filterMap (keep p)

/-- An empty ladder has no orders. -/
@[simp] theorem orders_nil : orders ([] : Ladder κ α) = [] := rfl

/-- The orders of a ladder are those of its first rung, and then those of the others. -/
@[simp] theorem orders_cons (r : κ × List α) (L : Ladder κ α) :
    orders (r :: L) = r.2 ++ orders L := rfl

/-- An order of a ladder stands on one of its rungs. -/
theorem mem_orders {L : Ladder κ α} {a : α} : a ∈ L.orders ↔ ∃ r ∈ L, a ∈ r.2 := by
  simp only [orders, List.mem_flatMap]

/-- A rung some of whose orders are kept stays, -/
theorem keep_of_eq {p : α → Bool} {r : κ × List α} {as : List α}
    (h : r.2.filter (fun a => !p a) = as) (hne : as ≠ []) : keep p r = some (r.1, as) := by
  rw [keep, h, if_neg hne]

/-- and one none of whose orders are kept goes. -/
theorem keep_of_nil {p : α → Bool} {r : κ × List α} (h : r.2.filter (fun a => !p a) = []) :
    keep p r = none := if_pos h

/-- Where no order has the property nothing is taken out. -/
theorem without_eq_self {p : α → Bool} {L : Ladder κ α} (hfilled : ∀ r ∈ L, r.2 ≠ [])
    (h : ∀ a ∈ L.orders, p a = false) : L.without p = L := by
  unfold without
  rw [List.filterMap_congr (g := fun r => some r), List.filterMap_some]
  intro r hr
  have hkept : r.2.filter (fun a => !p a) = r.2 := by
    apply List.filter_eq_self.mpr
    intro a ha
    simp [h a (mem_orders.mpr ⟨r, hr, ha⟩)]
  exact keep_of_eq hkept (hfilled r hr)

/-- The first order taken out of a ladder in which no other has the property. -/
theorem without_head {p : α → Bool} {k : κ} {a : α} {as : List α} {L : Ladder κ α} (ha : p a = true)
    (hfilled : ∀ r ∈ L, r.2 ≠ []) (h : ∀ x ∈ as ++ L.orders, p x = false) :
    without p ((k, a :: as) :: L) = if as = [] then L else (k, as) :: L := by
  have hkept : (a :: as).filter (fun x => !p x) = as := by
    rw [List.filter_cons_of_neg (by simp [ha])]
    apply List.filter_eq_self.mpr
    intro x hx
    simp [h x (List.mem_append_left _ hx)]
  have hrest : L.without p = L :=
    without_eq_self hfilled fun x hx => h x (List.mem_append_right _ hx)
  unfold without at hrest ⊢
  by_cases has : as = []
  · rw [List.filterMap_cons_none (keep_of_nil (hkept.trans has)), hrest, if_pos has]
  · rw [List.filterMap_cons_some (keep_of_eq hkept has), hrest, if_neg has]

end Ladder

/-! ## Quantities in portions -/

/-- The amounts in which `x` is used up by executions of at most `q`. -/
def portions (q x : ℕ) : List ℕ :=
  if q = 0 ∨ x ≤ q then [x] else q :: portions q (x - q)
termination_by x
decreasing_by omega

/-- What one execution can use up is one portion. -/
theorem portions_of_le {q x : ℕ} (h : x ≤ q) : portions q x = [x] := by
  rw [portions, if_pos (Or.inr h)]

/-- What it cannot is used up from the front on. -/
theorem portions_of_lt {q x : ℕ} (hq : 0 < q) (h : q < x) :
    portions q x = q :: portions q (x - q) := by
  rw [portions, if_neg (by omega)]

/-- Nothing is lost. -/
theorem sum_portions (q x : ℕ) : (portions q x).sum = x := by
  fun_induction portions q x with
  | case1 x h => simp
  | case2 x h ih =>
    rw [List.sum_cons, ih]
    omega

/-- How often `q` goes into `x`, a remainder counted. -/
theorem length_portions {q x : ℕ} (hq : 0 < q) (hx : 0 < x) :
    (portions q x).length = (x - 1) / q + 1 := by
  fun_induction portions q x with
  | case1 x h =>
    rw [Nat.div_eq_of_lt (by omega)]
    rfl
  | case2 x h ih =>
    have hsplit : x - 1 = x - q - 1 + q := by omega
    rw [List.length_cons, ih (by omega), hsplit, Nat.add_div_right _ hq]

end Ladders
