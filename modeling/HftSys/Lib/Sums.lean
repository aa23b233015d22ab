import Mathlib.Algebra.BigOperators.Group.Finset.Basic
import Mathlib.Data.Fintype.BigOperators

/-!
# Sums over the members of a system

A step of a system moves one member of a finite family. `sum_add_of_eq_off` compares the sums before
and after such a step, `sum_update_add` is the same for a family of states under `Function.update`.
-/

namespace Sums

variable {ι M : Type*} [Fintype ι] [DecidableEq ι] [AddCommMonoid M]

/-- Two sums that differ in one term. -/
theorem sum_add_of_eq_off {f g : ι → M} {i : ι} {x : M} (hoff : ∀ j, j ≠ i → f j = g j)
    (hi : f i + x = g i) : ∑ j, f j + x = ∑ j, g j := by
  have hrest : ∑ j ∈ Finset.univ.erase i, f j = ∑ j ∈ Finset.univ.erase i, g j :=
    Finset.sum_congr rfl fun j hj => hoff j (Finset.ne_of_mem_erase hj)
  rw [← Finset.add_sum_erase _ f (Finset.mem_univ i),
    ← Finset.add_sum_erase _ g (Finset.mem_univ i), hrest, ← hi, add_right_comm]

/-- One member changes its state: its old share goes out of the sum, its new one comes in. -/
theorem sum_update_add {σ : Type*} (f : σ → M) (s : ι → σ) (i : ι) (x : σ) :
    ∑ j, f (Function.update s i x j) + f (s i) = ∑ j, f (s j) + f x := by
  have hrest : ∑ j ∈ Finset.univ.erase i, f (Function.update s i x j) =
      ∑ j ∈ Finset.univ.erase i, f (s j) := by
    apply Finset.sum_congr rfl
    intro j hj
    rw [Function.update_of_ne (Finset.ne_of_mem_erase hj)]
  rw [← Finset.add_sum_erase _ (fun j => f (Function.update s i x j)) (Finset.mem_univ i),
    ← Finset.add_sum_erase _ (fun j => f (s j)) (Finset.mem_univ i), hrest, Function.update_self]
  rw [add_right_comm, add_comm (f x), add_right_comm]

end Sums
