import Mathlib.Data.List.Sort

/-!
# Sorting by a key, stable or not

`Sorts key xs ys`: `ys` is a result a sort of `xs` by `key` may have, some permutation of `xs` in
which the keys do not decrease.

* `Sorts.filter_eq`: the elements with some property keep their order, if they were in order already
  and no two of them tie.
* `exists_sorts_of_tie`: if two of them tie, there are results that put either one first.
-/

namespace Sorting

variable {α κ : Type*} [LinearOrder κ] {key : α → κ} {xs ys : List α} {a b : α}

/-- `ys` is a result of sorting `xs` by `key`. -/
structure Sorts (key : α → κ) (xs ys : List α) : Prop where
  perm : ys.Perm xs
  sorted : ys.Pairwise fun a b => key a ≤ key b

/-- Elements with the same key are the same. -/
def NoTies (key : α → κ) (xs : List α) : Prop := ∀ a ∈ xs, ∀ b ∈ xs, key a = key b → a = b

/-- One result, which leaves ties in their order. -/
def sort (key : α → κ) (xs : List α) : List α := xs.insertionSort (Order.Preimage key (· ≤ ·))

theorem sorts_sort (key : α → κ) (xs : List α) : Sorts key xs (sort key xs) :=
  ⟨List.perm_insertionSort _ _, List.pairwise_insertionSort (Order.Preimage key (· ≤ ·)) xs⟩

theorem Sorts.filter (h : Sorts key xs ys) (p : α → Bool) :
    Sorts key (xs.filter p) (ys.filter p) :=
  ⟨h.perm.filter p, h.sorted.filter p⟩

/-- Without ties there is one result, and it leaves alone what is sorted. -/
theorem Sorts.eq_of_noTies (h : Sorts key xs ys) (hxs : xs.Pairwise fun a b => key a ≤ key b)
    (hties : NoTies key xs) : ys = xs := by
  refine h.perm.eq_of_pairwise ?_ h.sorted hxs
  intro a b ha hb hab hba
  exact hties a (h.perm.subset ha) b hb (hab.antisymm hba)

/-- **The elements with a property keep their order**, if they are in order and do not tie. -/
theorem Sorts.filter_eq {p : α → Bool} (h : Sorts key xs ys)
    (hxs : (xs.filter p).Pairwise fun a b => key a ≤ key b) (hties : NoTies key (xs.filter p)) :
    ys.filter p = xs.filter p :=
  (h.filter p).eq_of_noTies hxs hties

/-- The elements before a key, those with it in a given order, and those behind it. -/
theorem sorts_around {lows ties highs : List α} {k : κ}
    (hlows : Sorts key (xs.filter fun x => decide (key x < k)) lows)
    (hties : ties.Perm (xs.filter fun x => decide (key x = k)))
    (hhighs : Sorts key (xs.filter fun x => decide (k < key x)) highs) :
    Sorts key xs (lows ++ ties ++ highs) := by
  have hlt : ∀ x ∈ lows, key x < k := fun x hx => by
    simpa using (List.mem_filter.mp (hlows.perm.subset hx)).2
  have heq : ∀ x ∈ ties, key x = k := fun x hx => by
    simpa using (List.mem_filter.mp (hties.subset hx)).2
  have hgt : ∀ x ∈ highs, k < key x := fun x hx => by
    simpa using (List.mem_filter.mp (hhighs.perm.subset hx)).2
  constructor
  case perm =>
    -- split `xs` at the key from above, and what is left of it from below
    have hnot : (xs.filter fun x => !decide (k < key x)).filter (fun x => decide (key x < k)) =
        xs.filter fun x => decide (key x < k) := by
      rw [List.filter_filter]
      apply List.filter_congr
      intro x _
      simp only [Bool.and_eq_left_iff_imp, decide_eq_true_eq, Bool.not_eq_true',
        decide_eq_false_iff_not, not_lt]
      exact le_of_lt
    have hmid : (xs.filter fun x => !decide (k < key x)).filter (fun x => !decide (key x < k)) =
        xs.filter fun x => decide (key x = k) := by
      rw [List.filter_filter]
      apply List.filter_congr
      intro x _
      rw [Bool.eq_iff_iff]
      simp only [Bool.and_eq_true, Bool.not_eq_true', decide_eq_false_iff_not, not_lt,
        decide_eq_true_eq]
      exact ⟨fun h => h.2.antisymm h.1, fun h => ⟨h.ge, h.le⟩⟩
    have hsplit := List.filter_append_perm (fun x => decide (k < key x)) xs
    have hrest := List.filter_append_perm (fun x => decide (key x < k))
      (xs.filter fun x => !decide (k < key x))
    rw [hnot, hmid] at hrest
    exact ((hlows.perm.append hties).append hhighs.perm).trans
      ((hrest.append_right _).trans (List.perm_append_comm.trans hsplit))
  case sorted =>
    have hmids : ties.Pairwise fun a b => key a ≤ key b :=
      List.pairwise_of_forall_mem_list fun a ha b hb => (heq a ha).trans (heq b hb).symm |>.le
    refine List.pairwise_append.mpr ⟨List.pairwise_append.mpr ⟨hlows.sorted, hmids, ?_⟩,
      hhighs.sorted, ?_⟩
    · exact fun a ha b hb => (heq b hb) ▸ (hlt a ha).le
    · intro a ha b hb
      rcases List.mem_append.mp ha with ha | ha
      · exact (hlt a ha).le.trans (hgt b hb).le
      · exact (heq a ha).trans_le (hgt b hb).le

/-- **A tie may go either way**: among the elements with some property there is a place where one
result has `a` and another one `b`. -/
theorem exists_sorts_of_tie (key : α → κ) (p : α → Bool) (ha : a ∈ xs) (hb : b ∈ xs) (hkey : key a = key b)
    (hpa : p a) (hpb : p b) :
    ∃ ys zs before behind behind', Sorts key xs ys ∧ Sorts key xs zs ∧
      ys.filter p = before ++ a :: behind ∧ zs.filter p = before ++ b :: behind' := by
  obtain ⟨lows, hlows⟩ := (⟨_, sorts_sort key _⟩ : ∃ ys, Sorts key (xs.filter fun x => decide (key x < key a)) ys)
  obtain ⟨highs, hhighs⟩ := (⟨_, sorts_sort key _⟩ : ∃ ys, Sorts key (xs.filter fun x => decide (key a < key x)) ys)
  have hmem : ∀ x ∈ xs, key x = key a →
      ∃ ties, (x :: ties).Perm (xs.filter fun x => decide (key x = key a)) := by
    intro x hx hk
    obtain ⟨s, t, hst⟩ := List.append_of_mem
      (List.mem_filter.mpr ⟨hx, decide_eq_true hk⟩ : x ∈ xs.filter fun x => decide (key x = key a))
    exact ⟨s ++ t, hst ▸ List.perm_middle.symm⟩
  obtain ⟨ties, hties⟩ := hmem a ha rfl
  obtain ⟨ties', hties'⟩ := hmem b hb hkey.symm
  refine ⟨_, _, lows.filter p, ties.filter p ++ highs.filter p, ties'.filter p ++ highs.filter p,
    sorts_around hlows hties hhighs, sorts_around hlows hties' hhighs, ?_, ?_⟩
  · simp [List.filter_append, List.filter_cons_of_pos hpa]
  · simp [List.filter_append, List.filter_cons_of_pos hpb]

end Sorting
