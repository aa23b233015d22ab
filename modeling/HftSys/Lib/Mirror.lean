import Mathlib.Data.Fintype.BigOperators

/-!
# A map that mirrors a store

A store holds objects `i : ι`, those in use being `live i`. A reader keeps a partial map from keys
to what it knows of the objects. `Mirrors m live key view` says that the map holds the view of every
object in use, under its key, and nothing else. There is one lemma for each way a store changes by
one object: `erase`, `replace` and `insert`. `sum_of_key` adds up a function of the views of the
objects with one key, of which there is at most one.
-/

namespace Mirror

variable {ι κ α : Type*}

/-- `m` maps the keys of the objects in use to their views, and no other keys. -/
def Mirrors (m : κ → Option α) (live : ι → Prop) (key : ι → κ) (view : ι → α) : Prop :=
  ∀ k a, m k = some a ↔ ∃ i, live i ∧ key i = k ∧ view i = a

/-- No two objects in use share a key. -/
def KeysDiffer (live : ι → Prop) (key : ι → κ) : Prop :=
  ∀ i j, live i → live j → key i = key j → i = j

namespace Mirrors

variable {m : κ → Option α} {live live' : ι → Prop} {key key' : ι → κ} {view view' : ι → α} {i : ι}

theorem eq_some (h : Mirrors m live key view) (hi : live i) : m (key i) = some (view i) :=
  (h _ _).mpr ⟨i, hi, rfl, rfl⟩

/-- A key of no object in use is not in the map. -/
theorem eq_none (h : Mirrors m live key view) {k : κ} (hk : ∀ i, live i → key i ≠ k) :
    m k = none := by
  apply Option.eq_none_iff_forall_ne_some.mpr
  intro a ha
  obtain ⟨i, hi, hik, -⟩ := (h k a).mp ha
  exact hk i hi hik

/-- Two maps of the same objects agree on what the views have in common. -/
theorem map_eq {α' β : Type*} {m' : κ → Option α'} {view' : ι → α'} {f : α → β} {g : α' → β}
    (h : Mirrors m live key view) (h' : Mirrors m' live key view')
    (hfg : ∀ i, live i → f (view i) = g (view' i)) (k : κ) : (m k).map f = (m' k).map g := by
  by_cases hk : ∃ i, live i ∧ key i = k
  · obtain ⟨i, hi, rfl⟩ := hk
    rw [h.eq_some hi, h'.eq_some hi, Option.map_some, Option.map_some, hfg i hi]
  · have hne : ∀ i, live i → key i ≠ k := fun i hi hik => hk ⟨i, hi, hik⟩
    rw [h.eq_none hne, h'.eq_none hne]
    rfl

variable [DecidableEq κ]

/-- The objects but one, under keys other than its own. -/
private theorem update_of_ne (h : Mirrors m live key view) {x : Option α} {k k' : κ} (hk : k' ≠ k)
    (hlive : ∀ j, j ≠ i → (live' j ↔ live j)) (hi : live i → key i ≠ k')
    (hi' : live' i → key' i ≠ k')
    (hkey : ∀ j, j ≠ i → key' j = key j) (hview : ∀ j, j ≠ i → view' j = view j) (a : α) :
    Function.update m k x k' = some a ↔ ∃ j, live' j ∧ key' j = k' ∧ view' j = a := by
  rw [Function.update_of_ne hk, h k' a]
  apply exists_congr
  intro j
  by_cases hj : j = i
  · subst hj
    constructor
    · rintro ⟨hl, hkj, -⟩
      exact absurd hkj (hi hl)
    · rintro ⟨hl, hkj, -⟩
      exact absurd hkj (hi' hl)
  · rw [hlive j hj, hkey j hj, hview j hj]

/-- An object goes out of use. -/
theorem erase (h : Mirrors m live key view) (hdiff : KeysDiffer live key) (hi : live i)
    (hlive : ∀ j, live' j ↔ live j ∧ j ≠ i) (hkey : ∀ j, j ≠ i → key' j = key j)
    (hview : ∀ j, j ≠ i → view' j = view j) :
    Mirrors (Function.update m (key i) none) live' key' view' := by
  intro k a
  by_cases hk : k = key i
  · subst hk
    rw [Function.update_self]
    constructor
    · intro hnone
      cases hnone
    · rintro ⟨j, hj, hkj, -⟩
      obtain ⟨hj, hne⟩ := (hlive j).mp hj
      rw [hkey j hne] at hkj
      exact absurd (hdiff j i hj hi hkj) hne
  · apply h.update_of_ne hk ?_ ?_ ?_ hkey hview
    · intro j hj
      simp [hlive, hj]
    · exact fun _ => Ne.symm hk
    · exact fun hl => absurd rfl ((hlive i).mp hl).2

/-- An object in use gets another view. -/
theorem replace (h : Mirrors m live key view) (hdiff : KeysDiffer live key) (hi : live i)
    (hlive : ∀ j, live' j ↔ live j) (hself : key' i = key i) (hkey : ∀ j, j ≠ i → key' j = key j)
    (hview : ∀ j, j ≠ i → view' j = view j) :
    Mirrors (Function.update m (key i) (some (view' i))) live' key' view' := by
  intro k a
  by_cases hk : k = key i
  · subst hk
    rw [Function.update_self]
    constructor
    · intro ha
      exact ⟨i, (hlive i).mpr hi, hself, Option.some.inj ha⟩
    · rintro ⟨j, hj, hkj, rfl⟩
      by_cases hne : j = i
      · rw [hne]
      · rw [hkey j hne] at hkj
        exact absurd (hdiff j i ((hlive j).mp hj) hi hkj) hne
  · apply h.update_of_ne hk ?_ ?_ ?_ hkey hview
    · exact fun j _ => hlive j
    · exact fun _ => Ne.symm hk
    · rw [hself]
      exact fun _ => Ne.symm hk

/-- An object comes into use, under a new key. -/
theorem insert (h : Mirrors m live key view) (hi : ¬ live i) (hnew : ∀ j, live j → key j ≠ key' i)
    (hlive : ∀ j, live' j ↔ j = i ∨ live j) (hkey : ∀ j, j ≠ i → key' j = key j)
    (hview : ∀ j, j ≠ i → view' j = view j) :
    Mirrors (Function.update m (key' i) (some (view' i))) live' key' view' := by
  intro k a
  by_cases hk : k = key' i
  · subst hk
    rw [Function.update_self]
    constructor
    · intro ha
      exact ⟨i, (hlive i).mpr (.inl rfl), rfl, Option.some.inj ha⟩
    · rintro ⟨j, hj, hkj, rfl⟩
      by_cases hne : j = i
      · rw [hne]
      · rw [hkey j hne] at hkj
        exact absurd hkj (hnew j (((hlive j).mp hj).resolve_left hne))
  · apply h.update_of_ne hk ?_ ?_ ?_ hkey hview
    · intro j hj
      simp [hlive, hj]
    · exact fun hl => absurd hl hi
    · exact fun _ => Ne.symm hk

/-- The sum over the objects in use with one key. -/
theorem sum_of_key [Fintype ι] [DecidablePred live] (h : Mirrors m live key view)
    (hdiff : KeysDiffer live key) (f : α → ℕ) (k : κ) :
    ∑ i, (if live i ∧ key i = k then f (view i) else 0) = ((m k).map f).getD 0 := by
  cases hm : m k with
  | none =>
    rw [Option.map_none, Option.getD_none]
    apply Finset.sum_eq_zero
    intro i _
    apply if_neg
    rintro ⟨hi, rfl⟩
    rw [h.eq_some hi] at hm
    cases hm
  | some a =>
    obtain ⟨i, hi, rfl, rfl⟩ := (h k a).mp hm
    rw [Option.map_some, Option.getD_some, Finset.sum_eq_single i]
    · rw [if_pos ⟨hi, rfl⟩]
    · intro j _ hne
      exact if_neg fun hj => hne (hdiff j i hj.1 hi hj.2)
    · exact fun hout => absurd (Finset.mem_univ i) hout

end Mirrors

end Mirror
