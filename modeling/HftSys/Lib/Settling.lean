import HftSys.Lib.Runs
import Mathlib.Order.WellFounded

/-!
# Systems that come to rest

A system whose steps lower a rank in a well-founded order cannot go on for ever. `Lowers P rank`
says that they do so from the states with a property `P`, which they keep: then no infinite run is
left to take (`Lowers.stops`), and some run gets to a state that no step leads on from
(`Lowers.exists_rest`).

Where the rank is a number and only some of the steps lower it, a run takes no more of these than
the rank it starts with (`countP_add_rank_le`).
-/

namespace Settling

open Runs

variable {σ ρ β : Type*} [LT β] [WellFoundedLT β] {step : σ → ρ → σ → Prop} {P : σ → Prop}
  {rank : σ → β} {s : σ}

/-- No step leads on from the state. -/
def AtRest (step : σ → ρ → σ → Prop) (s : σ) : Prop := ∀ r s', ¬ step s r s'

/-- From the states with a property steps lead to such states, with a lower rank. -/
structure Lowers (step : σ → ρ → σ → Prop) (P : σ → Prop) (rank : σ → β) : Prop where
  kept : ∀ {s r s'}, P s → step s r s' → P s'
  lowers : ∀ {s r s'}, P s → step s r s' → rank s' < rank s

/-- **Rest is reached**, from every state with the property. -/
theorem Lowers.exists_rest (h : Lowers step P rank) (hs : P s) :
    ∃ rs s', Path step s rs s' ∧ P s' ∧ AtRest step s' := by
  induction s using (InvImage.wf rank wellFounded_lt).induction with
  | _ s ih =>
    by_cases hrest : AtRest step s
    · exact ⟨[], s, rfl, hs, hrest⟩
    · obtain ⟨r, s₁, hstep⟩ : ∃ r s', step s r s' := by simpa [AtRest] using hrest
      obtain ⟨rs, s', hpath, hs', hrest'⟩ := ih s₁ (h.lowers hs hstep) (h.kept hs hstep)
      exact ⟨r :: rs, s', ⟨s₁, hstep, hpath⟩, hs', hrest'⟩

/-- **Every run stops**: of an infinite sequence of states, some is not a step away from the
next. -/
theorem Lowers.stops (h : Lowers step P rank) {states : ℕ → σ} {actions : ℕ → ρ}
    (hs : P (states 0)) : ∃ n, ¬ step (states n) (actions n) (states (n + 1)) := by
  by_contra! hall
  have hkept : ∀ n, P (states n) := by
    intro n
    induction n with
    | zero => exact hs
    | succ n ih => exact h.kept ih (hall n)
  obtain ⟨n, hn⟩ := WellFounded.not_rel_apply_succ (r := (· < · : β → β → Prop))
    fun n => rank (states n)
  exact hn (h.lowers (hkept n) (hall n))

/-- **A bound on some of the steps**, those that lower a rank that no step raises, in a run from a
state with a property that the steps keep. -/
theorem countP_add_rank_le (rank : σ → ℕ) (own : ρ → Bool) {s' : σ} {rs : List ρ}
    (hkept : ∀ {s r s'}, P s → step s r s' → P s')
    (hle : ∀ {s r s'}, P s → step s r s' → rank s' ≤ rank s)
    (hlt : ∀ {s r s'}, P s → step s r s' → own r = true → rank s' < rank s)
    (hs : P s) (h : Path step s rs s') : P s' ∧ rs.countP own + rank s' ≤ rank s := by
  induction rs generalizing s with
  | nil =>
    cases h
    exact ⟨hs, by simp⟩
  | cons r rs ih =>
    obtain ⟨s₁, hstep, hrest⟩ := h
    obtain ⟨hs', hafter⟩ := ih (hkept hs hstep) hrest
    refine ⟨hs', ?_⟩
    cases hown : own r with
    | true =>
      have hlowered := hlt hs hstep hown
      rw [List.countP_cons_of_pos hown]
      omega
    | false =>
      have hkeeps := hle hs hstep
      rw [List.countP_cons_of_neg (by simp [hown])]
      omega

end Settling
