import HftSys.Lib.Runs

/-!
# Systems made of independent members

A system holds one member for every `i : ι`. A request may be refused; one that is accepted is
routed to one member, which takes a step, or to none. `Product.path_iff`: the runs of the system are
those whose requests are all accepted and whose requests to each member, the others left out, are a
run of that member. So the members see nothing of each other, and nothing of the order in which
requests to different members come.
-/

namespace Product

open Runs

variable {ι σ ρ τ : Type*} [DecidableEq ι] {step : ι → σ → τ → σ → Prop} {accepts : ρ → Prop}
  {route : ρ → Option (ι × τ)} {s s' : ι → σ} {rs : List ρ} {r : ρ} {i j : ι}

/-- The request to member `i`, if it is one. -/
def routeTo (route : ρ → Option (ι × τ)) (i : ι) (r : ρ) : Option τ :=
  (route r).bind fun it => if it.1 = i then some it.2 else none

/-- One request. -/
def Step (step : ι → σ → τ → σ → Prop) (accepts : ρ → Prop) (route : ρ → Option (ι × τ))
    (s : ι → σ) (r : ρ) (s' : ι → σ) : Prop :=
  accepts r ∧
    match route r with
    | none => s' = s
    | some (i, t) => ∃ x, step i (s i) t x ∧ s' = Function.update s i x

theorem routeTo_none (h : route r = none) : routeTo route i r = none := by
  rw [routeTo, h, Option.bind_none]

theorem routeTo_self {t : τ} (h : route r = some (i, t)) : routeTo route i r = some t := by
  rw [routeTo, h, Option.bind_some, if_pos rfl]

theorem routeTo_of_ne {t : τ} (h : route r = some (i, t)) (hij : j ≠ i) :
    routeTo route j r = none := by
  rw [routeTo, h, Option.bind_some, if_neg hij.symm]

/-- The requests to a member, with one more request to it. -/
theorem filterMap_concat_some {t : τ} (h : routeTo route i r = some t) :
    (rs ++ [r]).filterMap (routeTo route i) = rs.filterMap (routeTo route i) ++ [t] := by
  simp [List.filterMap_append, h]

/-- The requests to a member, with one more request to another. -/
theorem filterMap_concat_none (h : routeTo route i r = none) :
    (rs ++ [r]).filterMap (routeTo route i) = rs.filterMap (routeTo route i) := by
  simp [List.filterMap_append, h]

/-- A run of the system is a run of every member. -/
theorem path_member (h : Path (Step step accepts route) s rs s') :
    (∀ r ∈ rs, accepts r) ∧ ∀ i, Path (step i) (s i) (rs.filterMap (routeTo route i)) (s' i) := by
  induction rs using List.reverseRecOn generalizing s' with
  | nil =>
    cases h
    exact ⟨fun r hr => absurd hr List.not_mem_nil, fun i => rfl⟩
  | append_singleton rs r ih =>
    obtain ⟨s₁, hrun, hacc, hstep⟩ := RunsOf.path_concat.mp h
    obtain ⟨hall, hmembers⟩ := ih hrun
    refine ⟨List.forall_mem_append.mpr ⟨hall, List.forall_mem_singleton.mpr hacc⟩, fun j => ?_⟩
    cases hroute : route r with
    | none =>
      rw [hroute] at hstep
      rw [filterMap_concat_none (routeTo_none hroute), show s' = s₁ from hstep]
      exact hmembers j
    | some it =>
      obtain ⟨i, t⟩ := it
      rw [hroute] at hstep
      obtain ⟨x, hx, rfl⟩ := hstep
      by_cases hij : j = i
      · subst hij
        rw [filterMap_concat_some (routeTo_self hroute), Function.update_self]
        exact RunsOf.path_concat.mpr ⟨s₁ j, hmembers j, hx⟩
      · rw [filterMap_concat_none (routeTo_of_ne hroute hij), Function.update_of_ne hij]
        exact hmembers j

/-- Runs of the members make a run of the system. -/
theorem path_of_members (hacc : ∀ r ∈ rs, accepts r)
    (h : ∀ i, Path (step i) (s i) (rs.filterMap (routeTo route i)) (s' i)) :
    Path (Step step accepts route) s rs s' := by
  induction rs using List.reverseRecOn generalizing s' with
  | nil => exact funext h
  | append_singleton rs r ih =>
    obtain ⟨hall, hlast⟩ := List.forall_mem_append.mp hacc
    have hr := hlast r (List.mem_singleton_self r)
    cases hroute : route r with
    | none =>
      refine RunsOf.path_concat.mpr ⟨s', ih hall fun j => ?_, hr, ?_⟩
      · have hj := h j
        rw [filterMap_concat_none (routeTo_none hroute)] at hj
        exact hj
      · rw [hroute]
    | some it =>
      obtain ⟨i, t⟩ := it
      have hi := h i
      rw [filterMap_concat_some (routeTo_self hroute)] at hi
      obtain ⟨x, hrun, hx⟩ := RunsOf.path_concat.mp hi
      refine RunsOf.path_concat.mpr ⟨Function.update s' i x, ih hall fun j => ?_, hr, ?_⟩
      · by_cases hij : j = i
        · subst hij
          rw [Function.update_self]
          exact hrun
        · have hj := h j
          rw [filterMap_concat_none (routeTo_of_ne hroute hij)] at hj
          rw [Function.update_of_ne hij]
          exact hj
      · rw [hroute]
        refine ⟨s' i, ?_, ?_⟩
        · rw [Function.update_self]
          exact hx
        · rw [Function.update_idem, Function.update_eq_self]

/-- **The runs of a system are those of its members.** -/
theorem path_iff :
    Path (Step step accepts route) s rs s' ↔
      (∀ r ∈ rs, accepts r) ∧ ∀ i, Path (step i) (s i) (rs.filterMap (routeTo route i)) (s' i) :=
  ⟨path_member, fun h => path_of_members h.1 h.2⟩

end Product
