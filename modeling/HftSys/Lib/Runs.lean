import Mathlib.Data.List.Induction

/-!
# Runs of a system

A system takes one request at a time: `step s r s'` says that request `r` may take it from state `s`
to state `s'`. `reach rs s` says that the requests `rs` may take it from its initial state to `s`;
how it says so is left open, `RunsOf` states the two laws of it that the rules below need.

* `RunsOf.induction` is the induction over a run, `RunsOf.ofStep` gets runs from a step function,
  and `RunsOf.path` the runs of any step relation.
* `Path.simulates`: a relation between two systems that their steps keep is kept by their runs;
  `foldlM_map`: so is the equation between a system and its translation.
* `RunsOf.stutters`: the same where a step of the one may be nothing for the other;
  `RunsOf.realizes`: where it may be several. `Path.exists_replicate` repeats a request until it is
  done.
* `Meets Cond` and `Throughout P` speak about all the steps and all the states of a run;
  `Meets.throughout` gets an invariant from a condition on the steps.
-/

namespace Runs

universe u v

variable {σ : Type u} {ρ : Type v}

/-- `reach` holds of the runs of `step` from `init`. -/
structure RunsOf (step : σ → ρ → σ → Prop) (init : σ) (reach : List ρ → σ → Prop) : Prop where
  nil : ∀ {s}, reach [] s ↔ s = init
  concat : ∀ {rs r s'}, reach (rs ++ [r]) s' ↔ ∃ s, reach rs s ∧ step s r s'

/-- The requests may take the system from one state to another, one after the other. -/
def Path (step : σ → ρ → σ → Prop) : σ → List ρ → σ → Prop
  | s, [], s' => s' = s
  | s, r :: rs, s' => ∃ s₁, step s r s₁ ∧ Path step s₁ rs s'

/-- The runs of a partial function whose results are steps. -/
theorem Path.of_foldlM {step : σ → ρ → σ → Prop} {f : σ → ρ → Option σ} {s s' : σ} {rs : List ρ}
    (hf : ∀ s r s', f s r = some s' → step s r s') (h : rs.foldlM f s = some s') :
    Path step s rs s' := by
  induction rs generalizing s with
  | nil =>
    cases h
    rfl
  | cons r rs ih =>
    rw [List.foldlM_cons] at h
    obtain ⟨s₁, hr, hrs⟩ := Option.bind_eq_some_iff.mp h
    exact ⟨s₁, hf s r s₁ hr, ih hrs⟩

/-- **Simulation**: states related step by step are related along a run. -/
theorem Path.simulates {τ : Type*} {step : σ → ρ → σ → Prop} {step' : τ → ρ → τ → Prop}
    {R : σ → τ → Prop}
    (hstep : ∀ s t r s', R s t → step s r s' → ∃ t', step' t r t' ∧ R s' t') {s s' : σ} {t : τ}
    {rs : List ρ} (hR : R s t) (h : Path step s rs s') : ∃ t', Path step' t rs t' ∧ R s' t' := by
  induction rs generalizing s t with
  | nil =>
    cases h
    exact ⟨t, rfl, hR⟩
  | cons r rs ih =>
    obtain ⟨s₁, hr, hrs⟩ := h
    obtain ⟨t₁, hr', hR₁⟩ := hstep s t r s₁ hR hr
    obtain ⟨t', hrs', hR'⟩ := ih hR₁ hrs
    exact ⟨t', ⟨t₁, hr', hrs'⟩, hR'⟩

/-- A path of one request. -/
theorem Path.single {step : σ → ρ → σ → Prop} {s s' : σ} {r : ρ} (h : step s r s') :
    Path step s [r] s' := ⟨s', h, rfl⟩

/-- **Repetition**: a request that brings a system closer to its aim as long as it does not reach it
reaches it when it is repeated. -/
theorem Path.exists_replicate {step : σ → ρ → σ → Prop} {r : ρ} {P Q : σ → Prop} (rank : σ → ℕ)
    (hstep : ∀ s, P s → ∃ s', step s r s' ∧ (P s' ∧ rank s' < rank s ∨ Q s')) {s : σ} (h : P s) :
    ∃ n s', Path step s (List.replicate (n + 1) r) s' ∧ Q s' := by
  induction hrank : rank s using Nat.strongRecOn generalizing s with
  | _ k ih =>
    obtain ⟨s₁, hs₁, ⟨hP, hlt⟩ | hQ⟩ := hstep s h
    · obtain ⟨n, s', hpath, hQ⟩ := ih (rank s₁) (hrank ▸ hlt) hP rfl
      exact ⟨n + 1, s', ⟨s₁, hs₁, hpath⟩, hQ⟩
    · exact ⟨0, s₁, .single hs₁, hQ⟩

/-- **Translation**: a map that takes the steps of one system to those of another takes its runs
to the other's. -/
theorem foldlM_map {τ : Type u} {step : σ → ρ → Option σ} {step' : τ → ρ → Option τ} {f : σ → τ}
    (hstep : ∀ s r, step' (f s) r = (step s r).map f) (s : σ) (rs : List ρ) :
    rs.foldlM step' (f s) = (rs.foldlM step s).map f := by
  induction rs generalizing s with
  | nil => rfl
  | cons r rs ih =>
    rw [List.foldlM_cons, List.foldlM_cons, hstep]
    cases step s r with
    | none => rfl
    | some s₁ => exact ih s₁

namespace RunsOf

variable {step : σ → ρ → σ → Prop} {init s s' : σ} {reach : List ρ → σ → Prop} {rs : List ρ}

/-- **Induction over a run**: what holds of the initial state and survives every request. -/
theorem induction (hr : RunsOf step init reach) {P : List ρ → σ → Prop} (hnil : P [] init)
    (hstep : ∀ rs r s s', reach rs s → P rs s → step s r s' → P (rs ++ [r]) s')
    (h : reach rs s) : P rs s := by
  induction rs using List.reverseRecOn generalizing s with
  | nil =>
    rw [hr.nil.mp h]
    exact hnil
  | append_singleton rs r ih =>
    obtain ⟨s₁, hrun, hreq⟩ := hr.concat.mp h
    exact hstep rs r s₁ s hrun (ih hrun) hreq

/-- Where a request leads to one state, so does a run. -/
theorem unique (hr : RunsOf step init reach)
    (hstep : ∀ s r s₁ s₂, step s r s₁ → step s r s₂ → s₁ = s₂) (h : reach rs s)
    (h' : reach rs s') : s = s' := by
  induction rs using List.reverseRecOn generalizing s s' with
  | nil => rw [hr.nil.mp h, hr.nil.mp h']
  | append_singleton rs r ih =>
    obtain ⟨s₁, hrun, hreq⟩ := hr.concat.mp h
    obtain ⟨s₂, hrun', hreq'⟩ := hr.concat.mp h'
    rw [ih hrun' hrun] at hreq'
    exact hstep s₁ r s s' hreq hreq'

section simulation

variable {τ : Type*} {ρ' : Type*} {step' : τ → ρ' → τ → Prop} {init' : τ}
  {reach' : List ρ' → τ → Prop} {R : σ → τ → Prop}

/-- **Simulation with stutters**: where a step of the one system is either nothing for the other, or
the step that its request is labelled with, its runs are runs of the other, too. -/
theorem stutters (hr : RunsOf step init reach) (hr' : RunsOf step' init' reach')
    (label : ρ → Option ρ') (hinit : R init init')
    (hstep : ∀ s t r s', R s t → step s r s' →
      R s' t ∨ ∃ r' t', label r = some r' ∧ step' t r' t' ∧ R s' t')
    (h : reach rs s) : ∃ rs' t, reach' rs' t ∧ rs'.Sublist (rs.filterMap label) ∧ R s t := by
  refine hr.induction
    (P := fun rs s => ∃ rs' t, reach' rs' t ∧ rs'.Sublist (rs.filterMap label) ∧ R s t)
    ⟨[], init', hr'.nil.mpr rfl, .slnil, hinit⟩ ?_ h
  rintro rs r s s' - ⟨rs', t, hreach, hsub, hR⟩ hreq
  rw [List.filterMap_append]
  rcases hstep s t r s' hR hreq with hR' | ⟨r', t', hlabel, hreq', hR'⟩
  · exact ⟨rs', t, hreach, hsub.trans (List.sublist_append_left _ _), hR'⟩
  · refine ⟨rs' ++ [r'], t', hr'.concat.mpr ⟨t, hreach, hreq'⟩, hsub.append ?_, hR'⟩
    simp [hlabel]

end simulation

/-- A partial step function has runs. -/
theorem ofStep (step : σ → ρ → Option σ) (init : σ) :
    RunsOf (fun s r s' => step s r = some s') init fun rs s => rs.foldlM step init = some s where
  nil {s} := by
    show some init = some s ↔ _
    rw [Option.some.injEq, eq_comm]
  concat {rs r s'} := by
    have hlast : ∀ s, [r].foldlM step s = step s r := by
      intro s
      rw [List.foldlM_cons]
      cases step s r <;> rfl
    rw [List.foldlM_append]
    simp only [hlast]
    exact Option.bind_eq_some_iff

theorem path_concat {step : σ → ρ → σ → Prop} {s s' : σ} {rs : List ρ} {r : ρ} :
    Path step s (rs ++ [r]) s' ↔ ∃ s₁, Path step s rs s₁ ∧ step s₁ r s' := by
  induction rs generalizing s with
  | nil =>
    constructor
    · rintro ⟨s₁, hstep, rfl⟩
      exact ⟨s, rfl, hstep⟩
    · rintro ⟨s₁, rfl, hstep⟩
      exact ⟨s', hstep, rfl⟩
  | cons r₀ rs ih =>
    constructor
    · rintro ⟨s₁, hstep, hpath⟩
      obtain ⟨s₂, hpath, hlast⟩ := ih.mp hpath
      exact ⟨s₂, ⟨s₁, hstep, hpath⟩, hlast⟩
    · rintro ⟨s₂, ⟨s₁, hstep, hpath⟩, hlast⟩
      exact ⟨s₁, hstep, ih.mpr ⟨s₂, hpath, hlast⟩⟩

/-- A step relation has runs. -/
theorem path (step : σ → ρ → σ → Prop) (init : σ) : RunsOf step init (Path step init) where
  nil := Iff.rfl
  concat := path_concat

end RunsOf

/-! ## Runs whose steps meet a condition -/

/-- Every request of the run meets a condition on the state it is handled in. -/
def Meets (reach : List ρ → σ → Prop) (Cond : σ → ρ → Prop) (rs : List ρ) : Prop :=
  ∀ rs₀ r rs₁ s₀, rs = rs₀ ++ r :: rs₁ → reach rs₀ s₀ → Cond s₀ r

/-- Every state the run reaches has a property. -/
def Throughout (reach : List ρ → σ → Prop) (P : σ → Prop) (rs : List ρ) : Prop :=
  ∀ rs₀ rs₁ s₀, rs = rs₀ ++ rs₁ → reach rs₀ s₀ → P s₀

namespace Meets

variable {step : σ → ρ → σ → Prop} {init : σ} {reach : List ρ → σ → Prop} {rs : List ρ} {r : ρ}
  {Cond : σ → ρ → Prop} {P : σ → Prop}

/-- **The rule for conditions**: a property that the initial state has, and that every request keeps
that meets the condition, holds throughout every run whose requests meet it. -/
theorem throughout (hr : RunsOf step init reach) (h : Meets reach Cond rs) (hinit : P init)
    (hstep : ∀ rs s r s', reach rs s → P s → Cond s r → step s r s' → P s') :
    Throughout reach P rs := by
  rintro rs₀ rs₁ s₀ rfl hrun
  have hall : ∀ rs₂, rs₀ ++ rs₂ = rs₀ ++ rs₁ → P s₀ := by
    refine hr.induction (P := fun rs s => ∀ rs₂, rs ++ rs₂ = rs₀ ++ rs₁ → P s) ?_ ?_ hrun
    · exact fun _ _ => hinit
    · intro rs r s s' hreach ih hreq rs₂ heq
      rw [List.append_assoc, List.singleton_append] at heq
      exact hstep rs s r s' hreach (ih (r :: rs₂) heq) (h rs r rs₂ s heq.symm hreach) hreq
  exact hall rs₁ rfl

theorem nil (reach : List ρ → σ → Prop) (Cond : σ → ρ → Prop) : Meets reach Cond [] := by
  intro rs₀ r rs₁ s₀ heq
  simp at heq

/-- A run one request longer meets a condition when its last request does, too. -/
theorem concat_iff :
    Meets reach Cond (rs ++ [r]) ↔ Meets reach Cond rs ∧ ∀ s, reach rs s → Cond s r := by
  constructor
  · intro h
    refine ⟨?_, fun s hs => h rs r [] s rfl hs⟩
    rintro rs₀ r' rs₁ s₀ rfl hrun
    exact h rs₀ r' (rs₁ ++ [r]) s₀ (by simp) hrun
  · rintro ⟨h, hlast⟩ rs₀ r' rs₁ s₀ heq hrun
    rcases List.eq_nil_or_concat rs₁ with rfl | ⟨rs₂, r₂, rfl⟩
    · obtain ⟨rfl, hr⟩ := List.append_inj' heq rfl
      cases hr
      exact hlast s₀ hrun
    · have heq' : rs ++ [r] = (rs₀ ++ r' :: rs₂) ++ [r₂] := by simpa using heq
      obtain ⟨rfl, -⟩ := List.append_inj' heq' rfl
      exact h rs₀ r' rs₂ s₀ rfl hrun

/-- A run of one request. -/
theorem singleton (hr : RunsOf step init reach) (h : Cond init r) : Meets reach Cond [r] := by
  rw [← List.nil_append [r], concat_iff]
  refine ⟨nil reach Cond, fun s hs => ?_⟩
  rw [hr.nil.mp hs]
  exact h

/-- The requests are checked one after the other, each in the state the step function has come to
until it comes to none. -/
def checks (step : σ → ρ → Option σ) (check : σ → ρ → Bool) : σ → List ρ → Bool
  | _, [] => true
  | s, r :: rs => check s r && (step s r).all fun s' => checks step check s' rs

/-- The runs of a step function are checked from their beginning. -/
theorem of_checks {step : σ → ρ → Option σ} (check : σ → ρ → Bool)
    (hcheck : ∀ s r, check s r = true → Cond s r) (h : checks step check init rs = true) :
    Meets (fun rs s => rs.foldlM step init = some s) Cond rs := by
  rintro rs₀ r rs₁ s₀ rfl hrun
  induction rs₀ generalizing init with
  | nil =>
    cases hrun
    exact hcheck _ _ (Bool.and_eq_true_iff.mp h).1
  | cons r₀ rs₀ ih =>
    rw [List.foldlM_cons] at hrun
    obtain ⟨s₁, hstep, hrest⟩ := Option.bind_eq_some_iff.mp hrun
    have hlater := (Bool.and_eq_true_iff.mp h).2
    rw [hstep] at hlater
    exact ih hlater hrest

end Meets

end Runs
