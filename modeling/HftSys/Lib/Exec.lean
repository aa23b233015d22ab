import Mathlib.Tactic.Basic

/-!
# Programs with a state and faults

Rules for programs in `EStateM ε σ`, which return a value and the next state or stop with a fault,
and for those in `Except ε`.

`bind_of_ok` runs a sequence forwards, `bind_eq_ok` takes a successful one apart and `bind_eq_error`
one that stops with a fault. `Keeps I` says of a program that it keeps an invariant, `Avoids e` that
it never stops with fault `e`, `Alike R V` of two programs that they run side by side; their rules
follow the program's syntax.
-/

namespace Exec

universe u

variable {ε σ α β : Type u}

/-- A sequence whose first part succeeds continues from there. -/
theorem bind_of_ok {x : EStateM ε σ α} {f : α → EStateM ε σ β} {s s₁ : σ} {a : α}
    (h : x s = .ok a s₁) : (x >>= f) s = f a s₁ := by
  show EStateM.bind x f s = f a s₁
  simp only [EStateM.bind, h]

/-- Parts that run alike continue alike. -/
theorem bind_of_eq {x y : EStateM ε σ α} {f : α → EStateM ε σ β} {s t : σ} (h : x s = y t) :
    (x >>= f) s = (y >>= f) t := by
  show EStateM.bind x f s = EStateM.bind y f t
  simp only [EStateM.bind, h]

/-- A sequence succeeds exactly when both parts do, one after the other. -/
theorem bind_eq_ok {x : EStateM ε σ α} {f : α → EStateM ε σ β} {s s' : σ} {b : β} :
    (x >>= f) s = .ok b s' ↔ ∃ a s₁, x s = .ok a s₁ ∧ f a s₁ = .ok b s' := by
  constructor
  · intro h
    change EStateM.bind x f s = .ok b s' at h
    unfold EStateM.bind at h
    split at h
    · rename_i a s₁ hx
      exact ⟨a, s₁, hx, h⟩
    · cases h
  · rintro ⟨a, s₁, hx, hf⟩
    rw [bind_of_ok hx]
    exact hf

/-- A sequence fails when one of its parts does. -/
theorem bind_eq_error {x : EStateM ε σ α} {f : α → EStateM ε σ β} {s s' : σ} {e : ε} :
    (x >>= f) s = .error e s' ↔ x s = .error e s' ∨ ∃ a s₁, x s = .ok a s₁ ∧ f a s₁ = .error e s' := by
  show EStateM.bind x f s = .error e s' ↔ _
  unfold EStateM.bind
  cases x s with
  | ok a s₁ =>
    constructor
    · exact fun h => .inr ⟨a, s₁, rfl, h⟩
    · rintro (h | ⟨_, _, h, hf⟩)
      · cases h
      · cases h
        exact hf
  | error e₁ s₁ => simp

/-- The value and the state that a program ends with, if it succeeds. -/
def ok? : EStateM.Result ε σ α → Option (α × σ)
  | .ok a s => some (a, s)
  | .error _ _ => none

/-- There are such when it does. -/
theorem ok?_eq_some {r : EStateM.Result ε σ α} {a : α} {s : σ} :
    ok? r = some (a, s) ↔ r = .ok a s := by
  cases r <;> simp [ok?]

/-- The state read at the head of a sequence. -/
theorem get_bind {f : σ → EStateM ε σ β} {s : σ} : ((get : EStateM ε σ σ) >>= f) s = f s s := rfl

/-- A value is returned as it is, and the state left alone. -/
@[simp] theorem pure_eq_ok {a b : α} {s s' : σ} :
    (pure a : EStateM ε σ α) s = .ok b s' ↔ a = b ∧ s = s' := by
  show EStateM.Result.ok a s = .ok b s' ↔ _
  simp

/-- A fault is not a success. -/
@[simp] theorem throw_ne_ok {e : ε} {b : α} {s s' : σ} :
    ¬ (throw e : EStateM ε σ α) s = .ok b s' := by
  intro h
  change EStateM.Result.error e s = .ok b s' at h
  cases h

/-! ## Keeping an invariant

An invariant is shown of a program by the rules below, one for each construct it is written with;
only the primitives that touch the state are left to look at. -/

/-- From a state with `I` the program only ends in states with `I`. -/
def Keeps (I : σ → Prop) (x : EStateM ε σ α) : Prop := ∀ s a s', I s → x s = .ok a s' → I s'

section keeps

variable {I : σ → Prop} {x : EStateM ε σ α}

/-- Returning a value keeps everything. -/
theorem Keeps.pure (a : α) : Keeps I (pure a : EStateM ε σ α) := by
  intro s _ s' hs h
  obtain ⟨-, rfl⟩ := pure_eq_ok.mp h
  exact hs

/-- A fault keeps everything: there is no state behind it to speak of. -/
theorem Keeps.throw (e : ε) : Keeps I (throw e : EStateM ε σ α) :=
  fun _ _ _ _ h => absurd h throw_ne_ok

/-- **A sequence keeps what both parts keep**, whatever value the first hands on. -/
theorem Keeps.bind {f : α → EStateM ε σ β} (hx : Keeps I x) (hf : ∀ a, Keeps I (f a)) :
    Keeps I (x >>= f) := by
  intro s b s' hs h
  obtain ⟨a, s₁, hx₁, hf₁⟩ := bind_eq_ok.mp h
  exact hf a s₁ b s' (hx s a s₁ hs hx₁) hf₁

/-- A sequence that begins by reading the state keeps what it keeps for every state read. -/
theorem Keeps.get_bind {f : σ → EStateM ε σ β} (hf : ∀ s, Keeps I (f s)) :
    Keeps I ((get : EStateM ε σ σ) >>= f) :=
  fun s b s' hs h => hf s s b s' hs h

end keeps

/-! ## Faults that do not occur

The rules follow the syntax of the program again. Nothing is asked of the state here, so that they
are for faults that the text of a program excludes. -/

/-- The program never stops with fault `e`. -/
def Avoids (e : ε) (x : EStateM ε σ α) : Prop := ∀ s s', x s ≠ .error e s'

section avoids

variable {e : ε} {x : EStateM ε σ α}

/-- A value is no fault. -/
@[simp] theorem avoids_pure (a : α) : Avoids e (pure a : EStateM ε σ α) :=
  fun _ _ h => nomatch h

/-- An assignment to the state is no fault. -/
@[simp] theorem avoids_modify {σ : Type} {ε : Type} {e : ε} (f : σ → σ) :
    Avoids e (modify f : EStateM ε σ Unit) :=
  fun _ _ h => nomatch h

/-- A fault is not another one. -/
theorem avoids_throw {e' : ε} (h : e' ≠ e) : Avoids e (throw e' : EStateM ε σ α) := by
  intro s s' hs
  cases hs
  exact h rfl

/-- **A sequence avoids what both parts avoid.** -/
theorem Avoids.bind {f : α → EStateM ε σ β} (hx : Avoids e x) (hf : ∀ a, Avoids e (f a)) :
    Avoids e (x >>= f) := by
  intro s s' h
  rcases bind_eq_error.mp h with hfirst | ⟨a, s₁, -, hrest⟩
  · exact hx s s' hfirst
  · exact hf a s₁ s' hrest

/-- A sequence that begins by reading the state avoids what it avoids for every state read. -/
theorem Avoids.get_bind {f : σ → EStateM ε σ β} (hf : ∀ s, Avoids e (f s)) :
    Avoids e ((get : EStateM ε σ σ) >>= f) :=
  fun s s' h => hf s s s' h

end avoids

/-! ## Two programs side by side

A part of the state that a program does not look at cannot be told from its result. `R` relates
states that differ in such a part, and `V` the values the two programs return. -/

/-- Two results correspond: both are values, related like the states they come with, or both are the
same fault. -/
inductive Corresponds (R : σ → σ → Prop) (V : α → β → Prop) :
    EStateM.Result ε σ α → EStateM.Result ε σ β → Prop
  | ok {a : α} {b : β} {s t : σ} (value : V a b) (state : R s t) : Corresponds R V (.ok a s) (.ok b t)
  | error (e : ε) {s t : σ} : Corresponds R V (.error e s) (.error e t)

/-- From related states the two programs have results that correspond. -/
def Alike (R : σ → σ → Prop) (V : α → β → Prop) (x : EStateM ε σ α) (y : EStateM ε σ β) : Prop :=
  ∀ s t, R s t → Corresponds R V (x s) (y t)

/-- The program does not tell related states apart. -/
abbrev Blind (R : σ → σ → Prop) (x : EStateM ε σ α) : Prop := Alike R Eq x x

section alike

variable {γ δ : Type u} {R : σ → σ → Prop} {V : α → β → Prop} {W : γ → δ → Prop}

/-- **Sequences are alike if their parts are**, the second ones for all related values that the
first ones may hand on. -/
theorem Alike.bind {x : EStateM ε σ α} {y : EStateM ε σ β} {f : α → EStateM ε σ γ}
    {g : β → EStateM ε σ δ} (hxy : Alike R V x y) (hfg : ∀ a b, V a b → Alike R W (f a) (g b)) :
    Alike R W (x >>= f) (y >>= g) := by
  intro s t hst
  have hresults := hxy s t hst
  show Corresponds R W (EStateM.bind x f s) (EStateM.bind y g t)
  unfold EStateM.bind
  revert hresults
  generalize x s = r, y t = r'
  rintro (⟨hv, hs⟩ | e)
  · exact hfg _ _ hv _ _ hs
  · exact .error e

/-- Related values are returned alike. -/
theorem Alike.pure {a : α} {b : β} (h : V a b) :
    Alike R V (pure a : EStateM ε σ α) (pure b) :=
  fun _ _ hst => .ok h hst

/-- Sequences that begin by reading the state are alike if they are for all related states read. -/
theorem Alike.get_bind {f : σ → EStateM ε σ α} {g : σ → EStateM ε σ β}
    (hfg : ∀ s t, R s t → Alike R V (f s) (g t)) :
    Alike R V ((get : EStateM ε σ σ) >>= f) ((get : EStateM ε σ σ) >>= g) :=
  fun s t hst => hfg s t hst s t hst

/-- A program that hands on its value is blind if both parts are. -/
theorem Blind.bind {x : EStateM ε σ α} {f : α → EStateM ε σ γ} (hx : Blind R x)
    (hf : ∀ a, Blind R (f a)) : Blind R (x >>= f) := by
  refine Alike.bind hx ?_
  rintro a b rfl
  exact hf a

/-- A value is returned without a look at the state. -/
theorem Blind.pure (a : α) : Blind R (pure a : EStateM ε σ α) := Alike.pure rfl

/-- So is a fault. -/
theorem Blind.throw (e : ε) : Blind R (throw e : EStateM ε σ α) := fun _ _ _ => .error e

/-- A choice is blind if both branches are. -/
theorem Blind.ite {c : Prop} [Decidable c] {x y : EStateM ε σ α} (hx : Blind R x)
    (hy : Blind R y) : Blind R (if c then x else y) := by
  split
  · exact hx
  · exact hy

end alike

/-! ## Programs without a state -/

/-- A sequence in `Except` whose first part succeeds continues from there. -/
theorem except_ok_bind (a : α) (f : α → Except ε β) : ((.ok a : Except ε α) >>= f) = f a := rfl

/-- A sequence in `Except` succeeds exactly when both parts do. -/
theorem except_bind_eq_ok {x : Except ε α} {f : α → Except ε β} {b : β} :
    (x >>= f) = .ok b ↔ ∃ a, x = .ok a ∧ f a = .ok b := by
  cases x with
  | ok a =>
    show f a = .ok b ↔ _
    simp
  | error e =>
    show Except.error e = .ok b ↔ _
    simp

/-- A sequence in `Except` fails when one of its parts does. -/
theorem except_bind_eq_error {x : Except ε α} {f : α → Except ε β} {e : ε} :
    (x >>= f) = .error e ↔ x = .error e ∨ ∃ a, x = .ok a ∧ f a = .error e := by
  cases x with
  | ok a =>
    show f a = .error e ↔ _
    simp
  | error e' =>
    show Except.error e' = .error e ↔ _
    simp

/-- A result in `Except` that is worked on has been one. -/
theorem except_map_eq_ok {x : Except ε α} {f : α → β} {b : β} :
    x.map f = .ok b ↔ ∃ a, x = .ok a ∧ f a = b := by
  cases x <;> simp [Except.map]

/-- A result that is kept is one. -/
theorem toOption_eq_some {x : Except ε α} {a : α} : x.toOption = some a ↔ x = .ok a := by
  cases x <;> simp [Except.toOption]

end Exec
