import Mathlib.Data.List.Induction
import Mathlib.Data.List.Range
import Mathlib.Logic.Function.Basic

/-!
# A gate for numbered items

Clients send numbered items from several sources. The gate binds a client to the source of its first
item, admitted or not, and admits an item that comes from its client's source and carries the number
expected next of the client.

* A `Gate` holds each client's source and next number. Items are seen through a `view`, so that they
  may carry more than the gate looks at.
* `Gate.afterAll` is the gate after a list of items, `Gate.admitted` the items it admits.
* `owner_afterAll`, `next_afterAll`, `numbers_admitted`, `source_of_mem_admitted`: a gate that has
  seen some items, and what it has admitted of them, in terms of the items alone.
* `ofClient_admitted`: all of a client's items, if the client keeps to the rules.
-/

namespace SequenceGate

variable {α κ σ ν : Type*}

/-- What the gate looks at in an item. -/
structure Item (κ σ ν : Type*) where
  client : κ
  source : σ
  number : ν

/-- Each client's source, once it has one, and the number expected next of it. -/
structure Gate (κ σ ν : Type*) where
  owner : κ → Option σ
  next : κ → ν

variable [DecidableEq κ]

/-- The items of one client. -/
def ofClient (view : α → Item κ σ ν) (c : κ) (xs : List α) : List α :=
  xs.filter fun x => decide ((view x).client = c)

/-- The source of a client's first item. -/
def firstSource (view : α → Item κ σ ν) (c : κ) (xs : List α) : Option σ :=
  (ofClient view c xs).head?.map fun x => (view x).source

namespace Gate

/-- A gate that has seen nothing yet. -/
def start (one : ν) : Gate κ σ ν := ⟨fun _ => none, fun _ => one⟩

/-- The client of an item is bound to its source, if it has none. -/
def claim (g : Gate κ σ ν) (x : Item κ σ ν) : Gate κ σ ν :=
  if g.owner x.client = none then
    { g with owner := Function.update g.owner x.client (some x.source) }
  else g

/-- An item is admitted. -/
def Admits (g : Gate κ σ ν) (x : Item κ σ ν) : Prop :=
  (g.claim x).owner x.client = some x.source ∧ x.number = g.next x.client

instance [DecidableEq σ] [DecidableEq ν] (g : Gate κ σ ν) (x : Item κ σ ν) :
    Decidable (g.Admits x) :=
  inferInstanceAs (Decidable (_ ∧ _))

/-- The sources after the item's client has been bound. -/
theorem owner_claim (g : Gate κ σ ν) (x : Item κ σ ν) (c : κ) :
    (g.claim x).owner c = (g.owner c).or (if x.client = c then some x.source else none) := by
  unfold claim
  split
  · rename_i hnone
    by_cases hc : x.client = c
    · subst hc
      simp [hnone]
    · simp [Function.update_of_ne (Ne.symm hc), hc]
  · rename_i hsome
    by_cases hc : x.client = c
    · subst hc
      obtain ⟨s, hs⟩ := Option.ne_none_iff_exists'.mp hsome
      simp [hs]
    · simp [hc]

@[simp] theorem next_claim (g : Gate κ σ ν) (x : Item κ σ ν) : (g.claim x).next = g.next := by
  unfold claim
  split <;> rfl

/-- Only the sources have changed. -/
theorem claim_eq (g : Gate κ σ ν) (x : Item κ σ ν) :
    g.claim x = { g with owner := (g.claim x).owner } := by
  unfold claim
  split <;> rfl

variable [DecidableEq σ] [DecidableEq ν] (succ : ν → ν)

/-- The gate after an item. -/
def after (g : Gate κ σ ν) (x : Item κ σ ν) : Gate κ σ ν :=
  if g.Admits x then
    { g.claim x with next := Function.update g.next x.client (succ (g.next x.client)) }
  else g.claim x

variable (view : α → Item κ σ ν)

/-- The gate after some items. -/
def afterAll (g : Gate κ σ ν) (xs : List α) : Gate κ σ ν :=
  xs.foldl (fun g x => g.after succ (view x)) g

/-- The items the gate admits. -/
def admitted : Gate κ σ ν → List α → List α
  | _, [] => []
  | g, x :: xs =>
    if g.Admits (view x) then x :: admitted (g.after succ (view x)) xs
    else admitted (g.after succ (view x)) xs

variable {succ view} {g : Gate κ σ ν} {x : α} {xs : List α} {c : κ} {s : σ}

@[simp] theorem afterAll_nil (g : Gate κ σ ν) : g.afterAll succ view [] = g := rfl

@[simp] theorem afterAll_cons (g : Gate κ σ ν) (x : α) (xs : List α) :
    g.afterAll succ view (x :: xs) = (g.after succ (view x)).afterAll succ view xs := rfl

theorem afterAll_append (g : Gate κ σ ν) (xs ys : List α) :
    g.afterAll succ view (xs ++ ys) = (g.afterAll succ view xs).afterAll succ view ys :=
  List.foldl_append

theorem admitted_append (g : Gate κ σ ν) (xs ys : List α) :
    g.admitted succ view (xs ++ ys) =
      g.admitted succ view xs ++ (g.afterAll succ view xs).admitted succ view ys := by
  induction xs generalizing g with
  | nil => rfl
  | cons x xs ih =>
    rw [List.cons_append, admitted, admitted, afterAll_cons, ih]
    split <;> rfl

theorem admitted_singleton (g : Gate κ σ ν) (x : α) :
    g.admitted succ view [x] = if g.Admits (view x) then [x] else [] := rfl

theorem admitted_sublist (g : Gate κ σ ν) (xs : List α) :
    (g.admitted succ view xs).Sublist xs := by
  induction xs generalizing g with
  | nil => exact .refl _
  | cons x xs ih =>
    rw [admitted]
    split
    · exact (ih _).cons_cons x
    · exact (ih _).cons x

/-- Items seen through another view. -/
theorem afterAll_map {β : Type*} (f : β → α) (g : Gate κ σ ν) (ys : List β) :
    g.afterAll succ view (ys.map f) = g.afterAll succ (fun y => view (f y)) ys :=
  List.foldl_map

theorem admitted_map {β : Type*} (f : β → α) (g : Gate κ σ ν) (ys : List β) :
    g.admitted succ view (ys.map f) = (g.admitted succ (fun y => view (f y)) ys).map f := by
  induction ys generalizing g with
  | nil => rfl
  | cons y ys ih =>
    rw [List.map_cons, admitted, admitted, ih]
    split <;> rfl

/-- Nothing is admitted exactly when no item is, each met by the gate as the others have left it. -/
theorem admitted_eq_nil_iff (g : Gate κ σ ν) (xs : List α) :
    g.admitted succ view xs = [] ↔
      ∀ pre x post, xs = pre ++ x :: post → ¬ (g.afterAll succ view pre).Admits (view x) := by
  induction xs generalizing g with
  | nil => simp [admitted]
  | cons y xs ih =>
    constructor
    · intro h pre x post heq
      rw [admitted] at h
      split at h
      · cases h
      · rename_i hy
        cases pre with
        | nil =>
          obtain ⟨rfl, -⟩ := List.cons.inj heq
          exact hy
        | cons z pre =>
          obtain ⟨rfl, hrest⟩ := List.cons.inj heq
          exact (ih _).mp h pre x post hrest
    · intro h
      have hy : ¬ g.Admits (view y) := h [] y xs rfl
      rw [admitted, if_neg hy, ih]
      rintro pre x post rfl
      exact h (y :: pre) x post rfl

/-! ## One item -/

@[simp] theorem owner_after (g : Gate κ σ ν) (x : Item κ σ ν) :
    (g.after succ x).owner = (g.claim x).owner := by
  unfold after
  split <;> rfl

theorem next_after (g : Gate κ σ ν) (x : Item κ σ ν) (c : κ) :
    (g.after succ x).next c =
      if g.Admits x ∧ x.client = c then succ (g.next c) else g.next c := by
  unfold after
  by_cases hx : g.Admits x
  · by_cases hc : x.client = c
    · subst hc
      simp [hx]
    · simp [hx, hc, Function.update_of_ne (Ne.symm hc)]
  · simp [hx]

/-- A client keeps its source. -/
theorem owner_afterAll_of_some (h : g.owner c = some s) (xs : List α) :
    (g.afterAll succ view xs).owner c = some s := by
  induction xs generalizing g with
  | nil => exact h
  | cons x xs ih =>
    rw [afterAll_cons]
    apply ih
    rw [owner_after, owner_claim, h, Option.some_or]

/-! ## A gate that has seen some items -/

/-- **A client's source** is the one it had, or else the one of its first item. -/
theorem owner_afterAll (g : Gate κ σ ν) (xs : List α) (c : κ) :
    (g.afterAll succ view xs).owner c = (g.owner c).or (firstSource view c xs) := by
  induction xs generalizing g with
  | nil => simp [firstSource, ofClient]
  | cons x xs ih =>
    rw [afterAll_cons, ih, owner_after, owner_claim, Option.or_assoc]
    congr 1
    by_cases hc : (view x).client = c <;> simp [firstSource, ofClient, hc]

/-- A client's source is the one it had, or that of an item. -/
theorem source_of_owner_afterAll {xs : List α} (h : (g.afterAll succ view xs).owner c = some s) :
    g.owner c = some s ∨ ∃ x ∈ xs, (view x).source = s := by
  rw [owner_afterAll] at h
  rcases Option.or_eq_some_iff.mp h with hold | ⟨-, hfirst⟩
  · exact .inl hold
  · obtain ⟨x, hx, hs⟩ := Option.map_eq_some_iff.mp hfirst
    exact .inr ⟨x, (List.mem_filter.mp (List.mem_of_head? hx)).1, hs⟩

/-- **The number expected next of a client** has advanced with every item admitted. -/
theorem next_afterAll (g : Gate κ σ ν) (xs : List α) (c : κ) :
    (g.afterAll succ view xs).next c =
      succ^[(ofClient view c (g.admitted succ view xs)).length] (g.next c) := by
  induction xs generalizing g with
  | nil => rfl
  | cons x xs ih =>
    rw [afterAll_cons, ih, next_after, admitted]
    by_cases hx : g.Admits (view x)
    · by_cases hc : (view x).client = c <;> simp [hx, hc, ofClient]
    · simp [hx]

/-- **What is admitted of a client** carries the numbers from the one expected on, one by one. -/
theorem numbers_admitted (succ : ν → ν) (view : α → Item κ σ ν) (g : Gate κ σ ν) (xs : List α) (c : κ) :
    (ofClient view c (g.admitted succ view xs)).map (fun x => (view x).number) =
      (List.range (ofClient view c (g.admitted succ view xs)).length).map
        fun i => succ^[i] (g.next c) := by
  induction xs generalizing g with
  | nil => rfl
  | cons x xs ih =>
    have h := ih (g.after succ (view x))
    rw [next_after] at h
    rw [admitted]
    by_cases hx : g.Admits (view x)
    · by_cases hc : (view x).client = c
      · simp only [hx, hc, and_self, if_true] at h
        have hcons : ofClient view c (x :: (g.after succ (view x)).admitted succ view xs) =
            x :: ofClient view c ((g.after succ (view x)).admitted succ view xs) :=
          List.filter_cons_of_pos (decide_eq_true hc)
        rw [if_pos hx, hcons, List.map_cons, h, hx.2, hc, List.length_cons, List.range_succ_eq_map,
          List.map_cons, List.map_map]
        rfl
      · have hcons : ofClient view c (x :: (g.after succ (view x)).admitted succ view xs) =
            ofClient view c ((g.after succ (view x)).admitted succ view xs) :=
          List.filter_cons_of_neg (by simpa using hc)
        simp only [hc, and_false, if_false] at h
        rw [if_pos hx, hcons, h]
    · simp only [hx, false_and, if_false] at h
      rw [if_neg hx, h]

/-- **What is admitted** comes from its client's source. -/
theorem source_of_mem_admitted (h : x ∈ g.admitted succ view xs) :
    (g.afterAll succ view xs).owner (view x).client = some (view x).source := by
  induction xs generalizing g with
  | nil => cases h
  | cons y xs ih =>
    rw [admitted] at h
    rw [afterAll_cons]
    split at h
    · rename_i hy
      rcases List.mem_cons.mp h with rfl | h
      · apply owner_afterAll_of_some
        rw [owner_after]
        exact hy.1
      · exact ih h
    · exact ih h

/-- **A client that keeps to the rules is not refused**: if it sends from one source and numbers its
items from the one expected on, one by one, the gate admits all of them. -/
theorem ofClient_admitted (howner : ∀ s', g.owner c = some s' → s' = s)
    (hsource : ∀ x ∈ ofClient view c xs, (view x).source = s)
    (hnumbers : (ofClient view c xs).map (fun x => (view x).number) =
      (List.range (ofClient view c xs).length).map fun i => succ^[i] (g.next c)) :
    ofClient view c (g.admitted succ view xs) = ofClient view c xs := by
  induction xs generalizing g with
  | nil => rfl
  | cons x xs ih =>
    have hkept : ∀ s', (g.after succ (view x)).owner c = some s' → s' = s := by
      intro s' hs'
      rw [owner_after, owner_claim, Option.or_eq_some_iff] at hs'
      rcases hs' with hold | ⟨-, hnew⟩
      · exact howner s' hold
      · obtain ⟨hc, hsame⟩ := Option.ite_none_right_eq_some.mp hnew
        rw [← Option.some.inj hsame]
        exact hsource x (List.mem_filter.mpr ⟨List.mem_cons_self, decide_eq_true hc⟩)
    by_cases hc : (view x).client = c
    · have hcons : ∀ ys, ofClient view c (x :: ys) = x :: ofClient view c ys := fun ys =>
        List.filter_cons_of_pos (decide_eq_true hc)
      rw [hcons] at hsource hnumbers ⊢
      rw [List.map_cons, List.length_cons, List.range_succ_eq_map, List.map_cons, List.map_map] at hnumbers
      obtain ⟨hfirst, hrest⟩ := List.cons.inj hnumbers
      have hx : g.Admits (view x) := by
        refine ⟨?_, hfirst.trans (congrArg g.next hc.symm)⟩
        rw [owner_claim, hc, if_pos rfl, hsource x List.mem_cons_self]
        cases ho : g.owner c with
        | none => rfl
        | some s' => rw [howner s' ho, Option.some_or]
      have hnext : (g.after succ (view x)).next c = succ (g.next c) := by
        rw [next_after, if_pos ⟨hx, hc⟩]
      rw [admitted, if_pos hx, hcons, ih hkept (fun y hy => hsource y (List.mem_cons_of_mem x hy))]
      rw [hnext, hrest]
      rfl
    · have hskip : ∀ ys, ofClient view c (x :: ys) = ofClient view c ys := fun ys =>
        List.filter_cons_of_neg (by simpa using hc)
      have hnext : (g.after succ (view x)).next c = g.next c := by
        rw [next_after, if_neg fun h => hc h.2]
      rw [hskip] at hsource hnumbers ⊢
      rw [← hnext] at hnumbers
      rw [← ih hkept hsource hnumbers, admitted]
      split
      · exact hskip _
      · rfl

end Gate

end SequenceGate
