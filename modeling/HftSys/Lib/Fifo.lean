import Mathlib.Data.List.Perm.Basic

/-!
# Bounded first-in first-out queues

A queue takes elements at its end while fewer than `capacity` of them wait, and gives them back at
its front. A push on a full queue is refused and leaves the queue as it is.

* `taken` records what the queue has given back, so `entered` is everything it has ever accepted.
* An `Op` is a push or a pop, and a list of them an interleaving of a producer with a consumer.
  `Fits q ops` says that every push of the interleaving finds room.
* `stored q ops` are the elements that find room: `entered_run` says that they enter,
  `stored_eq_iff` that they are all exactly when the interleaving fits.
-/

namespace Fifo

universe u

/-- A bounded queue, with what has been taken out of it. -/
structure Queue (α : Type u) where
  capacity : ℕ
  taken : List α
  items : List α
  bounded : items.length ≤ capacity

/-- One operation on a queue. -/
inductive Op (α : Type u) where
  | push (x : α)
  | pop
deriving DecidableEq

variable {α : Type u}

/-- The elements an interleaving pushes. -/
def pushes : List (Op α) → List α
  | [] => []
  | .push x :: ops => x :: pushes ops
  | .pop :: ops => pushes ops

@[simp] theorem pushes_map_push (xs : List α) : pushes (xs.map Op.push) = xs := by
  induction xs with
  | nil => rfl
  | cons x xs ih => rw [List.map_cons, pushes, ih]

namespace Queue

variable {q : Queue α} {x : α} {ops : List (Op α)}

/-- A new queue. -/
def empty (capacity : ℕ) : Queue α := ⟨capacity, [], [], Nat.zero_le _⟩

/-- A full queue. -/
def full (capacity : ℕ) (x : α) : Queue α :=
  ⟨capacity, [], List.replicate capacity x, Nat.le_of_eq List.length_replicate⟩

/-- Everything the queue has accepted, in order. -/
def entered (q : Queue α) : List α := q.taken ++ q.items

/-- One more element, if there is room. -/
def push (q : Queue α) (x : α) : Queue α :=
  if h : q.items.length < q.capacity then
    { q with
      items := q.items ++ [x]
      bounded := by
        rw [List.length_append, List.length_singleton]
        exact h }
  else q

/-- The first element, if there is one, goes. -/
def pop (q : Queue α) : Queue α :=
  { q with
    taken := q.taken ++ q.items.head?.toList
    items := q.items.tail
    bounded := by
      have := q.bounded
      simp only [List.length_tail]
      omega }

/-- One operation. -/
def act (q : Queue α) : Op α → Queue α
  | .push x => q.push x
  | .pop => q.pop

/-- The operations of an interleaving, one after the other. -/
def run (q : Queue α) (ops : List (Op α)) : Queue α := ops.foldl act q

/-- Every push of the interleaving finds room. -/
def Fits : Queue α → List (Op α) → Prop
  | _, [] => True
  | q, .push x :: ops => q.items.length < q.capacity ∧ Fits (q.push x) ops
  | q, .pop :: ops => Fits q.pop ops

/-- The elements of an interleaving that find room. -/
def stored : Queue α → List (Op α) → List α
  | _, [] => []
  | q, .push x :: ops =>
    if q.items.length < q.capacity then x :: stored (q.push x) ops else stored q ops
  | q, .pop :: ops => stored q.pop ops

@[simp] theorem entered_empty (capacity : ℕ) : (empty capacity : Queue α).entered = [] := rfl

@[simp] theorem run_nil (q : Queue α) : q.run [] = q := rfl

@[simp] theorem run_cons (q : Queue α) (op : Op α) (ops : List (Op α)) :
    q.run (op :: ops) = (q.act op).run ops := rfl

theorem run_append (q : Queue α) (ops ops' : List (Op α)) :
    q.run (ops ++ ops') = (q.run ops).run ops' := List.foldl_append

theorem items_push (h : q.items.length < q.capacity) : (q.push x).items = q.items ++ [x] := by
  rw [push, dif_pos h]

theorem push_of_full (h : ¬ q.items.length < q.capacity) : q.push x = q := dif_neg h

@[simp] theorem taken_push (q : Queue α) (x : α) : (q.push x).taken = q.taken := by
  unfold push
  split <;> rfl

@[simp] theorem capacity_push (q : Queue α) (x : α) : (q.push x).capacity = q.capacity := by
  unfold push
  split <;> rfl

/-- A push leaves the first element where it is. -/
theorem head?_push (h : q.items ≠ []) (x : α) : (q.push x).items.head? = q.items.head? := by
  unfold push
  split
  · exact List.head?_append_of_ne_nil _ h
  · rfl

/-- There is nothing to take from an empty queue. -/
theorem pop_of_nil (h : q.items = []) : q.pop = q := by
  obtain ⟨capacity, taken, items, bounded⟩ := q
  cases h
  simp [pop]

@[simp] theorem capacity_run (q : Queue α) (ops : List (Op α)) :
    (q.run ops).capacity = q.capacity := by
  induction ops generalizing q with
  | nil => rfl
  | cons op ops ih =>
    rw [run_cons, ih]
    cases op with
    | push x => exact capacity_push q x
    | pop => rfl

theorem entered_push (h : q.items.length < q.capacity) :
    (q.push x).entered = q.entered ++ [x] := by
  rw [entered, taken_push, items_push h, entered, List.append_assoc]

/-- A pop moves an element from the waiting to the taken ones. -/
@[simp] theorem entered_pop (q : Queue α) : q.pop.entered = q.entered := by
  show (q.taken ++ q.items.head?.toList) ++ q.items.tail = q.taken ++ q.items
  cases h : q.items with
  | nil => simp
  | cons x xs => simp

/-- A push adds one element at most. -/
theorem length_push_le (q : Queue α) (x : α) : (q.push x).items.length ≤ q.items.length + 1 := by
  by_cases hroom : q.items.length < q.capacity
  · simp [items_push hroom]
  · simp [push_of_full hroom]

/-- What holds of all that wait and of `x` holds of all that wait behind a push of `x`. -/
theorem forall_push {P : α → Prop} (h : ∀ y ∈ q.items, P y) (hx : P x) :
    ∀ y ∈ (q.push x).items, P y := by
  by_cases hroom : q.items.length < q.capacity
  · rw [items_push hroom]
    exact List.forall_mem_append.mpr ⟨h, List.forall_mem_singleton.mpr hx⟩
  · rw [push_of_full hroom]
    exact h

theorem forall_pop {P : α → Prop} (h : ∀ y ∈ q.items, P y) : ∀ y ∈ q.pop.items, P y :=
  fun y hy => h y (List.mem_of_mem_tail hy)

/-- **What an interleaving gets into the queue** is what finds room. -/
theorem entered_run (q : Queue α) (ops : List (Op α)) :
    (q.run ops).entered = q.entered ++ q.stored ops := by
  induction ops generalizing q with
  | nil => exact (List.append_nil _).symm
  | cons op ops ih =>
    cases op with
    | pop => rw [run_cons, act, ih, entered_pop, stored]
    | push x =>
      rw [run_cons, act, ih, stored]
      split
      · rename_i hroom
        rw [entered_push hroom, List.append_assoc]
        rfl
      · rename_i hfull
        rw [push_of_full hfull]

/-- It is some of what is pushed, in the same order, and all of it exactly when the interleaving
fits. -/
theorem stored_spec (q : Queue α) (ops : List (Op α)) :
    (q.stored ops).Sublist (pushes ops) ∧
      (q.Fits ops ↔ (q.stored ops).length = (pushes ops).length) := by
  induction ops generalizing q with
  | nil => exact ⟨.refl _, fun _ => rfl, fun _ => trivial⟩
  | cons op ops ih =>
    cases op with
    | pop => exact ih q.pop
    | push x =>
      rw [stored, pushes, Fits]
      split
      · rename_i hroom
        obtain ⟨hsub, hfits⟩ := ih (q.push x)
        exact ⟨hsub.cons_cons x, by simp [hroom, hfits]⟩
      · rename_i hfull
        obtain ⟨hsub, -⟩ := ih q
        have hlen := hsub.length_le
        refine ⟨hsub.cons x, ?_⟩
        simp only [hfull, false_and, List.length_cons, false_iff]
        omega

theorem stored_sublist (q : Queue α) (ops : List (Op α)) : (q.stored ops).Sublist (pushes ops) :=
  (stored_spec q ops).1

/-- Everything finds room exactly when the interleaving fits. -/
theorem stored_eq_iff (q : Queue α) (ops : List (Op α)) : q.stored ops = pushes ops ↔ q.Fits ops := by
  obtain ⟨hsub, hfits⟩ := stored_spec q ops
  rw [hfits]
  exact ⟨congrArg List.length, hsub.eq_of_length⟩

/-- Everything pushed enters exactly when the interleaving fits. -/
theorem entered_run_eq_iff (q : Queue α) (ops : List (Op α)) :
    (q.run ops).entered = q.entered ++ pushes ops ↔ q.Fits ops := by
  rw [entered_run, ← stored_eq_iff]
  exact ⟨List.append_cancel_left, congrArg (q.entered ++ ·)⟩

/-- **Nothing pushed is lost exactly when the interleaving fits.** -/
theorem entered_run_perm_iff (q : Queue α) (ops : List (Op α)) :
    ((q.run ops).entered).Perm (q.entered ++ pushes ops) ↔ q.Fits ops := by
  refine ⟨fun h => ?_, fun h => .of_eq ((entered_run_eq_iff q ops).mpr h)⟩
  have hlen := h.length_eq
  rw [entered_run, List.length_append, List.length_append] at hlen
  rw [(stored_spec q ops).2]
  omega

/-- Pushes with no pop between them fit when there is room for all. -/
theorem fits_map_push (q : Queue α) (xs : List α) :
    q.Fits (xs.map Op.push) ↔ q.items.length + xs.length ≤ q.capacity := by
  induction xs generalizing q with
  | nil => simpa [Fits] using q.bounded
  | cons x xs ih =>
    rw [List.map_cons, Fits, ih, capacity_push, List.length_cons]
    constructor
    · rintro ⟨hroom, hrest⟩
      rw [items_push hroom, List.length_append, List.length_singleton] at hrest
      omega
    · intro h
      have hroom : q.items.length < q.capacity := by omega
      refine ⟨hroom, ?_⟩
      rw [items_push hroom, List.length_append, List.length_singleton]
      omega

/-- A full queue has no room. -/
theorem not_fits_full (capacity : ℕ) (x y : α) (ops : List (Op α)) :
    ¬ (full capacity x).Fits (.push y :: ops) := by
  rintro ⟨hroom, -⟩
  change (List.replicate capacity x).length < capacity at hroom
  rw [List.length_replicate] at hroom
  exact Nat.lt_irrefl _ hroom

/-- An interleaving fits when its first part does and then its second. -/
theorem fits_append (q : Queue α) (ops ops' : List (Op α)) :
    q.Fits (ops ++ ops') ↔ q.Fits ops ∧ (q.run ops).Fits ops' := by
  induction ops generalizing q with
  | nil => simp [Fits]
  | cons op ops ih =>
    cases op with
    | pop =>
      rw [List.cons_append, Fits, ih, Fits, run_cons, act]
    | push x =>
      rw [List.cons_append, Fits, ih, Fits, run_cons, act, and_assoc]

end Queue

end Fifo
