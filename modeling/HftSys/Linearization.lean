import HftSys.ManyProducers
import HftSys.SingleProducer
import HftSys.Stopping

/-!
# The queue as its two threads see it

`Implements` counts an element as popped once it has been read. The producer sees it go only with
the count, and until then it may find the queue full. So here a push happens when it increments the
count, or when it finds no room, and a pop when it decrements the count.

* `pushStep` and `popStep` are the next steps of a thread that has called `push` or `pop`.
* `Holds cap s q`: `s` holds the elements of the bounded queue `q`.
* `Holds.pushStep` and `Holds.popStep`: each step is a push or a pop of `q`, or nothing.
* `exists_pushStep` and `Holds.exists_popStep`: no thread waits for the other one.
-/

namespace HftSys

namespace LFQueue

open Fifo

variable {T : Type} {cap : ℕ} {s s' : State Unit T} {q : Queue T} {value : T}

/-- The next step of `push(value)`, which has returned when its thread is idle again.
Source: `lock_free_queue.h`, `LFQueue::push` -/
def pushStep (cap : ℕ) (value : T) (s : State Unit T) : Option (State Unit T) :=
  match s.producer () with
  | .idle => step cap s (.beginPush () value)
  | p => p.nextStep >>= step cap s

/-- The next step of `pop`, which has returned when its thread is idle again.
Source: `lock_free_queue.h`, `LFQueue::pop` -/
def popStep (cap : ℕ) (s : State Unit T) : Option (State Unit T) :=
  s.consumer.nextStep >>= step cap s

/-- The steps left of `push`, at most. -/
def Producer.ahead : Producer T → ℕ
  | .idle => 6
  | .hasRoom _ => 5
  | .hasSlot _ _ => 4
  | .copied _ => 3
  | .loaded _ _ => 2
  | .advanced _ => 1

/-- The queue holds the elements of `q`, the first of which may have been read. -/
structure Holds (cap : ℕ) (s : State Unit T) (q : Queue T) : Prop where
  inv : Inv cap s
  solo : Solo cap s
  capacity : q.capacity = cap
  uncounted_le : s.consumer.uncounted ≤ q.items.length
  popped : s.popped = q.taken ++ q.items.take s.consumer.uncounted
  pushed : s.pushed = q.entered

/-- A new queue holds nothing. -/
theorem holds_init (cap : ℕ) (blank : T) :
    Holds cap (State.init blank : State Unit T) (.empty cap) where
  inv := inv_init cap blank
  solo := solo_init cap blank
  capacity := rfl
  uncounted_le := le_rfl
  popped := rfl
  pushed := rfl

section holds

variable (h : Holds cap s q)
include h

/-- The count is the length of the queue. -/
theorem Holds.numElements_eq : s.numElements = q.items.length := by
  have hcounted := h.inv.counted
  have hle := h.uncounted_le
  have hpopped := congrArg List.length h.popped
  have hpushed := congrArg List.length h.pushed
  rw [List.length_append, List.length_take] at hpopped
  rw [Queue.entered, List.length_append] at hpushed
  omega

/-- A pointer to the next element points to the first of the queue. -/
theorem Holds.items_eq {slot : ℕ} (hpc : s.consumer = .hasSlot slot) :
    ∃ rest, q.items = s.queue slot :: rest := by
  have hnext := h.inv.next_element hpc
  have hpos := h.inv.busy (by simp [hpc])
  have hcount := h.numElements_eq
  have hpopped := h.popped
  rw [hpc] at hpopped
  change s.popped = q.taken ++ [] at hpopped
  rw [List.append_nil] at hpopped
  rw [h.solo.written, h.pushed, Queue.entered, hpopped, List.append_assoc,
    List.getElem?_append_right le_rfl, Nat.sub_self] at hnext
  cases hitems : q.items with
  | nil =>
    rw [hitems] at hcount
    simp only [List.length_nil] at hcount
    omega
  | cons x rest =>
    rw [hitems] at hnext
    cases hnext
    exact ⟨rest, rfl⟩

/-- A step of the one thread or the other. -/
theorem Holds.of_step {a : Action Unit T} {q' : Queue T} (hstep : step cap s a = some s')
    (hcapacity : q'.capacity = cap) (hle : s'.consumer.uncounted ≤ q'.items.length)
    (hpopped : s'.popped = q'.taken ++ q'.items.take s'.consumer.uncounted)
    (hpushed : s'.pushed = q'.entered) : Holds cap s' q' :=
  ⟨h.inv.step (h.solo.clear h.inv hstep) hstep, h.solo.step hstep, hcapacity, hle, hpopped, hpushed⟩

/-- A step that neither reads nor counts. -/
theorem Holds.stays {a : Action Unit T} (hstep : step cap s a = some s')
    (huncounted : s'.consumer.uncounted = s.consumer.uncounted) (hpopped : s'.popped = s.popped)
    (hpushed : s'.pushed = s.pushed) : Holds cap s' q := by
  refine h.of_step hstep h.capacity ?_ ?_ (hpushed.trans h.pushed)
  · rw [huncounted]
    exact h.uncounted_le
  · rw [hpopped, huncounted]
    exact h.popped

end holds

/-! ## A step of `push` -/

/-- A push that finds room. -/
theorem Holds.push (h : Holds cap s q) (hroom : s.numElements < cap)
    (hstep : step cap s (.countUp ()) = some s') (hconsumer : s'.consumer = s.consumer)
    (hpopped : s'.popped = s.popped) (hpushed : s'.pushed = s.pushed ++ [value]) :
    Holds cap s' (q.push value) := by
  have hfits : q.items.length < q.capacity := by
    rw [h.capacity, ← h.numElements_eq]
    exact hroom
  refine h.of_step hstep ((Queue.capacity_push q value).trans h.capacity) ?_ ?_ ?_
  · rw [hconsumer, Queue.items_push hfits, List.length_append]
    exact h.uncounted_le.trans (Nat.le_add_right _ _)
  · rw [hconsumer, hpopped, Queue.taken_push, Queue.items_push hfits,
      List.take_append_of_le_length h.uncounted_le]
    exact h.popped
  · rw [hpushed, Queue.entered_push hfits, h.pushed]

/-- The producer moves on inside of its push, and the queue stays as it is. -/
theorem Holds.movesOn (h : Holds cap s q) {a : Action Unit T} {p : Producer T} {n : ℕ}
    (hstep : step cap s a = some s') (hconsumer : s'.consumer = s.consumer)
    (hpopped : s'.popped = s.popped) (hpushed : s'.pushed = s.pushed)
    (hafter : s'.producer () = p) (hvalue : p.value = some value) (hahead : p.ahead < n) :
    s'.consumer = s.consumer ∧
      ((s'.producer ()).value = some value ∧ (s'.producer ()).ahead < n ∧ Holds cap s' q ∨
        s'.producer () = .idle ∧ Holds cap s' (q.push value)) := by
  have hsame : s'.consumer.uncounted = s.consumer.uncounted := congrArg _ hconsumer
  rw [hafter]
  exact ⟨hconsumer, .inl ⟨hvalue, hahead, h.stays hstep hsame hpopped hpushed⟩⟩

/-- **A step of `push`** leaves the queue as it is, or it is the push and the thread returns. -/
theorem Holds.pushStep (h : Holds cap s q)
    (hvalue : ∀ v, (s.producer ()).value = some v → v = value)
    (hstep : pushStep cap value s = some s') :
    s'.consumer = s.consumer ∧
      ((s'.producer ()).value = some value ∧ (s'.producer ()).ahead < (s.producer ()).ahead ∧
          Holds cap s' q ∨
        s'.producer () = .idle ∧ Holds cap s' (q.push value)) := by
  unfold LFQueue.pushStep at hstep
  cases hpc : s.producer () with
  | idle =>
    rw [hpc] at hstep
    have hnext : step cap s (.beginPush () value) = some s' := hstep
    cases step_cases hnext with
    | beginPush hidle hroom =>
      exact h.movesOn hnext rfl rfl rfl (producer_setProducer_unit s (.hasRoom value)) rfl
        (by simp [Producer.ahead])
    | refused hidle hfull =>
      rw [h.numElements_eq, ← h.capacity] at hfull
      refine ⟨rfl, .inr ⟨hpc, ?_⟩⟩
      rw [Queue.push_of_full hfull]
      exact h
  | hasRoom v =>
    cases hvalue v (congrArg Producer.value hpc)
    rw [hpc] at hstep
    have hnext : step cap s (.pickSlot ()) = some s' := hstep
    cases step_cases hnext with
    | pickSlot hat =>
      cases hpc.symm.trans hat
      exact h.movesOn hnext rfl rfl rfl
        (producer_setProducer_unit s (.hasSlot value s.nextIndexToWrite)) rfl
        (by simp [Producer.ahead])
  | hasSlot v slot =>
    cases hvalue v (congrArg Producer.value hpc)
    rw [hpc] at hstep
    have hnext : step cap s (.copyIn ()) = some s' := hstep
    cases step_cases hnext with
    | copyIn hat =>
      cases hpc.symm.trans hat
      exact h.movesOn hnext rfl rfl rfl (producer_setProducer_unit s (.copied value)) rfl
        (by simp [Producer.ahead])
  | copied v =>
    cases hvalue v (congrArg Producer.value hpc)
    rw [hpc] at hstep
    have hnext : step cap s (.loadWrite ()) = some s' := hstep
    cases step_cases hnext with
    | loadWrite hat =>
      cases hpc.symm.trans hat
      exact h.movesOn hnext rfl rfl rfl
        (producer_setProducer_unit s (.loaded value s.nextIndexToWrite)) rfl
        (by simp [Producer.ahead])
  | loaded v index =>
    cases hvalue v (congrArg Producer.value hpc)
    rw [hpc] at hstep
    have hnext : step cap s (.advanceWrite ()) = some s' := hstep
    cases step_cases hnext with
    | advanceWrite hat =>
      cases hpc.symm.trans hat
      exact h.movesOn hnext rfl rfl rfl (producer_setProducer_unit s (.advanced value)) rfl
        (by simp [Producer.ahead])
  | advanced v =>
    cases hvalue v (congrArg Producer.value hpc)
    rw [hpc] at hstep
    have hnext : step cap s (.countUp ()) = some s' := hstep
    have hroom := h.solo.room (by simp [hpc])
    cases step_cases hnext with
    | countUp hat =>
      cases hpc.symm.trans hat
      exact ⟨rfl, .inr ⟨producer_setProducer_unit s _, h.push hroom hnext rfl rfl rfl⟩⟩

/-! ## A step of `pop` -/

/-- What a step of `pop` does. -/
inductive Pops (cap : ℕ) (s s' : State Unit T) (q : Queue T) : Prop
  /-- The queue is empty, and `pop` returns nothing. -/
  | empty (hidle : s.consumer = .idle) (hsame : s' = s) (hitems : q.items = [])
  | goOn (hcontinues : s'.consumer ≠ .idle)
      (huncounted : s'.consumer.uncounted = s.consumer.uncounted)
      (hunread : ∀ slot, s.consumer ≠ .hasSlot slot) (hcounted : s.consumer ≠ .advanced)
      (hahead : s'.consumer.ahead < s.consumer.ahead) (hholds : Holds cap s' q)
  /-- The first element is read. -/
  | read {slot : ℕ} {rest : List T} (hat : s.consumer = .hasSlot slot)
      (hitems : q.items = s.queue slot :: rest) (hcopied : s'.consumer = .copied slot)
      (hholds : Holds cap s' q)
  /-- The first element goes, and `pop` returns it. -/
  | finish (hat : s.consumer = .advanced) (hidle : s'.consumer = .idle) (hholds : Holds cap s' q.pop)

/-- The element read goes. -/
theorem Holds.pop (h : Holds cap s q) (hat : s.consumer = .advanced)
    (hstep : step cap s .countDown = some s') (hidle : s'.consumer = .idle)
    (hpopped : s'.popped = s.popped) (hpushed : s'.pushed = s.pushed) : Holds cap s' q.pop := by
  have hread := h.popped
  rw [hat] at hread
  refine h.of_step hstep h.capacity ?_ ?_ ?_
  · rw [hidle]
    exact Nat.zero_le _
  · rw [hidle, hpopped, hread]
    show q.taken ++ q.items.take 1 = (q.taken ++ q.items.head?.toList) ++ []
    rw [List.append_nil, List.take_one]
  · rw [hpushed, Queue.entered_pop, h.pushed]

/-- **A step of `pop`** leaves the queue as it is, or it is the pop and the thread returns. -/
theorem Holds.popStep (h : Holds cap s q) (hstep : popStep cap s = some s') :
    s'.producer = s.producer ∧ Pops cap s s' q := by
  unfold LFQueue.popStep at hstep
  cases hpc : s.consumer with
  | idle =>
    rw [hpc] at hstep
    have hnext : step cap s .beginPop = some s' := hstep
    cases step_cases hnext with
    | beginPop hidle hpos =>
      exact ⟨rfl, .goOn (by simp) (by simp [hpc, Consumer.uncounted]) (by simp [hpc])
        (by simp [hpc]) (by simp [hpc, Consumer.ahead])
        (h.stays hnext (by simp [hpc, Consumer.uncounted]) rfl rfl)⟩
    | empty hidle hzero =>
      rw [h.numElements_eq] at hzero
      exact ⟨rfl, .empty hpc rfl (List.eq_nil_of_length_eq_zero (by omega))⟩
  | hasElement =>
    rw [hpc] at hstep
    have hnext : step cap s .pickElement = some s' := hstep
    cases step_cases hnext with
    | pickElement hat =>
      exact ⟨rfl, .goOn (by simp) (by simp [hpc, Consumer.uncounted]) (by simp [hpc])
        (by simp [hpc]) (by simp [hpc, Consumer.ahead])
        (h.stays hnext (by simp [hpc, Consumer.uncounted]) rfl rfl)⟩
  | hasSlot slot =>
    rw [hpc] at hstep
    have hnext : step cap s .copyOut = some s' := hstep
    obtain ⟨rest, hitems⟩ := h.items_eq hpc
    cases step_cases hnext with
    | copyOut hat =>
      cases hpc.symm.trans hat
      refine ⟨rfl, .read hpc hitems rfl (h.of_step hnext h.capacity ?_ ?_ h.pushed)⟩
      · simp [hitems, Consumer.uncounted]
      · simp [hitems, Consumer.uncounted, h.popped, hpc]
  | copied slot =>
    rw [hpc] at hstep
    have hnext : step cap s .checkElements = some s' := hstep
    have hpos := h.inv.busy (by simp [hpc])
    cases step_cases hnext with
    | checkElements hat =>
      exact ⟨rfl, .goOn (by simp [hpos]) (by simp [hpc, hpos, Consumer.uncounted]) (by simp [hpc])
        (by simp [hpc]) (by simp [hpc, hpos, Consumer.ahead])
        (h.stays hnext (by simp [hpc, hpos, Consumer.uncounted]) rfl rfl)⟩
  | checked slot =>
    rw [hpc] at hstep
    have hnext : step cap s .advanceRead = some s' := hstep
    cases step_cases hnext with
    | advanceRead hat =>
      exact ⟨rfl, .goOn (by simp) (by simp [hpc, Consumer.uncounted]) (by simp [hpc])
        (by simp [hpc]) (by simp [hpc, Consumer.ahead])
        (h.stays hnext (by simp [hpc, Consumer.uncounted]) rfl rfl)⟩
  | advanced =>
    rw [hpc] at hstep
    have hnext : step cap s .countDown = some s' := hstep
    cases step_cases hnext with
    | countDown hat => exact ⟨rfl, .finish hpc rfl (h.pop hpc hnext rfl rfl rfl)⟩
  | failed => exact absurd hpc h.inv.notFailed

/-! ## No thread waits for the other -/

/-- The next step of `push` can be taken. -/
theorem exists_pushStep (cap : ℕ) (value : T) (s : State Unit T) :
    ∃ s', pushStep cap value s = some s' := by
  refine Option.isSome_iff_exists.mp ?_
  unfold pushStep
  cases hpc : s.producer () with
  | idle =>
    by_cases hroom : s.numElements < cap
    · simp [step, hpc, hroom]
    · simp [step, hpc, hroom]
  | _ => simp [step, hpc, Producer.nextStep]

/-- The next step of `pop` can be taken. -/
theorem Holds.exists_popStep (h : Holds cap s q) : ∃ s', LFQueue.popStep cap s = some s' := by
  refine Option.isSome_iff_exists.mp ?_
  unfold LFQueue.popStep
  cases hpc : s.consumer with
  | failed => exact absurd hpc h.inv.notFailed
  | _ => simp [step, hpc, Consumer.nextStep]

end LFQueue

end HftSys
