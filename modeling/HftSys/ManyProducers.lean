import HftSys.QueueInvariant
import Mathlib.Algebra.Order.BigOperators.Group.Finset

/-!
# The lock-free queue with many producers

`LFQueue` is made for one producer, and the log queue has several. Elements get lost then, or are
read before they are written, but the damage has its bounds.

* `Counts`: the count is right whatever the producers do, as it is only changed by `fetch_add` and
  `fetch_sub`. It may exceed the capacity by the number of the other producers that have found room.
* `Places`: every slot a thread has is one of the queue's.
* `Values`: a slot holds a value pushed to the queue, or the blank value it was made with.
* `many_producers`: all three, in every run.
-/

namespace HftSys

namespace LFQueue

open Sums

variable {ι T : Type} {cap : ℕ} {blank : T} {s s' : State ι T}

/-- Whether the thread is inside of a push that has found room. -/
def Producer.inFlight : Producer T → ℕ
  | .idle => 0
  | _ => 1

/-- The value of the push the thread is in. -/
def Producer.value : Producer T → Option T
  | .idle => none
  | .hasRoom value | .hasSlot value _ | .copied value | .loaded value _ | .advanced value =>
    some value

/-- What the count is worth. -/
structure Counts [Fintype ι] (cap : ℕ) (s : State ι T) : Prop where
  counted : s.numElements + s.popped.length = s.pushed.length + s.consumer.uncounted
  busy : s.consumer ≠ .idle → 0 < s.numElements
  notFailed : s.consumer ≠ .failed
  begun : s.pushed.length + ∑ i, (s.producer i).inFlight = s.begun.length
  bounded : s.numElements + ∑ i, (s.producer i).inFlight ≤ cap + (Fintype.card ι - 1)

/-- The slots in use are slots of the queue. -/
structure Places (cap : ℕ) (s : State ι T) : Prop where
  roomy : s.begun ≠ [] → 0 < cap
  write : 0 < cap → s.nextIndexToWrite < cap
  read : 0 < cap → s.nextIndexToRead < cap
  producers : ∀ i value slot, s.producer i = .hasSlot value slot → slot < cap
  consumer : ∀ slot, s.consumer.slot = some slot → slot < cap

/-- The values in the queue are those of pushes. -/
structure Values (blank : T) (s : State ι T) : Prop where
  producers : ∀ i value, (s.producer i).value = some value → value ∈ s.begun
  queue : ∀ k, s.queue k = blank ∨ s.queue k ∈ s.begun
  popped : ∀ value ∈ s.popped, value = blank ∨ value ∈ s.begun

/-- A producer has one value in its hands at most. -/
theorem Producer.inFlight_le (p : Producer T) : p.inFlight ≤ 1 := by
  cases p <;> simp [Producer.inFlight]

section init

variable (cap blank)

/-- Nothing has been pushed on a new queue. -/
theorem counts_init [Fintype ι] : Counts cap (State.init blank : State ι T) where
  counted := rfl
  busy := fun hbusy => absurd rfl hbusy
  notFailed := by simp [State.init]
  begun := by simp [State.init, Producer.inFlight]
  bounded := by simp [State.init, Producer.inFlight]

/-- The indices of a new queue are 0. -/
theorem places_init : Places cap (State.init blank : State ι T) where
  roomy := fun hbegun => absurd rfl hbegun
  write := id
  read := id
  producers := by simp [State.init]
  consumer := by simp [State.init, Consumer.slot]

/-- A new queue holds blank elements. -/
theorem values_init : Values blank (State.init blank : State ι T) where
  producers := by simp [State.init, Producer.value]
  queue := fun _ => .inl rfl
  popped := by simp [State.init]

end init

section steps

variable [DecidableEq ι] {a : Action ι T} {i : ι} {p q : Producer T}

section counts

variable [Fintype ι]

/-- The pushes under way, after a thread has moved on. -/
theorem sum_inFlight (s : State ι T) (hpc : s.producer i = q) (p : Producer T) :
    ∑ j, ((s.setProducer i p).producer j).inFlight + q.inFlight =
      ∑ j, (s.producer j).inFlight + p.inFlight := by
  have hsum := sum_update_add Producer.inFlight s.producer i p
  rw [hpc] at hsum
  exact hsum

/-- If a thread is outside of a push, the pushes under way are those of the others. -/
theorem sum_inFlight_lt (s : State ι T) (hpc : s.producer i = .idle) :
    ∑ j, (s.producer j).inFlight ≤ Fintype.card ι - 1 := by
  calc ∑ j, (s.producer j).inFlight
      = ∑ j ∈ Finset.univ.erase i, (s.producer j).inFlight := by
        rw [← Finset.add_sum_erase _ _ (Finset.mem_univ i), hpc]
        exact Nat.zero_add _
    _ ≤ ∑ j ∈ Finset.univ.erase i, 1 :=
        Finset.sum_le_sum fun j _ => (s.producer j).inFlight_le
    _ = Fintype.card ι - 1 := by simp [Finset.card_erase_of_mem]

/-- A thread moves on inside of its push. -/
theorem Counts.moves (h : Counts cap s) (hpc : s.producer i = q) (hsame : q.inFlight = p.inFlight) :
    s.pushed.length + ∑ j, ((s.setProducer i p).producer j).inFlight = s.begun.length ∧
      s.numElements + ∑ j, ((s.setProducer i p).producer j).inFlight ≤
        cap + (Fintype.card ι - 1) := by
  have hsum := sum_inFlight s hpc p
  have hbegun := h.begun
  have hbounded := h.bounded
  omega

/-- **A step keeps the count**, however many producers there are: it is only ever changed
atomically. -/
theorem Counts.step (h : Counts cap s) (hs : Step cap s a s') : Counts cap s' := by
  cases hs with
  | @beginPush i value hpc hroom =>
    have hsum := sum_inFlight s hpc (.hasRoom value)
    have hothers := sum_inFlight_lt s hpc
    have hbegun := h.begun
    change _ + 0 = _ + 1 at hsum
    refine { h with begun := ?_, bounded := ?_ }
    · show s.pushed.length + ∑ j, ((s.setProducer i (.hasRoom value)).producer j).inFlight =
        (s.begun ++ [value]).length
      rw [List.length_append, List.length_singleton]
      omega
    · show s.numElements + ∑ j, ((s.setProducer i (.hasRoom value)).producer j).inFlight ≤ _
      omega
  | refused hpc hfull => exact h
  | pickSlot hpc =>
    obtain ⟨hbegun, hbounded⟩ := h.moves hpc (p := .hasSlot _ s.nextIndexToWrite) rfl
    exact { h with begun := hbegun, bounded := hbounded }
  | copyIn hpc =>
    obtain ⟨hbegun, hbounded⟩ := h.moves hpc (p := .copied _) rfl
    exact { h with begun := hbegun, bounded := hbounded }
  | loadWrite hpc =>
    obtain ⟨hbegun, hbounded⟩ := h.moves hpc (p := .loaded _ s.nextIndexToWrite) rfl
    exact { h with begun := hbegun, bounded := hbounded }
  | advanceWrite hpc =>
    obtain ⟨hbegun, hbounded⟩ := h.moves hpc (p := .advanced _) rfl
    exact { h with begun := hbegun, bounded := hbounded }
  | @countUp i value hpc =>
    have hsum := sum_inFlight s hpc .idle
    have hcounted := h.counted
    have hbegun := h.begun
    have hbounded := h.bounded
    change _ + 1 = _ + 0 at hsum
    refine { h with counted := ?_, busy := fun _ => Nat.succ_pos _, begun := ?_, bounded := ?_ }
    · show s.numElements + 1 + s.popped.length = (s.pushed ++ [value]).length + s.consumer.uncounted
      rw [List.length_append, List.length_singleton]
      omega
    · show (s.pushed ++ [value]).length + ∑ j, ((s.setProducer i .idle).producer j).inFlight =
        s.begun.length
      rw [List.length_append, List.length_singleton]
      omega
    · show s.numElements + 1 + ∑ j, ((s.setProducer i .idle).producer j).inFlight ≤ _
      omega
  | beginPop hpc hpos =>
    have hcounted := h.counted
    rw [hpc] at hcounted
    exact { h with counted := hcounted, busy := fun _ => hpos, notFailed := nofun }
  | empty hpc hzero => exact h
  | pickElement hpc =>
    have hcounted := h.counted
    have hpos := h.busy (by simp [hpc])
    rw [hpc] at hcounted
    exact { h with counted := hcounted, busy := fun _ => hpos, notFailed := nofun }
  | copyOut hpc =>
    have hcounted := h.counted
    have hpos := h.busy (by simp [hpc])
    rw [hpc] at hcounted
    refine { h with counted := ?_, busy := fun _ => hpos, notFailed := nofun }
    show s.numElements + (s.popped ++ [_]).length = s.pushed.length + 1
    rw [List.length_append, List.length_singleton, ← Nat.add_assoc, hcounted]
    rfl
  | letGo hpc =>
    have hcounted := h.counted
    rw [hpc] at hcounted
    exact { h with counted := hcounted, busy := fun hc => absurd rfl hc, notFailed := nofun }
  | checkElements hpc =>
    have hcounted := h.counted
    have hpos := h.busy (by simp [hpc])
    rw [hpc] at hcounted
    rw [if_pos hpos]
    exact { h with counted := hcounted, busy := fun _ => hpos, notFailed := nofun }
  | advanceRead hpc =>
    have hcounted := h.counted
    have hpos := h.busy (by simp [hpc])
    rw [hpc] at hcounted
    exact { h with counted := hcounted, busy := fun _ => hpos, notFailed := nofun }
  | countDown hpc =>
    have hcounted := h.counted
    have hpos := h.busy (by simp [hpc])
    have hbounded := h.bounded
    rw [hpc] at hcounted
    change s.numElements + s.popped.length = s.pushed.length + 1 at hcounted
    refine { h with
      counted := ?_, busy := fun hc => absurd rfl hc, notFailed := nofun, bounded := ?_ }
    · show s.numElements - 1 + s.popped.length = s.pushed.length + 0
      omega
    · show s.numElements - 1 + ∑ j, (s.producer j).inFlight ≤ _
      omega

end counts

/-- The slots of the producers, after one has moved on without taking a slot. -/
theorem Places.setProducer (h : Places cap s) (hp : ∀ value slot, p ≠ .hasSlot value slot) :
    ∀ j value slot, (s.setProducer i p).producer j = .hasSlot value slot → slot < cap := by
  intro j value slot hj
  rw [producer_setProducer] at hj
  split at hj
  · exact absurd hj (hp value slot)
  · exact h.producers j value slot hj

/-- **A step keeps the indices inside of the ring.** A write index stored late may fall back, but
not out of it. -/
theorem Places.step [Fintype ι] (h : Places cap s) (hcounts : Counts cap s)
    (hvalues : Values blank s) (hs : Step cap s a s') : Places cap s' := by
  cases hs with
  | beginPush hpc hroom =>
    exact { h with
      roomy := fun _ => by omega
      producers := h.setProducer nofun }
  | refused hpc hfull => exact h
  | @pickSlot i value hpc =>
    have hbegun : value ∈ s.begun := hvalues.producers i value (by rw [hpc]; rfl)
    have hwrite := h.write (h.roomy (List.ne_nil_of_mem hbegun))
    refine { h with producers := ?_ }
    intro j value' slot hj
    change (s.setProducer i _).producer j = _ at hj
    rw [producer_setProducer] at hj
    split at hj
    · cases hj
      exact hwrite
    · exact h.producers j value' slot hj
  | copyIn hpc => exact { h with producers := h.setProducer nofun }
  | loadWrite hpc => exact { h with producers := h.setProducer nofun }
  | advanceWrite hpc =>
    exact { h with
      write := fun hcap => Nat.mod_lt _ hcap
      producers := h.setProducer nofun }
  | countUp hpc => exact { h with producers := h.setProducer nofun }
  | beginPop hpc hpos => exact { h with consumer := nofun }
  | empty hpc hzero => exact h
  | pickElement hpc =>
    -- something is counted, so that something has been pushed
    have hpos := hcounts.busy (by simp [hpc])
    have hcounted := hcounts.counted
    have hbegun := hcounts.begun
    rw [hpc] at hcounted
    change s.numElements + s.popped.length = s.pushed.length + 0 at hcounted
    have hread := h.read (h.roomy (List.ne_nil_of_length_pos (by omega)))
    exact { h with consumer := fun slot hslot => by cases hslot; exact hread }
  | copyOut hpc =>
    have hslot := h.consumer _ (by rw [hpc]; rfl)
    exact { h with consumer := fun slot heq => by cases heq; exact hslot }
  | letGo hpc => exact { h with consumer := nofun }
  | checkElements hpc =>
    have hslot := h.consumer _ (by rw [hpc]; rfl)
    refine { h with consumer := fun slot heq => ?_ }
    rw [if_pos (hcounts.busy (by simp [hpc]))] at heq
    cases heq
    exact hslot
  | advanceRead hpc =>
    exact { h with
      read := fun hcap => Nat.mod_lt _ hcap
      consumer := nofun }
  | countDown hpc => exact { h with consumer := nofun }

/-- The values of the producers, after one has moved on with a value that has been begun. -/
theorem Values.setProducer (h : Values blank s)
    (hp : ∀ value, p.value = some value → value ∈ s.begun) :
    ∀ j value, ((s.setProducer i p).producer j).value = some value → value ∈ s.begun := by
  intro j value hj
  rw [producer_setProducer] at hj
  split at hj
  · exact hp value hj
  · exact h.producers j value hj

/-- **A step invents no value**: what is in a slot has been passed to a push, or was there from the
start. -/
theorem Values.step (h : Values blank s) (hs : Step cap s a s') : Values blank s' := by
  cases hs with
  | @beginPush i value hpc hroom =>
    have hmono : ∀ v, v ∈ s.begun → v ∈ s.begun ++ [value] := fun v => List.mem_append_left _
    refine ⟨fun j v hj => ?_, fun k => (h.queue k).imp_right (hmono _),
      fun v hv => (h.popped v hv).imp_right (hmono _)⟩
    change ((s.setProducer i _).producer j).value = _ at hj
    rw [producer_setProducer] at hj
    split at hj
    · cases hj
      exact List.mem_append_right _ (List.mem_singleton_self _)
    · exact hmono v (h.producers j v hj)
  | @pickSlot i value hpc =>
    have hvalue := h.producers i value (by rw [hpc]; rfl)
    exact { h with producers := h.setProducer fun v hv => by cases hv; exact hvalue }
  | @copyIn i value slot hpc =>
    have hvalue := h.producers i value (by rw [hpc]; rfl)
    refine { h with
      producers := h.setProducer fun v hv => by cases hv; exact hvalue
      queue := fun k => ?_ }
    show Function.update s.queue slot value k = blank ∨
      Function.update s.queue slot value k ∈ s.begun
    rw [Function.update_apply]
    split
    · exact .inr hvalue
    · exact h.queue k
  | @loadWrite i value hpc =>
    have hvalue := h.producers i value (by rw [hpc]; rfl)
    exact { h with producers := h.setProducer fun v hv => by cases hv; exact hvalue }
  | @advanceWrite i value index hpc =>
    have hvalue := h.producers i value (by rw [hpc]; rfl)
    exact { h with producers := h.setProducer fun v hv => by cases hv; exact hvalue }
  | countUp hpc => exact { h with producers := h.setProducer nofun }
  | copyOut hpc =>
    refine { h with popped := ?_ }
    exact List.forall_mem_append.mpr ⟨h.popped, List.forall_mem_singleton.mpr (h.queue _)⟩
  | _ => exact { h with }

end steps

/-- **The lock-free queue under any number of producers and one consumer**: in every run, whatever
the interleaving of the loads and stores, the count is that of the pushes that have returned true
without the elements taken, and never exceeds the capacity by more than the number of producers
less one; the consumer takes no more elements than have been pushed, its assertion does not fail,
and what it takes is a value of some push or blank; and every slot that a thread writes or reads is
one of the queue's. -/
theorem many_producers [Fintype ι] [DecidableEq ι] {acts : List (Action ι T)}
    (h : Reaches cap s blank acts) :
    Counts cap s ∧ s.popped.length ≤ s.pushed.length ∧
      s.numElements ≤ cap + (Fintype.card ι - 1) ∧ Places cap s ∧ Values blank s := by
  have hall : Counts cap s ∧ Places cap s ∧ Values blank s := by
    refine (runsOf_queue ι cap blank).induction
      (P := fun _ s => Counts cap s ∧ Places cap s ∧ Values blank s)
      ⟨counts_init cap blank, places_init cap blank, values_init blank⟩ ?_ h
    rintro acts a s s' - ⟨hcounts, hplaces, hvalues⟩ hstep
    have hs := step_cases hstep
    exact ⟨hcounts.step hs, hplaces.step hcounts hvalues hs, hvalues.step hs⟩
  obtain ⟨hcounts, hplaces, hvalues⟩ := hall
  have hcounted := hcounts.counted
  have hbounded := hcounts.bounded
  have hle : s.consumer.uncounted ≤ s.numElements := by
    cases hc : s.consumer with
    | idle | hasElement | hasSlot | failed => simp [Consumer.uncounted]
    | copied | checked | advanced =>
      have hpos := hcounts.busy (by simp [hc])
      exact hpos
  exact ⟨hcounts, by omega, by omega, hplaces, hvalues⟩

/-- Two producers take the same slot and load the same write index: both pushes return true, one
value and one advance of the index are lost, and the second element taken is blank. -/
theorem many_producers_sample :
    ∃ s : State Bool ℕ, s.pushed = [7, 8] ∧ s.nextIndexToWrite = 1 ∧ s.popped = [8, 0] ∧
      s.popped.length ≤ s.pushed.length ∧ Places 2 s ∧ Values 0 s := by
  have hrun : (run (ι := Bool) 2 0
      [.beginPush true 7, .beginPush false 8, .pickSlot true, .pickSlot false, .copyIn true,
        .copyIn false, .loadWrite true, .loadWrite false, .advanceWrite true, .advanceWrite false,
        .countUp true, .countUp false, .beginPop, .pickElement, .copyOut, .checkElements,
        .advanceRead, .countDown, .beginPop, .pickElement, .copyOut]).map
      (fun s => (s.pushed, s.nextIndexToWrite, s.popped)) = some ([7, 8], 1, [8, 0]) := by
    decide +kernel
  obtain ⟨s, hs, heq⟩ := Option.map_eq_some_iff.mp hrun
  simp only [Prod.mk.injEq] at heq
  obtain ⟨hpushed, hindex, hpopped⟩ := heq
  obtain ⟨-, hle, -, hplaces, hvalues⟩ := many_producers hs
  exact ⟨s, hpushed, hindex, hpopped, hle, hplaces, hvalues⟩

end LFQueue

end HftSys
