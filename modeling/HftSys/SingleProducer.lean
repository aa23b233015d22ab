import HftSys.Lib.Fifo
import HftSys.QueueInvariant

/-!
# The queue with one producer

With one producing thread every slot it takes is clear: it is the only one to take slots, and the
count it has tested can only have gone down since. So the queue is a bounded first-in first-out
queue in every interleaving of the two threads (`lfqueue_fifo`).
-/

namespace HftSys

namespace LFQueue

open Fifo

variable {T : Type}

/-- The slot a thread has a pointer to and has still to write. -/
def Producer.slot : Producer T → Option ℕ
  | .hasSlot _ slot => some slot
  | _ => none

/-- The value of a push that has advanced the write index and not yet the count, if any. -/
def Producer.uncounted? : Producer T → List T
  | .advanced value => [value]
  | _ => []

/-- What holds between the steps besides `Inv`, when one thread calls `push`. -/
structure Solo (cap : ℕ) (s : State Unit T) : Prop where
  written : s.written = s.pushed ++ (s.producer ()).uncounted?
  le_cap : s.numElements ≤ cap
  room : s.producer () ≠ .idle → s.numElements < cap

variable {cap : ℕ} {s s' : State Unit T} {a : Action Unit T}

theorem solo_init (cap : ℕ) (blank : T) : Solo cap (State.init blank : State Unit T) where
  written := rfl
  le_cap := Nat.zero_le _
  room h := absurd rfl h

/-- What the producer does is all that happens on its side. -/
theorem producer_setProducer_unit (s : State Unit T) (p : Producer T) :
    (s.setProducer () p).producer () = p :=
  (producer_setProducer s () () p).trans (if_pos rfl)

/-- A step keeps what holds with one producer. -/
theorem Solo.step (h : Solo cap s) (hstep : LFQueue.step cap s a = some s') : Solo cap s' := by
  have hwritten := h.written
  have hle := h.le_cap
  cases step_cases hstep with
  | beginPush hpc hroom =>
    rw [hpc] at hwritten
    exact ⟨hwritten, hle, fun _ => hroom⟩
  | pickSlot hpc =>
    have hroom := h.room (by simp [hpc])
    rw [hpc] at hwritten
    exact ⟨hwritten, hle, fun _ => hroom⟩
  | copyIn hpc =>
    have hroom := h.room (by simp [hpc])
    rw [hpc] at hwritten
    exact ⟨hwritten, hle, fun _ => hroom⟩
  | loadWrite hpc =>
    have hroom := h.room (by simp [hpc])
    rw [hpc] at hwritten
    exact ⟨hwritten, hle, fun _ => hroom⟩
  | @advanceWrite _ value index hpc =>
    have hroom := h.room (by simp [hpc])
    rw [hpc] at hwritten
    change s.written = s.pushed ++ [] at hwritten
    rw [List.append_nil] at hwritten
    refine ⟨?_, hle, fun _ => hroom⟩
    show s.written ++ [value] = s.pushed ++ [value]
    rw [hwritten]
  | @countUp _ value hpc =>
    have hroom := h.room (by simp [hpc])
    rw [hpc] at hwritten
    refine ⟨?_, hroom, fun hne => absurd (producer_setProducer_unit s .idle) hne⟩
    show s.written = (s.pushed ++ [value]) ++ []
    rw [List.append_nil]
    exact hwritten
  | countDown hpc =>
    refine ⟨hwritten, (Nat.sub_le _ _).trans hle, fun hne => ?_⟩
    exact Nat.lt_of_le_of_lt (Nat.sub_le _ _) (h.room hne)
  | _ => exact ⟨hwritten, hle, h.room⟩

/-- Fewer than `cap` elements are in their slots or on the way there, and not yet released, while a
push is under way. -/
theorem Solo.room_lt (h : Solo cap s) (hinv : Inv cap s) (hpc : s.producer () ≠ .idle) :
    s.pushed.length + s.consumer.uncounted < s.popped.length + cap := by
  have hroom := h.room hpc
  have hcounted := hinv.counted
  omega

/-- A single producer's slot is clear. -/
theorem Solo.clear (h : Solo cap s) (hinv : Inv cap s)
    (hstep : LFQueue.step cap s a = some s') : Clear cap s a := by
  cases step_cases hstep with
  | @pickSlot _ value hpc =>
    refine ⟨fun j hj => ?_, ?_⟩
    · rw [hpc] at hj
      exact hj
    · have hroom := h.room_lt hinv (by simp [hpc])
      have hwritten := h.written
      rw [hpc] at hwritten
      change s.written = s.pushed ++ [] at hwritten
      rw [hwritten, List.append_nil]
      omega
  | _ => trivial

/-! ## The abstract queue -/

/-- `q` is the bounded first-in first-out queue that `s` implements. -/
structure Implements (s : State Unit T) (q : Queue T) : Prop where
  taken : q.taken = s.popped
  entered : q.entered = s.pushed

/-- The elements of the abstract queue are those pushed and not yet popped. -/
theorem Implements.length_items {q : Queue T} (h : Implements s q) :
    s.popped.length + q.items.length = s.pushed.length := by
  rw [← h.taken, ← h.entered, Queue.entered, List.length_append]

/-- **A step is a push that finds room, a pop of the value read, or nothing** for the abstract
queue. -/
theorem Implements.step {q : Queue T} (h : Implements s q) (hcap : q.capacity = cap)
    (hinv : Inv cap s) (hsolo : Solo cap s) (hstep : LFQueue.step cap s a = some s') :
    ∃ ops, q.Fits ops ∧ Implements s' (q.run ops) := by
  cases step_cases hstep with
  | @countUp _ value hpc =>
    have hroom : q.items.length < q.capacity := by
      have hlt := hsolo.room_lt hinv (by simp [hpc])
      have hlen := h.length_items
      omega
    refine ⟨[.push value], ⟨hroom, trivial⟩, ?_, ?_⟩
    · show (q.push value).taken = s.popped
      rw [Queue.taken_push, h.taken]
    · show (q.push value).entered = s.pushed ++ [value]
      rw [Queue.entered_push hroom, h.entered]
  | @copyOut slot hpc =>
    have hnext := hinv.next_element hpc
    have hcounted := hinv.counted
    have hbusy := hinv.busy (by simp [hpc])
    rw [hpc] at hcounted
    change s.numElements + s.popped.length = s.pushed.length + 0 at hcounted
    -- the value read is the first element of the abstract queue
    have hhead : q.items.head? = some (s.queue slot) := by
      rw [hsolo.written, List.getElem?_append_left (by omega), ← h.entered, Queue.entered, h.taken,
        List.getElem?_append_right le_rfl, Nat.sub_self] at hnext
      rw [List.head?_eq_getElem?]
      exact hnext
    refine ⟨[.pop], trivial, ?_, ?_⟩
    · show q.taken ++ q.items.head?.toList = s.popped ++ [s.queue slot]
      rw [hhead, h.taken]
      rfl
    · exact (Queue.entered_pop q).trans h.entered
  | _ => exact ⟨[], trivial, h.taken, h.entered⟩

/-- **Every interleaving of the two threads is a run of a bounded first-in first-out queue.** -/
theorem reaches_implements {blank : T} {acts : List (Action Unit T)}
    (h : Reaches cap s blank acts) :
    Inv cap s ∧ Solo cap s ∧
      ∃ ops, (Queue.empty cap).Fits ops ∧ Implements s ((Queue.empty cap).run ops) := by
  refine (runsOf_queue Unit cap blank).induction (P := fun _ s => Inv cap s ∧ Solo cap s ∧
    ∃ ops, (Queue.empty cap).Fits ops ∧ Implements s ((Queue.empty cap).run ops)) ?_ ?_ h
  · exact ⟨inv_init cap blank, solo_init cap blank, [], trivial, rfl, rfl⟩
  · rintro acts a s s' - ⟨hinv, hsolo, ops, hfits, himp⟩ hstep
    obtain ⟨ops', hfits', himp'⟩ := himp.step (Queue.capacity_run _ _) hinv hsolo hstep
    refine ⟨hinv.step (hsolo.clear hinv hstep) hstep, hsolo.step hstep, ops ++ ops', ?_, ?_⟩
    · exact (Queue.fits_append _ _ _).mpr ⟨hfits, hfits'⟩
    · rw [Queue.run_append]
      exact himp'

/-! ## One producer and one consumer -/

/-- What the two threads see of the queue in a state. -/
structure IsFifo (cap : ℕ) (s : State Unit T) : Prop where
  /-- What has been consumed is the beginning of what has been pushed. -/
  popped_prefix : s.popped <+: s.pushed
  /-- A value that is to be consumed next is the next one pushed. -/
  next_value : ∀ slot, s.consumer = .hasSlot slot →
    s.pushed[s.popped.length]? = some (s.queue slot)
  /-- The rest waits in the queue. -/
  rest_waits : s.AtRest → s.popped ++ s.waiting cap = s.pushed
  /-- At most `cap` values are outstanding. -/
  outstanding : s.pushed.length ≤ s.popped.length + cap
  /-- The producer does not write a slot the consumer has a pointer to. -/
  apart : ∀ slot slot', (s.producer ()).slot = some slot → s.consumer.slot = some slot' →
    slot ≠ slot'
  /-- The assertion of `updateReadIndex` has not failed. -/
  notFailed : s.consumer ≠ .failed
  /-- The state is one of a bounded first-in first-out queue. -/
  abstract : ∃ ops, (Queue.empty cap).Fits ops ∧ Implements s ((Queue.empty cap).run ops)

/-- The slot the producer is about to write is none the consumer has a pointer to. -/
theorem Solo.slots_apart (hsolo : Solo cap s) (hinv : Inv cap s) {slot slot' : ℕ}
    (hwrite : (s.producer ()).slot = some slot) (hread : s.consumer.slot = some slot') :
    slot ≠ slot' := by
  cases hpc : s.producer () with
  | hasSlot value i =>
    rw [hpc] at hwrite
    cases hwrite
    have hroom := hsolo.room_lt hinv (by simp [hpc])
    have hwritten := hsolo.written
    have hle := hinv.unpassed_le
    have hcounted := hinv.counted
    rw [hpc] at hwritten
    change s.written = s.pushed ++ [] at hwritten
    rw [List.append_nil] at hwritten
    have hun : s.consumer.unpassed = s.consumer.uncounted ∧ 0 < s.numElements := by
      refine ⟨?_, hinv.busy fun hidle => ?_⟩
      · cases hc : s.consumer <;> simp_all [Consumer.slot, Consumer.unpassed, Consumer.uncounted]
      · rw [hidle] at hread
        cases hread
    rw [hinv.claimed_slot () value slot hpc, hinv.slot_eq slot' hread, hinv.writeIndex,
      hinv.readIndex, hwritten]
    exact (place_ne (by omega) (by omega)).symm
  | _ =>
    rw [hpc] at hwrite
    cases hwrite

/-- **`LFQueue` is a bounded first-in first-out queue** for one producer and one consumer, whatever
its capacity and however their steps interleave. -/
theorem lfqueue_fifo (cap : ℕ) (blank : T) {acts : List (Action Unit T)} {s : State Unit T}
    (h : Reaches cap s blank acts) : IsFifo cap s := by
  obtain ⟨hinv, hsolo, ops, hfits, himp⟩ := reaches_implements h
  have hlen := himp.length_items
  have hbound := ((Queue.empty cap).run ops).bounded
  rw [Queue.capacity_run] at hbound
  constructor
  case popped_prefix =>
    rw [← himp.taken, ← himp.entered]
    exact List.prefix_append _ _
  case next_value =>
    intro slot hpc
    have hcounted := hinv.counted
    have hbusy := hinv.busy (by simp [hpc])
    rw [hpc] at hcounted
    change s.numElements + s.popped.length = s.pushed.length + 0 at hcounted
    have hnext := hinv.next_element hpc
    rwa [hsolo.written, List.getElem?_append_left (by omega)] at hnext
  case rest_waits =>
    intro hrest
    have hwritten := hsolo.written
    rw [hrest.1 ()] at hwritten
    rw [hinv.popped_append_waiting hrest, hwritten]
    exact List.append_nil _
  case outstanding =>
    change _ ≤ cap at hbound
    omega
  case apart => exact fun _ _ hwrite hread => hsolo.slots_apart hinv hwrite hread
  case notFailed => exact hinv.notFailed
  case abstract => exact ⟨ops, hfits, himp⟩

/-- A value pushed and popped again, while the next one is on its way. -/
theorem lfqueue_fifo_sample :
    ∃ s : State Unit ℕ, Reaches 2 s 0
      [.beginPush () 7, .beginPop, .pickSlot (), .copyIn (), .loadWrite (),
        .advanceWrite (), .countUp (), .beginPush () 8, .beginPop, .pickElement, .pickSlot (),
        .copyOut, .checkElements] ∧
      s.popped = [7] ∧ IsFifo 2 s := by
  have hrun : (run 2 0
      [.beginPush () 7, .beginPop, .pickSlot (), .copyIn (), .loadWrite (),
        .advanceWrite (), .countUp (), .beginPush () 8, .beginPop, .pickElement, .pickSlot (),
        .copyOut, .checkElements]).map
      State.popped = some [7] := by decide +kernel
  obtain ⟨s, hs, hpopped⟩ := Option.map_eq_some_iff.mp hrun
  exact ⟨s, hs, hpopped, lfqueue_fifo 2 0 hs⟩

end LFQueue

end HftSys
