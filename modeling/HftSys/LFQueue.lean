import HftSys.Lib.Runs
import Mathlib.Logic.Function.Basic

/-!
# The lock-free queue

`utils::LFQueue<T>` under any number of threads that call `push` and one that calls `pop`, or
`getNextToRead` and then `updateReadIndex`. A thread takes the steps of these functions one at a
time, and the steps of different threads interleave in any order. Each access to an atomic is a step
of its own, but that `nextIndexToRead_`, which only the reading thread writes, is advanced in one;
and so is each copy of a whole value into or out of a slot.

* `Producer` and `Consumer` say where a thread stands inside the functions, `step` is one step of
  one thread. `begun`, `written`, `pushed` and `popped` record the values of the pushes that found
  room, that have advanced the write index, that have returned true, and that the consumer has
  taken.
* `Step` is `step` taken apart: where the thread stood, and the state the step leads to.

The counters stay far below the range of `size_t`, so they are natural numbers.
-/

namespace HftSys

namespace LFQueue

variable {ι T : Type}

/-! ## The threads -/

/-- Where a thread stands in `push(value)`. Source: `lock_free_queue.h`, `LFQueue::push` -/
inductive Producer (T : Type) where
  | idle
  /-- `numElements_ < queue_.size()` has been found to hold. -/
  | hasRoom (value : T)
  /-- `getNextToWrite` has returned `&queue_[slot]`. -/
  | hasSlot (value : T) (slot : ℕ)
  /-- `*slot = value` is done. -/
  | copied (value : T)
  /-- `nextIndexToWrite_` has been loaded, and was `index`. -/
  | loaded (value : T) (index : ℕ)
  /-- `nextIndexToWrite_` has been advanced. -/
  | advanced (value : T)
deriving DecidableEq

/-- Where the reading thread stands in `pop`, or between `getNextToRead` and the end of
`updateReadIndex`. Source: `lock_free_queue.h` -/
inductive Consumer where
  | idle
  /-- `numElements_ > 0` has been found to hold. -/
  | hasElement
  /-- `getNextToRead` has returned `&queue_[slot]`. -/
  | hasSlot (slot : ℕ)
  /-- The element has been read for the last time. -/
  | copied (slot : ℕ)
  /-- The assertion of `updateReadIndex` has held. -/
  | checked (slot : ℕ)
  /-- `nextIndexToRead_` has been advanced. -/
  | advanced
  /-- The assertion of `updateReadIndex` has failed. -/
  | failed
deriving DecidableEq

/-- The queue, its threads and what they have done. Source: `lock_free_queue.h`, `LFQueue` -/
structure State (ι T : Type) where
  nextIndexToRead : ℕ
  nextIndexToWrite : ℕ
  numElements : ℕ
  queue : ℕ → T
  producer : ι → Producer T
  consumer : Consumer
  /-- The values of the pushes that found room. -/
  begun : List T
  /-- The values of the pushes that have advanced the write index, in that order. -/
  written : List T
  /-- The values of the pushes that have incremented the count, which are those that return true. -/
  pushed : List T
  /-- The values the consumer has taken. -/
  popped : List T

/-- A new queue, whose slots hold value-initialised elements. -/
def State.init (blank : T) : State ι T where
  nextIndexToRead := 0
  nextIndexToWrite := 0
  numElements := 0
  queue := fun _ => blank
  producer := fun _ => .idle
  consumer := .idle
  begun := []
  written := []
  pushed := []
  popped := []

/-- One step of one thread. -/
inductive Action (ι T : Type) where
  /-- `push(value)` is called and loads `numElements_`. -/
  | beginPush (i : ι) (value : T)
  /-- `getNextToWrite` takes the address of a slot. -/
  | pickSlot (i : ι)
  | copyIn (i : ι)
  /-- `updateWriteIndex` loads `nextIndexToWrite_`. -/
  | loadWrite (i : ι)
  /-- `updateWriteIndex` stores `(nextIndexToWrite_ + 1) % queue_.size()`, for the value loaded. -/
  | advanceWrite (i : ι)
  /-- `numElements_.fetch_add(1)`, and `push` returns true. -/
  | countUp (i : ι)
  /-- `getNextToRead` is called and loads `numElements_`. -/
  | beginPop
  /-- `getNextToRead` takes the address of a slot. -/
  | pickElement
  /-- `T value = *elem`, or the last use of the pointer. -/
  | copyOut
  /-- The pointer is given up, without a call of `updateReadIndex`. -/
  | letGo
  /-- The assertion of `updateReadIndex` loads `numElements_`. -/
  | checkElements
  /-- `nextIndexToRead_ = (nextIndexToRead_ + 1) % queue_.size()`. -/
  | advanceRead
  /-- `numElements_.fetch_sub(1)`. -/
  | countDown
deriving DecidableEq

section semantics

variable [DecidableEq ι] (cap : ℕ) (s : State ι T)

/-- Producer `i` goes on. -/
def State.setProducer (i : ι) (p : Producer T) : State ι T :=
  { s with producer := Function.update s.producer i p }

/-- A step, if its thread is at it. Source: `lock_free_queue.h` -/
def step : Action ι T → Option (State ι T)
  | .beginPush i value =>
    match s.producer i with
    | .idle =>
      if s.numElements < cap then
        some { s.setProducer i (.hasRoom value) with begun := s.begun ++ [value] }
      else some s
    | _ => none
  | .pickSlot i =>
    match s.producer i with
    | .hasRoom value => some (s.setProducer i (.hasSlot value s.nextIndexToWrite))
    | _ => none
  | .copyIn i =>
    match s.producer i with
    | .hasSlot value slot =>
      some { s.setProducer i (.copied value) with queue := Function.update s.queue slot value }
    | _ => none
  | .loadWrite i =>
    match s.producer i with
    | .copied value => some (s.setProducer i (.loaded value s.nextIndexToWrite))
    | _ => none
  | .advanceWrite i =>
    match s.producer i with
    | .loaded value index =>
      some { s.setProducer i (.advanced value) with
        nextIndexToWrite := (index + 1) % cap
        written := s.written ++ [value] }
    | _ => none
  | .countUp i =>
    match s.producer i with
    | .advanced value =>
      some { s.setProducer i .idle with
        numElements := s.numElements + 1
        pushed := s.pushed ++ [value] }
    | _ => none
  | .beginPop =>
    match s.consumer with
    | .idle => some (if 0 < s.numElements then { s with consumer := .hasElement } else s)
    | _ => none
  | .pickElement =>
    match s.consumer with
    | .hasElement => some { s with consumer := .hasSlot s.nextIndexToRead }
    | _ => none
  | .copyOut =>
    match s.consumer with
    | .hasSlot slot =>
      some { s with consumer := .copied slot, popped := s.popped ++ [s.queue slot] }
    | _ => none
  | .letGo =>
    match s.consumer with
    | .hasSlot _ => some { s with consumer := .idle }
    | _ => none
  | .checkElements =>
    match s.consumer with
    | .copied slot =>
      some { s with consumer := if 0 < s.numElements then .checked slot else .failed }
    | _ => none
  | .advanceRead =>
    match s.consumer with
    | .checked _ =>
      some { s with
        consumer := .advanced
        nextIndexToRead := (s.nextIndexToRead + 1) % cap }
    | _ => none
  | .countDown =>
    match s.consumer with
    | .advanced => some { s with consumer := .idle, numElements := s.numElements - 1 }
    | _ => none

/-- The steps `acts`, one after the other, from a new queue. -/
def run (blank : T) (acts : List (Action ι T)) : Option (State ι T) :=
  acts.foldlM (step cap) (State.init blank)

/-- The steps `acts` lead from a new queue to `s`. -/
def Reaches (blank : T) (acts : List (Action ι T)) : Prop := run cap blank acts = some s

end semantics

section runs

variable [DecidableEq ι] {cap : ℕ} {blank : T}

/-- The runs of the threads on a new queue. -/
theorem runsOf_queue (ι : Type) [DecidableEq ι] (cap : ℕ) (blank : T) :
    Runs.RunsOf (fun (s : State ι T) a s' => step cap s a = some s') (State.init blank)
      (fun acts s => Reaches cap s blank acts) :=
  .ofStep (step cap) (State.init blank)

end runs

/-- **A step taken apart**: where its thread stood, and the state it leads to. -/
inductive Step [DecidableEq ι] (cap : ℕ) (s : State ι T) : Action ι T → State ι T → Prop where
  | beginPush {i value} (hpc : s.producer i = .idle) (hroom : s.numElements < cap) :
    Step cap s (.beginPush i value)
      { s.setProducer i (.hasRoom value) with begun := s.begun ++ [value] }
  | refused {i value} (hpc : s.producer i = .idle) (hfull : ¬ s.numElements < cap) :
    Step cap s (.beginPush i value) s
  | pickSlot {i value} (hpc : s.producer i = .hasRoom value) :
    Step cap s (.pickSlot i) (s.setProducer i (.hasSlot value s.nextIndexToWrite))
  | copyIn {i value slot} (hpc : s.producer i = .hasSlot value slot) :
    Step cap s (.copyIn i)
      { s.setProducer i (.copied value) with queue := Function.update s.queue slot value }
  | loadWrite {i value} (hpc : s.producer i = .copied value) :
    Step cap s (.loadWrite i) (s.setProducer i (.loaded value s.nextIndexToWrite))
  | advanceWrite {i value index} (hpc : s.producer i = .loaded value index) :
    Step cap s (.advanceWrite i)
      { s.setProducer i (.advanced value) with
        nextIndexToWrite := (index + 1) % cap
        written := s.written ++ [value] }
  | countUp {i value} (hpc : s.producer i = .advanced value) :
    Step cap s (.countUp i)
      { s.setProducer i .idle with
        numElements := s.numElements + 1
        pushed := s.pushed ++ [value] }
  | beginPop (hpc : s.consumer = .idle) (hpos : 0 < s.numElements) :
    Step cap s .beginPop { s with consumer := .hasElement }
  | empty (hpc : s.consumer = .idle) (hzero : ¬ 0 < s.numElements) : Step cap s .beginPop s
  | pickElement (hpc : s.consumer = .hasElement) :
    Step cap s .pickElement { s with consumer := .hasSlot s.nextIndexToRead }
  | copyOut {slot} (hpc : s.consumer = .hasSlot slot) :
    Step cap s .copyOut
      { s with consumer := .copied slot, popped := s.popped ++ [s.queue slot] }
  | letGo {slot} (hpc : s.consumer = .hasSlot slot) :
    Step cap s .letGo { s with consumer := .idle }
  | checkElements {slot} (hpc : s.consumer = .copied slot) :
    Step cap s .checkElements
      { s with consumer := if 0 < s.numElements then .checked slot else .failed }
  | advanceRead {slot} (hpc : s.consumer = .checked slot) :
    Step cap s .advanceRead
      { s with consumer := .advanced, nextIndexToRead := (s.nextIndexToRead + 1) % cap }
  | countDown (hpc : s.consumer = .advanced) :
    Step cap s .countDown { s with consumer := .idle, numElements := s.numElements - 1 }

theorem step_cases [DecidableEq ι] {cap : ℕ} {s s' : State ι T} {a : Action ι T}
    (h : step cap s a = some s') : Step cap s a s' := by
  cases a with
  | beginPush i value =>
    simp only [step] at h
    split at h
    · rename_i hpc
      split at h
      · rename_i hroom
        cases h
        exact .beginPush hpc hroom
      · rename_i hfull
        cases h
        exact .refused hpc hfull
    · cases h
  | beginPop =>
    simp only [step] at h
    split at h
    · rename_i hpc
      cases h
      split
      · rename_i hpos
        exact .beginPop hpc hpos
      · rename_i hzero
        exact .empty hpc hzero
    · cases h
  | _ =>
    -- a step of a thread that stands in one place only
    simp only [step] at h
    split at h
    · rename_i hpc
      cases h
      constructor
      exact hpc
    · cases h

theorem producer_setProducer [DecidableEq ι] (s : State ι T) (i j : ι) (p : Producer T) :
    (s.setProducer i p).producer j = if j = i then p else s.producer j :=
  Function.update_apply s.producer i p j

end LFQueue

end HftSys
