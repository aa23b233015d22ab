import HftSys.QueueInvariant

/-!
# The logger

`utils::Logger`: any thread may call `log`, which pushes an element onto the logger's lock-free
queue, and one thread pops the elements and writes them to the file.

`LFQueue::push` takes a slot in one step and advances the write index in a later one, so two threads
may take the same slot (`slot_taken_twice`). `log_elements_kept`: nothing is lost in a run in which
no thread takes a slot that another one has taken or whose element has not been read.
-/

namespace HftSys

open LFQueue

/-- `utils::LogLevel`. Source: `logger.h` -/
inductive LogLevel where
  | debug
  | info
  | warning
  | error
deriving DecidableEq, Repr

/-- `Logger::LogElement`, its arguments being of a type `Arg` that stands for `std::any`.
Source: `logger.h` -/
structure LogElement (Arg : Type) where
  level : LogLevel
  formatString : String
  args : List Arg
deriving DecidableEq

/-- A value-initialised element, as the queue's slots hold it at first. -/
def LogElement.blank (Arg : Type) : LogElement Arg := ⟨.debug, "", []⟩

/-- `LOG_QUEUE_SIZE`. Source: `logger.h` -/
def logQueueSize : ℕ := 8 * 1024 * 1024

variable {Arg ι : Type} [DecidableEq ι]

/-- The logger's queue after the threads `ι` have taken steps of `log`'s `push`, and the flush
thread of `pop`. Source: `logger.h`, `Logger::log`; `logger.cpp`, `Logger::flushQueue` -/
abbrev Logs (acts : List (Action ι (LogElement Arg))) (s : State ι (LogElement Arg)) : Prop :=
  Reaches logQueueSize s (.blank Arg) acts

/-- Every element popped is one that has been passed to `log`, no more often than it has; and when
no thread is inside a call, the elements popped and those that further pops will return are those
whose push has returned true. -/
def LosesNothing (s : State ι (LogElement Arg)) : Prop :=
  (s.popped : Multiset (LogElement Arg)) ≤ s.begun ∧
    (s.AtRest → (s.popped ++ s.waiting logQueueSize).Perm s.pushed)

/-- **Logging loses nothing** in a run in which every slot taken is clear. -/
theorem log_elements_kept [Fintype ι] {acts : List (Action ι (LogElement Arg))}
    (h : Runs.Meets Logs (Clear logQueueSize) acts) :
    Runs.Throughout Logs LosesNothing acts := by
  intro acts₀ acts₁ s heq hrun
  have hinv : Inv logQueueSize s := Inv.throughout h acts₀ acts₁ s heq hrun
  refine ⟨hinv.popped_le_begun, fun hrest => ?_⟩
  rw [hinv.popped_append_waiting hrest]
  exact hinv.written_perm_pushed hrest

/-- Two threads log one after the other, and the first element is popped. -/
def oneAfterTheOther : List (Action (Fin 2) (LogElement ℕ)) :=
  [.beginPush 0 ⟨.info, "one", []⟩, .pickSlot 0, .copyIn 0, .loadWrite 0, .advanceWrite 0,
    .beginPush 1 ⟨.error, "two", [2]⟩, .pickSlot 1, .countUp 0, .copyIn 1, .beginPop,
    .pickElement, .copyOut, .loadWrite 1, .checkElements, .advanceWrite 1, .advanceRead,
    .countUp 1, .countDown]

/-- A run in which every slot taken is clear. -/
theorem log_elements_kept_sample : Runs.Throughout Logs LosesNothing oneAfterTheOther :=
  log_elements_kept (meets_of_clears (by decide +kernel))

/-- Two threads log at the same time: both take slot 0, and one after the other moves the write
index past it. -/
def bothTakeSlot : List (Action (Fin 2) (LogElement ℕ)) :=
  [.beginPush 0 ⟨.info, "one", []⟩, .beginPush 1 ⟨.error, "two", [2]⟩, .pickSlot 0, .pickSlot 1,
    .copyIn 0, .copyIn 1, .loadWrite 0, .advanceWrite 0, .loadWrite 1, .advanceWrite 1, .countUp 0,
    .countUp 1]

/-- Both pushes have returned true; the first element is gone, and the queue holds an element nobody
has logged. -/
theorem slot_taken_twice : ¬ Runs.Throughout Logs LosesNothing bothTakeSlot := by
  intro h
  have hrest : ((run logQueueSize (.blank ℕ) bothTakeSlot).all fun s => decide s.AtRest) = true := by
    decide +kernel
  have hqueue : ((run logQueueSize (.blank ℕ) bothTakeSlot).map fun s =>
      (s.popped ++ s.waiting logQueueSize, s.pushed)) =
      some ([⟨.error, "two", [2]⟩, .blank ℕ], [⟨.info, "one", []⟩, ⟨.error, "two", [2]⟩]) := by
    decide +kernel
  obtain ⟨s, hs, heq⟩ := Option.map_eq_some_iff.mp hqueue
  rw [hs] at hrest
  obtain ⟨hwaiting, hpushed⟩ := Prod.mk.inj heq
  have hperm := (h bothTakeSlot [] s (List.append_nil _).symm hs).2 (of_decide_eq_true hrest)
  rw [hwaiting, hpushed] at hperm
  exact absurd hperm (by decide)

end HftSys
