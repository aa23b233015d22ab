import HftSys.Logger
import HftSys.SingleProducer

/-!
# The logger's end

`Logger::~Logger` clears `running_` and joins the thread in `flushQueue`, which looks at `running_`
only between two batches: when it finds it cleared it returns, whatever the queue still holds.

* `LoggerAction`s are the steps of one logging thread, of the flush thread and of the thread that
  runs the destructor, taken in any order. The first two call the queue step by step, as in
  `LFQueue`.
* A line of the file is kept as the element it is the text of, with the time `appendToBuffer` has
  read.
* `Logger.Inv`: what has been popped has been written, waits in the buffer, or is held by the flush
  thread.
* `shutdown_flushes_iff`: the file is complete when `~Logger` returns exactly when what was left in
  the queue as `running_` was cleared fits into the batch under way.

Left out: the text of a line, the file's path and the mutex of `setLogFile`.
-/

namespace HftSys

open LFQueue

/-- The elements one turn of `flushQueue`'s outer loop pops at most.
Source: `logger.cpp`, `Logger::flushQueue` -/
def flushBatch : ℕ := 100

/-- A line of the log. Source: `logger.cpp`, `Logger::appendToBuffer` -/
structure LogLine (Arg : Type) where
  time : String
  elem : LogElement Arg
deriving DecidableEq

/-- Where the flush thread stands. Source: `logger.cpp`, `Logger::flushQueue` -/
inductive Flusher (Arg : Type) where
  /-- At the test of `running_`. -/
  | head
  /-- At the test of the inner loop. -/
  | batch (i : ℕ)
  /-- In `pop`, which may have read its value. -/
  | popping (i : ℕ) (value : Option (LogElement Arg))
  /-- `pop` has returned. -/
  | appending (i : ℕ) (next : Option (LogElement Arg))
  /-- Behind the inner loop. -/
  | writing
  | sleeping
  | returned
deriving DecidableEq

/-- Where the thread that destroys the logger stands, with what had been logged when it began. -/
inductive Destructor (Arg : Type) where
  | idle
  | started (logged : List (LogElement Arg))
  /-- `running_` has been cleared. -/
  | cleared (logged : List (LogElement Arg))
  /-- The flush thread has been joined and the file closed. -/
  | returned (logged : List (LogElement Arg))
deriving DecidableEq

/-- `utils::Logger`. Source: `logger.h` -/
structure Logger (Arg : Type) where
  logQueue : LFQueue.State Unit (LogElement Arg)
  running : Bool
  buffer : List (LogLine Arg)
  logFile : List (LogLine Arg)
  flusher : Flusher Arg
  destructor : Destructor Arg

/-- A step of one of the threads. -/
inductive LoggerAction (Arg : Type) where
  /-- The logging thread calls `push`. -/
  | log (elem : LogElement Arg)
  /-- The logging thread goes on in `push`. -/
  | push
  /-- The flush thread loads `running_`. -/
  | loadRunning
  /-- The flush thread tests `i < 100 && logQueue_.size()`. -/
  | testBatch
  /-- The flush thread takes a step of `pop`. -/
  | pop
  /-- The flush thread appends what `pop` has returned, at this time. -/
  | append (time : String)
  /-- The flush thread writes the buffer, unless it is empty. -/
  | write
  /-- The flush thread wakes up. -/
  | wake
  /-- `~Logger` is called. -/
  | destroy
  /-- `running_ = false`. -/
  | clear
  /-- The join returns, and the file is closed. -/
  | join
deriving DecidableEq

/-- The next step of a thread in `push`. Source: `lock_free_queue.h`, `LFQueue::push` -/
def LFQueue.Producer.nextStep {T : Type} : Producer T → Option (Action Unit T)
  | .idle => none
  | .hasRoom _ => some (.pickSlot ())
  | .hasSlot _ _ => some (.copyIn ())
  | .copied _ => some (.loadWrite ())
  | .loaded _ _ => some (.advanceWrite ())
  | .advanced _ => some (.countUp ())

/-- The next step of a thread in `pop`. Source: `lock_free_queue.h`, `LFQueue::pop` -/
def LFQueue.Consumer.nextStep {T : Type} : Consumer → Option (Action Unit T)
  | .idle => some .beginPop
  | .hasElement => some .pickElement
  | .hasSlot _ => some .copyOut
  | .copied _ => some .checkElements
  | .checked _ => some .advanceRead
  | .advanced => some .countDown
  | .failed => none

namespace Logger

variable {Arg : Type}

/-- A new logger. Source: `logger.cpp`, `Logger::Logger` -/
def create (Arg : Type) : Logger Arg where
  logQueue := .init (.blank Arg)
  running := true
  buffer := []
  logFile := []
  flusher := .head
  destructor := .idle

/-- The flush thread after a step of `pop` on turn `i`, the queue having been `before` and being
`after`. -/
def afterPop (i : ℕ) (value : Option (LogElement Arg))
    (before after : LFQueue.State Unit (LogElement Arg)) : Flusher Arg :=
  match before.consumer with
  | .idle => if after.consumer = .idle then .appending i none else .popping i value
  | .hasSlot slot => .popping i (some (before.queue slot))
  | .advanced => .appending i value
  | _ => .popping i value

/-- The logger after a step, if its thread is at it.
Source: `logger.h`, `Logger::log`; `logger.cpp`, `Logger::flushQueue` and `Logger::~Logger` -/
def step (s : Logger Arg) : LoggerAction Arg → Option (Logger Arg)
  | .log elem =>
    (LFQueue.step logQueueSize s.logQueue (.beginPush () elem)).map fun q => { s with logQueue := q }
  | .push =>
    ((s.logQueue.producer ()).nextStep >>= LFQueue.step logQueueSize s.logQueue).map fun q =>
      { s with logQueue := q }
  | .loadRunning =>
    match s.flusher with
    | .head =>
      if s.running then some { s with buffer := [], flusher := .batch 0 }
      else some { s with flusher := .returned }
    | _ => none
  | .testBatch =>
    match s.flusher with
    | .batch i =>
      if i < flushBatch ∧ 0 < s.logQueue.numElements then some { s with flusher := .popping i none }
      else some { s with flusher := .writing }
    | _ => none
  | .pop =>
    match s.flusher with
    | .popping i value =>
      (s.logQueue.consumer.nextStep >>= LFQueue.step logQueueSize s.logQueue).map fun q =>
        { s with logQueue := q, flusher := afterPop i value s.logQueue q }
    | _ => none
  | .append time =>
    match s.flusher with
    | .appending i none => some { s with flusher := .batch (i + 1) }
    | .appending i (some elem) =>
      some { s with buffer := s.buffer ++ [⟨time, elem⟩], flusher := .batch (i + 1) }
    | _ => none
  | .write =>
    match s.flusher with
    | .writing =>
      if s.buffer = [] then some { s with flusher := .sleeping }
      else some { s with logFile := s.logFile ++ s.buffer, flusher := .sleeping }
    | _ => none
  | .wake =>
    match s.flusher with
    | .sleeping => some { s with flusher := .head }
    | _ => none
  | .destroy =>
    match s.destructor with
    | .idle => some { s with destructor := .started s.logQueue.pushed }
    | _ => none
  | .clear =>
    match s.destructor with
    | .started logged => some { s with running := false, destructor := .cleared logged }
    | _ => none
  | .join =>
    match s.destructor, s.flusher with
    | .cleared logged, .returned => some { s with destructor := .returned logged }
    | _, _ => none

end Logger

/-! ## Steps taken apart -/

/-- What a step of `pop` does to the queue and to the flush thread. -/
inductive PopMoves {Arg : Type} (i : ℕ) (value : Option (LogElement Arg))
    (before after : LFQueue.State Unit (LogElement Arg)) : Flusher Arg → Prop
  /-- Nothing is read. -/
  | stay (hpopped : after.popped = before.popped)
      (huncounted : after.consumer.uncounted = before.consumer.uncounted) :
      PopMoves i value before after (.popping i value)
  | read {elem : LogElement Arg} (hbefore : before.consumer.uncounted = 0)
      (hafter : after.consumer.uncounted = 1) (hpopped : after.popped = before.popped ++ [elem]) :
      PopMoves i value before after (.popping i (some elem))
  /-- The queue is empty. -/
  | empty (hidle : before.consumer = .idle) (hzero : before.numElements = 0)
      (hsame : after = before) : PopMoves i value before after (.appending i none)
  | finish (hbefore : before.consumer.uncounted = 1) (hidle : after.consumer = .idle)
      (hpopped : after.popped = before.popped) : PopMoves i value before after (.appending i value)

/-- What a step does. -/
inductive LoggerMoves {Arg : Type} (s : Logger Arg) : LoggerAction Arg → Logger Arg → Prop
  | log {a : LoggerAction Arg} {b : Action Unit (LogElement Arg)}
      {q : LFQueue.State Unit (LogElement Arg)}
      (hstep : LFQueue.step logQueueSize s.logQueue b = some q)
      (hconsumer : q.consumer = s.logQueue.consumer) (hpopped : q.popped = s.logQueue.popped)
      (hpushed : s.logQueue.pushed <+: q.pushed) (ha : a ≠ .clear) :
      LoggerMoves s a { s with logQueue := q }
  | enter (hat : s.flusher = .head) (hrun : s.running = true) :
      LoggerMoves s .loadRunning { s with buffer := [], flusher := .batch 0 }
  | leave (hat : s.flusher = .head) (hrun : s.running = false) :
      LoggerMoves s .loadRunning { s with flusher := .returned }
  | turn {i : ℕ} (hat : s.flusher = .batch i) (hi : i < flushBatch) :
      LoggerMoves s .testBatch { s with flusher := .popping i none }
  | stop {i : ℕ} (hat : s.flusher = .batch i) (hi : flushBatch ≤ i ∨ s.logQueue.numElements = 0) :
      LoggerMoves s .testBatch { s with flusher := .writing }
  | pop {i : ℕ} {value : Option (LogElement Arg)} {b : Action Unit (LogElement Arg)}
      {q : LFQueue.State Unit (LogElement Arg)} {f : Flusher Arg}
      (hat : s.flusher = .popping i value)
      (hstep : LFQueue.step logQueueSize s.logQueue b = some q)
      (hpushed : q.pushed = s.logQueue.pushed) (hmoves : q.consumer ≠ .failed →
        PopMoves i value s.logQueue q f) :
      LoggerMoves s .pop { s with logQueue := q, flusher := f }
  | skip {i : ℕ} {time : String} (hat : s.flusher = .appending i none) :
      LoggerMoves s (.append time) { s with flusher := .batch (i + 1) }
  | append {i : ℕ} {time : String} {elem : LogElement Arg}
      (hat : s.flusher = .appending i (some elem)) :
      LoggerMoves s (.append time)
        { s with buffer := s.buffer ++ [⟨time, elem⟩], flusher := .batch (i + 1) }
  | write (hat : s.flusher = .writing) :
      LoggerMoves s .write { s with logFile := s.logFile ++ s.buffer, flusher := .sleeping }
  | wake (hat : s.flusher = .sleeping) : LoggerMoves s .wake { s with flusher := .head }
  | destroy (hat : s.destructor = .idle) :
      LoggerMoves s .destroy { s with destructor := .started s.logQueue.pushed }
  | clear {logged : List (LogElement Arg)} (hat : s.destructor = .started logged) :
      LoggerMoves s .clear { s with running := false, destructor := .cleared logged }
  | join {logged : List (LogElement Arg)} (hat : s.destructor = .cleared logged)
      (hreturned : s.flusher = .returned) :
      LoggerMoves s .join { s with destructor := .returned logged }

section moves

variable {Arg : Type} {s s' : Logger Arg} {a : LoggerAction Arg}
  {q q' : LFQueue.State Unit (LogElement Arg)} {b : Action Unit (LogElement Arg)} {i : ℕ}
  {value : Option (LogElement Arg)}

/-- A step of `push` does not touch the reading end. -/
theorem LFQueue.step_of_nextStep {cap : ℕ} (hb : (q.producer ()).nextStep = some b)
    (h : LFQueue.step cap q b = some q') :
    q'.consumer = q.consumer ∧ q'.popped = q.popped ∧ q.pushed <+: q'.pushed := by
  cases hp : q.producer () with
  | idle =>
    rw [hp] at hb
    cases hb
  | hasRoom v =>
    rw [hp] at hb
    cases hb
    cases LFQueue.step_cases h with
    | pickSlot => exact ⟨rfl, rfl, List.prefix_refl _⟩
  | hasSlot v slot =>
    rw [hp] at hb
    cases hb
    cases LFQueue.step_cases h with
    | copyIn => exact ⟨rfl, rfl, List.prefix_refl _⟩
  | copied v =>
    rw [hp] at hb
    cases hb
    cases LFQueue.step_cases h with
    | loadWrite => exact ⟨rfl, rfl, List.prefix_refl _⟩
  | loaded v index =>
    rw [hp] at hb
    cases hb
    cases LFQueue.step_cases h with
    | advanceWrite => exact ⟨rfl, rfl, List.prefix_refl _⟩
  | advanced v =>
    rw [hp] at hb
    cases hb
    cases LFQueue.step_cases h with
    | countUp => exact ⟨rfl, rfl, List.prefix_append _ _⟩

/-- A step of `pop` taken apart. -/
theorem popMoves_of_nextStep {cap : ℕ} (hb : q.consumer.nextStep = some b)
    (h : LFQueue.step cap q b = some q') :
    q'.pushed = q.pushed ∧
      (q'.consumer ≠ .failed → PopMoves i value q q' (Logger.afterPop i value q q')) := by
  cases LFQueue.step_cases h with
  | beginPop hpc hpos =>
    refine ⟨rfl, fun _ => ?_⟩
    simp only [Logger.afterPop, hpc]
    exact .stay rfl (by rw [hpc]; rfl)
  | empty hpc hzero =>
    refine ⟨rfl, fun _ => ?_⟩
    simp only [Logger.afterPop, hpc, if_true]
    exact .empty hpc (by omega) rfl
  | pickElement hpc =>
    refine ⟨rfl, fun _ => ?_⟩
    simp only [Logger.afterPop, hpc]
    exact .stay rfl (by rw [hpc]; rfl)
  | copyOut hpc =>
    refine ⟨rfl, fun _ => ?_⟩
    simp only [Logger.afterPop, hpc]
    exact .read (by rw [hpc]; rfl) rfl rfl
  | checkElements hpc =>
    refine ⟨rfl, fun hfailed => ?_⟩
    simp only [Logger.afterPop, hpc]
    refine .stay rfl ?_
    by_cases hpos : 0 < q.numElements
    · simp [hpos, hpc, Consumer.uncounted]
    · simp [hpos] at hfailed
  | advanceRead hpc =>
    refine ⟨rfl, fun _ => ?_⟩
    simp only [Logger.afterPop, hpc]
    exact .stay rfl (by rw [hpc]; rfl)
  | countDown hpc =>
    refine ⟨rfl, fun _ => ?_⟩
    simp only [Logger.afterPop, hpc]
    exact .finish (by rw [hpc]; rfl) rfl rfl
  | _ =>
    -- the other steps are not steps of `pop`
    cases hc : q.consumer <;> simp [hc, Consumer.nextStep] at hb

/-- **`step` taken apart.** -/
theorem Logger.step_ok (h : s.step a = some s') : LoggerMoves s a s' := by
  cases a with
  | log elem =>
    obtain ⟨q, hq, rfl⟩ := Option.map_eq_some_iff.mp h
    cases LFQueue.step_cases hq with
    | beginPush | refused => exact .log hq rfl rfl (List.prefix_refl _) nofun
  | push =>
    obtain ⟨q, hq, rfl⟩ := Option.map_eq_some_iff.mp h
    obtain ⟨b, hb, hstep⟩ := Option.bind_eq_some_iff.mp hq
    obtain ⟨hconsumer, hpopped, hpushed⟩ := LFQueue.step_of_nextStep hb hstep
    exact .log hstep hconsumer hpopped hpushed nofun
  | loadRunning =>
    simp only [Logger.step] at h
    split at h
    · rename_i hat
      split at h
      · rename_i hrun
        cases h
        exact .enter hat hrun
      · rename_i hrun
        cases h
        exact .leave hat (by simpa using hrun)
    · cases h
  | testBatch =>
    simp only [Logger.step] at h
    split at h
    · rename_i i hat
      split at h
      · rename_i hturn
        cases h
        exact .turn hat hturn.1
      · rename_i hstop
        cases h
        exact .stop hat (by omega)
    · cases h
  | pop =>
    simp only [Logger.step] at h
    split at h
    · rename_i i value hat
      obtain ⟨q, hq, rfl⟩ := Option.map_eq_some_iff.mp h
      obtain ⟨b, hb, hstep⟩ := Option.bind_eq_some_iff.mp hq
      obtain ⟨hpushed, hmoves⟩ := popMoves_of_nextStep hb hstep
      exact .pop hat hstep hpushed hmoves
    · cases h
  | append time =>
    simp only [Logger.step] at h
    split at h
    · rename_i i hat
      cases h
      exact .skip hat
    · rename_i i elem hat
      cases h
      exact .append hat
    · cases h
  | write =>
    simp only [Logger.step] at h
    split at h
    · rename_i hat
      split at h
      · rename_i hempty
        cases h
        have hsame : s.logFile ++ s.buffer = s.logFile := by rw [hempty, List.append_nil]
        have hmove := LoggerMoves.write hat
        rw [hsame] at hmove
        exact hmove
      · cases h
        exact .write hat
    · cases h
  | wake | destroy | clear | join =>
    -- a step of a thread that stands in one place only
    simp only [Logger.step] at h
    split at h
    · cases h
      constructor <;> assumption
    · cases h

end moves

/-! ## What has become of an element popped -/

namespace Flusher

variable {Arg : Type}

/-- The element the thread holds. -/
@[simp] def held : Flusher Arg → List (LogElement Arg)
  | .popping _ value => value.toList
  | .appending _ next => next.toList
  | _ => []

/-- The buffer holds lines that have not been written. -/
@[simp] def Fills : Flusher Arg → Prop
  | .batch _ | .popping _ _ | .appending _ _ | .writing => True
  | _ => False

instance (f : Flusher Arg) : Decidable f.Fills := by
  cases f <;> unfold Fills <;> infer_instance

/-- The elements the thread may still take off the queue before it looks at `running_` again. -/
def room : Flusher Arg → ℕ
  | .batch i => flushBatch - i
  | .popping i value => flushBatch - (i + value.toList.length)
  | .appending i _ => flushBatch - (i + 1)
  | _ => 0

@[simp] theorem room_batch (i : ℕ) : (batch i : Flusher Arg).room = flushBatch - i := rfl

@[simp] theorem room_popping (i : ℕ) (value : Option (LogElement Arg)) :
    (popping i value).room = flushBatch - (i + value.toList.length) := rfl

@[simp] theorem room_appending (i : ℕ) (next : Option (LogElement Arg)) :
    (appending i next).room = flushBatch - (i + 1) := rfl

@[simp] theorem room_writing : (writing : Flusher Arg).room = 0 := rfl

@[simp] theorem room_returned : (returned : Flusher Arg).room = 0 := rfl

/-- Where the thread stands in `pop`, when the queue's reading end stands at `c`. -/
def Agrees : Flusher Arg → Consumer → Prop
  | .popping i value, c => i < flushBatch ∧ c.uncounted = value.toList.length
  | _, c => c = .idle

end Flusher

namespace Logger

variable {Arg : Type}

/-- The elements of some lines. -/
def elems (lines : List (LogLine Arg)) : List (LogElement Arg) := lines.map (·.elem)

/-- The lines in the buffer that have not been written. -/
def unwritten (s : Logger Arg) : List (LogLine Arg) := if s.flusher.Fills then s.buffer else []

/-- The elements logged before the destructor was called. -/
def logged (s : Logger Arg) : List (LogElement Arg) :=
  match s.destructor with
  | .idle => []
  | .started logged | .cleared logged | .returned logged => logged

/-- What holds between the steps. -/
structure Inv (s : Logger Arg) : Prop where
  logs : ∃ acts, Logs acts s.logQueue
  agrees : s.flusher.Agrees s.logQueue.consumer
  popped : s.logQueue.popped = elems s.logFile ++ elems s.unwritten ++ s.flusher.held
  logged : s.logged <+: s.logQueue.pushed

/-- The file holds every element logged before the destructor was called, and nothing but elements
logged, each once and in the order of the pushes. -/
structure Flushed (s : Logger Arg) : Prop where
  complete : s.logged <+: elems s.logFile
  faithful : elems s.logFile <+: s.logQueue.pushed

/-- What had been logged and not yet popped fits into the batch under way. -/
def FitsBatch (s : Logger Arg) : Prop :=
  s.logged.length ≤ s.logQueue.popped.length + s.flusher.room

instance (s : Logger Arg) : Decidable s.FitsBatch := inferInstanceAs (Decidable (_ ≤ _))

/-- `running_` has been cleared in state `s₁`: the flush thread takes what its batch has room for,
unless it finds the queue empty before. -/
structure Drains (s₁ s : Logger Arg) : Prop where
  running : s.running = false
  destructor : s.destructor = .cleared s₁.logged ∨
    s.destructor = .returned s₁.logged ∧ s.flusher = .returned
  le_room : s.logQueue.popped.length + s.flusher.room ≤ s₁.logQueue.popped.length + s₁.flusher.room
  complete_or : s₁.logged.length ≤ s.logQueue.popped.length ∨
    s.logQueue.popped.length + s.flusher.room = s₁.logQueue.popped.length + s₁.flusher.room

end Logger

/-- The actions may lead from a new logger to `s`. -/
abbrev LoggerRuns {Arg : Type} (actions : List (LoggerAction Arg)) (s : Logger Arg) : Prop :=
  actions.foldlM Logger.step (.create Arg) = some s

theorem runsOf_logger (Arg : Type) :
    Runs.RunsOf (fun s a s' => Logger.step s a = some s') (Logger.create Arg) LoggerRuns :=
  .ofStep Logger.step (.create Arg)

section invariant

variable {Arg : Type} {s s' : Logger Arg} {a : LoggerAction Arg} {actions : List (LoggerAction Arg)}

/-- What the queue's own invariants say of the logger's queue. -/
theorem Logger.Inv.queue (h : s.Inv) :
    s.logQueue.popped <+: s.logQueue.pushed ∧ s.logQueue.consumer ≠ .failed ∧
      s.logQueue.numElements + s.logQueue.popped.length =
        s.logQueue.pushed.length + s.logQueue.consumer.uncounted := by
  obtain ⟨acts, hacts⟩ := h.logs
  obtain ⟨hinv, -, ops, -, himp⟩ := reaches_implements hacts
  refine ⟨?_, hinv.notFailed, hinv.counted⟩
  rw [← himp.taken, ← himp.entered]
  exact List.prefix_append _ _

/-- The queue goes on as the threads of `LFQueue` do. -/
theorem Logger.Inv.logs_step (h : s.Inv) {b : Action Unit (LogElement Arg)}
    {q : LFQueue.State Unit (LogElement Arg)}
    (hstep : LFQueue.step logQueueSize s.logQueue b = some q) : ∃ acts, Logs acts q := by
  obtain ⟨acts, hacts⟩ := h.logs
  exact ⟨acts ++ [b], (runsOf_queue Unit _ _).concat.mpr ⟨_, hacts, hstep⟩⟩

theorem inv_create (Arg : Type) : (Logger.create Arg).Inv where
  logs := ⟨[], rfl⟩
  agrees := rfl
  popped := rfl
  logged := List.prefix_refl _

/-- Where the flush thread stands after a step of `pop`. -/
theorem PopMoves.agrees {i : ℕ} {value : Option (LogElement Arg)}
    {q q' : LFQueue.State Unit (LogElement Arg)} {f : Flusher Arg} (h : PopMoves i value q q' f)
    (hat : (Flusher.popping i value).Agrees q.consumer) : f.Agrees q'.consumer := by
  obtain ⟨hi, huncounted⟩ := hat
  cases h with
  | stay hq hsame => exact ⟨hi, hsame.trans huncounted⟩
  | read hbefore hafter hq => exact ⟨hi, hafter⟩
  | empty hidle hzero hsame =>
    rw [hsame, hidle]
    rfl
  | finish hbefore hidle hq => exact hidle

/-- What a step of `pop` takes off the queue is held. -/
theorem PopMoves.popped {i : ℕ} {value : Option (LogElement Arg)}
    {q q' : LFQueue.State Unit (LogElement Arg)} {f : Flusher Arg} (h : PopMoves i value q q' f)
    (hat : (Flusher.popping i value).Agrees q.consumer) {past : List (LogElement Arg)}
    (hpopped : q.popped = past ++ value.toList) : f.Fills ∧ q'.popped = past ++ f.held := by
  have huncounted := hat.2
  cases h with
  | stay hq hsame => exact ⟨trivial, hq.trans hpopped⟩
  | read hbefore hafter hq =>
    rw [List.eq_nil_of_length_eq_zero (huncounted.symm.trans hbefore), List.append_nil] at hpopped
    exact ⟨trivial, by simp [hq, hpopped]⟩
  | empty hidle hzero hsame =>
    rw [hidle] at huncounted
    rw [List.eq_nil_of_length_eq_zero huncounted.symm] at hpopped
    exact ⟨trivial, by simp [hsame, hpopped]⟩
  | finish hbefore hidle hq => exact ⟨trivial, hq.trans hpopped⟩

/-- A step keeps track of every element popped. -/
theorem Logger.Inv.step (h : s.Inv) (hm : LoggerMoves s a s') : s'.Inv := by
  have hagrees := h.agrees
  have hpopped := h.popped
  have hlogged := h.logged
  cases hm with
  | log hstep hconsumer hq hpushed ha =>
    refine ⟨h.logs_step hstep, ?_, ?_, hlogged.trans hpushed⟩
    · show s.flusher.Agrees _
      rw [hconsumer]
      exact hagrees
    · show State.popped _ = _
      rw [hq]
      exact hpopped
  | turn hat hi =>
    rw [hat] at hagrees
    refine ⟨h.logs, ⟨hi, by rw [show s.logQueue.consumer = .idle from hagrees]; rfl⟩, ?_, hlogged⟩
    simpa [Logger.unwritten, hat] using hpopped
  | pop hat hstep hpushed hmoves =>
    obtain ⟨acts, hacts⟩ := h.logs_step hstep
    have hpop := hmoves (reaches_implements hacts).1.notFailed
    rw [hat] at hagrees
    simp only [Logger.unwritten, hat, Flusher.Fills, Flusher.held, if_true] at hpopped
    obtain ⟨hfills, hheld⟩ := hpop.popped hagrees hpopped
    refine ⟨⟨acts, hacts⟩, hpop.agrees hagrees, ?_, ?_⟩
    · rw [Logger.unwritten, if_pos hfills]
      exact hheld
    · show s.logged <+: State.pushed _
      rw [hpushed]
      exact hlogged
  | enter hat hrun | leave hat hrun | stop hat hi | skip hat | append hat | write hat | wake hat =>
    rw [hat] at hagrees
    refine ⟨h.logs, hagrees, ?_, hlogged⟩
    simpa [Logger.unwritten, hat, Logger.elems] using hpopped
  | destroy hat => exact ⟨h.logs, hagrees, hpopped, List.prefix_refl _⟩
  | clear hat | join hat hreturned =>
    refine ⟨h.logs, hagrees, hpopped, ?_⟩
    simpa [Logger.logged, hat] using hlogged

/-- The destructor keeps what it has been called with. -/
theorem Logger.Drains.logged_eq {s₁ : Logger Arg} (h : s₁.Drains s) : s.logged = s₁.logged := by
  rcases h.destructor with hd | ⟨hd, -⟩ <;> simp [Logger.logged, hd]

/-- A step of the logging thread or of the flush thread, when what has been popped and what there is
still room for add up to the same as before, or everything has been popped. -/
theorem Logger.Drains.go_on {s₁ : Logger Arg} (h : s₁.Drains s) (hrun : s'.running = s.running)
    (hdestructor : s'.destructor = s.destructor)
    (hat : s.flusher ≠ .returned ∨ s'.flusher = s.flusher)
    (hpopped : s.logQueue.popped.length ≤ s'.logQueue.popped.length)
    (hle : s'.logQueue.popped.length + s'.flusher.room ≤
      s.logQueue.popped.length + s.flusher.room)
    (hor : s₁.logged.length ≤ s'.logQueue.popped.length ∨
      s'.logQueue.popped.length + s'.flusher.room = s.logQueue.popped.length + s.flusher.room) :
    s₁.Drains s' := by
  refine ⟨hrun.trans h.running, ?_, hle.trans h.le_room, ?_⟩
  · rw [hdestructor]
    refine h.destructor.imp_right fun ⟨hreturned, hdone⟩ => ⟨hreturned, ?_⟩
    rcases hat with hmoves | hstays
    · exact absurd hdone hmoves
    · exact hstays.trans hdone
  · rcases h.complete_or with hall | hsum
    · exact .inl (hall.trans hpopped)
    · exact hor.imp_right fun hkept => hkept.trans hsum

/-- What the flush thread does once `running_` has been cleared. -/
theorem Logger.Drains.step {s₁ : Logger Arg} (h : s₁.Drains s) (hinv : s.Inv)
    (hm : LoggerMoves s a s') : s₁.Drains s' := by
  have hagrees := hinv.agrees
  obtain ⟨-, -, hcounted⟩ := hinv.queue
  have hlength := hinv.logged.length_le
  rw [h.logged_eq] at hlength
  cases hm with
  | log hstep hconsumer hq hpushed ha =>
    exact h.go_on rfl rfl (.inr rfl) (by simp [hq]) (by simp [hq]) (.inr (by simp [hq]))
  | enter hat hrun =>
    rw [h.running] at hrun
    cases hrun
  | leave hat hrun | turn hat hi | skip hat | append hat | write hat | wake hat =>
    exact h.go_on rfl rfl (.inl (by simp [hat])) le_rfl (by simp [hat, Flusher.room])
      (.inr (by simp [hat, Flusher.room]))
  | @stop i hat hi =>
    rw [hat] at hagrees
    rw [show s.logQueue.consumer = .idle from hagrees] at hcounted
    simp only [Consumer.uncounted] at hcounted
    refine h.go_on rfl rfl (.inl (by simp [hat])) le_rfl (by simp) ?_
    rcases hi with hfull | hempty
    · exact .inr (by simp [hat, Nat.sub_eq_zero_of_le hfull])
    · exact .inl (by dsimp only; omega)
  | @pop i value b q f hat hstep hpushed hmoves =>
    obtain ⟨acts, hacts⟩ := hinv.logs_step hstep
    rw [hat] at hagrees
    obtain ⟨hi, huncounted⟩ := hagrees
    have hroom : s.flusher.room = flushBatch - (i + value.toList.length) := by simp [hat]
    have hmoving : s.flusher ≠ .returned := by simp [hat]
    cases hmoves (reaches_implements hacts).1.notFailed with
    | stay hq hsame =>
      exact h.go_on rfl rfl (.inl hmoving) (by simp [hq]) (by simp [hq, hroom])
        (.inr (by simp [hq, hroom]))
    | read hbefore hafter hq =>
      -- one element more has been popped, and there is room for one less
      rw [hbefore] at huncounted
      have hsum : (s.logQueue.popped.length + 1) + (flushBatch - (i + 1)) =
          s.logQueue.popped.length + s.flusher.room := by omega
      exact h.go_on rfl rfl (.inl hmoving) (by simp [hq]) (by simp [hq, hsum])
        (.inr (by simp [hq, hsum]))
    | empty hidle hzero hsame =>
      rw [hidle] at hcounted huncounted
      simp only [Consumer.uncounted] at hcounted huncounted
      subst hsame
      refine h.go_on rfl rfl (.inl hmoving) le_rfl ?_ (.inl (by dsimp only; omega))
      simp only [hroom, Flusher.room_appending]
      omega
    | finish hbefore hidle hq =>
      rw [← huncounted, hbefore] at hroom
      exact h.go_on rfl rfl (.inl hmoving) (by simp [hq]) (by simp [hq, hroom])
        (.inr (by simp [hq, hroom]))
  | destroy hat | clear hat => rcases h.destructor with hd | ⟨hd, -⟩ <;> simp [hat] at hd
  | join hat hreturned =>
    rcases h.destructor with hd | ⟨hd, -⟩
    · rw [hat] at hd
      cases hd
      exact ⟨h.running, .inr ⟨rfl, hreturned⟩, h.le_room, h.complete_or⟩
    · simp [hat] at hd

/-- Until `running_` is cleared. -/
theorem Logger.destructor_step (h : s.destructor = .idle ∨ ∃ logged, s.destructor = .started logged)
    (hm : LoggerMoves s a s') :
    (s'.destructor = .idle ∨ ∃ logged, s'.destructor = .started logged) ∨
      a = .clear ∧ s.Drains s' := by
  cases hm with
  | destroy hat => exact .inl (.inr ⟨_, rfl⟩)
  | clear hat =>
    refine .inr ⟨rfl, rfl, .inl ?_, le_rfl, .inr rfl⟩
    simp [Logger.logged, hat]
  | join hat hreturned => simp [hat] at h
  | _ => exact .inl h

/-- **A run of the logger**: every element popped is accounted for, and once `running_` has been
cleared the flush thread drains what its batch has room for. -/
theorem LoggerRuns.drains (h : LoggerRuns actions s) :
    s.Inv ∧ ((s.destructor = .idle ∨ ∃ logged, s.destructor = .started logged) ∨
      ∃ before after s₁, actions = before ++ .clear :: after ∧ LoggerRuns before s₁ ∧
        s₁.Drains s) := by
  refine (runsOf_logger Arg).induction (P := fun actions s => s.Inv ∧
    ((s.destructor = .idle ∨ ∃ logged, s.destructor = .started logged) ∨
      ∃ before after s₁, actions = before ++ .clear :: after ∧ LoggerRuns before s₁ ∧
        s₁.Drains s)) ⟨inv_create Arg, .inl (.inl rfl)⟩ ?_ h
  rintro actions a s s' hrun ⟨hinv, hphase⟩ hstep
  have hm := Logger.step_ok hstep
  refine ⟨hinv.step hm, ?_⟩
  rcases hphase with hbefore | ⟨before, after, s₁, rfl, hbefore, hdrains⟩
  · rcases Logger.destructor_step hbefore hm with hstill | ⟨rfl, hdrains⟩
    · exact .inl hstill
    · exact .inr ⟨actions, [], s, rfl, hrun, hdrains⟩
  · exact .inr ⟨before, after ++ [a], s₁, by simp, hbefore, hdrains.step hinv hm⟩

/-- What is written when the flush thread is done: all it has popped. -/
theorem Logger.Inv.flushed_iff (h : s.Inv) (hreturned : s.flusher = .returned) :
    s.Flushed ↔ s.logged.length ≤ s.logQueue.popped.length := by
  have hpopped := h.popped
  simp only [Logger.unwritten, Flusher.Fills, Flusher.held, hreturned, if_false,
    List.append_nil] at hpopped
  have hfile : Logger.elems s.logFile = s.logQueue.popped := by
    rw [hpopped]
    exact (List.append_nil _).symm
  have hprefix : s.logQueue.popped <+: s.logQueue.pushed := h.queue.1
  constructor
  · intro hflushed
    rw [← hfile]
    exact hflushed.complete.length_le
  · intro hle
    refine ⟨?_, ?_⟩
    · rw [hfile]
      exact List.prefix_of_prefix_length_le h.logged hprefix hle
    · rw [hfile]
      exact hprefix

/-- **When the destructor flushes the log**: in every run in which `~Logger` returns, the file is
complete exactly when, as `running_` was cleared, what had been logged and not popped was no more
than the batch under way had room for. -/
theorem shutdown_flushes_iff {logged : List (LogElement Arg)} (h : LoggerRuns actions s)
    (hreturned : s.destructor = .returned logged) :
    ∃ before after s₁, actions = before ++ .clear :: after ∧ LoggerRuns before s₁ ∧
      (s.Flushed ↔ s₁.FitsBatch) := by
  obtain ⟨hinv, hbefore | ⟨before, after, s₁, heq, hbefore, hdrains⟩⟩ := h.drains
  · simp [hreturned] at hbefore
  · refine ⟨before, after, s₁, heq, hbefore, ?_⟩
    have hdone : s.flusher = .returned := by
      rcases hdrains.destructor with hcleared | ⟨-, hdone⟩
      · simp [hreturned] at hcleared
      · exact hdone
    have hle := hdrains.le_room
    have hor := hdrains.complete_or
    rw [hinv.flushed_iff hdone, hdrains.logged_eq, Logger.FitsBatch]
    rw [hdone, Flusher.room_returned, Nat.add_zero] at hle hor
    constructor
    · intro hall
      exact hall.trans hle
    · intro hfits
      rcases hor with hall | heq
      · exact hall
      · rw [← heq] at hfits
        exact hfits

/-- An element is logged, and `running_` is cleared once the flush thread has begun a batch. -/
def clearedInBatch : List (LoggerAction ℕ) :=
  [.log ⟨.info, "one", []⟩, .push, .push, .push, .push, .push, .loadRunning, .testBatch, .destroy,
    .clear, .pop, .pop, .pop, .pop, .pop, .pop, .append "12:00", .testBatch, .write, .wake,
    .loadRunning, .join]

/-- The element is written. -/
theorem shutdown_flushes_iff_sample :
    ∃ s : Logger ℕ, LoggerRuns clearedInBatch s ∧ s.logFile = [⟨"12:00", ⟨.info, "one", []⟩⟩] ∧
      ∃ before after s₁, clearedInBatch = before ++ .clear :: after ∧ LoggerRuns before s₁ ∧
        (s.Flushed ↔ s₁.FitsBatch) := by
  have hrun : ((clearedInBatch.foldlM Logger.step (.create ℕ)).map fun s =>
      (s.logFile, s.destructor)) =
      some ([⟨"12:00", ⟨.info, "one", []⟩⟩], .returned [⟨.info, "one", []⟩]) := by
    decide +kernel
  obtain ⟨s, hs, heq⟩ := Option.map_eq_some_iff.mp hrun
  obtain ⟨hfile, hreturned⟩ := Prod.mk.inj heq
  exact ⟨s, hs, hfile, shutdown_flushes_iff hs hreturned⟩

/-- An element is logged, and `running_` is cleared before the flush thread looks at it again. -/
def clearedAtHead : List (LoggerAction ℕ) :=
  [.log ⟨.info, "one", []⟩, .push, .push, .push, .push, .push, .destroy, .clear, .loadRunning,
    .join]

/-- The element is never written. -/
theorem log_lost_at_shutdown :
    ∃ s : Logger ℕ, LoggerRuns clearedAtHead s ∧ s.destructor = .returned [⟨.info, "one", []⟩] ∧
      s.logFile = [] ∧ ¬ s.Flushed := by
  have hrun : ((clearedAtHead.foldlM Logger.step (.create ℕ)).map fun s =>
      (s.logFile, s.destructor)) = some ([], .returned [⟨.info, "one", []⟩]) := by
    decide +kernel
  obtain ⟨s, hs, heq⟩ := Option.map_eq_some_iff.mp hrun
  obtain ⟨hfile, hreturned⟩ := Prod.mk.inj heq
  refine ⟨s, hs, hreturned, hfile, fun hflushed => ?_⟩
  have hcomplete := hflushed.complete.length_le
  rw [hfile, Logger.logged, hreturned] at hcomplete
  exact absurd hcomplete (by decide)

end invariant

end HftSys
