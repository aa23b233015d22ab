import HftSys.FormatMessage
import HftSys.Shutdown

/-!
# The text of the log

In `Shutdown` a line of the file is the element it is the text of. Here the flush thread puts
characters into its buffer, as the source does.

* `TextLogger.step` is the logger with the strings it works on.
* `lineText` says what a line looks like, and `appendToBuffer_eq` that `appendToBuffer` adds just
  that.
* `step_text`: written out, the logger of `Shutdown` takes the steps of this one, and no others.
* `log_file_text`: the file grows by whole lines, one for every element popped.

The texts of the arguments and of the exception are parameters, as is the largest length of a
string, which only the strings of `formatMessage` are held against. The file is what this logger
has added to it. Left out: a level that is none of the four, and a file that cannot be written.
-/

namespace HftSys

open LFQueue

/-! ## The source -/

/-- The characters of a string literal. -/
def textOf (s : String) : Text := s.toUTF8.toList

/-- The name of a level. Source: `logger.cpp`, `Logger::appendToBuffer` -/
def LogLevel.name : LogLevel → String
  | .debug => "DEBUG"
  | .info => "INFO"
  | .warning => "WARNING"
  | .error => "ERROR"

/-- The end of a line. -/
def newline : UInt8 := 10

/-- `utils::Logger`, with the strings it works on. Source: `logger.h`, `logger.cpp` -/
structure TextLogger (Arg : Type) where
  logQueue : LFQueue.State Unit (LogElement Arg)
  running : Bool
  buffer : Text
  logFile : Text
  flusher : Flusher Arg
  destructor : Destructor Arg

section source

variable {Arg : Type} (maxSize : UInt64) (anyToString : Arg → Text) (what : Text)

/-- The buffer with an element's line, unless `formatMessage` goes round for ever.
Source: `logger.cpp`, `Logger::appendToBuffer` -/
def appendToBuffer (time : String) (elem : LogElement Arg) (buffer : Text) : Option Text := do
  let buffer := buffer ++ textOf ("[" ++ time ++ "] [" ++ elem.level.name ++ "] ")
  let buffer ← match formatMessage maxSize anyToString elem.args (textOf elem.formatString) with
    | .ok formattedMessage => some (buffer ++ formattedMessage)
    | .error .lengthError => some (buffer ++ textOf "Error formatting log message: " ++ what)
    | .error .diverges => none
  some (buffer ++ [newline])

namespace TextLogger

/-- A new logger, the file being empty. Source: `logger.cpp`, `Logger::Logger` -/
def create (Arg : Type) : TextLogger Arg where
  logQueue := .init (.blank Arg)
  running := true
  buffer := []
  logFile := []
  flusher := .head
  destructor := .idle

/-- The logger after a step, if its thread is at it.
Source: `logger.h`, `Logger::log`; `logger.cpp`, `Logger::flushQueue` and `Logger::~Logger` -/
def step (s : TextLogger Arg) : LoggerAction Arg → Option (TextLogger Arg)
  | .log elem =>
    (LFQueue.step logQueueSize s.logQueue (.beginPush () elem)).map fun q => { s with logQueue := q }
  | .push =>
    ((s.logQueue.producer ()).nextStep >>= LFQueue.step logQueueSize s.logQueue).map fun q =>
      { s with logQueue := q }
  | .loadRunning =>
    match s.flusher with
    | .head =>
      if s.running then some { s with buffer := [], flusher := .batch 0 }
      else some { s with flusher := .returned }
    | _ => none
  | .testBatch =>
    match s.flusher with
    | .batch i =>
      if i < flushBatch ∧ 0 < s.logQueue.numElements then some { s with flusher := .popping i none }
      else some { s with flusher := .writing }
    | _ => none
  | .pop =>
    match s.flusher with
    | .popping i value =>
      (s.logQueue.consumer.nextStep >>= LFQueue.step logQueueSize s.logQueue).map fun q =>
        { s with logQueue := q, flusher := Logger.afterPop i value s.logQueue q }
    | _ => none
  | .append time =>
    match s.flusher with
    | .appending i none => some { s with flusher := .batch (i + 1) }
    | .appending i (some elem) =>
      (appendToBuffer maxSize anyToString what time elem s.buffer).map fun buffer =>
        { s with buffer := buffer, flusher := .batch (i + 1) }
    | _ => none
  | .write =>
    match s.flusher with
    | .writing =>
      if s.buffer = [] then some { s with flusher := .sleeping }
      else some { s with logFile := s.logFile ++ s.buffer, flusher := .sleeping }
    | _ => none
  | .wake =>
    match s.flusher with
    | .sleeping => some { s with flusher := .head }
    | _ => none
  | .destroy =>
    match s.destructor with
    | .idle => some { s with destructor := .started s.logQueue.pushed }
    | _ => none
  | .clear =>
    match s.destructor with
    | .started logged => some { s with running := false, destructor := .cleared logged }
    | _ => none
  | .join =>
    match s.destructor, s.flusher with
    | .cleared logged, .returned => some { s with destructor := .returned logged }
    | _, _ => none

end TextLogger

/-- The actions may lead from a new logger to `t`. -/
abbrev TextRuns (actions : List (LoggerAction Arg)) (t : TextLogger Arg) : Prop :=
  actions.foldlM (TextLogger.step maxSize anyToString what) (.create Arg) = some t

end source

/-! ## What a line looks like -/

section lines

variable {Arg : Type} (maxSize : UInt64) (anyToString : Arg → Text) (what : Text)

/-- The message of an element: its format string with the texts of its arguments in the place of
the `{}`, when that fits into a string. -/
def messageText (elem : LogElement Arg) : Text :=
  if FitsIn maxSize.toNat 0 (elem.args.map anyToString) (textOf elem.formatString) then
    fillIn (elem.args.map anyToString) (pieces (textOf elem.formatString))
  else textOf "Error formatting log message: " ++ what

/-- A line of the file. -/
def lineText (line : LogLine Arg) : Text :=
  textOf ("[" ++ line.time ++ "] [" ++ line.elem.level.name ++ "] ") ++
    messageText maxSize anyToString what line.elem ++ [newline]

/-- The logger, with its lines written out. -/
def Logger.text (s : Logger Arg) : TextLogger Arg where
  logQueue := s.logQueue
  running := s.running
  buffer := s.buffer.flatMap (lineText maxSize anyToString what)
  logFile := s.logFile.flatMap (lineText maxSize anyToString what)
  flusher := s.flusher
  destructor := s.destructor

end lines

section text

variable {Arg : Type} {maxSize : UInt64} {anyToString : Arg → Text} {what : Text}
  {t : TextLogger Arg} {actions : List (LoggerAction Arg)}

/-- **What `appendToBuffer` adds**: a line. -/
theorem appendToBuffer_eq (time : String) (elem : LogElement Arg) (buffer : Text) :
    appendToBuffer maxSize anyToString what time elem buffer =
      some (buffer ++ lineText maxSize anyToString what ⟨time, elem⟩) := by
  unfold appendToBuffer lineText messageText
  rw [formatMessage_ite]
  by_cases hfits :
      FitsIn maxSize.toNat 0 (elem.args.map anyToString) (textOf elem.formatString)
  · simp [hfits]
  · simp [hfits]

/-- **A step written out.** -/
theorem Logger.step_text (s : Logger Arg) (a : LoggerAction Arg) :
    (s.text maxSize anyToString what).step maxSize anyToString what a =
      (s.step a).map (Logger.text maxSize anyToString what) := by
  cases a with
  | log elem | push =>
    simp only [TextLogger.step, Logger.step, Option.map_map]
    rfl
  | pop =>
    simp only [TextLogger.step, Logger.step, Logger.text]
    cases s.flusher with
    | popping i value =>
      simp only [Option.map_map]
      rfl
    | _ => rfl
  | loadRunning =>
    cases hat : s.flusher with
    | head =>
      cases hrun : s.running with
      | true => simp [TextLogger.step, Logger.step, Logger.text, hat, hrun]
      | false => simp [TextLogger.step, Logger.step, Logger.text, hat, hrun]
    | _ => simp [TextLogger.step, Logger.step, Logger.text, hat]
  | testBatch =>
    cases hat : s.flusher with
    | batch i =>
      by_cases hmore : i < flushBatch ∧ 0 < s.logQueue.numElements
      · simp [TextLogger.step, Logger.step, Logger.text, hat, hmore]
      · simp [TextLogger.step, Logger.step, Logger.text, hat, hmore]
    | _ => simp [TextLogger.step, Logger.step, Logger.text, hat]
  | append time =>
    cases hat : s.flusher with
    | appending i next =>
      cases next with
      | none => simp [TextLogger.step, Logger.step, Logger.text, hat]
      | some elem =>
        simp [TextLogger.step, Logger.step, Logger.text, hat, appendToBuffer_eq]
    | _ => simp [TextLogger.step, Logger.step, Logger.text, hat]
  | write =>
    cases hat : s.flusher with
    | writing =>
      by_cases hempty : s.buffer = []
      · simp [TextLogger.step, Logger.step, Logger.text, hat, hempty]
      · simp [TextLogger.step, Logger.step, Logger.text, hat, hempty]
    | _ => simp [TextLogger.step, Logger.step, Logger.text, hat]
  | wake =>
    cases hat : s.flusher <;> simp [TextLogger.step, Logger.step, Logger.text, hat]
  | destroy | clear =>
    cases hat : s.destructor <;> simp [TextLogger.step, Logger.step, Logger.text, hat]
  | join =>
    cases hat : s.destructor with
    | cleared logged =>
      cases hdone : s.flusher <;> simp [TextLogger.step, Logger.step, Logger.text, hat, hdone]
    | _ => simp [TextLogger.step, Logger.step, Logger.text, hat]

/-- **The runs written out.** -/
theorem textRuns_iff :
    TextRuns maxSize anyToString what actions t ↔
      ∃ s, LoggerRuns actions s ∧ s.text maxSize anyToString what = t := by
  have hcreate : (Logger.create Arg).text maxSize anyToString what = .create Arg := rfl
  rw [TextRuns, ← hcreate, Runs.foldlM_map Logger.step_text, Option.map_eq_some_iff]

/-- A step leaves the file as it is, or adds to it. -/
theorem LoggerMoves.grows {s s' : Logger Arg} {a : LoggerAction Arg}
    (h : LoggerMoves s a s') : s.logFile <+: s'.logFile := by
  cases h with
  | write hat => exact List.prefix_append _ _
  | _ => exact List.prefix_refl _

/-- So does a run. -/
theorem Logger.logFile_grows {s s' : Logger Arg} (h : actions.foldlM Logger.step s = some s') :
    s.logFile <+: s'.logFile := by
  induction actions generalizing s with
  | nil =>
    cases h
    exact List.prefix_refl _
  | cons a actions ih =>
    rw [List.foldlM_cons] at h
    obtain ⟨s₁, hstep, hrun⟩ := Option.bind_eq_some_iff.mp h
    exact (Logger.step_ok hstep).grows.trans (ih hrun)

/-- The lines of the file are those of elements pushed, in the order of the pushes. -/
theorem Logger.Inv.logFile_pushed {s : Logger Arg} (h : s.Inv) :
    Logger.elems s.logFile <+: s.logQueue.pushed := by
  have hpopped := h.popped
  rw [List.append_assoc] at hpopped
  exact (hpopped ▸ List.prefix_append _ _).trans h.queue.1

/-- **The log grows by whole lines**: in every run the file holds the lines of the first elements
pushed, each once, whole and in the order of the pushes; and what it has held at any time before
still stands at its beginning. -/
theorem log_file_text {before after : List (LoggerAction Arg)}
    (h : TextRuns maxSize anyToString what (before ++ after) t) :
    ∃ (t₀ : TextLogger Arg) (lines more : List (LogLine Arg)),
      TextRuns maxSize anyToString what before t₀ ∧
        t₀.logFile = lines.flatMap (lineText maxSize anyToString what) ∧
        t.logFile = (lines ++ more).flatMap (lineText maxSize anyToString what) ∧
        Logger.elems (lines ++ more) <+: t.logQueue.pushed := by
  obtain ⟨s, hrun, rfl⟩ := textRuns_iff.mp h
  have hinv : s.Inv := hrun.drains.1
  rw [LoggerRuns, List.foldlM_append] at hrun
  obtain ⟨s₀, hbefore, hafter⟩ := Option.bind_eq_some_iff.mp hrun
  obtain ⟨more, hmore⟩ := Logger.logFile_grows hafter
  refine ⟨s₀.text maxSize anyToString what, s₀.logFile, more, textRuns_iff.mpr ⟨s₀, hbefore, rfl⟩,
    rfl, ?_, ?_⟩
  · rw [hmore]
    rfl
  · rw [hmore]
    exact hinv.logFile_pushed

/-- An element is logged and written, and a second one logged. -/
def writtenOnce : List (LoggerAction ℕ) :=
  [.log ⟨.warning, "qty \x7b\x7d", [7]⟩, .push, .push, .push, .push, .push, .loadRunning,
    .testBatch, .pop, .pop, .pop, .pop, .pop, .pop, .append "12:00", .testBatch, .write,
    .log ⟨.info, "one", []⟩, .push]

/-- The file is empty until the line is written. -/
theorem log_file_text_sample :
    ∃ t : TextLogger ℕ,
      TextRuns 4611686018427387903 (fun n => textOf n.repr) [] writtenOnce t ∧
      t.logFile = textOf "[12:00] [WARNING] qty 7\n" ∧
      ∃ (t₀ : TextLogger ℕ) (lines more : List (LogLine ℕ)),
        TextRuns 4611686018427387903 (fun n => textOf n.repr) [] (writtenOnce.take 16) t₀ ∧
          t₀.logFile =
            lines.flatMap (lineText 4611686018427387903 (fun n => textOf n.repr) []) ∧
          t.logFile =
            (lines ++ more).flatMap (lineText 4611686018427387903 (fun n => textOf n.repr) []) ∧
          Logger.elems (lines ++ more) <+: t.logQueue.pushed := by
  have hrun : ((writtenOnce.foldlM (TextLogger.step 4611686018427387903 (fun n => textOf n.repr) [])
      (.create ℕ)).map (·.logFile)) = some (textOf "[12:00] [WARNING] qty 7\n") := by
    decide +kernel
  obtain ⟨t, ht, hfile⟩ := Option.map_eq_some_iff.mp hrun
  have hsplit : TextRuns 4611686018427387903 (fun n => textOf n.repr) []
      (writtenOnce.take 16 ++ writtenOnce.drop 16) t := by
    rwa [List.take_append_drop]
  exact ⟨t, ht, hfile, log_file_text hsplit⟩

end text

end HftSys
