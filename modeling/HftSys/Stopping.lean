import HftSys.Shutdown
import HftSys.Turns

/-!
# What it takes to stop

Each of the three threads is stopped in its own way: a flag is cleared, and the thread that clears
it joins the other one.

* The logger's flush thread looks at `running_` between two batches. `logger_stops`: `~Logger` waits
  for no more than 804 of its steps, however much is logged meanwhile.
* The gateway's thread looks at `isRunning_` between two turns. `gateway_stops`: `stop` waits for
  the end of the turn, which `turns_end` gives.
* The engine's thread looks at an `isRunning_` that only the thread itself writes, and
  `request_stop` is not heard. `engine_never_stops`: `stopMatchingEngine` waits for ever.
-/

namespace HftSys

open LFQueue Settling

/-! ## The logger -/

section logger

variable {Arg : Type} {s s' : Logger Arg} {a : LoggerAction Arg} {actions : List (LoggerAction Arg)}

/-- A step of the flush thread. -/
def LoggerAction.flushes : LoggerAction Arg → Bool
  | .loadRunning | .testBatch | .pop | .append _ | .write | .wake => true
  | _ => false

/-- The steps left of `pop`, at most. -/
def LFQueue.Consumer.ahead : Consumer → ℕ
  | .idle => 6
  | .hasElement => 5
  | .hasSlot _ => 4
  | .copied _ => 3
  | .checked _ => 2
  | .advanced => 1
  | .failed => 0

/-- The steps left of `flushQueue` once `running_` has been cleared, at most: a turn of the inner
loop takes eight. -/
def Flusher.ahead : Flusher Arg → Consumer → ℕ
  | .batch i, _ => 8 * (flushBatch - i) + 4
  | .popping i _, c => 8 * (flushBatch - (i + 1)) + 5 + c.ahead
  | .appending i _, _ => 8 * (flushBatch - (i + 1)) + 5
  | .writing, _ => 3
  | .sleeping, _ => 2
  | .head, _ => 1
  | .returned, _ => 0

/-- See `Flusher.ahead`. -/
def Logger.ahead (s : Logger Arg) : ℕ := s.flusher.ahead s.logQueue.consumer

theorem LFQueue.Consumer.ahead_le (c : Consumer) : c.ahead ≤ 6 := by
  cases c <;> simp [Consumer.ahead]

/-- Even with a whole batch ahead. -/
theorem Logger.ahead_le (s : Logger Arg) : s.ahead ≤ 804 := by
  have hpop := s.logQueue.consumer.ahead_le
  unfold Logger.ahead
  cases s.flusher <;> simp only [Flusher.ahead, flushBatch] <;> omega

/-- A step of `pop`. -/
theorem ahead_afterPop {cap : ℕ} (i : ℕ) (value : Option (LogElement Arg))
    {q q' : LFQueue.State Unit (LogElement Arg)} {b : Action Unit (LogElement Arg)}
    (hb : q.consumer.nextStep = some b) (h : LFQueue.step cap q b = some q') :
    (Logger.afterPop i value q q').ahead q'.consumer <
      (Flusher.popping i value).ahead q.consumer := by
  cases LFQueue.step_cases h with
  | beginPop hpc hpos => simp [Logger.afterPop, hpc, Flusher.ahead, Consumer.ahead]
  | empty hpc hzero => simp [Logger.afterPop, hpc, Flusher.ahead, Consumer.ahead]
  | pickElement hpc => simp [Logger.afterPop, hpc, Flusher.ahead, Consumer.ahead]
  | copyOut hpc => simp [Logger.afterPop, hpc, Flusher.ahead, Consumer.ahead]
  | checkElements hpc =>
    by_cases hpos : 0 < q.numElements <;>
      simp [Logger.afterPop, hpc, hpos, Flusher.ahead, Consumer.ahead]
  | advanceRead hpc => simp [Logger.afterPop, hpc, Flusher.ahead, Consumer.ahead]
  | countDown hpc => simp [Logger.afterPop, hpc, Flusher.ahead, Consumer.ahead]
  | _ =>
    -- the other steps are not steps of `pop`
    cases hc : q.consumer <;> simp [hc, Consumer.nextStep] at hb

/-- `running_` has been cleared. -/
structure Logger.Cleared (s : Logger Arg) : Prop where
  running : s.running = false
  destructor : ∃ logged, s.destructor = .cleared logged ∨ s.destructor = .returned logged

/-- It stays so. -/
theorem Logger.Cleared.step (h : s.Cleared) (hm : LoggerMoves s a s') : s'.Cleared := by
  obtain ⟨hrun, logged, hdestructor⟩ := h
  cases hm with
  | destroy hat => simp [hat] at hdestructor
  | clear hat => simp [hat] at hdestructor
  | join hat hreturned => exact ⟨hrun, _, .inr rfl⟩
  | _ => exact ⟨hrun, logged, hdestructor⟩

/-- Once `running_` has been cleared, a step of the flush thread leaves fewer, and no other adds
any. -/
theorem Logger.ahead_step (hrun : s.running = false) (h : s.step a = some s') :
    s'.ahead ≤ s.ahead ∧ (a.flushes = true → s'.ahead < s.ahead) := by
  cases a with
  | log elem =>
    obtain ⟨q, hq, rfl⟩ := Option.map_eq_some_iff.mp h
    refine ⟨?_, by simp [LoggerAction.flushes]⟩
    cases LFQueue.step_cases hq with
    | beginPush | refused => exact le_rfl
  | push =>
    obtain ⟨q, hq, rfl⟩ := Option.map_eq_some_iff.mp h
    obtain ⟨b, hb, hstep⟩ := Option.bind_eq_some_iff.mp hq
    refine ⟨?_, by simp [LoggerAction.flushes]⟩
    show s.flusher.ahead q.consumer ≤ s.ahead
    rw [(LFQueue.step_of_nextStep hb hstep).1]
    rfl
  | pop =>
    simp only [Logger.step] at h
    split at h
    · rename_i i value hat
      obtain ⟨q, hq, rfl⟩ := Option.map_eq_some_iff.mp h
      obtain ⟨b, hb, hstep⟩ := Option.bind_eq_some_iff.mp hq
      have hlt := ahead_afterPop i value hb hstep
      rw [← hat] at hlt
      exact ⟨hlt.le, fun _ => hlt⟩
    · cases h
  | testBatch =>
    simp only [Logger.step] at h
    split at h
    · rename_i i hat
      have hlt : s'.ahead < s.ahead := by
        have hpop := s.logQueue.consumer.ahead_le
        split at h <;> cases h <;> simp only [Logger.ahead, hat, Flusher.ahead] <;> omega
      exact ⟨hlt.le, fun _ => hlt⟩
    · cases h
  | loadRunning =>
    simp only [Logger.step, hrun] at h
    split at h
    · rename_i hat
      cases h
      have hlt : Flusher.ahead (.returned : Flusher Arg) s.logQueue.consumer < s.ahead := by
        simp [Logger.ahead, hat, Flusher.ahead]
      exact ⟨hlt.le, fun _ => hlt⟩
    · cases h
  | append time =>
    have hlt : ∀ i next, s.flusher = .appending i next →
        Flusher.ahead (.batch (i + 1) : Flusher Arg) s.logQueue.consumer < s.ahead := by
      intro i next hat
      simp [Logger.ahead, hat, Flusher.ahead]
    simp only [Logger.step] at h
    split at h
    · rename_i hat
      cases h
      exact ⟨(hlt _ _ hat).le, fun _ => hlt _ _ hat⟩
    · rename_i hat
      cases h
      exact ⟨(hlt _ _ hat).le, fun _ => hlt _ _ hat⟩
    · cases h
  | write =>
    simp only [Logger.step] at h
    split at h
    · rename_i hat
      have hlt : Flusher.ahead (.sleeping : Flusher Arg) s.logQueue.consumer < s.ahead := by
        simp [Logger.ahead, hat, Flusher.ahead]
      split at h <;> cases h <;> exact ⟨hlt.le, fun _ => hlt⟩
    · cases h
  | wake =>
    simp only [Logger.step] at h
    split at h
    · rename_i hat
      cases h
      have hlt : Flusher.ahead (.head : Flusher Arg) s.logQueue.consumer < s.ahead := by
        simp [Logger.ahead, hat, Flusher.ahead]
      exact ⟨hlt.le, fun _ => hlt⟩
    · cases h
  | destroy =>
    simp only [Logger.step] at h
    split at h
    · cases h
      exact ⟨le_rfl, by simp [LoggerAction.flushes]⟩
    · cases h
  | clear =>
    simp only [Logger.step] at h
    split at h
    · cases h
      exact ⟨le_rfl, by simp [LoggerAction.flushes]⟩
    · cases h
  | join =>
    simp only [Logger.step] at h
    split at h
    · cases h
      exact ⟨le_rfl, by simp [LoggerAction.flushes]⟩
    · cases h

/-- The flush thread is never stuck. -/
theorem exists_flush (h : s.Inv) (hat : s.flusher ≠ .returned) :
    ∃ (a : LoggerAction Arg) (s' : Logger Arg), a.flushes = true ∧ s.step a = some s' := by
  cases hflusher : s.flusher with
  | returned => exact absurd hflusher hat
  | head =>
    refine ⟨.loadRunning, ?_⟩
    cases hrun : s.running <;> simp [Logger.step, hflusher, hrun, LoggerAction.flushes]
  | batch i =>
    refine ⟨.testBatch, ?_⟩
    by_cases hturn : i < flushBatch ∧ 0 < s.logQueue.numElements <;>
      simp [Logger.step, hflusher, hturn, LoggerAction.flushes]
  | popping i value =>
    obtain ⟨-, hfailed, -⟩ := h.queue
    refine ⟨.pop, ?_⟩
    cases hc : s.logQueue.consumer with
    | failed => exact absurd hc hfailed
    | _ => simp [Logger.step, hflusher, hc, Consumer.nextStep, LFQueue.step, LoggerAction.flushes]
  | appending i next =>
    refine ⟨.append "", ?_⟩
    cases next <;> simp [Logger.step, hflusher, LoggerAction.flushes]
  | writing =>
    refine ⟨.write, ?_⟩
    by_cases hbuffer : s.buffer = [] <;> simp [Logger.step, hflusher, hbuffer, LoggerAction.flushes]
  | sleeping =>
    refine ⟨.wake, ?_⟩
    simp [Logger.step, hflusher, LoggerAction.flushes]

/-- **`~Logger` returns**: in every run, whatever is logged meanwhile, the flush thread takes no
more than 804 steps once `running_` has been cleared, and until it has returned it can take the next
one; then the join returns. -/
theorem logger_stops (before after : List (LoggerAction Arg))
    (h : LoggerRuns (before ++ .clear :: after) s) :
    after.countP LoggerAction.flushes ≤ 804 ∧
      (s.flusher ≠ .returned → ∃ (a : LoggerAction Arg) (s' : Logger Arg),
        a.flushes = true ∧ s.step a = some s') ∧
      (s.flusher = .returned → (∃ logged, s.destructor = .returned logged) ∨
        ∃ s' : Logger Arg, s.step .join = some s') := by
  obtain ⟨s₁, hbefore, hrest⟩ := Option.bind_eq_some_iff.mp ((List.foldlM_append).symm.trans h)
  obtain ⟨s₂, hclear, hafter⟩ := Option.bind_eq_some_iff.mp hrest
  have hcleared : s₂.Cleared := by
    cases Logger.step_ok hclear with
    | clear hat => exact ⟨rfl, _, .inl rfl⟩
    | log _ _ _ _ ha => exact absurd rfl ha
  have hpath : Runs.Path (fun s a s' => Logger.step s a = some s') s₂ after s :=
    .of_foldlM (fun _ _ _ hstep => hstep) hafter
  obtain ⟨hend, hcount⟩ := countP_add_rank_le Logger.ahead LoggerAction.flushes
    (fun hc hstep => hc.step (Logger.step_ok hstep))
    (fun hc hstep => (Logger.ahead_step hc.running hstep).1)
    (fun hc hstep => (Logger.ahead_step hc.running hstep).2) hcleared hpath
  have hbound := s₂.ahead_le
  refine ⟨by omega, exists_flush h.drains.1, fun hreturned => ?_⟩
  obtain ⟨logged, hat | hat⟩ := hend.destructor
  · exact .inr (by simp [Logger.step, hat, hreturned])
  · exact .inl ⟨logged, hat⟩

/-- The flush thread finishes its batch and returns. -/
theorem logger_stops_sample :
    ∃ s : Logger ℕ, LoggerRuns clearedInBatch s ∧
      (clearedInBatch.drop 10).countP LoggerAction.flushes ≤ 804 := by
  have hrun : (clearedInBatch.foldlM Logger.step (.create ℕ)).isSome := by decide +kernel
  obtain ⟨s, hs⟩ := Option.isSome_iff_exists.mp hrun
  exact ⟨s, hs, (logger_stops (clearedInBatch.take 9) (clearedInBatch.drop 10) hs).1⟩

end logger

/-! ## The gateway -/

/-- How far a call of `stop` is. -/
inductive StopCall where
  | notCalled
  | joining
  | returned
deriving DecidableEq

/-- A thread, as another one sees it. -/
inductive ThreadState where
  /-- The pointer to it is null. -/
  | absent
  | running
  /-- Its function has returned. -/
  | ended
deriving DecidableEq

/-- The gateway's thread, and what starts and stops it. Source: `order_gateway_server.h` -/
structure GatewayLife (B : Build) where
  isRunning : Bool
  serverThread : ThreadState
  server : ServerThread B
  stop : StopCall

/-- A step in the life of the gateway. -/
inductive LifeAction where
  | start
  /-- `stop` is called and clears `isRunning_`. -/
  | stop
  /-- The join in `stop` returns. -/
  | join
  /-- The gateway's thread goes on, or another thread of the exchange. -/
  | run (a : ThreadAction)
  /-- The thread finds `isRunning_` cleared. -/
  | leave
deriving DecidableEq

namespace GatewayLife

variable {B : Build}

/-- A gateway that has not been started. -/
def create (B : Build) (listenerSocket : SocketPtr) : GatewayLife B where
  isRunning := false
  serverThread := .absent
  server := .create B listenerSocket
  stop := .notCalled

/-- The thread the step belongs to is there, and for a turn `isRunning_` is set. -/
def Lets (s : GatewayLife B) : ThreadAction → Prop
  | .elsewhere _ => True
  | .poll _ _ => s.serverThread = .running ∧ s.isRunning = true
  | _ => s.serverThread = .running

instance (s : GatewayLife B) (a : ThreadAction) : Decidable (s.Lets a) :=
  match a with
  | .elsewhere _ => .isTrue trivial
  | .poll _ _ => inferInstanceAs (Decidable (_ ∧ _))
  | .sendAndRecv _ | .rxDone _ | .publish | .next | .respond | .release =>
    inferInstanceAs (Decidable (_ = _))

/-- The gateway after a step. A call of `stop` without a thread follows a null pointer; the second
call finds nothing to join. Source: `order_gateway_server.cpp`, `OrderGatewayServer::start`,
`OrderGatewayServer::stop` and `OrderGatewayServer::run` -/
def step (stray : Ticker → ℕ → Qty) (s : GatewayLife B) : LifeAction → Option (GatewayLife B)
  | .start =>
    if s.serverThread = .absent then some { s with isRunning := true, serverThread := .running }
    else none
  | .stop =>
    if s.serverThread = .absent ∨ s.stop = .joining then none
    else
      some { s with
        isRunning := false
        stop := if s.stop = .notCalled then .joining else .returned }
  | .join =>
    if s.stop = .joining ∧ s.serverThread = .ended then some { s with stop := .returned } else none
  | .run a =>
    if s.Lets a then (s.server.step stray a).map fun server => { s with server } else none
  | .leave =>
    if s.serverThread = .running ∧ s.server.point = .polling ∧ s.isRunning = false then
      some { s with serverThread := .ended }
    else none

/-- `stop` has been called, and `isRunning_` stays cleared. -/
structure Stopping (s : GatewayLife B) : Prop where
  called : s.stop ≠ .notCalled
  isRunning : s.isRunning = false
  started : s.serverThread ≠ .absent

/-- The gateway goes on, or another thread that finds something to do. -/
def Winds (s : GatewayLife B) : LifeAction → Prop
  | .start | .stop => False
  | .run (.elsewhere a) => s.server.exchange.Own a
  | _ => True

end GatewayLife

/-- The steps may lead from a gateway that has not been started to `s`. -/
abbrev LifeRuns {B : Build} (stray : Ticker → ℕ → Qty) (listenerSocket : SocketPtr)
    (actions : List LifeAction) (s : GatewayLife B) : Prop :=
  actions.foldlM (GatewayLife.step stray) (.create B listenerSocket) = some s

theorem runsOf_life (B : Build) (stray : Ticker → ℕ → Qty) (listenerSocket : SocketPtr) :
    Runs.RunsOf (fun s a s' => GatewayLife.step stray s a = some s')
      (GatewayLife.create B listenerSocket) (LifeRuns stray listenerSocket) :=
  .ofStep (GatewayLife.step stray) (.create B listenerSocket)

/-- What a step does. -/
inductive Lives {B : Build} (stray : Ticker → ℕ → Qty) (s : GatewayLife B) :
    LifeAction → GatewayLife B → Prop
  | start (hthread : s.serverThread = .absent) :
      Lives stray s .start { s with isRunning := true, serverThread := .running }
  | stop (hthread : s.serverThread ≠ .absent) (hstop : s.stop ≠ .joining) :
      Lives stray s .stop { s with
        isRunning := false
        stop := if s.stop = .notCalled then .joining else .returned }
  | join (hstop : s.stop = .joining) (hthread : s.serverThread = .ended) :
      Lives stray s .join { s with stop := .returned }
  | run {a : ThreadAction} {server : ServerThread B} (hlets : s.Lets a)
      (hserver : s.server.step stray a = some server) : Lives stray s (.run a) { s with server }
  | leave (hthread : s.serverThread = .running) (hpoint : s.server.point = .polling)
      (hrun : s.isRunning = false) : Lives stray s .leave { s with serverThread := .ended }

section gateway

variable {B : Build} {stray : Ticker → ℕ → Qty} {listenerSocket : SocketPtr}
  {s s' : GatewayLife B} {a : LifeAction} {actions : List LifeAction}

/-- **`step` taken apart.** -/
theorem GatewayLife.step_ok (h : s.step stray a = some s') : Lives stray s a s' := by
  cases a with
  | start =>
    simp only [GatewayLife.step] at h
    split at h
    · cases h
      exact .start ‹_›
    · cases h
  | stop =>
    simp only [GatewayLife.step] at h
    split at h
    · cases h
    · rename_i hfree
      obtain ⟨hthread, hstop⟩ := not_or.mp hfree
      cases h
      exact .stop hthread hstop
  | join =>
    simp only [GatewayLife.step] at h
    split at h
    · rename_i hjoin
      cases h
      exact .join hjoin.1 hjoin.2
    · cases h
  | run a =>
    simp only [GatewayLife.step] at h
    split at h
    · rename_i hlets
      obtain ⟨server, hserver, rfl⟩ := Option.map_eq_some_iff.mp h
      exact .run hlets hserver
    · cases h
  | leave =>
    simp only [GatewayLife.step] at h
    split at h
    · rename_i hleave
      cases h
      exact .leave hleave.1 hleave.2.1 hleave.2.2
    · cases h

/-- Once `stop` has been called, the gateway is not started again. -/
theorem GatewayLife.Stopping.step (h : s.Stopping) (hl : Lives stray s a s') : s'.Stopping := by
  cases hl with
  | start hthread => exact absurd hthread h.started
  | stop hthread hstop => exact ⟨by split <;> nofun, rfl, hthread⟩
  | join hstop hthread => exact ⟨nofun, h.isRunning, h.started⟩
  | run hlets hserver => exact ⟨h.called, h.isRunning, h.started⟩
  | leave hthread hpoint hrun => exact ⟨h.called, h.isRunning, nofun⟩

/-- **A gateway that has been told to stop** is stopping. -/
theorem LifeRuns.stopping (h : LifeRuns stray listenerSocket actions s)
    (hstop : s.stop ≠ .notCalled) : s.Stopping := by
  revert hstop
  refine (runsOf_life B stray listenerSocket).induction
    (P := fun _ s => s.stop ≠ .notCalled → s.Stopping) (fun hcalled => absurd rfl hcalled) ?_ h
  rintro actions a s s' - ih hstep hcalled
  have hl := GatewayLife.step_ok hstep
  by_cases hbefore : s.stop = .notCalled
  · cases hl with
    | stop hthread hstop => exact ⟨hcalled, rfl, hthread⟩
    | join hstop hthread => simp [hbefore] at hstop
    | _ => exact absurd hbefore hcalled
  · exact (ih hbefore).step hl

/-- The thread of a gateway is one that a run of the thread reaches. -/
theorem LifeRuns.server (h : LifeRuns stray listenerSocket actions s) :
    s.server.Reached stray listenerSocket := by
  refine (runsOf_life B stray listenerSocket).induction
    (P := fun _ s => s.server.Reached stray listenerSocket) ⟨[], rfl⟩ ?_ h
  rintro actions a s s' - ⟨steps, hsteps⟩ hstep
  cases GatewayLife.step_ok hstep with
  | @run a server hlets hserver =>
    exact ⟨steps ++ [a], (runsOf_thread B stray listenerSocket).concat.mpr ⟨_, hsteps, hserver⟩⟩
  | _ => exact ⟨steps, hsteps⟩

/-- A step on the way to the return of `stop`. -/
def WindStep (stray : Ticker → ℕ → Qty) (s : GatewayLife B) (a : LifeAction) (s' : GatewayLife B) :
    Prop :=
  s.Winds a ∧ s.step stray a = some s'

/-- The joins and the ends of threads that are still to come. -/
def GatewayLife.ends (s : GatewayLife B) : ℕ :=
  (if s.stop = .joining then 1 else 0) + if s.serverThread = .running then 1 else 0

/-- What is left until `stop` returns. -/
def GatewayLife.rank (s : GatewayLife B) : ℕ ×ₗ (ℕ ×ₗ ℕ) ×ₗ (ℕ ×ₗ ℕ ×ₗ ℕ) :=
  toLex (s.ends, s.server.rank)

/-- A step of the exchange that a stopping gateway lets happen belongs to the last turn. -/
theorem GatewayLife.Stopping.inTurn {b : ThreadAction} (h : s.Stopping) (hlets : s.Lets b)
    (hwinds : s.Winds (.run b)) : s.server.InTurn b := by
  cases b with
  | poll events accepted =>
    have hset : s.isRunning = true := hlets.2
    rw [h.isRunning] at hset
    cases hset
  | elsewhere a => exact hwinds
  | _ => trivial

/-- A gateway that has been told to stop does. -/
theorem lowers_life (stray : Ticker → ℕ → Qty) (listenerSocket : SocketPtr) (B : Build) :
    Lowers (WindStep (B := B) stray)
      (fun s => s.Stopping ∧ s.server.Reached stray listenerSocket) GatewayLife.rank where
  kept := by
    rintro s a s' ⟨hstopping, steps, hsteps⟩ ⟨-, hstep⟩
    have hl := GatewayLife.step_ok hstep
    refine ⟨hstopping.step hl, ?_⟩
    cases hl with
    | @run a server hlets hserver =>
      exact ⟨steps ++ [a], (runsOf_thread B stray listenerSocket).concat.mpr ⟨_, hsteps, hserver⟩⟩
    | _ => exact ⟨steps, hsteps⟩
  lowers := by
    rintro s a s' ⟨hstopping, hserver⟩ ⟨hwinds, hstep⟩
    cases GatewayLife.step_ok hstep with
    | start hthread => exact hwinds.elim
    | stop hthread hstop => exact hwinds.elim
    | join hstop hthread =>
      exact Prod.Lex.toLex_lt_toLex.mpr (.inl (by simp [GatewayLife.ends, hstop]))
    | run hlets hrun =>
      have hlt := (lowers_rank stray listenerSocket B).lowers hserver
        ⟨hstopping.inTurn hlets hwinds, hrun⟩
      exact Prod.Lex.toLex_lt_toLex.mpr (.inr ⟨rfl, hlt⟩)
    | leave hthread hpoint hrun =>
      exact Prod.Lex.toLex_lt_toLex.mpr (.inl (by simp [GatewayLife.ends, hthread]))

/-- When nothing more can be done, `stop` has returned, or the last turn is stopped by a response
that finds no room. -/
theorem GatewayLife.Stopping.stop_of_atRest (h : s.Stopping)
    (hserver : s.server.Reached stray listenerSocket) (hrest : AtRest (WindStep stray) s) :
    s.stop = .returned ∨ ∃ res, s.server.AboutToSend res ∧
      s.server.exchange.gateway.sendResponse res = .error .bufferOverflow := by
  cases hthread : s.serverThread with
  | absent => exact absurd hthread h.started
  | ended =>
    left
    cases hstop : s.stop with
    | notCalled => exact absurd hstop h.called
    | returned => rfl
    | joining =>
      exact absurd ⟨trivial, if_pos ⟨hstop, hthread⟩⟩ (hrest .join { s with stop := .returned })
  | running =>
    right
    obtain ⟨steps, hsteps⟩ := hserver
    have hturn : AtRest (TurnStep stray) s.server := by
      rintro b server ⟨hin, hstep⟩
      have hlets : s.Lets b := by
        cases b with
        | poll events accepted => exact hin.elim
        | elsewhere a => trivial
        | _ => exact hthread
      have hwinds : s.Winds (.run b) := by
        cases b with
        | elsewhere a => exact hin
        | _ => trivial
      refine hrest (.run b) { s with server } ⟨hwinds, ?_⟩
      rw [GatewayLife.step, if_pos hlets, hstep]
      rfl
    rcases point_of_atRest hsteps hturn with hpoint | hblocked
    · exact absurd ⟨trivial, if_pos ⟨hthread, hpoint, h.isRunning⟩⟩
        (hrest .leave { s with serverThread := .ended })
    · exact hblocked

/-- **`OrderGatewayServer::stop` returns**: in every run in which it has been called on a gateway
that had been started, only finitely many steps may follow until all is over, whatever the
interleaving, turns in which the other threads find nothing to do left out; and steps can be taken
until it has returned, unless a response of the last turn finds no room on its socket. -/
theorem gateway_stops (h : LifeRuns stray listenerSocket actions s) (hstop : s.stop ≠ .notCalled) :
    (∀ (states : ℕ → GatewayLife B) (acts : ℕ → LifeAction), states 0 = s →
        ∃ n, ¬ WindStep stray (states n) (acts n) (states (n + 1))) ∧
      ∃ more s', Runs.Path (WindStep stray) s more s' ∧ (s'.stop = .returned ∨
        ∃ res, s'.server.AboutToSend res ∧
          s'.server.exchange.gateway.sendResponse res = .error .bufferOverflow) := by
  have hstopping := h.stopping hstop
  constructor
  · rintro states acts rfl
    exact (lowers_life stray listenerSocket B).stops ⟨hstopping, h.server⟩
  · obtain ⟨more, s', hpath, ⟨hstopping', hserver'⟩, hrest⟩ :=
      (lowers_life stray listenerSocket B).exists_rest ⟨hstopping, h.server⟩
    exact ⟨more, s', hpath, hstopping'.stop_of_atRest hserver' hrest⟩

/-- `stop` is called in the middle of the turn of `sampleTurn`. -/
theorem gateway_stops_sample :
    ∃ s : GatewayLife .production, s.server.point = .draining ∧
      ∃ more s', Runs.Path (WindStep fun _ _ => 0) s more s' ∧ (s'.stop = .returned ∨
        ∃ res, s'.server.AboutToSend res ∧
          s'.server.exchange.gateway.sendResponse res = .error .bufferOverflow) := by
  have hrun : (((LifeAction.start :: sampleTurn.map LifeAction.run ++ [LifeAction.stop]).foldlM
      (GatewayLife.step fun _ _ => 0) (GatewayLife.create .production 0)).map fun s =>
        (s.server.point, s.stop)) = some (.draining, .joining) := by
    decide +kernel
  obtain ⟨s, hs, hat⟩ := Option.map_eq_some_iff.mp hrun
  rw [Prod.mk.injEq] at hat
  exact ⟨s, hat.1, (gateway_stops hs (by rw [hat.2]; decide)).2⟩

end gateway

/-! ## The engine -/

/-- Where the engine's thread is. Source: `matching_engine.cpp`,
`MatchingEngine::runMatchingEngine` -/
inductive EnginePoint where
  /-- `matchingEngineThread_` is null. -/
  | absent
  /-- Before `isRunning_` is set. -/
  | starting
  /-- At the test of `isRunning_`. -/
  | head
  /-- In `pop` or in `handleClientRequest`. -/
  | handling
  /-- Behind the loop. -/
  | leaving
  | ended
deriving DecidableEq

/-- The engine's thread, and what starts and stops it. Source: `matching_engine.h` -/
structure EngineLife where
  isRunning : Bool
  thread : EnginePoint
  stop : StopCall
deriving DecidableEq

/-- A step in the life of the engine. -/
inductive EngineAction where
  /-- `startMatchingEngine`. -/
  | start
  /-- The thread's next step. -/
  | run
  /-- `stopMatchingEngine` is called, as `~MatchingEngine` does. -/
  | stop
  /-- The join in it returns. -/
  | join
deriving DecidableEq

namespace EngineLife

/-- A new engine. -/
def create : EngineLife := ⟨false, .absent, .notCalled⟩

/-- The engine after a step. `request_stop` does nothing, as the thread's function takes no token.
Source: `matching_engine.cpp`, `MatchingEngine::startMatchingEngine`,
`MatchingEngine::stopMatchingEngine` and `MatchingEngine::runMatchingEngine` -/
def step (s : EngineLife) : EngineAction → Option EngineLife
  | .start => if s.thread = .absent then some { s with thread := .starting } else none
  | .run =>
    match s.thread with
    | .absent | .ended => none
    | .starting => some { s with isRunning := true, thread := .head }
    | .head => some { s with thread := if s.isRunning then .handling else .leaving }
    | .handling => some { s with thread := .head }
    | .leaving => some { s with isRunning := false, thread := .ended }
  | .stop =>
    if s.stop = .joining then none
    else if s.thread = .absent then some { s with stop := .returned }
    else some { s with stop := .joining }
  | .join =>
    if s.stop = .joining ∧ s.thread = .ended then some { s with stop := .returned } else none

/-- The thread does not get out of its loop. -/
def Stays (s : EngineLife) : Prop :=
  s.thread ≠ .leaving ∧ s.thread ≠ .ended ∧
    (s.thread = .head ∨ s.thread = .handling → s.isRunning = true)

/-- A step. -/
theorem Stays.step {s s' : EngineLife} {a : EngineAction} (h : s.Stays)
    (hstep : s.step a = some s') :
    s'.Stays ∧ (s.stop = .joining → s'.stop = .joining) := by
  obtain ⟨hleaving, hended, hrun⟩ := h
  cases a with
  | start =>
    simp only [EngineLife.step] at hstep
    split at hstep
    · cases hstep
      exact ⟨⟨nofun, nofun, nofun⟩, id⟩
    · cases hstep
  | run =>
    simp only [EngineLife.step] at hstep
    split at hstep
    · cases hstep
    · cases hstep
    · cases hstep
      exact ⟨⟨nofun, nofun, fun _ => rfl⟩, id⟩
    · rename_i hthread
      cases hstep
      have hset := hrun (.inl hthread)
      exact ⟨⟨by simp [hset], by simp [hset], fun _ => hset⟩, id⟩
    · rename_i hthread
      cases hstep
      exact ⟨⟨nofun, nofun, fun _ => hrun (.inr hthread)⟩, id⟩
    · rename_i hthread
      exact absurd hthread hleaving
  | stop =>
    simp only [EngineLife.step] at hstep
    split at hstep
    · cases hstep
    · rename_i hjoining
      split at hstep <;> cases hstep <;>
        exact ⟨⟨hleaving, hended, hrun⟩, fun hj => absurd hj hjoining⟩
  | join =>
    simp only [EngineLife.step] at hstep
    split at hstep
    · rename_i hjoin
      exact absurd hjoin.2 hended
    · cases hstep

/-- A run. -/
theorem Stays.run {s s' : EngineLife} {actions : List EngineAction} (h : s.Stays)
    (hrun : actions.foldlM EngineLife.step s = some s') :
    s'.Stays ∧ (s.stop = .joining → s'.stop = .joining) := by
  induction actions generalizing s with
  | nil =>
    cases hrun
    exact ⟨h, id⟩
  | cons a actions ih =>
    obtain ⟨s₁, hstep, hrest⟩ := Option.bind_eq_some_iff.mp hrun
    obtain ⟨h₁, hjoining₁⟩ := h.step hstep
    obtain ⟨h', hjoining'⟩ := ih h₁ hrest
    exact ⟨h', hjoining' ∘ hjoining₁⟩

end EngineLife

/-- The steps may lead from a new engine to `s`. -/
abbrev EngineLifeRuns (actions : List EngineAction) (s : EngineLife) : Prop :=
  actions.foldlM EngineLife.step .create = some s

/-- **`stopMatchingEngine` does not return** on an engine that has been started: in every run,
whatever the interleaving, the engine's thread never ends, and a call of `stopMatchingEngine` made
after `startMatchingEngine` is still joining it however the run goes on. -/
theorem engine_never_stops {actions : List EngineAction} {s : EngineLife}
    (h : EngineLifeRuns actions s) :
    s.thread ≠ .ended ∧ (s.thread ≠ .absent → s.stop ≠ .joining →
      ∀ (s₁ : EngineLife) (more : List EngineAction) (s' : EngineLife), s.step .stop = some s₁ →
        more.foldlM EngineLife.step s₁ = some s' → s'.stop = .joining) := by
  have hnew : EngineLife.create.Stays := ⟨nofun, nofun, nofun⟩
  obtain ⟨hstays, -⟩ := hnew.run h
  refine ⟨hstays.2.1, fun hstarted hfree s₁ more s' hstop hmore => ?_⟩
  have hjoining : s₁.stop = .joining := by
    simp only [EngineLife.step, if_neg hfree, if_neg hstarted] at hstop
    cases hstop
    rfl
  exact ((hstays.step hstop).1.run hmore).2 hjoining

/-- A started engine, told to stop, goes on with its loop. -/
theorem engine_never_stops_sample :
    ∃ s₁ s', EngineLife.step ⟨true, .head, .notCalled⟩ .stop = some s₁ ∧
      [EngineAction.run, .run, .run].foldlM EngineLife.step s₁ = some s' ∧ s'.stop = .joining := by
  have h : EngineLifeRuns [.start, .run] ⟨true, .head, .notCalled⟩ := by decide
  exact ⟨_, _, rfl, rfl, (engine_never_stops h).2 nofun nofun _ [.run, .run, .run] _ rfl rfl⟩

end HftSys
