import HftSys.Draining
import HftSys.Settling

/-!
# The turns of the gateway's thread

Nothing bounds what the loop over the responses sends, as the engine pushes responses meanwhile. But
the engine is fed by the gateway alone, so that it runs out of requests while the gateway drains,
and the loop ends.

* `TurnStep` is a step of the gateway's thread inside of a turn of its loop, or a step of another
  thread that finds something to do.
* `ServerThread.rank`: the place in the turn, the sockets left there, and the work of the exchange.
* `turns_end`: the thread gets back to the head of its loop, whatever the interleaving, or is
  stopped by a response that finds no room.
-/

namespace HftSys

open Settling

variable {B : Build} {stray : Ticker → ℕ → Qty} {listenerSocket : SocketPtr}
  {s s' : ServerThread B} {a : ThreadAction} {actions : List ThreadAction}

/-- The action belongs to a turn that has begun, or to another thread that finds something to do. -/
def ServerThread.InTurn (s : ServerThread B) : ThreadAction → Prop
  | .poll _ _ => False
  | .elsewhere a => s.exchange.Own a
  | _ => True

/-- A step inside of a turn. -/
def TurnStep (stray : Ticker → ℕ → Qty) (s : ServerThread B) (a : ThreadAction)
    (s' : ServerThread B) : Prop :=
  s.InTurn a ∧ s.step stray a = some s'

/-! ## Turns are finite -/

/-- The loops still to come in the turn, and the sockets left in the present one. -/
def RunPoint.ahead : RunPoint → ℕ ×ₗ ℕ
  | .receiving sockets _ => toLex (4, sockets.length)
  | .publishing => toLex (3, 0)
  | .sending sockets => toLex (2, sockets.length)
  | .draining => toLex (1, 0)
  | .polling => toLex (0, 0)

/-- What is left of the turn. -/
def ServerThread.rank (s : ServerThread B) : (ℕ ×ₗ ℕ) ×ₗ (ℕ ×ₗ ℕ ×ₗ ℕ) :=
  toLex (s.point.ahead, s.exchange.work)

theorem rank_lt_of_ahead (h : s'.point.ahead < s.point.ahead) : s'.rank < s.rank :=
  Prod.Lex.toLex_lt_toLex.mpr (.inl h)

theorem rank_lt_of_work (h : s'.point = s.point) (hwork : s'.exchange.work < s.exchange.work) :
    s'.rank < s.rank :=
  Prod.Lex.toLex_lt_toLex.mpr (.inr ⟨congrArg RunPoint.ahead h, hwork⟩)

/-- Fewer sockets are left, or fewer loops. -/
theorem ahead_lt {loops loops' sockets sockets' : ℕ}
    (h : loops' < loops ∨ loops' = loops ∧ sockets' < sockets) :
    (toLex (loops', sockets') : ℕ ×ₗ ℕ) < toLex (loops, sockets) :=
  Prod.Lex.toLex_lt_toLex.mpr h

/-- **A step inside of a turn leaves less of it.** -/
theorem Goes.rank_lt (hg : Goes stray s a s') (hturn : s.InTurn a)
    (hreached : s.exchange.Reached stray) : s'.rank < s.rank := by
  have hwork : ∀ {b : ExchangeAction} {x : Exchange B}, s.exchange.step stray b = some x →
      s.exchange.Own b → x.work < s.exchange.work :=
    fun hx hown => (lowers_work stray B).lowers hreached ⟨hown, hx⟩
  cases hg with
  | poll hpoint => exact hturn.elim
  | receive hpoint hx =>
    apply rank_lt_of_ahead
    rw [hpoint]
    exact ahead_lt (by simp)
  | transmit hpoint hx =>
    apply rank_lt_of_ahead
    rw [hpoint]
    exact ahead_lt (by simp)
  | rxDone hpoint hx =>
    apply rank_lt_of_ahead
    rw [hpoint]
    exact ahead_lt (by simp)
  | @publish x hpoint hx =>
    by_cases hphase : x.phase = .polling
    · apply rank_lt_of_ahead
      rw [hpoint, if_pos hphase]
      exact ahead_lt (by simp)
    · apply rank_lt_of_work
      · rw [hpoint, if_neg hphase]
      · exact hwork hx trivial
  | pass hpoint =>
    apply rank_lt_of_ahead
    rw [hpoint]
    exact ahead_lt (by simp)
  | enter hpoint =>
    apply rank_lt_of_ahead
    rw [hpoint]
    exact ahead_lt (by simp)
  | leave hpoint hphase hempty =>
    apply rank_lt_of_ahead
    rw [hpoint]
    exact ahead_lt (by simp)
  | respond hpoint hhead hx => exact rank_lt_of_work rfl (hwork hx trivial)
  | release hpoint hx => exact rank_lt_of_work rfl (hwork hx trivial)
  | elsewhere ha hx => exact rank_lt_of_work rfl (hwork hx hturn)

/-- Some run leads to the thread. -/
def ServerThread.Reached (stray : Ticker → ℕ → Qty) (listenerSocket : SocketPtr)
    (s : ServerThread B) : Prop :=
  ∃ actions, ThreadRuns stray listenerSocket actions s

/-- A turn goes to its end. -/
theorem lowers_rank (stray : Ticker → ℕ → Qty) (listenerSocket : SocketPtr) (B : Build) :
    Lowers (TurnStep (B := B) stray) (ServerThread.Reached stray listenerSocket)
      ServerThread.rank where
  kept := by
    rintro s a s' ⟨actions, h⟩ ⟨-, hstep⟩
    exact ⟨actions ++ [a], (runsOf_thread B stray listenerSocket).concat.mpr ⟨s, h, hstep⟩⟩
  lowers := by
    rintro s a s' ⟨actions, h⟩ ⟨hturn, hstep⟩
    exact (ServerThread.step_ok hstep).rank_lt hturn h.exchange

/-! ## Turns go on -/

/-- In `rxDoneCallback` the gateway publishes. -/
theorem phase_publishing (h : ThreadRuns stray listenerSocket actions s)
    (hpoint : s.point = .publishing) : ∃ rs, s.exchange.phase = .publishing rs := by
  revert hpoint
  refine (runsOf_thread B stray listenerSocket).induction
    (P := fun _ s => s.point = .publishing → ∃ rs, s.exchange.phase = .publishing rs) nofun ?_ h
  intro actions a s s' hrun ih hstep hpoint'
  cases ServerThread.step_ok hstep with
  | rxDone hpoint hx =>
    cases Exchange.step_ok hx with
    | rxDone hphase hsort => exact ⟨_, rfl⟩
  | @publish x hpoint hx =>
    cases Exchange.step_ok hx with
    | push hphase => exact ⟨_, rfl⟩
    | leave hphase => simp at hpoint'
  | respond hpoint hhead hx => simp [hpoint] at hpoint'
  | release hpoint hx => simp [hpoint] at hpoint'
  | elsewhere ha hx =>
    rw [((Exchange.step_ok hx).elsewhere ha).2]
    exact ih hpoint'
  | _ => cases hpoint'

/-- Nothing arrives on the socket, and it sends nothing. -/
def quiet : Outcome := ⟨[], 0, none⟩

theorem step_quiet (stray : Ticker → ℕ → Qty) {x : Exchange B} (hphase : x.phase = .polling)
    (socket : SocketPtr) :
    ∃ x', x.step stray (.sendAndRecv socket quiet) = some x' :=
  ⟨_, by rw [Exchange.step, if_pos hphase]; rfl⟩

/-- At rest nothing inside of the turn can be done. -/
theorem step_of_atRest_turn (hrest : AtRest (TurnStep stray) s) (hturn : s.InTurn a) :
    s.step stray a = none := by
  cases hstep : s.step stray a with
  | none => rfl
  | some s' => exact absurd ⟨hturn, hstep⟩ (hrest a s')

/-- The passes of `sendAndReceive` go on. -/
theorem not_passing_of_atRest (hrest : AtRest (TurnStep stray) s)
    (hphase : s.exchange.phase = .polling) (sockets : List SocketPtr) :
    (∀ recv, s.point ≠ .receiving sockets recv) ∧ s.point ≠ .sending sockets := by
  have hnext := step_of_atRest_turn hrest (a := .next) trivial
  have hquiet := step_of_atRest_turn hrest (a := .sendAndRecv quiet) trivial
  obtain ⟨sorted, hsort⟩ : ∃ sorted, SortsTo s.exchange.gateway.fifo.pendingRequests sorted :=
    ⟨_, sortsTo_iff.mpr (Sorting.sorts_sort _ _)⟩
  have hrxDone := step_of_atRest_turn hrest (a := .rxDone sorted) trivial
  constructor
  · intro recv hpoint
    cases sockets with
    | cons socket sockets =>
      obtain ⟨x, hx⟩ := step_quiet stray hphase socket
      simp [ServerThread.step, hpoint, hx] at hquiet
    | nil =>
      cases recv with
      | false => simp [ServerThread.step, hpoint] at hnext
      | true => simp [ServerThread.step, hpoint, Exchange.step, hphase, hsort] at hrxDone
  · intro hpoint
    cases sockets with
    | cons socket sockets =>
      obtain ⟨x, hx⟩ := step_quiet stray hphase socket
      simp [ServerThread.step, hpoint, hx] at hquiet
    | nil => simp [ServerThread.step, hpoint] at hnext

/-- A thread that cannot go on inside of its turn is at the head of its loop, or before a response
that finds no room. -/
theorem point_of_atRest (h : ThreadRuns stray listenerSocket actions s)
    (hrest : AtRest (TurnStep stray) s) :
    s.point = .polling ∨
      ∃ res, s.AboutToSend res ∧ s.exchange.gateway.sendResponse res = .error .bufferOverflow := by
  have hallows := (Rounds.of_runs h).phase
  cases hpoint : s.point with
  | polling => exact .inl rfl
  | receiving sockets recv =>
    rw [hpoint] at hallows
    exact absurd hpoint ((not_passing_of_atRest hrest hallows sockets).1 recv)
  | sending sockets =>
    rw [hpoint] at hallows
    exact absurd hpoint (not_passing_of_atRest hrest hallows sockets).2
  | publishing =>
    obtain ⟨rs, hphase⟩ := phase_publishing h hpoint
    have hpublish := step_of_atRest_turn hrest (a := .publish) trivial
    cases rs <;> simp [ServerThread.step, hpoint, Exchange.step, hphase] at hpublish
  | draining =>
    rw [hpoint] at hallows
    rcases hallows with hphase | hphase
    · cases hitems : s.exchange.outputs.txResponses.items with
      | nil =>
        have hnext := step_of_atRest_turn hrest (a := .next) trivial
        simp [ServerThread.step, hpoint, hphase, hitems] at hnext
      | cons res rest =>
        obtain ⟨moves, hmoves⟩ := h.exchange
        have hrespond := step_of_atRest_turn hrest (a := .respond) trivial
        rcases sendResponse_head hmoves hitems with ⟨g, hcall⟩ | hoverflow
        · simp [ServerThread.step, hpoint, Exchange.step, hphase, hitems, hcall,
            Except.toOption] at hrespond
        · exact .inr ⟨res, ⟨hpoint, hphase, by simp [hitems]⟩, hoverflow⟩
    · have hrelease := step_of_atRest_turn hrest (a := .release) trivial
      simp [ServerThread.step, hpoint, Exchange.step, hphase] at hrelease

/-- **Every turn ends**: after every run, whatever the interleaving of the threads, only finitely
many steps may follow before the gateway's thread polls again, turns in which the other threads find
nothing to do left out; and the thread can always go on, until it is back at the head of its loop or
before a response that finds no room on its socket. -/
theorem turns_end (h : ThreadRuns stray listenerSocket actions s) :
    (∀ (states : ℕ → ServerThread B) (acts : ℕ → ThreadAction), states 0 = s →
        ∃ n, ¬ TurnStep stray (states n) (acts n) (states (n + 1))) ∧
      ∃ more s', Runs.Path (TurnStep stray) s more s' ∧ (s'.point = .polling ∨
        ∃ res, s'.AboutToSend res ∧
          s'.exchange.gateway.sendResponse res = .error .bufferOverflow) := by
  constructor
  · rintro states acts rfl
    exact (lowers_rank stray listenerSocket B).stops ⟨actions, h⟩
  · obtain ⟨more, s', hpath, ⟨actions', h'⟩, hrest⟩ :=
      (lowers_rank stray listenerSocket B).exists_rest ⟨actions, h⟩
    exact ⟨more, s', hpath, point_of_atRest h' hrest⟩

/-- A client connects on socket 1 and sends a SELL, which the engine accepts while the gateway
drains. -/
def sampleTurn : List ThreadAction :=
  [.poll [⟨0, true, false, false⟩] [1],
    .sendAndRecv ⟨OGSClientRequest.image ⟨1, sampleSell⟩, 5, none⟩,
    .rxDone [⟨5, sampleSell⟩], .publish, .publish, .next, .elsewhere .takeRequest, .elsewhere .emit]

/-- The turn is in its last loop, with the response still to be sent. -/
theorem turns_end_sample :
    ∃ s : ServerThread .production, s.point = .draining ∧
      s.exchange.outputs.txResponses.items.length = 1 ∧
      ∃ more s', Runs.Path (TurnStep fun _ _ => 0) s more s' ∧ (s'.point = .polling ∨
        ∃ res, s'.AboutToSend res ∧
          s'.exchange.gateway.sendResponse res = .error .bufferOverflow) := by
  have hrun : ((sampleTurn.foldlM (ServerThread.step fun _ _ => 0)
      (ServerThread.create .production 0)).map fun s =>
        (s.point, s.exchange.outputs.txResponses.items.length)) = some (.draining, 1) := by
    decide +kernel
  obtain ⟨s, hs, hat⟩ := Option.map_eq_some_iff.mp hrun
  rw [Prod.mk.injEq] at hat
  exact ⟨s, hat.1, hat.2, (turns_end hs).2⟩

end HftSys
