import HftSys.Draining

/-!
# Rounds on Linux

`addSocketToEventSystem` registers a socket with `epoll` for `EPOLLIN` alone, so that `epoll_wait`
reports no socket as writable, and the list that the second pass of `sendAndReceive` goes through
stays empty (`sendSockets_poll`). With `kqueue` it does not: there a record may come in behind
`rxDoneCallback` and wait for the next round.

* `Sequenced`: requests wait in the sequencer only during the first pass, once something has been
  received in it.
* `rounds_complete_on_epoll`: so it is in every run of the gateway's thread with `epoll`, and what
  has been forwarded has been published by the time responses are drained.
-/

namespace HftSys

open Exec

variable {B : Build} {stray : Ticker → ℕ → Qty} {listenerSocket : SocketPtr}
  {s s' : ServerThread B} {a : ThreadAction} {actions : List ThreadAction}

/-- No event of a `poll` reports a socket as writable. -/
def ThreadAction.OnEpoll : ThreadAction → Prop
  | .poll events _ => ∀ event ∈ events, event.writable = false
  | _ => True

instance (a : ThreadAction) : Decidable a.OnEpoll :=
  match a with
  | .poll events _ => inferInstanceAs (Decidable (∀ event ∈ events, event.writable = false))
  | .sendAndRecv _ | .rxDone _ | .publish | .next | .respond | .release | .elsewhere _ =>
    isTrue trivial

/-- Requests wait in the sequencer only while the first pass goes on and something has been received
in it; there is no second pass. -/
structure Sequenced (s : ServerThread B) : Prop where
  noSender : s.server.sendSockets = []
  noSecondPass : ∀ sockets, s.point = .sending sockets → sockets = []
  waits : s.exchange.gateway.fifo.pendingRequests ≠ [] →
    ∃ sockets, s.point = .receiving sockets true

/-- Nothing waits anywhere but in a first pass that has received something. -/
theorem Sequenced.noneWaits (h : Sequenced s)
    (hpoint : ∀ sockets, s.point ≠ .receiving sockets true) :
    s.exchange.gateway.fifo.pendingRequests = [] := by
  by_contra hne
  obtain ⟨sockets, hsockets⟩ := h.waits hne
  exact hpoint sockets hsockets

theorem sequenced_create (B : Build) (listenerSocket : SocketPtr) :
    Sequenced (ServerThread.create B listenerSocket) :=
  ⟨rfl, (fun sockets hsending => by cases hsending), fun h => absurd rfl h⟩

/-- **A step of the thread keeps it so**, if it is no `poll` that reports a socket as writable. -/
theorem Sequenced.step (h : Sequenced s) (hepoll : a.OnEpoll) (hg : Goes stray s a s') :
    Sequenced s' := by
  cases hg with
  | @poll events accepted hpoint =>
    have hsend : (s.server.poll events accepted).sendSockets = [] := by
      rw [TCPServer.sendSockets_poll _ _ hepoll, h.noSender]
    have hnone := h.noneWaits fun sockets => by simp [hpoint]
    exact ⟨hsend, (fun sockets hsending => by cases hsending), fun hne => absurd hnone hne⟩
  | @receive socket sockets recv o x hpoint hx =>
    refine ⟨h.noSender, (fun sockets hsending => by cases hsending), fun hne => ⟨sockets, ?_⟩⟩
    cases Exchange.step_ok hx with
    | @sendAndRecv _ _ received g hphase hcall =>
      obtain ⟨hr, -, -⟩ := sendAndRecv_ok hcall
      by_cases hbytes : o.bytes = []
      · -- Nothing has come in, so what waits has come in before.
        have hsame : g.fifo.pendingRequests = s.exchange.gateway.fifo.pendingRequests := by
          rw [hr.pending, completed, if_pos hbytes]
          exact List.append_nil _
        obtain ⟨sockets', hbefore⟩ := h.waits (hsame ▸ hne)
        rw [hpoint] at hbefore
        cases hbefore
        rfl
      · simp [hbytes]
  | @transmit socket sockets o x hpoint hx =>
    cases h.noSecondPass _ hpoint
  | @rxDone sorted x hpoint hx =>
    cases Exchange.step_ok hx with
    | rxDone hphase hsort =>
      have hnone : (s.exchange.gateway.rxDoneCallback sorted).fifo.pendingRequests = [] :=
        FIFOSequencer.pendingRequests_sequenceAndPublish _ _
      exact ⟨h.noSender, (fun sockets hsending => by cases hsending), fun hne => absurd hnone hne⟩
  | @publish x hpoint hx =>
    have hsame : x.gateway = s.exchange.gateway := by
      cases Exchange.step_ok hx <;> rfl
    have hnone := h.noneWaits fun sockets => by simp [hpoint]
    refine ⟨h.noSender, fun sockets hsending => ?_, fun hne => absurd (hsame ▸ hnone) hne⟩
    dsimp only at hsending
    split at hsending
    · cases hsending
      exact h.noSender
    · cases hsending
  | pass hpoint =>
    have hnone := h.noneWaits fun sockets => by simp [hpoint]
    refine ⟨h.noSender, fun sockets hsending => ?_, fun hne => absurd hnone hne⟩
    cases hsending
    exact h.noSender
  | enter hpoint =>
    have hnone := h.noneWaits fun sockets => by simp [hpoint]
    exact ⟨h.noSender, (fun sockets hsending => by cases hsending), fun hne => absurd hnone hne⟩
  | leave hpoint hphase hempty =>
    have hnone := h.noneWaits fun sockets => by simp [hpoint]
    exact ⟨h.noSender, (fun sockets hsending => by cases hsending), fun hne => absurd hnone hne⟩
  | @respond res rest x hpoint hhead hx =>
    have hnone := h.noneWaits fun sockets => by simp [hpoint]
    cases Exchange.step_ok hx with
    | respond hphase hhead' hcall =>
      obtain ⟨-, socket, t, -, -, rfl⟩ := sendResponse_ok hcall
      exact ⟨h.noSender, h.noSecondPass, fun hne => absurd hnone hne⟩
  | @release x hpoint hx =>
    have hsame : x.gateway = s.exchange.gateway := by
      cases Exchange.step_ok hx
      rfl
    exact ⟨h.noSender, h.noSecondPass, fun hne => h.waits (hsame ▸ hne)⟩
  | @elsewhere b x hb hx =>
    have hsame : x.gateway = s.exchange.gateway := ((Exchange.step_ok hx).elsewhere hb).1
    exact ⟨h.noSender, h.noSecondPass, fun hne => h.waits (hsame ▸ hne)⟩

/-- In every run with `epoll`. -/
theorem ThreadRuns.sequenced (h : ThreadRuns stray listenerSocket actions s)
    (hepoll : ∀ a ∈ actions, a.OnEpoll) : Sequenced s := by
  refine (runsOf_thread B stray listenerSocket).induction
    (P := fun actions s => (∀ a ∈ actions, a.OnEpoll) → Sequenced s)
    (fun _ => sequenced_create B listenerSocket) ?_ h hepoll
  rintro actions a s s' - ih hstep hepoll
  obtain ⟨hearlier, hlast⟩ := List.forall_mem_append.mp hepoll
  exact (ih hearlier).step (hlast a (List.mem_singleton_self a)) (ServerThread.step_ok hstep)

/-- **On Linux every round hands its requests on**: in every run of the gateway's thread in which
`poll` reports no socket as writable, whatever the engine does meanwhile, no request waits in the
sequencer at any point but in a first pass that has received something; at every other point what
has been forwarded has been published, each request once. -/
theorem rounds_complete_on_epoll (h : ThreadRuns stray listenerSocket actions s)
    (hepoll : ∀ a ∈ actions, a.OnEpoll) (hpoint : ∀ sockets, s.point ≠ .receiving sockets true) :
    s.exchange.gateway.fifo.pendingRequests = [] ∧
      s.exchange.gateway.published.Perm
        (s.exchange.gateway.forwarded.map fun x => x.record.omeRequest) := by
  have hnone := (h.sequenced hepoll).noneWaits hpoint
  obtain ⟨moves, hmoves⟩ := h.exchange
  obtain ⟨es, hes⟩ := hmoves.gateway
  have hall := hes.consistent.published_append_requests
  rw [FIFOSequencer.requests, hnone, List.map_nil, List.append_nil] at hall
  exact ⟨hnone, hall⟩

/-- Two rounds: two connections are accepted, an order comes in on each, and the engine takes the
first while the second is pushed; then a cancel comes in on the first socket. -/
def epollActions : List ThreadAction :=
  [.poll [⟨99, true, false, false⟩] [0, 1],
    .sendAndRecv ⟨OGSClientRequest.image ⟨1, sampleSell⟩, 5, none⟩,
    .sendAndRecv ⟨OGSClientRequest.image ⟨1, sampleBuy⟩, 6, none⟩,
    .rxDone [⟨5, sampleSell⟩, ⟨6, sampleBuy⟩], .publish, .elsewhere .takeRequest, .publish, .publish,
    .next, .next, .poll [⟨0, true, false, false⟩] [],
    .sendAndRecv ⟨OGSClientRequest.image ⟨2, sampleCancel⟩, 7, none⟩, .sendAndRecv ⟨[], 0, none⟩,
    .rxDone [⟨7, sampleCancel⟩], .publish, .publish]

/-- After the second round three requests have been forwarded, and none of them waits. -/
theorem rounds_complete_on_epoll_sample :
    ∃ s : ServerThread .production, s.point = .sending [] ∧
      s.exchange.gateway.forwarded.length = 3 ∧
      s.exchange.gateway.fifo.pendingRequests = [] ∧
      s.exchange.gateway.published.Perm
        (s.exchange.gateway.forwarded.map fun x => x.record.omeRequest) := by
  have hrun : ((epollActions.foldlM (ServerThread.step fun _ _ => 0)
      (ServerThread.create .production 99)).map fun s =>
        (s.point, s.exchange.gateway.forwarded.length)) = some (.sending [], 3) := by
    decide +kernel
  obtain ⟨s, hs, hat⟩ := Option.map_eq_some_iff.mp hrun
  obtain ⟨hpoint, hlen⟩ := Prod.mk.inj hat
  exact ⟨s, hpoint, hlen, rounds_complete_on_epoll hs (by decide) fun sockets => by simp [hpoint]⟩

end HftSys
