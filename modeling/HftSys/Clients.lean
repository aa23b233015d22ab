import HftSys.Settling

/-!
# What a client gets

A client that keeps to the rules of the gateway (`KeepsRules`: one socket, numbers 1, 2, 3, …) is
owed one answer for each of its requests. `clients_served` follows its requests through the whole
exchange: the gate forwards all of them (`ofClient_forwarded`), the sequencer keeps them in order
where no two of them have the same time (`ExchangeRuns.undisturbed`), the engine answers them one by
one, and the gateway sends the answers back in that order.
-/

namespace HftSys

open SequenceGate

variable {B : Build} {stray : Ticker → ℕ → Qty} {actions : List ExchangeAction} {x x' : Exchange B}
  {a : ExchangeAction} {c : ClientID}

/-! ## The rules -/

/-- The records of a client come from one socket and are numbered 1, 2, 3, … -/
structure KeepsRules (c : ClientID) (xs : List Arrival) : Prop where
  oneSocket : ∃ socket, ∀ y ∈ ofClient c xs, y.socket = socket
  numbered : (ofClient c xs).map (fun y => y.record.nSeq) =
    (List.range (ofClient c xs).length).map fun k => UInt64.ofNat (k + 1)

/-- The requests in a client's records. -/
def requestsFrom (c : ClientID) (xs : List Arrival) : List OMEClientRequest :=
  (ofClient c xs).map fun y => y.record.omeRequest

theorem iterate_succ (k : ℕ) : (fun n : UInt64 => n + 1)^[k] 1 = UInt64.ofNat (k + 1) := by
  induction k with
  | zero => rfl
  | succ k ih => rw [Function.iterate_succ_apply', ih, UInt64.ofNat_add (k + 1) 1, UInt64.ofNat_one]

/-- **The gateway forwards all that a client sends by the rules.** -/
theorem ofClient_forwarded {g : OrderGatewayServer B} (hg : Consistent g)
    (h : KeepsRules c g.arrived) : ofClient c g.forwarded = ofClient c g.arrived := by
  obtain ⟨socket, hsocket⟩ := h.oneSocket
  rw [hg.forwarded]
  apply Gate.ofClient_admitted (s := socket) (by simp [startGate, Gate.start]) hsocket
  simp only [startGate, Gate.start, iterate_succ]
  exact h.numbered

/-- The requests accepted of such a client are all it has sent. -/
theorem requestsOf_accepted {g : OrderGatewayServer B} (hg : Consistent g)
    (h : KeepsRules c g.arrived) : requestsOf c g.accepted = requestsFrom c g.arrived := by
  rw [requestsFrom, ← ofClient_forwarded hg h]
  exact List.filter_map

/-! ## The sequencer of an exchange -/

/-- The receive that an action is. -/
def ExchangeAction.receive : ExchangeAction → Option GatewayEvent
  | .sendAndRecv socket o => some (.sendAndRecv socket o)
  | _ => none

/-- The receives among some actions. -/
def receives (actions : List ExchangeAction) : List GatewayEvent := actions.filterMap (·.receive)

/-- If the action sorts the waiting requests, no two different ones of a client have the same
time. -/
def Exchange.Untied (x : Exchange B) (a : ExchangeAction) : Prop :=
  ∀ sorted, a = .rxDone sorted → x.gateway.Untied .rxDone

instance (x : Exchange B) (a : ExchangeAction) : Decidable (x.Untied a) :=
  match a with
  | .rxDone sorted => decidable_of_iff (x.gateway.Untied .rxDone)
      ⟨fun h _ _ => h, fun h => h sorted rfl⟩
  | .sendAndRecv .. | .publish | .respond | .release | .takeRequest | .emit | .popUpdate =>
    isTrue fun _ h => nomatch h

theorem receives_concat (actions : List ExchangeAction) (a : ExchangeAction) :
    receives (actions ++ [a]) = receives actions ++ a.receive.toList := by
  rw [receives, List.filterMap_append]
  cases a <;> rfl

/-- The gateway takes an event for an action at most, with the same receives. -/
theorem Moves.received {es : List GatewayEvent} (hm : Moves stray x a x')
    (hes : GatewayRuns es x.gateway)
    (htimes : ∀ socket, receiveTimes socket es = receiveTimes socket (receives actions)) :
    ∃ es', GatewayRuns es' x'.gateway ∧
      ∀ socket, receiveTimes socket es' = receiveTimes socket (receives (actions ++ [a])) := by
  simp only [receives_concat, receiveTimes_append, ← htimes]
  cases hm with
  | @sendAndRecv socket o received g hphase hcall =>
    exact ⟨_, hes.snoc (.sendAndRecv socket o) ⟨received, hcall⟩, fun _ => receiveTimes_append ..⟩
  | @rxDone sorted hphase hsort =>
    exact ⟨_, hes.snoc .rxDone ⟨sorted, hsort, rfl⟩, fun _ => receiveTimes_append ..⟩
  | @respond res rest g hphase hhead hcall =>
    exact ⟨_, hes.snoc (.respond res) hcall, fun _ => receiveTimes_append ..⟩
  | _ => exact ⟨es, hes, fun _ => (List.append_nil _).symm⟩

/-- The gateway of an exchange is reached by a run with the receives of the exchange. -/
theorem ExchangeRuns.received (h : ExchangeRuns stray actions x) :
    ∃ es, GatewayRuns es x.gateway ∧
      ∀ socket, receiveTimes socket es = receiveTimes socket (receives actions) := by
  refine (runsOf_exchange B stray).induction (P := fun actions x => ∃ es, GatewayRuns es x.gateway ∧
    ∀ socket, receiveTimes socket es = receiveTimes socket (receives actions)) ?_ ?_ h
  · exact ⟨[], rfl, fun _ => rfl⟩
  · rintro actions a x x' - ⟨es, hes, htimes⟩ hstep
    exact (Exchange.step_ok hstep).received hes htimes

/-- **The sequencer keeps the requests of a client in order**, if the clock does not go back between
the receives on a socket and no two of them tie when they are sorted. -/
theorem ExchangeRuns.undisturbed (h : ExchangeRuns stray actions x)
    (hclock : Clocked (receives actions))
    (hties : ExchangeMeets (B := B) stray Exchange.Untied actions) : x.gateway.Undisturbed := by
  refine (runsOf_exchange B stray).induction (P := fun actions x => Clocked (receives actions) →
    ExchangeMeets (B := B) stray Exchange.Untied actions → x.gateway.Undisturbed) ?_ ?_ h hclock
    hties
  · exact fun _ _ _ => rfl
  · rintro actions a x x' hrun ih hstep hclock hties
    obtain ⟨hearlier, hlast⟩ := (exchangeMeets_concat hrun).mp hties
    rw [receives_concat] at hclock
    have hg := ih hclock.left hearlier
    cases Exchange.step_ok hstep with
    | sendAndRecv hphase hcall => exact hg.received (sendAndRecv_ok hcall).1
    | @rxDone sorted hphase hsort =>
      obtain ⟨es, hes, htimes⟩ := hrun.received
      have hclock' : Clocked es := fun socket => by
        rw [htimes]
        exact hclock.left socket
      exact hg.rxDone hes.consistent (hes.timely hclock') (hlast sorted rfl) hsort
    | respond hphase hhead hcall =>
      obtain ⟨-, socket, s, -, -, hrest⟩ := sendResponse_ok hcall
      subst hrest
      exact hg
    | _ => exact hg

/-! ## Answers -/

/-- The answers for a client among some responses. -/
def answersTo (c : ClientID) (rs : List OMEClientResponse) : List Answer :=
  (rs.filterMap (·.answer)).filter fun answer => decide (answer.clientId = c)

/-- An answer goes to the client of the call. -/
theorem Answer.To.clientId_eq {answer : Answer} {call : Request} (h : answer.To call) :
    answer.clientId = call.clientId := by
  cases call with
  | new taker =>
    cases h
    rfl
  | cancel r => rcases h with rfl | rfl <;> rfl

/-- The calls that a client's own requests make are its calls among all. -/
theorem bookCalls_requestsOf (c : ClientID) (rs : List OMEClientRequest) :
    bookCalls (requestsOf c rs) =
      (bookCalls rs).filter fun call => decide (call.clientId = c) := by
  rw [bookCalls, requestsOf, List.filterMap_filter, bookCalls, List.filter_filterMap]
  apply List.filterMap_congr
  intro r _
  cases hcall : r.bookCall with
  | none => simp
  | some call => simp [Option.filter, ← OMEClientRequest.clientId_bookCall hcall]

/-- The responses in the log of a run answer a client's calls, in the order in which its requests
were taken. -/
theorem EngineLogs.answersTo {rs : List OMEClientRequest} {e : MatchingEngine B}
    {log : List Emission} (h : EngineLogs stray rs e log) (c : ClientID) :
    List.Forall₂ Answer.To (HftSys.answersTo c (responsesOf log)) (bookCalls (requestsOf c rs)) := by
  rw [bookCalls_requestsOf]
  refine List.rel_filter (fun answer call hto => ?_) h.answers
  show decide (answer.clientId = c) = true ↔ decide (call.clientId = c) = true
  rw [hto.clientId_eq]

/-- **Every client is served in order**: in every run, whatever the interleaving of the threads, in
which no push of a request or a response found its queue full, the clock did not go back between the
receives on a socket and no two requests of a client tied, a client that keeps to the rules has been
sent answers to the first so many of its requests, one for each, in the order in which it sent them,
a new order being answered with `ACCEPTED`, a cancel with `CANCELLED` or `CANCEL_REJECTED`; and to
all of them once the exchange has settled with the queues behind the gateway worked off. -/
theorem clients_served (h : ExchangeRuns stray actions x) (hclock : Clocked (receives actions))
    (hties : ExchangeMeets (B := B) stray Exchange.Untied actions)
    (hrequests : ExchangeMeets (B := B) stray Exchange.RequestFits actions)
    (hresponses : ExchangeMeets (B := B) stray Exchange.ResponseFits actions)
    (hrules : KeepsRules c x.gateway.arrived) :
    (∃ served, served <+: bookCalls (requestsFrom c x.gateway.arrived) ∧
        List.Forall₂ Answer.To (answersTo c x.delivered) served) ∧
      (x.Settled stray → x.rxRequests.items = [] → x.outputs.txResponses.items = [] →
        List.Forall₂ Answer.To (answersTo c x.delivered)
          (bookCalls (requestsFrom c x.gateway.arrived))) := by
  obtain ⟨emitted, hconv⟩ := h.conveyed
  obtain ⟨pushed, hpub, hfed⟩ := hconv.requests
  obtain ⟨es, hes, -⟩ := hconv.sent
  have hentered := hfed.all_iff.mpr hrequests
  have hcalls := hconv.responses.all_iff.mpr hresponses
  have horder := h.undisturbed hclock hties c
  rw [requestsOf_accepted hes.consistent hrules, hpub, ← hentered] at horder
  have hanswers := hconv.engine.answersTo c
  rw [responsesOf_append, ← hcalls] at hanswers
  constructor
  · have htaken : requestsOf c x.rxRequests.taken <+: requestsFrom c x.gateway.arrived := by
      rw [← horder]
      refine List.IsPrefix.trans ?_ (List.prefix_append _ _)
      apply List.IsPrefix.filter
      rw [Fifo.Queue.entered, List.append_assoc]
      exact List.prefix_append _ _
    have hsent : answersTo c x.delivered <+:
        answersTo c (x.outputs.txResponses.entered ++ responsesOf x.emitting) :=
      (((prefix_of_delivered x).trans (List.prefix_append _ _)).filterMap _).filter _
    -- As many of the requests taken as there are answers sent.
    refine ⟨(bookCalls (requestsOf c x.rxRequests.taken)).take (answersTo c x.delivered).length,
      (List.take_prefix _ _).trans (htaken.filterMap _), ?_⟩
    rw [List.prefix_iff_eq_take.mp hsent, List.length_take_of_le hsent.length_le]
    exact List.forall₂_take _ hanswers
  · intro hs hempty hall
    have hdelivered : x.delivered = x.outputs.txResponses.entered := by
      simp [Exchange.delivered, Exchange.sending, Fifo.Queue.entered, hall, hs.phase]
    have htaken : requestsOf c x.rxRequests.taken = requestsFrom c x.gateway.arrived := by
      rw [← horder]
      simp [Fifo.Queue.entered, hempty, hs.phase, GatewayPhase.requests, FIFOSequencer.requests,
        hs.sequenced, requestsOf]
    rw [hs.emitted, responsesOf, List.filterMap_nil, List.append_nil, ← hdelivered, htaken]
      at hanswers
    exact hanswers

/-- Each of the two sockets of `sampleDelivery` has two receives, the second one later. -/
theorem clocked_sampleDelivery : Clocked (receives sampleDelivery) := by
  intro socket
  by_cases hzero : socket = 0
  · subst hzero
    decide
  · by_cases hone : socket = 1
    · subst hone
      decide
    · have hnone : receiveTimes socket (receives sampleDelivery) = [] := by
        simp [receiveTimes, receives, sampleDelivery, sampleActions, ExchangeAction.receive,
          GatewayEvent.receiveTime, Ne.symm hzero, Ne.symm hone]
      rw [hnone]
      exact .nil

/-- In `sampleDelivery` two requests are sorted at a time, of different clients and times. -/
theorem untied_sampleDelivery :
    ExchangeMeets (B := .production) (fun _ _ => 0) Exchange.Untied sampleDelivery :=
  Runs.Meets.of_checks (fun x a => decide (x.Untied a)) (fun _ _ => of_decide_eq_true)
    (by decide +kernel)

/-- Each client of `sampleDelivery` has been sent the two answers it is due. -/
theorem clients_served_sample :
    ∃ x : Exchange .production,
      requestsFrom 1 x.gateway.arrived = [sampleSell, sampleSecondSell] ∧
      requestsFrom 2 x.gateway.arrived = [sampleBuy, sampleWithdrawal] ∧
      List.Forall₂ Answer.To (answersTo 1 x.delivered)
        (bookCalls (requestsFrom 1 x.gateway.arrived)) ∧
      List.Forall₂ Answer.To (answersTo 2 x.delivered)
        (bookCalls (requestsFrom 2 x.gateway.arrived)) := by
  obtain ⟨x, hx, hsettled, hempty, hall, htaken, haccepted, -⟩ := sampleDelivery_settled
  have hrun : ((sampleDelivery.foldlM (Exchange.step fun _ _ => 0)
      (Exchange.create .production)).map fun x => x.gateway.arrived) =
      some [⟨0, 5, ⟨1, sampleSell⟩⟩, ⟨1, 6, ⟨1, sampleBuy⟩⟩, ⟨1, 7, ⟨2, sampleWithdrawal⟩⟩,
        ⟨0, 8, ⟨2, sampleSecondSell⟩⟩] := by
    decide +kernel
  obtain ⟨x', hx', harrived⟩ := Option.map_eq_some_iff.mp hrun
  obtain rfl : x' = x := Option.some.inj (hx'.symm.trans hx)
  have hunder : x'.underWay = [] := by
    simp [Exchange.underWay, hempty, hsettled.phase, GatewayPhase.requests, FIFOSequencer.requests,
      hsettled.sequenced]
  have hrequests := (requests_kept hx).mp (by rw [hunder, htaken, haccepted, List.append_nil])
  have hserved : ∀ c ∈ [1, 2], List.Forall₂ Answer.To (answersTo c x'.delivered)
      (bookCalls (requestsFrom c x'.gateway.arrived)) := by
    intro c hc
    have hrules : KeepsRules c x'.gateway.arrived := by
      rw [harrived]
      obtain rfl | rfl := List.mem_pair.mp hc
      · exact ⟨⟨0, by decide⟩, by decide⟩
      · exact ⟨⟨1, by decide⟩, by decide⟩
    exact (clients_served hx clocked_sampleDelivery untied_sampleDelivery hrequests sampleDelivery_fits.1
      hrules).2 hsettled hempty hall
  refine ⟨x', by rw [harrived]; decide, by rw [harrived]; decide, hserved 1 (by simp),
    hserved 2 (by simp)⟩

end HftSys
