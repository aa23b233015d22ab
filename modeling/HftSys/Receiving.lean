import HftSys.Lib.Exec
import HftSys.OrderGatewayServer

/-!
# What the gateway receives

`rxCallback` seen from outside: the records an event completes go through the gate of
`SequenceGate`, and those it admits are forwarded.

* `Received g g' xs`: the gateway has read the records `xs` between `g` and `g'`. `receiveRecord_ok`
  and `sendAndRecv_ok` take the functions apart into it.
* `Consistent` says how the gateway's tables, its waiting requests and what it has published follow
  from the records read. `GatewayRuns.consistent`: they do in every run.
* `gateway_disciplined`: the records forwarded of a client carry the numbers 1, 2, 3, … and come
  from one socket.
-/

namespace HftSys

open Bytes Exec SequenceGate

namespace OrderGatewayServer

variable {B : Build} {g g' g'' : OrderGatewayServer B} {socket : SocketPtr} {tRx : Nanos}
  {req : OGSClientRequest} {xs ys : List Arrival} {x : Arrival} {o : Outcome}

/-- The tables of `rxCallback` as a gate. -/
def gate (g : OrderGatewayServer B) : Gate ClientID SocketPtr UInt64 :=
  ⟨g.mapClientToSocket, g.mapClientToRxNSeq⟩

end OrderGatewayServer

/-- The gate after some records. -/
abbrev gateAfter (t : Gate ClientID SocketPtr UInt64) (xs : List Arrival) :
    Gate ClientID SocketPtr UInt64 :=
  t.afterAll (· + 1) Arrival.item xs

/-- The records among some that the gate admits. -/
abbrev admitted (t : Gate ClientID SocketPtr UInt64) (xs : List Arrival) : List Arrival :=
  t.admitted (· + 1) Arrival.item xs

theorem gateAfter_append (t : Gate ClientID SocketPtr UInt64) (xs ys : List Arrival) :
    gateAfter t (xs ++ ys) = gateAfter (gateAfter t xs) ys :=
  Gate.afterAll_append t xs ys

theorem admitted_append (t : Gate ClientID SocketPtr UInt64) (xs ys : List Arrival) :
    admitted t (xs ++ ys) = admitted t xs ++ admitted (gateAfter t xs) ys :=
  Gate.admitted_append t xs ys

theorem gateAfter_singleton (t : Gate ClientID SocketPtr UInt64) (x : Arrival) :
    gateAfter t [x] = t.after (· + 1) x.item := rfl

theorem admitted_singleton (t : Gate ClientID SocketPtr UInt64) (x : Arrival) :
    admitted t [x] = if t.Admits x.item then [x] else [] :=
  Gate.admitted_singleton t x

/-- The gate of a new gateway. -/
abbrev startGate : Gate ClientID SocketPtr UInt64 := .start 1

/-- The records of a client. -/
abbrev ofClient (c : ClientID) (xs : List Arrival) : List Arrival :=
  SequenceGate.ofClient Arrival.item c xs

/-- The records a call of `sendAndRecv` completes in an inbound buffer. -/
def completed (inboundData : List UInt8) (socket : SocketPtr) (o : Outcome) : List Arrival :=
  if o.bytes = [] then []
  else (records sizeofOGSClientRequest (inboundData ++ o.bytes)).map fun bs =>
    ⟨socket, o.kernelTime, .ofBytes bs⟩

/-- What a call of `sendAndRecv` leaves in an inbound buffer. -/
def leftOver (inboundData : List UInt8) (o : Outcome) : List UInt8 :=
  if o.bytes = [] then inboundData else rest sizeofOGSClientRequest (inboundData ++ o.bytes)

/-- Between `g` and `g'` the gateway has read the records `xs`. -/
structure Received {B : Build} (g g' : OrderGatewayServer B) (xs : List Arrival) : Prop where
  inRange : ∀ x ∈ xs, x.clientId.toNat < maxNClients B
  gate : g'.gate = gateAfter g.gate xs
  arrived : g'.arrived = g.arrived ++ xs
  forwarded : g'.forwarded = g.forwarded ++ admitted g.gate xs
  pending : g'.fifo.pendingRequests =
    g.fifo.pendingRequests ++ (admitted g.gate xs).map Arrival.pending
  published : g'.published = g.published
  txNSeq : g'.mapClientToTxNSeq = g.mapClientToTxNSeq

section receiving

variable {B : Build} {g g' g'' : OrderGatewayServer B} {socket : SocketPtr} {tRx : Nanos}
  {req : OGSClientRequest} {xs ys : List Arrival} {x : Arrival} {o : Outcome}

theorem Received.refl (g : OrderGatewayServer B) : Received g g [] where
  inRange := by simp
  gate := rfl
  arrived := (List.append_nil _).symm
  forwarded := (List.append_nil _).symm
  pending := (List.append_nil _).symm
  published := rfl
  txNSeq := rfl

theorem Received.trans (h : Received g g' xs) (h' : Received g' g'' ys) :
    Received g g'' (xs ++ ys) where
  inRange x hx := (List.mem_append.mp hx).elim (h.inRange x) (h'.inRange x)
  gate := by rw [h'.gate, h.gate, gateAfter_append]
  arrived := by rw [h'.arrived, h.arrived, List.append_assoc]
  forwarded := by
    rw [h'.forwarded, h.forwarded, h.gate, List.append_assoc, admitted_append]
  pending := by
    rw [h'.pending, h.pending, h.gate, List.append_assoc, admitted_append, List.map_append]
  published := h'.published.trans h.published
  txNSeq := h'.txNSeq.trans h.txNSeq

/-- Only the sockets have changed. -/
theorem Received.setSocket (h : Received g g' xs) (socket : SocketPtr) (s : TCPSocket) :
    Received g (g'.setSocket socket s) xs :=
  ⟨h.inRange, h.gate, h.arrived, h.forwarded, h.pending, h.published, h.txNSeq⟩

/-! ## The functions taken apart -/

/-- The gateway once a record has been read and its client is tracked. -/
def OrderGatewayServer.read (g : OrderGatewayServer B) (x : Arrival) : OrderGatewayServer B :=
  { g with arrived := g.arrived ++ [x] }.trackClient x.clientId x.socket

/-- A client that is tracked is one the gate has bound; the rest of the gateway stays. -/
theorem read_eq (g : OrderGatewayServer B) (x : Arrival) :
    g.read x =
      { g with
        arrived := g.arrived ++ [x]
        mapClientToSocket := (g.gate.claim x.item).owner } := by
  unfold OrderGatewayServer.read OrderGatewayServer.trackClient
  split
  · rename_i hnone
    have hclaim : g.gate.claim x.item = _ := if_pos hnone
    rw [hclaim]
    rfl
  · rename_i hsome
    have hclaim : g.gate.claim x.item = _ := if_neg hsome
    rw [hclaim]
    rfl

/-- **One turn of the loop**, in terms of the gate. -/
theorem receiveRecord_eq (socket : SocketPtr) (tRx : Nanos) (g : OrderGatewayServer B)
    (req : OGSClientRequest) :
    OrderGatewayServer.receiveRecord socket tRx g req =
      if req.omeRequest.clientId.toNat < maxNClients B then
        if g.gate.Admits (Arrival.item ⟨socket, tRx, req⟩) then
          match g.fifo.pushClientRequest req.omeRequest tRx with
          | none => .error .tooManyPending
          | some fifo => .ok ((g.read ⟨socket, tRx, req⟩).forward ⟨socket, tRx, req⟩ fifo)
        else .ok (g.read ⟨socket, tRx, req⟩)
      else .error .outOfRange := by
  set x : Arrival := ⟨socket, tRx, req⟩ with hx
  have hsocket : (g.read x).mapClientToSocket x.clientId =
      (g.gate.claim x.item).owner x.clientId := by rw [read_eq]
  have hnSeq : (g.read x).mapClientToRxNSeq x.clientId = g.gate.next x.clientId := by
    rw [read_eq]
    rfl
  have hfifo : (g.read x).fifo = g.fifo := by rw [read_eq]
  have hturn : OrderGatewayServer.receiveRecord socket tRx g req =
      if x.clientId.toNat < maxNClients B then
        if (g.read x).mapClientToSocket x.clientId ≠ some socket then .ok (g.read x)
        else if req.nSeq ≠ (g.read x).mapClientToRxNSeq x.clientId then .ok (g.read x)
        else
          match (g.read x).fifo.pushClientRequest req.omeRequest tRx with
          | none => .error .tooManyPending
          | some fifo => .ok ((g.read x).forward x fifo)
      else .error .outOfRange := rfl
  rw [hturn, hsocket, hnSeq, hfifo]
  by_cases hadm : g.gate.Admits x.item
  · have hown : (g.gate.claim x.item).owner x.clientId = some socket := hadm.1
    have hnext : req.nSeq = g.gate.next x.clientId := hadm.2
    rw [if_neg (not_not.mpr hown), if_neg (not_not.mpr hnext), if_pos hadm]
  · by_cases hown : (g.gate.claim x.item).owner x.clientId = some socket
    · have hwrong : req.nSeq ≠ g.gate.next x.clientId := fun hnext => hadm ⟨hown, hnext⟩
      rw [if_neg (not_not.mpr hown), if_pos hwrong, if_neg hadm]
    · rw [if_pos hown, if_neg hadm]

/-- One turn of the loop taken apart. -/
theorem receiveRecord_cases (h : OrderGatewayServer.receiveRecord socket tRx g req = .ok g') :
    ∃ x : Arrival, x = ⟨socket, tRx, req⟩ ∧ x.clientId.toNat < maxNClients B ∧
      (¬ g.gate.Admits x.item ∧ g' = g.read x ∨
        g.gate.Admits x.item ∧ ∃ fifo, g.fifo.pushClientRequest req.omeRequest tRx = some fifo ∧
          g' = (g.read x).forward x fifo) := by
  rw [receiveRecord_eq] at h
  refine ⟨_, rfl, ?_⟩
  split at h
  · rename_i hrange
    refine ⟨hrange, ?_⟩
    split at h
    · rename_i hadm
      split at h
      · cases h
      · rename_i fifo hpush
        cases h
        exact .inr ⟨hadm, fifo, hpush, rfl⟩
    · rename_i hadm
      cases h
      exact .inl ⟨hadm, rfl⟩
  · cases h

/-- **One turn of the loop**: the record goes through the gate. -/
theorem receiveRecord_ok (h : OrderGatewayServer.receiveRecord socket tRx g req = .ok g') :
    Received g g' [⟨socket, tRx, req⟩] ∧ g'.sockets = g.sockets := by
  obtain ⟨x, rfl, hrange, ⟨hadm, rfl⟩ | ⟨hadm, fifo, hpush, rfl⟩⟩ := receiveRecord_cases h
  · have hafter : gateAfter g.gate [⟨socket, tRx, req⟩] = g.gate.claim _ := if_neg hadm
    have hnone : admitted g.gate [⟨socket, tRx, req⟩] = [] := by
      rw [admitted_singleton, if_neg hadm]
    rw [read_eq]
    refine ⟨?_, rfl⟩
    constructor
    case inRange => simpa using hrange
    case gate =>
      rw [hafter, Gate.claim_eq]
      rfl
    case forwarded => rw [hnone, List.append_nil]
    case pending => rw [hnone, List.map_nil, List.append_nil]
    all_goals rfl
  · have hafter : gateAfter g.gate [⟨socket, tRx, req⟩] = _ := if_pos hadm
    have hone : admitted g.gate [⟨socket, tRx, req⟩] = [⟨socket, tRx, req⟩] := by
      rw [admitted_singleton, if_pos hadm]
    rw [read_eq]
    refine ⟨?_, rfl⟩
    constructor
    case inRange => simpa using hrange
    case gate =>
      rw [hafter, Gate.claim_eq]
      rfl
    case forwarded =>
      rw [hone]
      rfl
    case pending =>
      rw [hone]
      exact FIFOSequencer.pendingRequests_pushClientRequest hpush
    all_goals rfl

/-- **The loop**: the records go through the gate one after the other. -/
theorem receiveRecords_ok {g : OrderGatewayServer B} {reqs : List OGSClientRequest}
    (h : reqs.foldlM (OrderGatewayServer.receiveRecord socket tRx) g = .ok g') :
    Received g g' (reqs.map fun req => ⟨socket, tRx, req⟩) ∧ g'.sockets = g.sockets := by
  induction reqs generalizing g with
  | nil =>
    cases h
    exact ⟨.refl _, rfl⟩
  | cons req reqs ih =>
    rw [List.foldlM_cons] at h
    obtain ⟨g₁, hreq, hrest⟩ := except_bind_eq_ok.mp h
    obtain ⟨hone, hsockets⟩ := receiveRecord_ok hreq
    obtain ⟨hall, hsockets'⟩ := ih hrest
    exact ⟨hone.trans hall, hsockets'.trans hsockets⟩

/-- **`rxCallback`**: the whole records in the socket's buffer go through the gate. -/
theorem rxCallback_ok (h : g.rxCallback socket tRx = .ok g') :
    Received g g' ((records sizeofOGSClientRequest (g.sockets socket).inboundData).map fun bs =>
        ⟨socket, tRx, .ofBytes bs⟩) ∧
      g'.sockets = Function.update g.sockets socket
        { g.sockets socket with
          inboundData := rest sizeofOGSClientRequest (g.sockets socket).inboundData } := by
  simp only [OrderGatewayServer.rxCallback] at h
  split at h
  · obtain ⟨g₁, hloop, hset⟩ := except_bind_eq_ok.mp h
    cases hset
    obtain ⟨hreceived, hsockets⟩ := receiveRecords_ok hloop
    rw [List.map_map] at hreceived
    refine ⟨hreceived.setSocket _ _, ?_⟩
    show Function.update g₁.sockets socket _ = _
    rw [hsockets]
  · rename_i hshort
    cases h
    -- less than one record: nothing is read, and all of it is left
    rw [records_of_lt (not_le.mp hshort), rest_of_lt (not_le.mp hshort)]
    exact ⟨.refl _, (Function.update_eq_self socket _).symm⟩

/-- **A call of `sendAndRecv`**: the records it completes go through the gate. -/
theorem sendAndRecv_ok {received : Bool} (h : g.sendAndRecv socket o = .ok (received, g')) :
    Received g g' (completed (g.sockets socket).inboundData socket o) ∧
      received = decide (o.bytes ≠ []) ∧
      g'.sockets = Function.update g.sockets socket
        ({ g.sockets socket with
          inboundData := leftOver (g.sockets socket).inboundData o }.transmit o) := by
  unfold OrderGatewayServer.sendAndRecv at h
  unfold completed leftOver
  split at h
  · rename_i hnone
    cases h
    rw [if_pos hnone, if_pos hnone]
    exact ⟨(Received.refl g).setSocket _ _, by simp [hnone], rfl⟩
  · rename_i hsome
    obtain ⟨g₁, hcallback, hset⟩ := except_bind_eq_ok.mp h
    cases hset
    obtain ⟨hreceived, hsockets⟩ := rxCallback_ok hcallback
    have hbuffer : ((g.setSocket socket ((g.sockets socket).receive o)).sockets socket) =
        (g.sockets socket).receive o := Function.update_self ..
    rw [hbuffer] at hreceived hsockets
    rw [if_neg hsome, if_neg hsome]
    refine ⟨?_, by simp [hsome], ?_⟩
    · exact ((Received.refl g).setSocket socket _).trans (hreceived.setSocket _ _)
    · rw [OrderGatewayServer.setSocket, hsockets, Function.update_self, Function.update_idem]
      exact Function.update_idem ..

/-- A response sent goes to the socket of its client. -/
theorem sendResponse_ok {res : OMEClientResponse} (h : g.sendResponse res = .ok g') :
    res.clientId.toNat < maxNClients B ∧
      ∃ socket s, g.mapClientToSocket res.clientId = some socket ∧
        ((g.sockets socket).send (sizeImage (g.mapClientToTxNSeq res.clientId)) >>=
          fun s => s.send res.image) = some s ∧
        g' = { g.setSocket socket s with
          mapClientToTxNSeq := Function.update g.mapClientToTxNSeq res.clientId
            (g.mapClientToTxNSeq res.clientId + 1) } := by
  simp only [OrderGatewayServer.sendResponse] at h
  split at h
  · rename_i hrange
    refine ⟨hrange, ?_⟩
    split at h
    · cases h
    · rename_i socket hsocket
      split at h
      · cases h
      · rename_i s hs
        cases h
        exact ⟨socket, s, hsocket, hs, rfl⟩
  · cases h

end receiving

/-! ## What a run has read -/

/-- The gateway's state follows from the records read so far. -/
structure Consistent {B : Build} (g : OrderGatewayServer B) : Prop where
  inRange : ∀ x ∈ g.arrived, x.clientId.toNat < maxNClients B
  gate : g.gate = gateAfter startGate g.arrived
  forwarded : g.forwarded = admitted startGate g.arrived
  /-- What has been forwarded has been published or waits. -/
  waiting : ∃ old new, g.forwarded = old ++ new ∧
    g.published.Perm (old.map fun x => x.record.omeRequest) ∧
    g.fifo.pendingRequests = new.map Arrival.pending

section runs

variable {B : Build} {g g' : OrderGatewayServer B} {xs : List Arrival} {es : List GatewayEvent}

theorem consistent_create (B : Build) : Consistent (OrderGatewayServer.create B) where
  inRange _ h := absurd h List.not_mem_nil
  gate := rfl
  forwarded := rfl
  waiting := ⟨[], [], rfl, .refl _, rfl⟩

/-- A client with a socket is one of the exchange's. -/
theorem Consistent.clientId_lt (h : Consistent g) {c : ClientID} {socket : SocketPtr}
    (hc : g.mapClientToSocket c = some socket) : c.toNat < maxNClients B := by
  have howner : (gateAfter startGate g.arrived).owner c = some socket := by
    rw [← h.gate]
    exact hc
  rw [gateAfter, Gate.owner_afterAll] at howner
  obtain ⟨x, hx, -⟩ := Option.map_eq_some_iff.mp howner
  obtain ⟨hmem, hclient⟩ := List.mem_filter.mp (List.mem_of_mem_head? hx)
  rw [← of_decide_eq_true hclient]
  exact h.inRange x hmem

theorem Consistent.received (h : Consistent g) (hr : Received g g' xs) : Consistent g' where
  inRange := by
    rw [hr.arrived]
    exact fun x hx => (List.mem_append.mp hx).elim (h.inRange x) (hr.inRange x)
  gate := by rw [hr.gate, h.gate, hr.arrived, gateAfter_append]
  forwarded := by rw [hr.forwarded, h.forwarded, h.gate, hr.arrived, admitted_append]
  waiting := by
    obtain ⟨old, new, hforwarded, hpublished, hpending⟩ := h.waiting
    refine ⟨old, new ++ admitted g.gate xs, ?_, ?_, ?_⟩
    · rw [hr.forwarded, hforwarded, List.append_assoc]
    · rw [hr.published]
      exact hpublished
    · rw [hr.pending, hpending, List.map_append]

theorem Consistent.rxDone (h : Consistent g) {sorted : List PendingClientRequest}
    (hs : SortsTo g.fifo.pendingRequests sorted) : Consistent (g.rxDoneCallback sorted) where
  inRange := h.inRange
  gate := h.gate
  forwarded := h.forwarded
  waiting := by
    obtain ⟨old, new, hforwarded, hpublished, hpending⟩ := h.waiting
    refine ⟨old ++ new, [], ?_, ?_, ?_⟩
    · exact hforwarded.trans (List.append_nil _).symm
    · rw [List.map_append]
      refine hpublished.append ((FIFOSequencer.pushed_perm hs).trans (.of_eq ?_))
      rw [FIFOSequencer.requests, hpending, List.map_map]
      rfl
    · exact FIFOSequencer.pendingRequests_sequenceAndPublish _ _

theorem Consistent.respond (h : Consistent g) {res : OMEClientResponse}
    (hs : g.sendResponse res = .ok g') : Consistent g' := by
  obtain ⟨-, socket, s, -, -, rfl⟩ := sendResponse_ok hs
  exact ⟨h.inRange, h.gate, h.forwarded, h.waiting⟩

/-- **Every gateway a run reaches is consistent.** -/
theorem GatewayRuns.consistent (h : GatewayRuns es g) : Consistent g := by
  refine (runsOf_gateway B).induction (P := fun _ g => Consistent g) (consistent_create B) ?_ h
  rintro es e g g' _ hg hstep
  cases e with
  | sendAndRecv socket o =>
    obtain ⟨received, hcall⟩ := hstep
    exact hg.received (sendAndRecv_ok hcall).1
  | rxDone =>
    obtain ⟨sorted, hs, rfl⟩ := hstep
    exact hg.rxDone hs
  | respond res => exact hg.respond hstep

/-- What has been forwarded has been published or waits. -/
theorem Consistent.published_append_requests (h : Consistent g) :
    (g.published ++ g.fifo.requests).Perm (g.forwarded.map fun x => x.record.omeRequest) := by
  obtain ⟨old, new, hforwarded, hpublished, hpending⟩ := h.waiting
  rw [hforwarded, List.map_append, FIFOSequencer.requests, hpending, List.map_map]
  exact hpublished.append_right _

/-- What has been forwarded between `g` and `g'` has been published since, or waits in the
sequencer, with what waited there before. -/
def HandsOn (g g' : OrderGatewayServer B) : Prop :=
  ∃ new, g'.forwarded = g.forwarded ++ new ∧
    (g'.published ++ g'.fifo.requests).Perm
      (g.published ++ g.fifo.requests ++ new.map fun x => x.record.omeRequest)

theorem HandsOn.refl (g : OrderGatewayServer B) : HandsOn g g :=
  ⟨[], (List.append_nil _).symm, by simp⟩

theorem HandsOn.trans {g'' : OrderGatewayServer B} (h : HandsOn g g') (h' : HandsOn g' g'') :
    HandsOn g g'' := by
  obtain ⟨new, hforwarded, hperm⟩ := h
  obtain ⟨new', hforwarded', hperm'⟩ := h'
  refine ⟨new ++ new', by rw [hforwarded', hforwarded, List.append_assoc], ?_⟩
  rw [List.map_append, ← List.append_assoc]
  exact hperm'.trans (hperm.append_right _)

/-- An event of the gateway forwards to the sequencer, or takes from it what it publishes. -/
theorem GatewayStep.handsOn {e : GatewayEvent} (h : GatewayStep g e g') : HandsOn g g' := by
  cases e with
  | sendAndRecv socket o =>
    obtain ⟨received, hcall⟩ := h
    have hr := (sendAndRecv_ok hcall).1
    refine ⟨_, hr.forwarded, .of_eq ?_⟩
    rw [hr.published, FIFOSequencer.requests, hr.pending, List.map_append, List.map_map,
      List.append_assoc]
    rfl
  | rxDone =>
    obtain ⟨sorted, hs, rfl⟩ := h
    have hnone : (g.rxDoneCallback sorted).fifo.requests = [] := by
      show (g.fifo.sequenceAndPublish sorted).1.pendingRequests.map _ = []
      rw [FIFOSequencer.pendingRequests_sequenceAndPublish, List.map_nil]
    refine ⟨[], (List.append_nil _).symm, ?_⟩
    rw [hnone, List.append_nil, List.map_nil, List.append_nil]
    exact (FIFOSequencer.pushed_perm hs).append_left _
  | respond res =>
    obtain ⟨-, socket, s, -, -, rfl⟩ := sendResponse_ok h
    exact HandsOn.refl g

/-- **What is forwarded is handed on**, from any gateway on. -/
theorem handsOn_path (h : Runs.Path GatewayStep g es g') : HandsOn g g' := by
  induction es generalizing g with
  | nil =>
    cases h
    exact .refl _
  | cons e es ih =>
    obtain ⟨g₁, hstep, hrest⟩ := h
    exact hstep.handsOn.trans (ih hrest)

end runs

/-! ## Sequence numbers -/

/-- A record is due: it comes from the socket of its client's first record, and its number is one
more than the records forwarded of the client so far. -/
def Due (seen forwarded : List Arrival) (x : Arrival) : Prop :=
  firstSource Arrival.item x.clientId (seen ++ [x]) = some x.socket ∧
    x.record.nSeq.toNat = 1 + (ofClient x.clientId forwarded).length

instance (seen forwarded : List Arrival) (x : Arrival) : Decidable (Due seen forwarded x) :=
  inferInstanceAs (Decidable (_ ∧ _))

/-- The records due among some, behind those seen and forwarded already. -/
def dueAfter (seen forwarded : List Arrival) : List Arrival → List Arrival
  | [] => forwarded
  | x :: xs => dueAfter (seen ++ [x]) (if Due seen forwarded x then forwarded ++ [x] else forwarded) xs

/-- The sequence discipline of a client. -/
structure Disciplined {B : Build} (g : OrderGatewayServer B) (c : ClientID) : Prop where
  numbers : (ofClient c g.forwarded).map (fun x => x.record.nSeq.toNat) =
    List.range' 1 (ofClient c g.forwarded).length
  oneSocket : ∀ x ∈ ofClient c g.forwarded, g.mapClientToSocket c = some x.socket
  expected : (g.mapClientToRxNSeq c).toNat = 1 + (ofClient c g.forwarded).length

section numbers

variable {B : Build} {g : OrderGatewayServer B} {es : List GatewayEvent} {xs seen : List Arrival}
  {x : Arrival} {c : ClientID}

/-- A counter that starts at one and has not wrapped around. -/
theorem toNat_iterate_succ {k : ℕ} (hk : k < 2 ^ 64 - 1) :
    ((fun n : UInt64 => n + 1)^[k] 1).toNat = 1 + k := by
  induction k with
  | zero => rfl
  | succ k ih =>
    rw [Function.iterate_succ_apply', UInt64.toNat_add, ih (by omega), UInt64.toNat_one,
      Nat.mod_eq_of_lt (by omega), Nat.add_assoc]

/-- There are at most as many records forwarded of a client as records. -/
theorem length_ofClient_admitted_le (t : Gate ClientID SocketPtr UInt64) (xs : List Arrival)
    (c : ClientID) : (ofClient c (admitted t xs)).length ≤ xs.length :=
  (List.length_filter_le _ _).trans (Gate.admitted_sublist t xs).length_le

/-- The number expected next counts the records forwarded. -/
theorem toNat_next_gateAfter (hn : xs.length < 2 ^ 64 - 1) (c : ClientID) :
    ((gateAfter startGate xs).next c).toNat =
      1 + (ofClient c (admitted startGate xs)).length := by
  have hle := length_ofClient_admitted_le startGate xs c
  rw [gateAfter, Gate.next_afterAll]
  exact toNat_iterate_succ (hle.trans_lt hn)

/-- **The gate admits what is due.** -/
theorem admits_iff_due (hn : seen.length < 2 ^ 64 - 1) :
    (gateAfter startGate seen).Admits x.item ↔ Due seen (admitted startGate seen) x := by
  have howner : ((gateAfter startGate seen).claim x.item).owner x.clientId =
      firstSource Arrival.item x.clientId (seen ++ [x]) := by
    have hall : (gateAfter startGate (seen ++ [x])).owner x.clientId = _ :=
      Gate.owner_afterAll _ _ _
    rw [gateAfter_append, gateAfter_singleton, Gate.owner_after] at hall
    exact hall
  have hnext := toNat_next_gateAfter hn x.clientId
  refine and_congr ?_ ?_
  · show _ = _ ↔ _ = _
    rw [← howner]
    rfl
  · rw [← hnext]
    exact UInt64.toNat_inj.symm

/-- The records due are those the gate admits. -/
theorem dueAfter_eq (seen : List Arrival) (hn : (seen ++ xs).length < 2 ^ 64 - 1) :
    dueAfter seen (admitted startGate seen) xs = admitted startGate (seen ++ xs) := by
  induction xs generalizing seen with
  | nil => rw [dueAfter, List.append_nil]
  | cons x xs ih =>
    have hseen : seen.length < 2 ^ 64 - 1 := by
      rw [List.length_append] at hn
      omega
    have hone : admitted startGate (seen ++ [x]) =
        if Due seen (admitted startGate seen) x then admitted startGate seen ++ [x]
        else admitted startGate seen := by
      rw [admitted_append, admitted_singleton]
      by_cases hdue : Due seen (admitted startGate seen) x
      · rw [if_pos hdue, if_pos ((admits_iff_due hseen).mpr hdue)]
      · rw [if_neg hdue, if_neg (mt (admits_iff_due hseen).mp hdue), List.append_nil]
    rw [dueAfter, ← hone, ih _ (by simpa using hn), List.append_assoc, List.singleton_append]

/-- Every gateway whose counters have not wrapped around keeps the discipline. -/
theorem Consistent.disciplined (h : Consistent g) (hn : g.arrived.length < 2 ^ 64 - 1)
    (c : ClientID) : Disciplined g c := by
  have hle := length_ofClient_admitted_le startGate g.arrived c
  have hgate : g.mapClientToSocket = (gateAfter startGate g.arrived).owner := by
    rw [← h.gate]
    rfl
  constructor
  case numbers =>
    have hnumbers := congrArg (List.map UInt64.toNat)
      (Gate.numbers_admitted (· + 1) Arrival.item startGate g.arrived c)
    rw [List.map_map] at hnumbers
    rw [h.forwarded]
    apply hnumbers.trans
    rw [List.map_map, List.range'_eq_map_range]
    apply List.map_congr_left
    intro i hi
    exact toNat_iterate_succ ((List.mem_range.mp hi).trans (hle.trans_lt hn))
  case oneSocket =>
    intro x hx
    rw [h.forwarded] at hx
    obtain ⟨hmem, hc⟩ := List.mem_filter.mp hx
    have howner := Gate.source_of_mem_admitted hmem
    rw [hgate, ← of_decide_eq_true hc]
    exact howner
  case expected =>
    have hnext : g.mapClientToRxNSeq = (gateAfter startGate g.arrived).next := by
      rw [← h.gate]
      rfl
    rw [hnext, h.forwarded]
    exact toNat_next_gateAfter hn c

/-- **The gateway's sequence discipline**: while fewer than `2 ^ 64 - 1` records have come in,
exactly the records that are due have been forwarded, those of each client numbered 1, 2, 3, … and
from one socket, and the number expected next is one more than how many they are; what has been
forwarded has been published or waits in the sequencer, and nothing else has. -/
theorem gateway_disciplined (h : GatewayRuns es g) (hn : g.arrived.length < 2 ^ 64 - 1) :
    g.forwarded = dueAfter [] [] g.arrived ∧ (∀ c, Disciplined g c) ∧
      (g.published ++ g.fifo.requests).Perm (g.forwarded.map fun x => x.record.omeRequest) := by
  have hg := h.consistent
  refine ⟨?_, hg.disciplined hn, hg.published_append_requests⟩
  rw [hg.forwarded]
  exact (dueAfter_eq [] hn).symm

/-- An order of client 1, its replay and the next order, and an order of client 2 that skips a
number; the two that are due are sorted and published, and a third one comes in. -/
def sampleArrivals : List GatewayEvent :=
  [.sendAndRecv 0
      ⟨OGSClientRequest.image ⟨1, ⟨.new, 1, 0, 1, .buy, 100, 10⟩⟩ ++
        OGSClientRequest.image ⟨1, ⟨.new, 1, 0, 1, .buy, 100, 10⟩⟩ ++
          OGSClientRequest.image ⟨2, ⟨.new, 1, 0, 2, .buy, 101, 10⟩⟩, 5, none⟩,
    .sendAndRecv 1 ⟨OGSClientRequest.image ⟨2, ⟨.new, 2, 0, 1, .sell, 102, 10⟩⟩, 6, none⟩, .rxDone,
    .sendAndRecv 1 ⟨OGSClientRequest.image ⟨1, ⟨.new, 2, 0, 2, .sell, 102, 10⟩⟩, 7, none⟩]

/-- Five records have come in, and three of them have been forwarded: two are published, one
waits. -/
theorem gateway_disciplined_sample :
    ∃ g : OrderGatewayServer .production,
      [g.arrived.length, g.forwarded.length, g.published.length, g.fifo.requests.length] =
        [5, 3, 2, 1] ∧
      g.forwarded = dueAfter [] [] g.arrived ∧ (∀ c, Disciplined g c) ∧
      (g.published ++ g.fifo.requests).Perm (g.forwarded.map fun x => x.record.omeRequest) := by
  obtain ⟨g, hrun, hlengths⟩ := exists_gatewayRuns .production sampleArrivals
    (fun g => [g.arrived.length, g.forwarded.length, g.published.length, g.fifo.requests.length])
    (a := [5, 3, 2, 1]) (by decide +kernel)
  obtain ⟨harrived, -⟩ := List.cons.inj hlengths
  exact ⟨g, hlengths, gateway_disciplined hrun (by omega)⟩

end numbers

end HftSys
