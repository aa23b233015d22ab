import HftSys.TCPServer

/-!
# How much the sequencer takes

`pushClientRequest` ends the process when its array is full, and nothing bounds what a socket may
bring in at once. While the client ids are those of the exchange, that is the only way for the
gateway to stop when it receives, and it does stop exactly when more requests pass the gate than
there is room for.

* `HasRoom g xs`: the array takes the requests the gate admits among the records `xs`.
* `sendAndRecv_error`, `sendAndRecvAll_error`: a call that stops has met a client id that is out of
  range, or had no room.
* `round_stops_iff`: a round of the server ends in the `FATAL` exit exactly when one of its two
  passes has no room.
-/

namespace HftSys

open Bytes Exec SequenceGate

variable {B : Build}

/-- The sequencer takes the requests the gate admits among some records. -/
def OrderGatewayServer.HasRoom (g : OrderGatewayServer B) (xs : List Arrival) : Prop :=
  g.fifo.pendingRequests.length + (admitted g.gate xs).length ≤ maxPendingOrderRequests

instance (g : OrderGatewayServer B) (xs : List Arrival) : Decidable (g.HasRoom xs) :=
  inferInstanceAs (Decidable (_ ≤ _))

/-- The clients of the records are the exchange's. -/
def InRange (B : Build) (xs : List Arrival) : Prop := ∀ x ∈ xs, x.clientId.toNat < maxNClients B

/-- Why the gateway stops on some records. -/
def StopsOn (g : OrderGatewayServer B) (xs : List Arrival) (e : GatewayFault) : Prop :=
  e = .tooManyPending ∧ ¬ g.HasRoom xs ∨ e = .outOfRange ∧ ¬ InRange B xs

section stops

variable {g g' : OrderGatewayServer B} {xs ys : List Arrival} {e : GatewayFault}
  {socket : SocketPtr} {tRx : Nanos} {req : OGSClientRequest} {reqs : List OGSClientRequest}
  {o : Outcome}

/-- What has been read had room. -/
theorem Received.hasRoom (h : Received g g' xs) : g.HasRoom xs := by
  have hbounded := g'.fifo.bounded
  rw [h.pending, List.length_append, List.length_map] at hbounded
  exact hbounded

/-- There is room for the records that follow when there was room for all. -/
theorem Received.hasRoom_iff (h : Received g g' xs) : g'.HasRoom ys ↔ g.HasRoom (xs ++ ys) := by
  unfold OrderGatewayServer.HasRoom
  rw [h.pending, h.gate, admitted_append, List.length_append, List.length_append, List.length_map,
    Nat.add_assoc]

theorem OrderGatewayServer.HasRoom.left (h : g.HasRoom (xs ++ ys)) : g.HasRoom xs := by
  unfold OrderGatewayServer.HasRoom at h ⊢
  rw [admitted_append, List.length_append] at h
  omega

/-- A stop on the first records is a stop on all. -/
theorem StopsOn.left (h : StopsOn g xs e) (ys : List Arrival) : StopsOn g (xs ++ ys) e := by
  rcases h with ⟨rfl, hfull⟩ | ⟨rfl, hrange⟩
  · exact .inl ⟨rfl, fun hroom => hfull hroom.left⟩
  · exact .inr ⟨rfl, fun hall => hrange fun x hx => hall x (List.mem_append_left _ hx)⟩

/-- A stop on the records that follow is a stop on all. -/
theorem StopsOn.right (h : StopsOn g' ys e) (hr : Received g g' xs) : StopsOn g (xs ++ ys) e := by
  rcases h with ⟨rfl, hfull⟩ | ⟨rfl, hrange⟩
  · exact .inl ⟨rfl, fun hroom => hfull (hr.hasRoom_iff.mpr hroom)⟩
  · exact .inr ⟨rfl, fun hall => hrange fun x hx => hall x (List.mem_append_right _ hx)⟩

/-- One turn of the loop that stops. -/
theorem receiveRecord_error (h : OrderGatewayServer.receiveRecord socket tRx g req = .error e) :
    StopsOn g [⟨socket, tRx, req⟩] e := by
  rw [receiveRecord_eq] at h
  split at h
  · split at h
    · rename_i hadm
      split at h
      · rename_i hpush
        cases h
        refine .inl ⟨rfl, ?_⟩
        unfold OrderGatewayServer.HasRoom
        rw [admitted_singleton, if_pos hadm, List.length_singleton]
        simp only [FIFOSequencer.pushClientRequest, dite_eq_right_iff] at hpush
        intro hroom
        cases hpush (by omega)
      · cases h
    · cases h
  · rename_i hrange
    cases h
    refine .inr ⟨rfl, fun hall => hrange ?_⟩
    exact hall _ (List.mem_singleton_self _)

/-- The loop of `rxCallback`, when it stops. -/
theorem receiveRecords_error
    (h : reqs.foldlM (OrderGatewayServer.receiveRecord socket tRx) g = .error e) :
    StopsOn g (reqs.map fun req => ⟨socket, tRx, req⟩) e := by
  induction reqs generalizing g with
  | nil => cases h
  | cons req reqs ih =>
    rw [List.foldlM_cons] at h
    rcases except_bind_eq_error.mp h with hfirst | ⟨g₁, hreq, hrest⟩
    · exact (receiveRecord_error hfirst).left _
    · exact (ih hrest).right (receiveRecord_ok hreq).1

/-- **A call of `sendAndRecv` that stops.** -/
theorem sendAndRecv_error (h : g.sendAndRecv socket o = .error e) :
    StopsOn g (completed (g.sockets socket).inboundData socket o) e := by
  simp only [OrderGatewayServer.sendAndRecv] at h
  unfold completed
  split at h
  · cases h
  · rename_i hsome
    rw [if_neg hsome]
    rcases except_bind_eq_error.mp h with hcallback | ⟨_, _, hok⟩
    · simp only [OrderGatewayServer.rxCallback] at hcallback
      have hbuffer : ((g.setSocket socket ((g.sockets socket).receive o)).sockets socket).inboundData =
          (g.sockets socket).inboundData ++ o.bytes := by
        show (Function.update g.sockets socket _ socket).inboundData = _
        rw [Function.update_self]
        rfl
      rw [hbuffer] at hcallback
      split at hcallback
      · rcases except_bind_eq_error.mp hcallback with hloop | ⟨_, _, hok⟩
        · have hstop := receiveRecords_error hloop
          rw [List.map_map] at hstop
          exact hstop
        · cases hok
      · cases hcallback
    · cases hok

/-- **A pass that stops.** -/
theorem sendAndRecvAll_error {outcome : SocketPtr → Outcome} {sockets : List SocketPtr}
    (h : g.sendAndRecvAll outcome sockets = .error e) :
    StopsOn g (arrivals outcome g.inbound sockets) e := by
  induction sockets generalizing g with
  | nil => cases h
  | cons socket sockets ih =>
    rw [OrderGatewayServer.sendAndRecvAll] at h
    rcases except_bind_eq_error.mp h with hone | ⟨⟨received, g₁⟩, hone, h⟩
    · exact (sendAndRecv_error hone).left _
    · rcases except_bind_eq_error.mp h with hrest | ⟨_, _, hok⟩
      · have hstop := ih hrest
        rw [inbound_sendAndRecv hone] at hstop
        exact hstop.right (sendAndRecv_ok hone).1
      · cases hok

end stops

/-! ## A round -/

/-- Something has been received on one of the sockets. -/
def Receives (outcome : SocketPtr → Outcome) (sockets : List SocketPtr) : Prop :=
  ∃ socket ∈ sockets, (outcome socket).bytes ≠ []

instance (outcome : SocketPtr → Outcome) (sockets : List SocketPtr) :
    Decidable (Receives outcome sockets) :=
  inferInstanceAs (Decidable (∃ socket ∈ sockets, _))

/-- The records of the first pass of a round. -/
def TCPServer.early (server : TCPServer) (first : SocketPtr → Outcome) (g : OrderGatewayServer B) :
    List Arrival :=
  arrivals first g.inbound server.receiveSockets

/-- The records of the second pass. -/
def TCPServer.late (server : TCPServer) (first second : SocketPtr → Outcome)
    (g : OrderGatewayServer B) : List Arrival :=
  arrivals second (inboundAfter first g.inbound server.receiveSockets) server.sendSockets

/-- The requests that wait when the second pass begins: none when the first has received something,
as `sequenceAndPublish` has then been called. -/
def TCPServer.waiting (server : TCPServer) (first : SocketPtr → Outcome)
    (g : OrderGatewayServer B) : ℕ :=
  if Receives first server.receiveSockets then 0 else g.fifo.pendingRequests.length

/-- Between two calls of `sequenceAndPublish` a round forwards no more requests than the array
takes. -/
structure RoundHasRoom (server : TCPServer) (first second : SocketPtr → Outcome)
    (g : OrderGatewayServer B) : Prop where
  early : g.HasRoom (server.early first g)
  late : server.waiting first g +
    (admitted (gateAfter g.gate (server.early first g)) (server.late first second g)).length ≤
      maxPendingOrderRequests

section rounds

variable {g g' g₁ : OrderGatewayServer B} {server : TCPServer} {first second : SocketPtr → Outcome}
  {sort : List PendingClientRequest → List PendingClientRequest} {recv : Bool} {e : GatewayFault}
  {outcome : SocketPtr → Outcome} {sockets : List SocketPtr}

/-- What a pass says of itself. -/
theorem sendAndRecvAll_flag (h : g.sendAndRecvAll outcome sockets = .ok (recv, g')) :
    recv = true ↔ Receives outcome sockets := by
  induction sockets generalizing g recv with
  | nil =>
    cases h
    simp [Receives]
  | cons socket sockets ih =>
    rw [OrderGatewayServer.sendAndRecvAll] at h
    obtain ⟨⟨received, g₁⟩, hone, h⟩ := except_bind_eq_ok.mp h
    obtain ⟨⟨recv', g₂⟩, hrest, h⟩ := except_bind_eq_ok.mp h
    cases h
    rw [Bool.or_eq_true, ih hrest, (sendAndRecv_ok hone).2.1, decide_eq_true_iff]
    simp only [Receives, List.mem_cons, exists_eq_or_imp]

variable (second sort) in
/-- The gateway between the two passes. -/
theorem hasRoom_between (h : g.sendAndRecvAll first server.receiveSockets = .ok (recv, g₁))
    {g₂ : OrderGatewayServer B}
    (hg₂ : g₂ = if recv then g₁.rxDoneCallback (sort g₁.fifo.pendingRequests) else g₁) :
    arrivals second g₂.inbound server.sendSockets = server.late first second g ∧
      ∀ ys, g₂.HasRoom ys ↔ server.waiting first g +
        (admitted (gateAfter g.gate (server.early first g)) ys).length ≤
          maxPendingOrderRequests := by
  obtain ⟨hreceived, hinbound, hnone⟩ := sendAndRecvAll_ok h
  have hflag := sendAndRecvAll_flag h
  rw [TCPServer.late, TCPServer.waiting, ← hinbound]
  have hgate : g₁.gate = gateAfter g.gate (server.early first g) := hreceived.gate
  by_cases hrecv : recv = true
  · rw [if_pos hrecv] at hg₂
    rw [if_pos (hflag.mp hrecv), hg₂, ← hgate]
    refine ⟨rfl, fun ys => ?_⟩
    show (g₁.fifo.sequenceAndPublish _).1.pendingRequests.length + _ ≤ _ ↔ _
    rw [FIFOSequencer.pendingRequests_sequenceAndPublish]
    exact Iff.rfl
  · rw [if_neg hrecv] at hg₂
    rw [if_neg (fun hr => hrecv (hflag.mpr hr)), hg₂, ← hgate]
    refine ⟨rfl, fun ys => ?_⟩
    -- nothing has been received, so that what waits is what waited
    have hearly : server.early first g = [] := hnone (by simpa using hrecv)
    have hpending : g₁.fifo.pendingRequests = g.fifo.pendingRequests := by
      rw [hreceived.pending, show arrivals first g.inbound server.receiveSockets = [] from hearly]
      exact List.append_nil _
    rw [OrderGatewayServer.HasRoom, hpending]

/-- A round that comes to an end has had room. -/
theorem roundHasRoom_of_ok (h : server.sendAndReceive first second sort g = .ok g') :
    RoundHasRoom server first second g := by
  unfold TCPServer.sendAndReceive at h
  obtain ⟨⟨recv, g₁⟩, hfirst, h⟩ := except_bind_eq_ok.mp h
  obtain ⟨⟨recv', g₃⟩, hsecond, -⟩ := except_bind_eq_ok.mp h
  obtain ⟨hlate, hroom⟩ := hasRoom_between second sort hfirst rfl
  have hreceived := (sendAndRecvAll_ok hsecond).1
  refine ⟨(sendAndRecvAll_ok hfirst).1.hasRoom, ?_⟩
  rw [← hroom, ← hlate]
  exact hreceived.hasRoom

/-- A round that stops has met a client id out of range, or had no room. -/
theorem roundHasRoom_of_error (h : server.sendAndReceive first second sort g = .error e)
    (hrange : InRange B (server.early first g ++ server.late first second g)) :
    e = .tooManyPending ∧ ¬ RoundHasRoom server first second g := by
  unfold TCPServer.sendAndReceive at h
  rcases except_bind_eq_error.mp h with hfirst | ⟨⟨recv, g₁⟩, hfirst, h⟩
  · rcases sendAndRecvAll_error hfirst with ⟨he, hfull⟩ | ⟨-, hout⟩
    · exact ⟨he, fun hroom => hfull hroom.early⟩
    · exact absurd (fun x hx => hrange x (List.mem_append_left _ hx)) hout
  · rcases except_bind_eq_error.mp h with hsecond | ⟨_, _, hok⟩
    · obtain ⟨hlate, hroom⟩ := hasRoom_between second sort hfirst rfl
      rcases sendAndRecvAll_error hsecond with ⟨he, hfull⟩ | ⟨-, hout⟩
      · refine ⟨he, fun hall => hfull ?_⟩
        rw [hroom, hlate]
        exact hall.late
      · rw [hlate] at hout
        exact absurd (fun x hx => hrange x (List.mem_append_right _ hx)) hout
    · cases hok

/-- **When client traffic stops the exchange**: with client ids in range, a round ends in the
`FATAL` exit of `pushClientRequest` exactly when more requests pass the gate between two calls of
`sequenceAndPublish` than the array takes, and otherwise comes to its end. -/
theorem round_stops_iff (server : TCPServer) (first second : SocketPtr → Outcome)
    (sort : List PendingClientRequest → List PendingClientRequest) (g : OrderGatewayServer B)
    (hrange : InRange B (server.early first g ++ server.late first second g)) :
    (server.sendAndReceive first second sort g = .error .tooManyPending ↔
        ¬ RoundHasRoom server first second g) ∧
      ((∃ g', server.sendAndReceive first second sort g = .ok g') ↔
        RoundHasRoom server first second g) := by
  cases h : server.sendAndReceive first second sort g with
  | ok g' =>
    have hroom := roundHasRoom_of_ok h
    exact ⟨iff_of_false nofun (not_not.mpr hroom), iff_of_true ⟨g', rfl⟩ hroom⟩
  | error e =>
    obtain ⟨rfl, hfull⟩ := roundHasRoom_of_error h hrange
    exact ⟨iff_of_true rfl hfull, iff_of_false (fun ⟨g', hok⟩ => nomatch hok) hfull⟩

/-! ## A burst of one client -/

/-- `k` orders of client `c`, numbered from `n` on. -/
def orderStream (c : ClientID) : UInt64 → ℕ → List OGSClientRequest
  | _, 0 => []
  | n, k + 1 => ⟨n, ⟨.new, c, 0, n, .buy, 100, 10⟩⟩ :: orderStream c (n + 1) k

@[simp] theorem length_orderStream (c : ClientID) (n : UInt64) (k : ℕ) :
    (orderStream c n k).length = k := by
  induction k generalizing n with
  | zero => rfl
  | succ k ih => rw [orderStream, List.length_cons, ih]

theorem clientId_of_mem_orderStream {c : ClientID} {n : UInt64} {k : ℕ} {req : OGSClientRequest}
    (h : req ∈ orderStream c n k) : req.omeRequest.clientId = c := by
  induction k generalizing n with
  | zero => cases h
  | succ k ih =>
    rcases List.mem_cons.mp h with rfl | h
    · rfl
    · exact ih h

/-- The gate admits all of them when it expects the first next, on the client's socket or on its
first. -/
theorem admitted_orderStream {c : ClientID} (k : ℕ) {t : Gate ClientID SocketPtr UInt64}
    (socket : SocketPtr) (tRx : Nanos) (howner : t.owner c = none ∨ t.owner c = some socket) :
    admitted t ((orderStream c (t.next c) k).map fun req => ⟨socket, tRx, req⟩) =
      (orderStream c (t.next c) k).map fun req => ⟨socket, tRx, req⟩ := by
  induction k generalizing t with
  | zero => rfl
  | succ k ih =>
    set x : Arrival := ⟨socket, tRx, ⟨t.next c, ⟨.new, c, 0, t.next c, .buy, 100, 10⟩⟩⟩ with hx
    have hsplit : (orderStream c (t.next c) (k + 1)).map (fun req => (⟨socket, tRx, req⟩ : Arrival)) =
        [x] ++ (orderStream c (t.next c + 1) k).map fun req => ⟨socket, tRx, req⟩ := rfl
    have hclaim : (t.claim x.item).owner c = some socket := by
      rw [Gate.owner_claim, if_pos (show x.item.client = c from rfl)]
      rcases howner with hnone | hsome
      · rw [hnone]
        rfl
      · rw [hsome]
        rfl
    have hadm : t.Admits x.item := ⟨hclaim, rfl⟩
    have hnext : (gateAfter t [x]).next c = t.next c + 1 := by
      rw [gateAfter_singleton, Gate.next_after, if_pos ⟨hadm, rfl⟩]
    have howner' : (gateAfter t [x]).owner c = some socket := by
      rw [gateAfter_singleton, Gate.owner_after]
      exact hclaim
    have hrest := ih (.inr howner')
    rw [hnext] at hrest
    rw [hsplit, admitted_append, admitted_singleton, if_pos hadm, hrest]

theorem length_flatMap_image (reqs : List OGSClientRequest) :
    (reqs.flatMap OGSClientRequest.image).length = reqs.length * sizeofOGSClientRequest := by
  induction reqs with
  | nil => rfl
  | cons req reqs ih =>
    rw [List.flatMap_cons, List.length_append, ih, OGSClientRequest.length_image, List.length_cons,
      Nat.succ_mul, Nat.add_comm]

/-- Images received on an empty buffer are read back. -/
theorem completed_images (socket : SocketPtr) (tRx : Nanos) (sent : Option ℕ)
    (reqs : List OGSClientRequest) (hsome : reqs ≠ []) :
    completed [] socket ⟨reqs.flatMap OGSClientRequest.image, tRx, sent⟩ =
      reqs.map fun req => ⟨socket, tRx, req⟩ := by
  have hbytes : reqs.flatMap OGSClientRequest.image ≠ [] := by
    intro hnil
    have hlength := length_flatMap_image reqs
    rw [hnil] at hlength
    have hpos : 0 < reqs.length := List.length_pos_of_ne_nil hsome
    exact absurd hlength.symm (Nat.mul_pos hpos (by decide)).ne'
  rw [completed, if_neg hbytes, List.nil_append,
    records_flatMap (by decide) OGSClientRequest.length_image, List.map_map]
  apply List.map_congr_left
  intro req _
  have hread := OGSClientRequest.ofBytes_image req []
  rw [List.append_nil] at hread
  exact congrArg (Arrival.mk socket tRx) hread

/-- The bytes of 1025 orders of client 1, all at once. -/
def burst : Outcome :=
  ⟨(orderStream 1 1 1025).flatMap OGSClientRequest.image, 5, none⟩

theorem length_burst : burst.bytes.length = 1025 * sizeofOGSClientRequest := by
  rw [burst, length_flatMap_image, length_orderStream]

/-- The records of the burst, received on an empty buffer. -/
theorem early_burst : TCPServer.early ⟨7, [0], []⟩ (fun _ => burst)
    (OrderGatewayServer.create .production) = (orderStream 1 1 1025).map fun req => ⟨0, 5, req⟩ := by
  have hsome : orderStream 1 1 1025 ≠ [] := List.cons_ne_nil _ _
  exact (List.append_nil _).trans (completed_images 0 5 none _ hsome)

theorem inRange_burst :
    InRange .production ((orderStream 1 1 1025).map fun req => (⟨0, 5, req⟩ : Arrival)) := by
  intro x hx
  obtain ⟨req, hreq, rfl⟩ := List.mem_map.mp hx
  show req.omeRequest.clientId.toNat < _
  rw [clientId_of_mem_orderStream hreq]
  decide

/-- All of them are admitted, which is one too many. -/
theorem not_hasRoom_burst : ¬ (OrderGatewayServer.create .production).HasRoom
    ((orderStream 1 1 1025).map fun req => (⟨0, 5, req⟩ : Arrival)) := by
  unfold OrderGatewayServer.HasRoom
  have hall := admitted_orderStream (c := 1) 1025 (t := startGate) 0 5 (.inl rfl)
  rw [show (OrderGatewayServer.create .production).gate = startGate from rfl]
  rw [show startGate.next 1 = 1 from rfl] at hall
  rw [hall, List.length_map, length_orderStream]
  decide

/-- One round in which 1025 orders of a single client come in on a single socket, which its inbound
buffer has room for, ends in the `FATAL` exit. -/
theorem burst_stops_exchange :
    burst.bytes.length ≤ tcpBufferSize ∧
      InRange .production (TCPServer.early ⟨7, [0], []⟩ (fun _ => burst)
        (OrderGatewayServer.create .production)) ∧
      TCPServer.sendAndReceive ⟨7, [0], []⟩ (fun _ => burst) (fun _ => burst) id
        (OrderGatewayServer.create .production) = .error .tooManyPending := by
  have hlate : TCPServer.late ⟨7, [0], []⟩ (fun _ => burst) (fun _ => burst)
      (OrderGatewayServer.create .production) = [] := rfl
  refine ⟨?_, ?_, ?_⟩
  · rw [length_burst]
    decide
  · rw [early_burst]
    exact inRange_burst
  · cases hround : TCPServer.sendAndReceive ⟨7, [0], []⟩ (fun _ => burst) (fun _ => burst) id
        (OrderGatewayServer.create .production) with
    | ok g' =>
      have hroom := (roundHasRoom_of_ok hround).early
      rw [early_burst] at hroom
      exact absurd hroom not_hasRoom_burst
    | error e =>
      obtain ⟨rfl, -⟩ := roundHasRoom_of_error hround (by
        rw [early_burst, hlate, List.append_nil]
        exact inRange_burst)
      rfl

/-- Two orders of client 1 on socket 0, with a third one that skips a number; an order of client 2
on socket 1, and the first bytes of its next. -/
def sampleFirst (socket : SocketPtr) : Outcome :=
  if socket = 0 then
    ⟨(orderStream 1 1 2 ++ orderStream 1 5 1).flatMap OGSClientRequest.image, 5, none⟩
  else
    ⟨OGSClientRequest.image ⟨1, ⟨.new, 2, 0, 1, .sell, 101, 10⟩⟩ ++
      (OGSClientRequest.image ⟨2, ⟨.cancel, 2, 0, 1, .sell, 101, 10⟩⟩).take 20, 6, none⟩

/-- The other bytes of it, which come in the second pass. -/
def sampleSecond (_ : SocketPtr) : Outcome :=
  ⟨(OGSClientRequest.image ⟨2, ⟨.cancel, 2, 0, 1, .sell, 101, 10⟩⟩).drop 20, 7, none⟩

/-- The round of the two sockets, with four records in its first pass and one in its second, comes
to its end; the burst does not. -/
theorem round_stops_iff_sample :
    ((TCPServer.early ⟨7, [0, 1], [1]⟩ sampleFirst (.create .production)).length,
        (TCPServer.late ⟨7, [0, 1], [1]⟩ sampleFirst sampleSecond (.create .production)).length) =
          (4, 1) ∧
      (∃ g', TCPServer.sendAndReceive ⟨7, [0, 1], [1]⟩ sampleFirst sampleSecond id
        (OrderGatewayServer.create .production) = .ok g') ∧
      TCPServer.sendAndReceive ⟨7, [0], []⟩ (fun _ => burst) (fun _ => burst) id
        (OrderGatewayServer.create .production) = .error .tooManyPending := by
  refine ⟨by decide +kernel, ?_, ?_⟩
  · have hrange : InRange .production
        (TCPServer.early ⟨7, [0, 1], [1]⟩ sampleFirst (.create .production) ++
          TCPServer.late ⟨7, [0, 1], [1]⟩ sampleFirst sampleSecond (.create .production)) := by
      unfold InRange
      decide +kernel
    exact (round_stops_iff ⟨7, [0, 1], [1]⟩ sampleFirst sampleSecond id _ hrange).2.mpr
      ⟨by decide +kernel, by decide +kernel⟩
  · have hearly := early_burst
    have hlate : TCPServer.late ⟨7, [0], []⟩ (fun _ => burst) (fun _ => burst)
        (OrderGatewayServer.create .production) = [] := rfl
    refine (round_stops_iff ⟨7, [0], []⟩ (fun _ => burst) (fun _ => burst) id _ ?_).1.mpr ?_
    · rw [hearly, hlate, List.append_nil]
      exact inRange_burst
    · intro hroom
      refine not_hasRoom_burst ?_
      rw [← hearly]
      exact hroom.early

end rounds

end HftSys
