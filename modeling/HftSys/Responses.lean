import HftSys.Receiving

/-!
# The response streams

The responses `run` drains, numbered client by client and sent to their clients' sockets in two
pieces.

* `numbered rs`: the records that carry the responses `rs`, each with one more than the responses to
  its client before it.
* `Framed rs g`: the stream of every socket of `g` consists of the images of the records of its
  clients, and decodes into them.
* `responses_framed`: every run's streams are framed, and a response whose client has a socket with
  room is always sent.
-/

namespace HftSys

open Bytes SequenceGate

/-- The responses to a client, counted. -/
def countFrom (c : ClientID) (rs : List OMEClientResponse) : ℕ :=
  rs.countP fun r => decide (r.clientId = c)

/-- The records that carry some responses behind those already sent. -/
def numberedAfter (sent : List OMEClientResponse) : List OMEClientResponse → List OGSClientResponse
  | [] => []
  | r :: rs => ⟨.ofNat (1 + countFrom r.clientId sent), r⟩ :: numberedAfter (sent ++ [r]) rs

/-- The records that carry some responses. -/
def numbered (rs : List OMEClientResponse) : List OGSClientResponse := numberedAfter [] rs

/-- The records for the clients bound to a socket. -/
def OrderGatewayServer.recordsTo {B : Build} (g : OrderGatewayServer B) (socket : SocketPtr)
    (rs : List OMEClientResponse) : List OGSClientResponse :=
  (numbered rs).filter fun r => decide (g.mapClientToSocket r.omeResponse.clientId = some socket)

/-- The response an event sends. -/
def GatewayEvent.response : GatewayEvent → Option OMEClientResponse
  | .respond res => some res
  | _ => none

/-- The responses drained in a run. -/
def drained (es : List GatewayEvent) : List OMEClientResponse := es.filterMap (·.response)

/-- The responses `rs` have been sent as the exchange's clients expect them. -/
structure Framed {B : Build} (rs : List OMEClientResponse) (g : OrderGatewayServer B) : Prop where
  bound : ∀ r ∈ rs, g.mapClientToSocket r.clientId ≠ none
  stream : ∀ socket, (g.sockets socket).passed =
    (g.recordsTo socket rs).flatMap OGSClientResponse.image
  decoded : ∀ socket, (records sizeofOGSClientResponse (g.sockets socket).passed).map
    OGSClientResponse.ofBytes = (g.recordsTo socket rs).map some
  numbers : ∀ c, ((numbered rs).filter fun r => decide (r.omeResponse.clientId = c)).map
    (fun r => r.nSeq.toNat) = List.range' 1 (countFrom c rs)
  /-- What waits to be offered to the kernel is the end of the stream. -/
  buffered : ∀ socket, (g.sockets socket).outboundData <:+ (g.sockets socket).passed

/-- The streams and the counters of a gateway that has sent the responses `rs`. -/
structure Sent {B : Build} (rs : List OMEClientResponse) (g : OrderGatewayServer B) : Prop where
  bound : ∀ r ∈ rs, g.mapClientToSocket r.clientId ≠ none
  next : ∀ c, g.mapClientToTxNSeq c = .ofNat (1 + countFrom c rs)
  stream : ∀ socket, (g.sockets socket).passed =
    (g.recordsTo socket rs).flatMap OGSClientResponse.image

section numbered

variable {rs sent : List OMEClientResponse} {r : OMEClientResponse} {c : ClientID}

theorem countFrom_append (c : ClientID) (rs rs' : List OMEClientResponse) :
    countFrom c (rs ++ rs') = countFrom c rs + countFrom c rs' := List.countP_append

theorem countFrom_singleton (c : ClientID) (r : OMEClientResponse) :
    countFrom c [r] = if r.clientId = c then 1 else 0 := by
  by_cases h : r.clientId = c <;> simp [countFrom, h]

theorem numberedAfter_concat (sent rs : List OMEClientResponse) (r : OMEClientResponse) :
    numberedAfter sent (rs ++ [r]) =
      numberedAfter sent rs ++ [⟨.ofNat (1 + countFrom r.clientId (sent ++ rs)), r⟩] := by
  induction rs generalizing sent with
  | nil =>
    rw [List.nil_append, List.append_nil]
    rfl
  | cons r' rs ih =>
    rw [List.cons_append, numberedAfter, ih, numberedAfter, List.append_assoc]
    rfl

/-- One more response is carried by one more record. -/
theorem numbered_concat (rs : List OMEClientResponse) (r : OMEClientResponse) :
    numbered (rs ++ [r]) = numbered rs ++ [⟨.ofNat (1 + countFrom r.clientId rs), r⟩] :=
  numberedAfter_concat [] rs r

/-- The records carry the responses. -/
theorem omeResponse_mem_of_mem_numbered {x : OGSClientResponse} (h : x ∈ numbered rs) :
    x.omeResponse ∈ rs := by
  induction rs using List.reverseRecOn with
  | nil => cases h
  | append_singleton rs r ih =>
    rw [numbered_concat] at h
    rcases List.mem_append.mp h with h | h
    · exact List.mem_append_left _ (ih h)
    · rw [List.mem_singleton.mp h]
      exact List.mem_append_right _ (List.mem_singleton_self _)

/-- **The records of a client are numbered** 1, 2, 3, …, while there are fewer than `2 ^ 64 - 1`. -/
theorem numbers_numbered (hn : rs.length < 2 ^ 64 - 1) (c : ClientID) :
    ((numbered rs).filter fun r => decide (r.omeResponse.clientId = c)).map (fun r => r.nSeq.toNat) =
      List.range' 1 (countFrom c rs) := by
  induction rs using List.reverseRecOn with
  | nil => rfl
  | append_singleton rs r ih =>
    rw [List.length_append, List.length_singleton] at hn
    rw [numbered_concat, List.filter_append, List.map_append, ih (by omega), countFrom_append,
      countFrom_singleton]
    by_cases hc : r.clientId = c
    · have hle : countFrom c rs ≤ rs.length := List.countP_le_length
      have hlt : 1 + countFrom c rs < 2 ^ 64 := by omega
      have hlast : (UInt64.ofNat (1 + countFrom c rs)).toNat = 1 + countFrom c rs :=
        UInt64.toNat_ofNat_of_lt' hlt
      have hone : [(⟨.ofNat (1 + countFrom r.clientId rs), r⟩ : OGSClientResponse)].filter
          (fun r => decide (r.omeResponse.clientId = c)) = [⟨.ofNat (1 + countFrom c rs), r⟩] := by
        simp [hc]
      rw [hone, if_pos hc, List.range'_concat, List.map_singleton, hlast, Nat.one_mul]
    · simp [hc]

end numbered

section sending

variable {B : Build} {g g' : OrderGatewayServer B} {rs : List OMEClientResponse}
  {res : OMEClientResponse} {es : List GatewayEvent} {xs : List Arrival} {socket : SocketPtr}
  {s s' : TCPSocket}

/-- `send` appends to the stream. -/
theorem TCPSocket.send_ok {data : List UInt8} (h : s.send data = some s') :
    s'.passed = s.passed ++ data ∧ s'.outboundData = s.outboundData ++ data := by
  unfold TCPSocket.send at h
  split at h
  · cases h
    exact ⟨rfl, rfl⟩
  · cases h

/-- The two sends of a response append one record. -/
theorem send_record {n : UInt64} (h : (s.send (sizeImage n) >>= fun s => s.send res.image) = some s') :
    s'.passed = s.passed ++ OGSClientResponse.image ⟨n, res⟩ ∧
      s'.outboundData = s.outboundData ++ OGSClientResponse.image ⟨n, res⟩ := by
  obtain ⟨s₁, h₁, h₂⟩ := Option.bind_eq_some_iff.mp h
  obtain ⟨hp₁, ho₁⟩ := TCPSocket.send_ok h₁
  obtain ⟨hp₂, ho₂⟩ := TCPSocket.send_ok h₂
  rw [hp₂, hp₁, ho₂, ho₁, List.append_assoc, List.append_assoc, sizeImage_append_image]
  exact ⟨rfl, rfl⟩

theorem sent_create (B : Build) : Sent [] (OrderGatewayServer.create B) :=
  ⟨fun _ h => absurd h List.not_mem_nil, fun _ => rfl, fun _ => rfl⟩

/-- Clients keep their sockets. -/
theorem Received.kept (hr : Received g g' xs) {c : ClientID}
    (hc : g.mapClientToSocket c = some socket) : g'.mapClientToSocket c = some socket := by
  have howner : (gateAfter g.gate xs).owner c = some socket := Gate.owner_afterAll_of_some hc xs
  rw [← hr.gate] at howner
  exact howner

/-- While clients keep their sockets, so do their records. -/
theorem recordsTo_congr (hbound : ∀ r ∈ rs, g.mapClientToSocket r.clientId ≠ none)
    (hkept : ∀ c socket, g.mapClientToSocket c = some socket → g'.mapClientToSocket c = some socket)
    (socket : SocketPtr) : g'.recordsTo socket rs = g.recordsTo socket rs := by
  apply List.filter_congr
  intro x hx
  obtain ⟨socket', hsocket'⟩ :=
    Option.ne_none_iff_exists'.mp (hbound _ (omeResponse_mem_of_mem_numbered hx))
  rw [hkept _ _ hsocket', hsocket']

/-- Reading changes neither the streams nor the counters. -/
theorem Sent.received (h : Sent rs g) (hr : Received g g' xs)
    (hpassed : ∀ socket, (g'.sockets socket).passed = (g.sockets socket).passed) : Sent rs g' where
  bound r hmem := by
    obtain ⟨socket, hsocket⟩ := Option.ne_none_iff_exists'.mp (h.bound r hmem)
    rw [hr.kept hsocket]
    exact Option.some_ne_none _
  next c := by rw [hr.txNSeq, h.next]
  stream socket := by
    rw [hpassed, h.stream, recordsTo_congr h.bound fun _ _ => hr.kept]

/-- **A response sent** is the next record of its client, on the client's socket. -/
theorem Sent.respond (h : Sent rs g) (hs : g.sendResponse res = .ok g') : Sent (rs ++ [res]) g' := by
  obtain ⟨-, socket, s, hsocket, hsend, rfl⟩ := sendResponse_ok hs
  obtain ⟨hpassed, -⟩ := send_record hsend
  constructor
  case bound =>
    intro r hmem
    rcases List.mem_append.mp hmem with hmem | hmem
    · exact h.bound r hmem
    · rw [List.mem_singleton.mp hmem]
      exact Option.ne_none_iff_exists'.mpr ⟨socket, hsocket⟩
  case next =>
    intro c
    show Function.update g.mapClientToTxNSeq res.clientId _ c = _
    rw [countFrom_append, countFrom_singleton]
    by_cases hc : res.clientId = c
    · subst hc
      rw [Function.update_self, h.next, if_pos rfl, ← Nat.add_assoc, UInt64.ofNat_add _ 1]
      rfl
    · rw [Function.update_of_ne (Ne.symm hc), h.next, if_neg hc, Nat.add_zero]
  case stream =>
    intro socket'
    have hrecords : ({ g.setSocket socket s with
        mapClientToTxNSeq := Function.update g.mapClientToTxNSeq res.clientId
          (g.mapClientToTxNSeq res.clientId + 1) } : OrderGatewayServer B).recordsTo socket'
            (rs ++ [res]) = g.recordsTo socket' rs ++
          if socket = socket' then [⟨g.mapClientToTxNSeq res.clientId, res⟩] else [] := by
      show (numbered (rs ++ [res])).filter _ = _
      rw [numbered_concat, List.filter_append, ← h.next]
      congr 1
      by_cases hss : socket = socket'
      · subst hss
        simp [OrderGatewayServer.setSocket, hsocket]
      · simp [OrderGatewayServer.setSocket, hsocket, hss]
    rw [hrecords, List.flatMap_append, ← h.stream]
    by_cases hss : socket = socket'
    · subst hss
      show (Function.update g.sockets socket s socket).passed = _
      rw [Function.update_self, hpassed, if_pos rfl, List.flatMap_singleton]
    · show (Function.update g.sockets socket s socket').passed = _
      rw [Function.update_of_ne (Ne.symm hss), if_neg hss, List.flatMap_nil, List.append_nil]

/-- A call of `sendAndRecv` passes nothing to `send`. -/
theorem passed_sendAndRecv {o : Outcome} {received : Bool}
    (h : g.sendAndRecv socket o = .ok (received, g')) (socket' : SocketPtr) :
    (g'.sockets socket').passed = (g.sockets socket').passed := by
  rw [(sendAndRecv_ok h).2.2]
  by_cases hss : socket' = socket
  · subst hss
    rw [Function.update_self]
    rfl
  · rw [Function.update_of_ne hss]

/-- **What a run has sent** is what it has drained. -/
theorem GatewayRuns.sent (h : GatewayRuns es g) : Sent (drained es) g := by
  refine (runsOf_gateway B).induction (P := fun es g => Sent (drained es) g) (sent_create B) ?_ h
  rintro es e g g' - hg hstep
  rw [drained, List.filterMap_append]
  cases e with
  | sendAndRecv socket o =>
    obtain ⟨received, hcall⟩ := hstep
    exact (List.append_nil (drained es)).symm ▸
      hg.received (sendAndRecv_ok hcall).1 (passed_sendAndRecv hcall)
  | rxDone =>
    obtain ⟨sorted, -, rfl⟩ := hstep
    exact (List.append_nil (drained es)).symm ▸ ⟨hg.bound, hg.next, hg.stream⟩
  | respond res => exact hg.respond hstep

/-- **The outbound buffer is the end of the stream**: a response is appended to both, and a call of
`sendAndRecv` empties the buffer. -/
theorem GatewayRuns.buffered (h : GatewayRuns es g) (socket : SocketPtr) :
    (g.sockets socket).outboundData <:+ (g.sockets socket).passed := by
  refine (runsOf_gateway B).induction
    (P := fun _ g => (g.sockets socket).outboundData <:+ (g.sockets socket).passed) List.suffix_rfl ?_ h
  rintro es e g g' - hg hstep
  cases e with
  | sendAndRecv socket' o =>
    obtain ⟨received, hcall⟩ := hstep
    rw [passed_sendAndRecv hcall, (sendAndRecv_ok hcall).2.2]
    by_cases hss : socket = socket'
    · subst hss
      rw [Function.update_self]
      exact List.nil_suffix
    · rw [Function.update_of_ne hss]
      exact hg
  | rxDone =>
    obtain ⟨sorted, -, rfl⟩ := hstep
    exact hg
  | respond res =>
    obtain ⟨-, socket', s, -, hsend, rfl⟩ := sendResponse_ok hstep
    obtain ⟨hpassed, hout⟩ := send_record hsend
    show (Function.update g.sockets socket' s socket).outboundData <:+
      (Function.update g.sockets socket' s socket).passed
    by_cases hss : socket = socket'
    · subst hss
      obtain ⟨before, hbefore⟩ := hg
      rw [Function.update_self, hpassed, hout, ← hbefore]
      exact ⟨before, (List.append_assoc ..).symm⟩
    · rw [Function.update_of_ne hss]
      exact hg

/-! ## Room for a response -/

theorem TCPSocket.exists_send (s : TCPSocket) (data : List UInt8)
    (h : s.outboundData.length + data.length ≤ tcpBufferSize) : ∃ s', s.send data = some s' :=
  ⟨_, if_pos h⟩

/-- A response is sent if its client has a socket with room for a record. -/
theorem exists_sendResponse (hrange : res.clientId.toNat < maxNClients B)
    (hsocket : g.mapClientToSocket res.clientId = some socket)
    (hroom : (g.sockets socket).outboundData.length + sizeofOGSClientResponse ≤ tcpBufferSize) :
    ∃ g', g.sendResponse res = .ok g' := by
  have hsize : sizeofOGSClientResponse = 8 + sizeofOMEClientResponse := rfl
  obtain ⟨s₁, h₁⟩ := (g.sockets socket).exists_send
    (sizeImage (g.mapClientToTxNSeq res.clientId)) (by
      rw [length_sizeImage]
      omega)
  obtain ⟨-, ho₁⟩ := TCPSocket.send_ok h₁
  obtain ⟨s₂, h₂⟩ := s₁.exists_send res.image (by
    rw [ho₁, List.length_append, length_sizeImage, OMEClientResponse.length_image]
    omega)
  have hsend : ((g.sockets socket).send (sizeImage (g.mapClientToTxNSeq res.clientId)) >>=
      fun s => s.send res.image) = some s₂ := Option.bind_eq_some_iff.mpr ⟨s₁, h₁, h₂⟩
  simp only [OrderGatewayServer.sendResponse]
  rw [if_pos hrange, hsocket]
  simp only [hsend]
  exact ⟨_, rfl⟩

/-- A response sent takes a record's room on the socket of its client, and no client changes
sockets. -/
theorem room_sendResponse (hsocket : g.mapClientToSocket res.clientId = some socket)
    (h : g.sendResponse res = .ok g') (socket' : SocketPtr) :
    g'.mapClientToSocket = g.mapClientToSocket ∧
      (g'.sockets socket').outboundData.length = (g.sockets socket').outboundData.length +
        if socket = socket' then sizeofOGSClientResponse else 0 := by
  obtain ⟨-, socket₁, s, hsocket₁, hsend, rfl⟩ := sendResponse_ok h
  cases hsocket.symm.trans hsocket₁
  obtain ⟨-, hout⟩ := send_record hsend
  refine ⟨rfl, ?_⟩
  show (Function.update g.sockets socket s socket').outboundData.length = _
  by_cases hss : socket = socket'
  · subst hss
    rw [Function.update_self, hout, if_pos rfl, List.length_append, OGSClientResponse.length_image]
  · rw [Function.update_of_ne (Ne.symm hss), if_neg hss, Nat.add_zero]

/-- The records that some responses add to a socket. -/
def OrderGatewayServer.countTo (g : OrderGatewayServer B) (socket : SocketPtr)
    (rs : List OMEClientResponse) : ℕ :=
  rs.countP fun r => decide (g.mapClientToSocket r.clientId = some socket)

/-- **Responses are sent** as long as their clients have sockets and the sockets have room. -/
theorem GatewayRuns.exists_respond (h : GatewayRuns es g)
    (hbound : ∀ r ∈ rs, g.mapClientToSocket r.clientId ≠ none)
    (hroom : ∀ socket, (g.sockets socket).outboundData.length +
      sizeofOGSClientResponse * g.countTo socket rs ≤ tcpBufferSize) :
    ∃ g' : OrderGatewayServer B, GatewayRuns (es ++ rs.map .respond) g' := by
  induction rs generalizing es g with
  | nil => exact ⟨g, (List.append_nil es).symm ▸ h⟩
  | cons r rs ih =>
    obtain ⟨socket, hsocket⟩ := Option.ne_none_iff_exists'.mp (hbound r List.mem_cons_self)
    have hcount : ∀ socket', g.countTo socket' (r :: rs) =
        g.countTo socket' rs + if socket = socket' then 1 else 0 := by
      intro socket'
      by_cases hss : socket = socket' <;>
        simp [OrderGatewayServer.countTo, hsocket, hss]
    have hfirst := hroom socket
    rw [hcount, if_pos rfl, Nat.mul_add] at hfirst
    obtain ⟨g₁, hg₁⟩ := exists_sendResponse (h.consistent.clientId_lt hsocket) hsocket
      (by omega)
    have hmap := (room_sendResponse hsocket hg₁ socket).1
    have hrun₁ : GatewayRuns (es ++ [.respond r]) g₁ :=
      (runsOf_gateway B).concat.mpr ⟨g, h, show GatewayStep g (.respond r) g₁ from hg₁⟩
    obtain ⟨g', hg'⟩ := ih hrun₁
      (by
        rw [hmap]
        exact fun r' hr' => hbound r' (List.mem_cons_of_mem r hr'))
      (by
        intro socket'
        have hrest := hroom socket'
        rw [hcount, Nat.mul_add] at hrest
        rw [(room_sendResponse hsocket hg₁ socket').2, OrderGatewayServer.countTo, hmap]
        change _ + sizeofOGSClientResponse * g.countTo socket' rs ≤ _
        split
        · rename_i hss
          rw [if_pos hss] at hrest
          omega
        · omega)
    exact ⟨g', by simpa using hg'⟩

/-- **The response streams are framed**: while fewer than `2 ^ 64 - 1` responses have been drained,
the bytes passed to every socket are the records of the responses to its clients, in order, numbered
1, 2, 3, … for each client, and end with those that wait in its outbound buffer; and responses whose
clients have sockets with room are sent. -/
theorem responses_framed (h : GatewayRuns es g) (hn : (drained es).length < 2 ^ 64 - 1) :
    Framed (drained es) g ∧
      ∀ rs, (∀ r ∈ rs, g.mapClientToSocket r.clientId ≠ none) →
        (∀ socket, (g.sockets socket).outboundData.length +
          sizeofOGSClientResponse * g.countTo socket rs ≤ tcpBufferSize) →
        ∃ g' : OrderGatewayServer B, GatewayRuns (es ++ rs.map .respond) g' := by
  have hsent := h.sent
  refine ⟨⟨hsent.bound, hsent.stream, fun socket => ?_, numbers_numbered hn, h.buffered⟩,
    fun rs => h.exists_respond⟩
  rw [hsent.stream, records_flatMap (by decide) OGSClientResponse.length_image, List.map_map]
  apply List.map_congr_left
  intro r _
  have := OGSClientResponse.ofBytes_image r []
  rwa [List.append_nil] at this

/-- Two clients on a socket each, with two responses to client 1 and one to client 2, the first of
which the kernel has been offered. -/
def sampleExchange : List GatewayEvent :=
  [.sendAndRecv 0 ⟨OGSClientRequest.image ⟨1, ⟨.new, 1, 0, 1, .buy, 100, 10⟩⟩, 5, none⟩,
    .sendAndRecv 1 ⟨OGSClientRequest.image ⟨1, ⟨.new, 2, 0, 1, .sell, 100, 10⟩⟩, 6, none⟩,
    .respond ⟨.accepted, 1, 0, 1, 1, .buy, 100, 0, 10⟩, .sendAndRecv 0 ⟨[], 0, some 50⟩,
    .respond ⟨.accepted, 2, 0, 1, 2, .sell, 100, 0, 10⟩,
    .respond ⟨.filled, 1, 0, 1, 1, .buy, 100, 10, 0⟩]

/-- Two records have been passed to the first socket, the second of which still waits, and one to
the second. -/
theorem responses_framed_sample :
    ∃ g : OrderGatewayServer .production,
      [(g.sockets 0).passed.length, (g.sockets 0).outboundData.length,
        (g.sockets 1).passed.length] = [100, 50, 50] ∧
      Framed (drained sampleExchange) g := by
  obtain ⟨g, hrun, hlengths⟩ := exists_gatewayRuns .production sampleExchange
    (fun g => [(g.sockets 0).passed.length, (g.sockets 0).outboundData.length,
      (g.sockets 1).passed.length]) (a := [100, 50, 50]) (by decide +kernel)
  exact ⟨g, hlengths, (responses_framed hrun (by decide)).1⟩

end sending

end HftSys
