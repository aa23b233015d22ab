import HftSys.Overload

/-!
# Requests in pieces

A stream comes in on a socket in receives that may cut it anywhere. `rxCallback` reads the whole
records in the buffer and moves what is left to its front, so that what it reads of the stream does
not depend on the cuts.

* `readOffsets` and `stopOffset` are the loop of `rxCallback`; `records_eq_loop` and `rest_eq_loop`
  say that the model's `records` and `rest` are what it reads and what it leaves.
* `Parsed g g' socket bs`: between `g` and `g'` the stream `bs` has been read on the socket. Two
  such spans make one (`Parsed.trans`), an event is one, and so is a run.
* `chunking_independent`: the records read, what is left in the buffer and, with no other socket
  active, the requests forwarded are functions of the stream.
-/

namespace HftSys

open Bytes Exec SequenceGate

variable {B : Build}

/-! ## The loop -/

theorem sizeofOGSClientRequest_pos : 0 < sizeofOGSClientRequest := by decide

/-- The offsets at which the loop of `rxCallback` reads a record, from `i` on, with `n` valid bytes.
Source: `order_gateway_server.cpp`, `OrderGatewayServer::rxCallback` -/
def readOffsets (n i : ℕ) : List ℕ :=
  if i + sizeofOGSClientRequest ≤ n then i :: readOffsets n (i + sizeofOGSClientRequest) else []
termination_by n - i
decreasing_by
  have hpos := sizeofOGSClientRequest_pos
  omega

/-- The offset at which the loop ends, from where `memcpy` moves the rest of the buffer to its
front. Source: `order_gateway_server.cpp`, `OrderGatewayServer::rxCallback` -/
def stopOffset (n i : ℕ) : ℕ :=
  if i + sizeofOGSClientRequest ≤ n then stopOffset n (i + sizeofOGSClientRequest) else i
termination_by n - i
decreasing_by
  have hpos := sizeofOGSClientRequest_pos
  omega

/-- The records between two offsets, when there is one at the first. -/
theorem count_of_le {n i : ℕ} (h : i + sizeofOGSClientRequest ≤ n) :
    (n - i) / sizeofOGSClientRequest =
      (n - (i + sizeofOGSClientRequest)) / sizeofOGSClientRequest + 1 := by
  rw [Nat.sub_add_eq, ← Nat.div_eq_sub_div sizeofOGSClientRequest_pos (by omega)]

theorem count_of_not_le {n i : ℕ} (h : ¬ i + sizeofOGSClientRequest ≤ n) :
    (n - i) / sizeofOGSClientRequest = 0 := by
  have hpos := sizeofOGSClientRequest_pos
  apply Nat.div_eq_of_lt
  omega

theorem readOffsets_eq (n i : ℕ) :
    readOffsets n i = (List.range ((n - i) / sizeofOGSClientRequest)).map
      fun k => i + k * sizeofOGSClientRequest := by
  fun_induction readOffsets n i with
  | case1 i h ih =>
    rw [ih, count_of_le h, List.range_succ_eq_map, List.map_cons, List.map_map, Nat.zero_mul]
    congr 1
    apply List.map_congr_left
    intro k _
    show i + sizeofOGSClientRequest + k * sizeofOGSClientRequest = i + (k + 1) * sizeofOGSClientRequest
    rw [Nat.succ_mul]
    omega
  | case2 i h =>
    rw [count_of_not_le h]
    rfl

theorem stopOffset_eq (n i : ℕ) :
    stopOffset n i = i + (n - i) / sizeofOGSClientRequest * sizeofOGSClientRequest := by
  fun_induction stopOffset n i with
  | case1 i h ih =>
    rw [ih, count_of_le h, Nat.succ_mul]
    omega
  | case2 i h => rw [count_of_not_le h, Nat.zero_mul, Nat.add_zero]

/-- The records of a buffer are those the loop reads. -/
theorem records_eq_loop (bs : List UInt8) :
    records sizeofOGSClientRequest bs =
      (readOffsets bs.length 0).map fun i => (bs.drop i).take sizeofOGSClientRequest := by
  rw [readOffsets_eq, List.map_map, records, Nat.sub_zero]
  apply List.map_congr_left
  intro k _
  show _ = (bs.drop (0 + k * sizeofOGSClientRequest)).take sizeofOGSClientRequest
  rw [Nat.zero_add]

/-- What is left of a buffer is what the loop has not read. -/
theorem rest_eq_loop (bs : List UInt8) :
    rest sizeofOGSClientRequest bs = bs.drop (stopOffset bs.length 0) := by
  rw [stopOffset_eq, Nat.sub_zero, Nat.zero_add, rest]

/-- **The `memcpy` has room in front of its source**: once a record has been read, what is left is
shorter than what has been. -/
theorem moved_le_stopOffset {n : ℕ} (h : sizeofOGSClientRequest ≤ n) :
    n - stopOffset n 0 ≤ stopOffset n 0 := by
  have hone : 0 < n / sizeofOGSClientRequest := Nat.div_pos h sizeofOGSClientRequest_pos
  have hmod := Nat.div_add_mod n sizeofOGSClientRequest
  have hlt := Nat.mod_lt n sizeofOGSClientRequest_pos
  have hle : sizeofOGSClientRequest ≤ n / sizeofOGSClientRequest * sizeofOGSClientRequest :=
    Nat.le_mul_of_pos_left _ hone
  rw [stopOffset_eq, Nat.sub_zero, Nat.zero_add]
  rw [Nat.mul_comm] at hmod
  omega

/-! ## A stream on a socket -/

/-- The requests in a stream. -/
def requestsIn (bs : List UInt8) : List OGSClientRequest :=
  (records sizeofOGSClientRequest bs).map OGSClientRequest.ofBytes

/-- The bytes received on a socket in some events. -/
def receivedOn (socket : SocketPtr) (es : List GatewayEvent) : List UInt8 :=
  es.flatMap fun
    | .sendAndRecv socket' o => if socket' = socket then o.bytes else []
    | _ => []

/-- The requests read on a socket, among some records. -/
def readOn (socket : SocketPtr) (xs : List Arrival) : List OGSClientRequest :=
  (xs.filter fun x => decide (x.socket = socket)).map (·.record)

/-- A request on a socket as the gate sees it. -/
def itemOn (socket : SocketPtr) (req : OGSClientRequest) : Item ClientID SocketPtr UInt64 :=
  ⟨req.omeRequest.clientId, socket, req.nSeq⟩

/-- The requests of a stream on a socket that the gate admits. -/
def passing (t : Gate ClientID SocketPtr UInt64) (socket : SocketPtr) (bs : List UInt8) :
    List OGSClientRequest :=
  t.admitted (· + 1) (itemOn socket) (requestsIn bs)

/-- Between `g` and `g'` the stream `bs` has been read on the socket. -/
structure Parsed (g g' : OrderGatewayServer B) (socket : SocketPtr) (bs : List UInt8) : Prop where
  read : readOn socket g'.arrived = readOn socket g.arrived ++ requestsIn bs
  buffer : (g'.sockets socket).inboundData = rest sizeofOGSClientRequest bs

/-- Between `g` and `g'` the requests of the stream `bs` on the socket, and no others, have gone
through the gate. -/
structure Filtered (g g' : OrderGatewayServer B) (socket : SocketPtr) (bs : List UInt8) : Prop where
  gate : g'.gate = g.gate.afterAll (· + 1) (itemOn socket) (requestsIn bs)
  forwarded : g'.forwarded.map (·.record) = g.forwarded.map (·.record) ++ passing g.gate socket bs

/-- Nothing is received on any other socket. -/
def OnlyOn (socket : SocketPtr) (es : List GatewayEvent) : Prop :=
  ∀ socket' o, .sendAndRecv socket' o ∈ es → o.bytes ≠ [] → socket' = socket

/-- Receives on the socket, with calls of `sequenceAndPublish` anywhere between them. -/
def ReceivesOn (socket : SocketPtr) (es : List GatewayEvent) : Prop :=
  ∀ e ∈ es, e = .rxDone ∨ ∃ o, e = .sendAndRecv socket o

/-- No batch exceeds what the sequencer takes. -/
def NoOverload (g : OrderGatewayServer B) (socket : SocketPtr) (es : List GatewayEvent) : Prop :=
  ∀ pre o post g₁, es = pre ++ .sendAndRecv socket o :: post → Runs.Path GatewayStep g pre g₁ →
    g₁.HasRoom (completed (g₁.sockets socket).inboundData socket o)

section streams

variable {g g' g'' : OrderGatewayServer B} {socket : SocketPtr} {bs cs : List UInt8}
  {xs ys : List Arrival} {es : List GatewayEvent} {e : GatewayEvent} {o : Outcome}

theorem requestsIn_split (bs cs : List UInt8) :
    requestsIn (bs ++ cs) =
      requestsIn bs ++ requestsIn (rest sizeofOGSClientRequest bs ++ cs) := by
  rw [requestsIn, (records_split sizeofOGSClientRequest_pos bs cs).1, List.map_append]
  rfl

theorem requestsIn_of_lt (h : bs.length < sizeofOGSClientRequest) : requestsIn bs = [] := by
  rw [requestsIn, records_of_lt h]
  rfl

theorem readOn_append (socket : SocketPtr) (xs ys : List Arrival) :
    readOn socket (xs ++ ys) = readOn socket xs ++ readOn socket ys := by
  rw [readOn, List.filter_append, List.map_append]
  rfl

/-- **A stream read in two spans.** -/
theorem Parsed.trans (h : Parsed g g' socket bs)
    (h' : Parsed g' g'' socket (rest sizeofOGSClientRequest bs ++ cs)) :
    Parsed g g'' socket (bs ++ cs) where
  read := by rw [h'.read, h.read, requestsIn_split bs cs, List.append_assoc]
  buffer := by rw [h'.buffer, (records_split sizeofOGSClientRequest_pos bs cs).2]

/-- **A stream filtered in two spans.** -/
theorem Filtered.trans (h : Filtered g g' socket bs)
    (h' : Filtered g' g'' socket (rest sizeofOGSClientRequest bs ++ cs)) :
    Filtered g g'' socket (bs ++ cs) where
  gate := by rw [h'.gate, h.gate, requestsIn_split bs cs, Gate.afterAll_append]
  forwarded := by
    rw [h'.forwarded, h.forwarded, passing, passing, passing, h.gate, requestsIn_split bs cs,
      Gate.admitted_append, List.append_assoc]

/-- Nothing has been read. -/
theorem Parsed.none (hshort : (g.sockets socket).inboundData.length < sizeofOGSClientRequest)
    (hread : readOn socket g'.arrived = readOn socket g.arrived)
    (hbuffer : (g'.sockets socket).inboundData = (g.sockets socket).inboundData) :
    Parsed g g' socket (g.sockets socket).inboundData where
  read := by rw [hread, requestsIn_of_lt hshort, List.append_nil]
  buffer := by rw [hbuffer, rest_of_lt hshort]

theorem Filtered.none (hshort : (g.sockets socket).inboundData.length < sizeofOGSClientRequest)
    (hgate : g'.gate = g.gate) (hforwarded : g'.forwarded = g.forwarded) :
    Filtered g g' socket (g.sockets socket).inboundData where
  gate := by
    rw [hgate, requestsIn_of_lt hshort]
    rfl
  forwarded := by
    rw [hforwarded, passing, requestsIn_of_lt hshort]
    exact (List.append_nil _).symm

/-! ## One event -/

/-- The records completed behind less than a record. -/
theorem completed_eq (hshort : bs.length < sizeofOGSClientRequest) (socket : SocketPtr) (o : Outcome) :
    completed bs socket o = (requestsIn (bs ++ o.bytes)).map fun req => ⟨socket, o.kernelTime, req⟩ := by
  unfold completed
  split
  · rename_i hnone
    rw [hnone, List.append_nil, requestsIn_of_lt hshort]
    rfl
  · rw [requestsIn, List.map_map]
    rfl

theorem leftOver_eq (hshort : bs.length < sizeofOGSClientRequest) (o : Outcome) :
    leftOver bs o = rest sizeofOGSClientRequest (bs ++ o.bytes) := by
  unfold leftOver
  split
  · rename_i hnone
    rw [hnone, List.append_nil, rest_of_lt hshort]
  · rfl

theorem readOn_map (socket socket' : SocketPtr) (tRx : Nanos) (reqs : List OGSClientRequest) :
    readOn socket (reqs.map fun req => ⟨socket', tRx, req⟩) = if socket' = socket then reqs else [] := by
  unfold readOn
  split
  · rename_i hsame
    rw [List.filter_eq_self.mpr, List.map_map]
    · exact List.map_id reqs
    · intro x hx
      obtain ⟨req, -, rfl⟩ := List.mem_map.mp hx
      exact decide_eq_true hsame
  · rename_i hother
    rw [List.filter_eq_nil_iff.mpr]
    · rfl
    · intro x hx
      obtain ⟨req, -, rfl⟩ := List.mem_map.mp hx
      simpa using hother

theorem TCPSocket.inboundData_send {s s' : TCPSocket} {data : List UInt8}
    (h : s.send data = some s') : s'.inboundData = s.inboundData := by
  unfold TCPSocket.send at h
  split at h
  · cases h
    rfl
  · cases h

/-- A response leaves the inbound buffers alone. -/
theorem inboundData_sendResponse {res : OMEClientResponse} (h : g.sendResponse res = .ok g')
    (socket : SocketPtr) : (g'.sockets socket).inboundData = (g.sockets socket).inboundData := by
  obtain ⟨-, socket', s, -, hsend, rfl⟩ := sendResponse_ok h
  show (Function.update g.sockets socket' s socket).inboundData = _
  by_cases hs : socket = socket'
  · subst hs
    rw [Function.update_self]
    obtain ⟨s₁, hfirst, hsecond⟩ := Option.bind_eq_some_iff.mp hsend
    rw [TCPSocket.inboundData_send hsecond, TCPSocket.inboundData_send hfirst]
  · rw [Function.update_of_ne hs]

/-- **What an event reads on a socket.** -/
theorem parsed_step (hshort : (g.sockets socket).inboundData.length < sizeofOGSClientRequest)
    (h : GatewayStep g e g') :
    Parsed g g' socket ((g.sockets socket).inboundData ++ receivedOn socket [e]) := by
  cases e with
  | sendAndRecv socket' o =>
    obtain ⟨received, hcall⟩ := h
    obtain ⟨hr, -, hsockets⟩ := sendAndRecv_ok hcall
    have hbytes : receivedOn socket [.sendAndRecv socket' o] =
        if socket' = socket then o.bytes else [] := List.append_nil _
    rw [hbytes]
    by_cases hs : socket' = socket
    · subst hs
      rw [if_pos rfl]
      constructor
      · rw [hr.arrived, readOn_append, completed_eq hshort, readOn_map, if_pos rfl]
      · rw [hsockets, Function.update_self, ← leftOver_eq hshort]
        rfl
    · rw [if_neg hs, List.append_nil]
      apply Parsed.none hshort
      · rw [hr.arrived, readOn_append]
        unfold completed
        split
        · exact List.append_nil _
        · -- what another socket brings in is read as its own
          have hmap := readOn_map socket socket' o.kernelTime
            (requestsIn ((g.sockets socket').inboundData ++ o.bytes))
          rw [if_neg hs, requestsIn, List.map_map] at hmap
          exact (congrArg (_ ++ ·) hmap).trans (List.append_nil _)
      · rw [hsockets, Function.update_of_ne (Ne.symm hs)]
  | rxDone =>
    obtain ⟨sorted, -, rfl⟩ := h
    rw [show receivedOn socket [.rxDone] = [] from rfl, List.append_nil]
    exact .none hshort rfl rfl
  | respond res =>
    rw [show receivedOn socket [.respond res] = [] from rfl, List.append_nil]
    refine .none hshort ?_ (inboundData_sendResponse h socket)
    obtain ⟨-, socket', s, -, -, rfl⟩ := sendResponse_ok h
    rfl

/-- **What an event sends through the gate**, no other socket being active. -/
theorem filtered_step (hshort : (g.sockets socket).inboundData.length < sizeofOGSClientRequest)
    (honly : OnlyOn socket [e]) (h : GatewayStep g e g') :
    Filtered g g' socket ((g.sockets socket).inboundData ++ receivedOn socket [e]) := by
  cases e with
  | sendAndRecv socket' o =>
    obtain ⟨received, hcall⟩ := h
    have hr := (sendAndRecv_ok hcall).1
    have hbytes : receivedOn socket [.sendAndRecv socket' o] =
        if socket' = socket then o.bytes else [] := List.append_nil _
    rw [hbytes]
    by_cases hs : socket' = socket
    · subst hs
      rw [if_pos rfl]
      constructor
      · rw [hr.gate, completed_eq hshort]
        exact Gate.afterAll_map _ _ _
      · rw [hr.forwarded, completed_eq hshort, List.map_append, admitted, Gate.admitted_map,
          List.map_map]
        exact congrArg (_ ++ ·) (List.map_id _)
    · have hnone : o.bytes = [] := by
        by_contra hsome
        exact hs (honly socket' o (List.mem_singleton_self _) hsome)
      rw [completed, if_pos hnone] at hr
      rw [if_neg hs, List.append_nil]
      exact .none hshort hr.gate (hr.forwarded.trans (List.append_nil _))
  | rxDone =>
    obtain ⟨sorted, -, rfl⟩ := h
    rw [show receivedOn socket [.rxDone] = [] from rfl, List.append_nil]
    exact .none hshort rfl rfl
  | respond res =>
    obtain ⟨-, socket', s, -, -, rfl⟩ := sendResponse_ok h
    rw [show receivedOn socket [.respond res] = [] from rfl, List.append_nil]
    exact .none hshort rfl rfl

/-! ## Runs -/

theorem receivedOn_cons (socket : SocketPtr) (e : GatewayEvent) (es : List GatewayEvent) :
    receivedOn socket (e :: es) = receivedOn socket [e] ++ receivedOn socket es := by
  unfold receivedOn
  rw [List.flatMap_cons, List.flatMap_cons, List.flatMap_nil, List.append_nil]

/-- What has been read leaves less than a record. -/
theorem Parsed.short (h : Parsed g g' socket bs) :
    (g'.sockets socket).inboundData.length < sizeofOGSClientRequest := by
  rw [h.buffer]
  exact length_rest_lt sizeofOGSClientRequest_pos bs

/-- **What a run reads on a socket** is the stream it receives there. -/
theorem parsed_path (hshort : (g.sockets socket).inboundData.length < sizeofOGSClientRequest)
    (h : Runs.Path GatewayStep g es g') :
    Parsed g g' socket ((g.sockets socket).inboundData ++ receivedOn socket es) := by
  induction es generalizing g with
  | nil =>
    cases h
    rw [show receivedOn socket [] = [] from rfl, List.append_nil]
    exact .none hshort rfl rfl
  | cons e es ih =>
    obtain ⟨g₁, hstep, hrun⟩ := h
    have hone := parsed_step hshort hstep
    have hrest := ih hone.short hrun
    rw [hone.buffer] at hrest
    rw [receivedOn_cons, ← List.append_assoc]
    exact hone.trans hrest

/-- **What a run sends through the gate**, no other socket being active. -/
theorem filtered_path (hshort : (g.sockets socket).inboundData.length < sizeofOGSClientRequest)
    (honly : OnlyOn socket es) (h : Runs.Path GatewayStep g es g') :
    Filtered g g' socket ((g.sockets socket).inboundData ++ receivedOn socket es) := by
  induction es generalizing g with
  | nil =>
    cases h
    rw [show receivedOn socket [] = [] from rfl, List.append_nil]
    exact .none hshort rfl rfl
  | cons e es ih =>
    obtain ⟨g₁, hstep, hrun⟩ := h
    have hparsed := parsed_step hshort hstep
    have hone := filtered_step hshort (e := e)
      (fun s o hmem => honly s o (List.mem_cons.mpr (.inl (List.mem_singleton.mp hmem)))) hstep
    have hrest := ih hparsed.short (fun s o hmem => honly s o (List.mem_cons_of_mem _ hmem)) hrun
    rw [hparsed.buffer] at hrest
    rw [receivedOn_cons, ← List.append_assoc]
    exact hone.trans hrest

/-- **Runs exist** as long as the ids are in range and no batch is too large. -/
theorem exists_path (hshort : (g.sockets socket).inboundData.length < sizeofOGSClientRequest)
    (hes : ReceivesOn socket es)
    (hids : ∀ req ∈ requestsIn ((g.sockets socket).inboundData ++ receivedOn socket es),
      req.omeRequest.clientId.toNat < maxNClients B)
    (hroom : NoOverload g socket es) : ∃ g', Runs.Path GatewayStep g es g' := by
  induction es generalizing g with
  | nil => exact ⟨g, rfl⟩
  | cons e es ih =>
    rw [receivedOn_cons, ← List.append_assoc, requestsIn_split] at hids
    obtain ⟨g₁, hstep⟩ : ∃ g₁, GatewayStep g e g₁ := by
      rcases hes e List.mem_cons_self with rfl | ⟨o, rfl⟩
      · exact ⟨_, _, sortsTo_iff.mpr (Sorting.sorts_sort _ _), rfl⟩
      · cases hcall : g.sendAndRecv socket o with
        | ok result => exact ⟨result.2, result.1, hcall⟩
        | error fault =>
          have hbytes : receivedOn socket [.sendAndRecv socket o] = o.bytes := by
            rw [receivedOn, List.flatMap_cons, List.flatMap_nil, List.append_nil]
            exact if_pos rfl
          rcases sendAndRecv_error hcall with ⟨-, hfull⟩ | ⟨-, hout⟩
          · exact absurd (hroom [] o es g rfl rfl) hfull
          · refine absurd ?_ hout
            intro x hx
            rw [completed_eq hshort, ← hbytes] at hx
            obtain ⟨req, hreq, rfl⟩ := List.mem_map.mp hx
            exact hids req (List.mem_append_left _ hreq)
    have hparsed := parsed_step hshort hstep
    rw [← hparsed.buffer] at hids
    obtain ⟨g', hrun⟩ := ih hparsed.short (fun e' he' => hes e' (List.mem_cons_of_mem _ he'))
      (fun req hreq => hids req (List.mem_append_right _ hreq))
      (fun pre o post g₂ heq hpre => hroom (e :: pre) o post g₂ (by rw [heq]; rfl) ⟨g₁, hstep, hpre⟩)
    exact ⟨g', g₁, hstep, hrun⟩

end streams

/-- What a gateway has made of a stream that came in on a socket, however it was cut. -/
structure ReadWhole (g g' : OrderGatewayServer B) (socket : SocketPtr) (es : List GatewayEvent)
    (bs : List UInt8) : Prop where
  /-- The records read are those of the stream. -/
  read : readOn socket g'.arrived = readOn socket g.arrived ++ requestsIn bs
  /-- What is left is what is behind them, and less than a record. -/
  buffer : (g'.sockets socket).inboundData = rest sizeofOGSClientRequest bs
  short : (g'.sockets socket).inboundData.length < sizeofOGSClientRequest
  free : (g'.sockets socket).inboundData.length < tcpBufferSize
  /-- With no other socket active, the requests forwarded are those the gate admits of the stream.
  -/
  forwarded : OnlyOn socket es →
    g'.forwarded.map (·.record) = g.forwarded.map (·.record) ++ passing g.gate socket bs
  /-- They are published since, or wait in the sequencer. -/
  handedOn : HandsOn g g'

/-- The records of a stream are consecutive, and the loop of `rxCallback` reads them and moves the
rest without overlap. -/
structure CutIntoRecords (bs : List UInt8) : Prop where
  count : (requestsIn bs).length = bs.length / sizeofOGSClientRequest
  whole : (records sizeofOGSClientRequest bs).flatten ++ rest sizeofOGSClientRequest bs = bs
  loop : records sizeofOGSClientRequest bs =
    (readOffsets bs.length 0).map fun i => (bs.drop i).take sizeofOGSClientRequest
  moved : rest sizeofOGSClientRequest bs = bs.drop (stopOffset bs.length 0)
  noOverlap : sizeofOGSClientRequest ≤ bs.length →
    bs.length - stopOffset bs.length 0 ≤ stopOffset bs.length 0

theorem cutIntoRecords (bs : List UInt8) : CutIntoRecords bs where
  count := by rw [requestsIn, List.length_map, length_records]
  whole := flatten_records sizeofOGSClientRequest_pos bs
  loop := records_eq_loop bs
  moved := rest_eq_loop bs
  noOverlap := moved_le_stopOffset

/-- **Parsing is independent of chunking.** From an empty buffer on, whatever the cuts of the stream
that comes in on a socket: every run reads the whole records of the stream in order, once, leaves
the rest, and forwards what the gate admits of them to the sequencer; and there are such runs as
long as the client ids are in range and no batch exceeds what the sequencer takes. -/
theorem chunking_independent (g : OrderGatewayServer B) (socket : SocketPtr)
    (hempty : (g.sockets socket).inboundData = []) (es : List GatewayEvent) :
    (∀ g', Runs.Path GatewayStep g es g' → ReadWhole g g' socket es (receivedOn socket es)) ∧
      (∀ bs, CutIntoRecords bs) ∧
      (ReceivesOn socket es →
        (∀ req ∈ requestsIn (receivedOn socket es), req.omeRequest.clientId.toNat < maxNClients B) →
        NoOverload g socket es → ∃ g', Runs.Path GatewayStep g es g') := by
  have hshort : (g.sockets socket).inboundData.length < sizeofOGSClientRequest := by
    rw [hempty]
    exact sizeofOGSClientRequest_pos
  refine ⟨?_, cutIntoRecords, ?_⟩
  · intro g' hrun
    have hparsed := parsed_path hshort hrun
    have hlt : (g'.sockets socket).inboundData.length < sizeofOGSClientRequest := hparsed.short
    have hforwarded := fun honly => (filtered_path hshort honly hrun).forwarded
    rw [hempty, List.nil_append] at hparsed hforwarded
    exact ⟨hparsed.read, hparsed.buffer, hlt, hlt.trans (by decide), hforwarded, handsOn_path hrun⟩
  · intro hes hids hroom
    apply exists_path hshort hes _ hroom
    rw [hempty]
    exact hids

/-- Two orders of client 1 and one that skips a number, in four pieces that cut records and
headers. -/
def samplePieces : List GatewayEvent :=
  let bs := OGSClientRequest.image ⟨1, ⟨.new, 1, 0, 1, .buy, 100, 10⟩⟩ ++
    OGSClientRequest.image ⟨2, ⟨.new, 1, 0, 2, .buy, 101, 10⟩⟩ ++
      OGSClientRequest.image ⟨4, ⟨.new, 1, 0, 3, .buy, 102, 10⟩⟩
  [.sendAndRecv 0 ⟨bs.take 10, 5, none⟩, .sendAndRecv 0 ⟨(bs.drop 10).take 60, 6, none⟩,
    .sendAndRecv 0 ⟨(bs.drop 70).take 1, 7, none⟩, .sendAndRecv 0 ⟨bs.drop 71, 8, none⟩]

/-- All three are read, two of them forwarded. -/
theorem chunking_independent_sample :
    ∃ g' : OrderGatewayServer .production,
      g'.forwarded.map (·.record) =
        [⟨1, ⟨.new, 1, 0, 1, .buy, 100, 10⟩⟩, ⟨2, ⟨.new, 1, 0, 2, .buy, 101, 10⟩⟩] ∧
      g'.arrived.length = 3 ∧
      ReadWhole (.create .production) g' 0 samplePieces (receivedOn 0 samplePieces) := by
  obtain ⟨g', hrun, hat⟩ := exists_gatewayRuns .production samplePieces
    (fun g => (g.forwarded.map (·.record), g.arrived.length))
    (a := ([⟨1, ⟨.new, 1, 0, 1, .buy, 100, 10⟩⟩, ⟨2, ⟨.new, 1, 0, 2, .buy, 101, 10⟩⟩], 3))
    (by decide +kernel)
  obtain ⟨hforwarded, harrived⟩ := Prod.mk.inj hat
  exact ⟨g', hforwarded, harrived,
    (chunking_independent (.create .production) 0 rfl samplePieces).1 g' hrun⟩

end HftSys
