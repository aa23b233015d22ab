import HftSys.Receiving

/-!
# What a rejected record does

`rxCallback` binds a client that has no socket to the one its record comes on before it checks the
record. A record that is not forwarded therefore leaves a trace exactly when its client had no
socket yet; otherwise the gateway goes on as if it had not come (`rejected_record`).

* `Twins g g'`: the two gateways differ in the record of what has come in only, which nothing reads.
* `Continues`: the rest of the loop of `rxCallback`, then any events.
-/

namespace HftSys

open Bytes Exec SequenceGate

variable {B : Build}

/-- The gateways are the same, but for the records that have come in. -/
def Twins (g g' : OrderGatewayServer B) : Prop := g' = { g with arrived := g'.arrived }

/-- From `g` the loop of `rxCallback` reads the records `reqs`, what is left of the socket's buffer
is moved to its front, so that the socket is `s`, and the events follow. -/
def Continues (socket : SocketPtr) (tRx : Nanos) (reqs : List OGSClientRequest) (s : TCPSocket)
    (es : List GatewayEvent) (g h : OrderGatewayServer B) : Prop :=
  ∃ g₁, reqs.foldlM (OrderGatewayServer.receiveRecord socket tRx) g = .ok g₁ ∧
    Runs.Path GatewayStep (g₁.setSocket socket s) es h

/-- Whatever comes, the two gateways go on alike: they accept, publish and deliver the same. -/
def GoOnAlike (g g' : OrderGatewayServer B) : Prop :=
  ∀ socket tRx reqs s es,
    (∀ h, Continues socket tRx reqs s es g h → ∃ h', Continues socket tRx reqs s es g' h' ∧ Twins h h') ∧
      ∀ h', Continues socket tRx reqs s es g' h' → ∃ h, Continues socket tRx reqs s es g h ∧ Twins h h'

section twins

variable {g g' h : OrderGatewayServer B} {socket : SocketPtr} {tRx : Nanos}
  {req : OGSClientRequest} {reqs : List OGSClientRequest} {es : List GatewayEvent}

theorem Twins.symm (ht : Twins g g') : Twins g' g := by
  unfold Twins at ht ⊢
  rw [ht]

theorem Twins.gate_eq (ht : Twins g g') : g'.gate = g.gate := by
  rw [ht]
  rfl

theorem Twins.fifo_eq (ht : Twins g g') : g'.fifo = g.fifo := by rw [ht]

theorem Twins.sockets_eq (ht : Twins g g') : g'.sockets = g.sockets := by rw [ht]

theorem Twins.setSocket (ht : Twins g g') (socket : SocketPtr) (s : TCPSocket) :
    Twins (g.setSocket socket s) (g'.setSocket socket s) := by
  rw [ht]
  rfl

theorem Twins.read (ht : Twins g g') (x : Arrival) : Twins (g.read x) (g'.read x) := by
  rw [read_eq, read_eq, ht]
  rfl

/-- A record is treated alike. -/
theorem Twins.receiveRecord (ht : Twins g g')
    (hrun : OrderGatewayServer.receiveRecord socket tRx g req = .ok h) :
    ∃ h', OrderGatewayServer.receiveRecord socket tRx g' req = .ok h' ∧ Twins h h' := by
  obtain ⟨x, rfl, hrange, ⟨hadm, rfl⟩ | ⟨hadm, fifo, hpush, rfl⟩⟩ := receiveRecord_cases hrun
  · refine ⟨_, ?_, ht.read _⟩
    rw [receiveRecord_eq, if_pos hrange, ht.gate_eq, if_neg hadm]
  · have hread := ht.read ⟨socket, tRx, req⟩
    refine ⟨(g'.read ⟨socket, tRx, req⟩).forward ⟨socket, tRx, req⟩ fifo, ?_, ?_⟩
    · rw [receiveRecord_eq, if_pos hrange, ht.gate_eq, if_pos hadm, ht.fifo_eq, hpush]
    · rw [hread]
      rfl

/-- The loop of `rxCallback` does alike. -/
theorem Twins.receiveRecords (ht : Twins g g')
    (hrun : reqs.foldlM (OrderGatewayServer.receiveRecord socket tRx) g = .ok h) :
    ∃ h', reqs.foldlM (OrderGatewayServer.receiveRecord socket tRx) g' = .ok h' ∧ Twins h h' := by
  induction reqs generalizing g g' with
  | nil =>
    cases hrun
    exact ⟨g', rfl, ht⟩
  | cons req reqs ih =>
    rw [List.foldlM_cons] at hrun
    obtain ⟨g₁, hreq, hrest⟩ := except_bind_eq_ok.mp hrun
    obtain ⟨g₁', hreq', ht₁⟩ := ht.receiveRecord hreq
    obtain ⟨h', hrest', hth⟩ := ih ht₁ hrest
    refine ⟨h', ?_, hth⟩
    rw [List.foldlM_cons]
    exact except_bind_eq_ok.mpr ⟨g₁', hreq', hrest'⟩

/-- A call of `sendAndRecv` does alike. -/
theorem Twins.sendAndRecv {o : Outcome} {received : Bool} (ht : Twins g g')
    (hrun : g.sendAndRecv socket o = .ok (received, h)) :
    ∃ h', g'.sendAndRecv socket o = .ok (received, h') ∧ Twins h h' := by
  simp only [OrderGatewayServer.sendAndRecv] at hrun ⊢
  rw [ht.sockets_eq]
  split at hrun
  · rename_i hnone
    cases hrun
    rw [if_pos hnone]
    exact ⟨_, rfl, ht.setSocket _ _⟩
  · rename_i hsome
    rw [if_neg hsome]
    obtain ⟨g₁, hcallback, hset⟩ := except_bind_eq_ok.mp hrun
    cases hset
    have ht₁ := ht.setSocket socket ((g.sockets socket).receive o)
    generalize hg₂ : g.setSocket socket ((g.sockets socket).receive o) = g₂ at hcallback ht₁
    generalize hg₂' : g'.setSocket socket ((g.sockets socket).receive o) = g₂' at ht₁ ⊢
    obtain ⟨g₁', hcallback', ht₂⟩ : ∃ g₁', g₂'.rxCallback socket o.kernelTime = .ok g₁' ∧
        Twins g₁ g₁' := by
      simp only [OrderGatewayServer.rxCallback] at hcallback ⊢
      rw [ht₁.sockets_eq]
      split at hcallback
      · rename_i hlong
        rw [if_pos hlong]
        obtain ⟨g₃, hloop, hset⟩ := except_bind_eq_ok.mp hcallback
        cases hset
        obtain ⟨g₃', hloop', ht₃⟩ := ht₁.receiveRecords hloop
        refine ⟨_, except_bind_eq_ok.mpr ⟨g₃', hloop', rfl⟩, ?_⟩
        rw [ht₃.sockets_eq]
        exact ht₃.setSocket _ _
      · rename_i hshort
        cases hcallback
        rw [if_neg hshort]
        exact ⟨_, rfl, ht₁⟩
    refine ⟨_, except_bind_eq_ok.mpr ⟨g₁', hcallback', rfl⟩, ?_⟩
    rw [ht₂.sockets_eq]
    exact ht₂.setSocket _ _

/-- **A step is taken alike.** -/
theorem Twins.step {e : GatewayEvent} (ht : Twins g g') (hstep : GatewayStep g e h) :
    ∃ h', GatewayStep g' e h' ∧ Twins h h' := by
  cases e with
  | sendAndRecv socket o =>
    obtain ⟨received, hcall⟩ := hstep
    obtain ⟨h', hcall', hth⟩ := ht.sendAndRecv hcall
    exact ⟨h', ⟨received, hcall'⟩, hth⟩
  | rxDone =>
    obtain ⟨sorted, hs, rfl⟩ := hstep
    refine ⟨g'.rxDoneCallback sorted, ⟨sorted, by rw [ht.fifo_eq]; exact hs, rfl⟩, ?_⟩
    rw [ht]
    rfl
  | respond res =>
    obtain ⟨hrange, socket, s, hsocket, hsend, rfl⟩ := sendResponse_ok hstep
    refine ⟨{ g'.setSocket socket s with
      mapClientToTxNSeq := Function.update g'.mapClientToTxNSeq res.clientId
        (g'.mapClientToTxNSeq res.clientId + 1) }, ?_, ?_⟩
    · rw [ht]
      simp only [GatewayStep, OrderGatewayServer.sendResponse, if_pos hrange, hsocket, hsend]
      rfl
    · rw [ht]
      rfl

/-- **Twins go on alike.** -/
theorem Twins.goOnAlike (ht : Twins g g') : GoOnAlike g g' := by
  have hone : ∀ {g g' : OrderGatewayServer B}, Twins g g' → ∀ socket tRx reqs s es h,
      Continues socket tRx reqs s es g h → ∃ h', Continues socket tRx reqs s es g' h' ∧ Twins h h' := by
    rintro g g' ht socket tRx reqs s es h ⟨g₁, hloop, hrun⟩
    obtain ⟨g₁', hloop', ht₁⟩ := ht.receiveRecords hloop
    have hstep : ∀ (g g' : OrderGatewayServer B) e h, Twins g g' → GatewayStep g e h →
        ∃ h', GatewayStep g' e h' ∧ Twins h h' := fun _ _ _ _ ht hs => ht.step hs
    obtain ⟨h', hrun', hth⟩ := Runs.Path.simulates hstep (ht₁.setSocket socket s) hrun
    exact ⟨h', ⟨g₁', hloop', hrun'⟩, hth⟩
  intro socket tRx reqs s es
  refine ⟨fun h => hone ht socket tRx reqs s es h, ?_⟩
  intro h' hrun
  obtain ⟨h, hrun', hth⟩ := hone ht.symm socket tRx reqs s es h' hrun
  exact ⟨h, hrun', hth.symm⟩

end twins

section rejections

variable {g g' : OrderGatewayServer B} {socket : SocketPtr} {tRx : Nanos} {req : OGSClientRequest}

/-- A record that is not forwarded is one the gate does not admit, and it is only read. -/
theorem read_of_not_forwarded (h : OrderGatewayServer.receiveRecord socket tRx g req = .ok g')
    (hnot : g'.forwarded = g.forwarded) : g' = g.read ⟨socket, tRx, req⟩ := by
  obtain ⟨x, rfl, -, ⟨-, rfl⟩ | ⟨-, fifo, -, rfl⟩⟩ := receiveRecord_cases h
  · rfl
  · -- a record that is forwarded is added to those forwarded
    rw [read_eq] at hnot
    have hnil : g.forwarded ++ [(⟨socket, tRx, req⟩ : Arrival)] = g.forwarded := hnot
    simp at hnil

/-- A record that is only read has come in, and its client is bound unless it was. -/
theorem read_eq_update (g : OrderGatewayServer B) (x : Arrival) :
    g.read x = { g with
      arrived := g.arrived ++ [x]
      mapClientToSocket := Function.update g.mapClientToSocket x.clientId
        (some ((g.mapClientToSocket x.clientId).getD x.socket)) } := by
  have howner : (g.gate.claim x.item).owner = Function.update g.mapClientToSocket x.clientId
      (some ((g.mapClientToSocket x.clientId).getD x.socket)) := by
    funext c
    rw [Gate.owner_claim g.gate x.item c, Function.update_apply]
    show (g.mapClientToSocket c).or (if x.clientId = c then some x.socket else none) = _
    by_cases hc : c = x.clientId
    · subst hc
      rw [if_pos rfl, if_pos rfl]
      cases g.mapClientToSocket x.clientId <;> rfl
    · rw [if_neg (Ne.symm hc), if_neg hc, Option.or_none]
  rw [read_eq, howner]

/-- The gateway that has read a record of a client with a socket is a twin of the one before. -/
theorem twins_read_of_bound {x : Arrival} (h : g.mapClientToSocket x.clientId ≠ none) :
    Twins g (g.read x) := by
  have htable : (g.gate.claim x.item).owner = g.mapClientToSocket := by
    have hclaim : g.gate.claim x.item = g.gate := if_neg h
    rw [hclaim]
    rfl
  rw [read_eq, htable]
  rfl

/-- **A rejected record is inert but for the binding of its client.** A record that `rxCallback`
reads and does not forward has come in, its client is bound to the socket it came on if it had none,
and nothing else of the gateway changes. If the client had a socket, the table of the sockets is
what it was, and all that follows goes on as if the record had not come. -/
theorem rejected_record (g g' : OrderGatewayServer B) (socket : SocketPtr) (tRx : Nanos)
    (req : OGSClientRequest) (h : OrderGatewayServer.receiveRecord socket tRx g req = .ok g')
    (hnot : g'.forwarded = g.forwarded) :
    g' = { g with
        arrived := g.arrived ++ [⟨socket, tRx, req⟩]
        mapClientToSocket := Function.update g.mapClientToSocket req.omeRequest.clientId
          (some ((g.mapClientToSocket req.omeRequest.clientId).getD socket)) } ∧
      (g.mapClientToSocket req.omeRequest.clientId ≠ none →
        g'.mapClientToSocket = g.mapClientToSocket ∧ GoOnAlike g g') := by
  obtain rfl := read_of_not_forwarded h hnot
  refine ⟨read_eq_update g ⟨socket, tRx, req⟩, ?_⟩
  intro hbound
  have ht : Twins g (g.read ⟨socket, tRx, req⟩) := twins_read_of_bound hbound
  refine ⟨?_, ht.goOnAlike⟩
  rw [ht]

/-- A record of client 1, bound to socket 0, that comes on socket 1, and then one of client 2, which
has no socket, with a wrong number. -/
theorem rejected_record_sample :
    ∃ g g' g'' : OrderGatewayServer .production,
      OrderGatewayServer.receiveRecord 1 6 g ⟨2, ⟨.new, 1, 0, 2, .buy, 100, 10⟩⟩ = .ok g' ∧
        g.forwarded.length = 1 ∧ g'.mapClientToSocket = g.mapClientToSocket ∧ GoOnAlike g g' ∧
        OrderGatewayServer.receiveRecord 1 7 g' ⟨9, ⟨.new, 2, 0, 1, .sell, 100, 10⟩⟩ = .ok g'' ∧
        g'' = { g' with
          arrived := g'.arrived ++ [⟨1, 7, ⟨9, ⟨.new, 2, 0, 1, .sell, 100, 10⟩⟩⟩]
          mapClientToSocket := Function.update g'.mapClientToSocket 2 (some 1) } := by
  have hrun : ((OrderGatewayServer.receiveRecord 0 5 (.create .production)
      ⟨1, ⟨.new, 1, 0, 1, .buy, 100, 10⟩⟩).bind fun g =>
        (OrderGatewayServer.receiveRecord 1 6 g ⟨2, ⟨.new, 1, 0, 2, .buy, 100, 10⟩⟩).bind fun g' =>
          (OrderGatewayServer.receiveRecord 1 7 g' ⟨9, ⟨.new, 2, 0, 1, .sell, 100, 10⟩⟩).map fun g'' =>
            (g.forwarded.length, decide (g'.forwarded = g.forwarded),
              decide (g.mapClientToSocket 1 = none), decide (g''.forwarded = g'.forwarded),
              g'.mapClientToSocket 2)).toOption = some (1, true, false, true, none) := by
    decide +kernel
  obtain ⟨g, -, hrest⟩ := except_bind_eq_ok.mp (toOption_eq_some.mp hrun)
  obtain ⟨g', hreceive, hrest⟩ := except_bind_eq_ok.mp hrest
  obtain ⟨g'', hlater, hfacts⟩ := except_map_eq_ok.mp hrest
  simp only [Prod.mk.injEq, decide_eq_true_eq, decide_eq_false_iff_not] at hfacts
  obtain ⟨hlength, hnot, hbound, hnot', hunbound⟩ := hfacts
  obtain ⟨hsame, halike⟩ := (rejected_record g g' 1 6 _ hreceive hnot).2 hbound
  have hstate := (rejected_record g' g'' 1 7 _ hlater hnot').1
  refine ⟨g, g', g'', hreceive, hlength, hsame, halike, hlater, ?_⟩
  rw [hunbound] at hstate
  exact hstate

/-- The first record of client 1 comes on socket 0 with number 5 and is not forwarded. It binds the
client, so that its record number 1 on socket 1, which would have been forwarded, is not. -/
theorem rejected_record_binds :
    ∃ g' : OrderGatewayServer .production,
      OrderGatewayServer.receiveRecord 0 5 (.create .production)
          ⟨5, ⟨.new, 1, 0, 1, .buy, 100, 10⟩⟩ = .ok g' ∧
        g'.forwarded = [] ∧
        g'.mapClientToSocket 1 ≠ (OrderGatewayServer.create .production).mapClientToSocket 1 ∧
        (OrderGatewayServer.receiveRecord 1 6 g'
            ⟨1, ⟨.new, 1, 0, 1, .buy, 100, 10⟩⟩).toOption.map (·.forwarded.length) = some 0 ∧
        (OrderGatewayServer.receiveRecord 1 6 (.create .production)
            ⟨1, ⟨.new, 1, 0, 1, .buy, 100, 10⟩⟩).toOption.map (·.forwarded.length) = some 1 := by
  have hrun : ((OrderGatewayServer.receiveRecord 0 5 (.create .production)
      ⟨5, ⟨.new, 1, 0, 1, .buy, 100, 10⟩⟩).map fun g' =>
        (decide (g'.forwarded = []),
          decide (g'.mapClientToSocket 1 ≠
            (OrderGatewayServer.create .production).mapClientToSocket 1),
          (OrderGatewayServer.receiveRecord 1 6 g'
            ⟨1, ⟨.new, 1, 0, 1, .buy, 100, 10⟩⟩).toOption.map (·.forwarded.length))).toOption =
      some (true, true, some 0) := by
    decide +kernel
  generalize hreceive : OrderGatewayServer.receiveRecord 0 5 (.create .production)
    ⟨5, ⟨.new, 1, 0, 1, .buy, 100, 10⟩⟩ = result at hrun
  cases result with
  | error e => cases hrun
  | ok g' =>
    have hfacts := Option.some.inj hrun
    simp only [Prod.mk.injEq, decide_eq_true_eq] at hfacts
    obtain ⟨hnone, hbound, hlater⟩ := hfacts
    exact ⟨g', rfl, hnone, hbound, hlater, by decide +kernel⟩

end rejections

end HftSys
