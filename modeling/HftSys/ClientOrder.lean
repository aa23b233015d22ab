import HftSys.Publishing

/-!
# The order of a client's requests

`sequenceAndPublish` sorts the waiting requests by their time of reception only, and the records one
receive completes share that time.

* `InOrder`: the requests of every client have been published in the order they were forwarded.
* `client_order_kept`: they are, whatever sorting makes of ties, exactly as long as no two different
  requests of a client tie when they are sorted.
-/

namespace HftSys

open SequenceGate Sorting

/-- The requests of a client. -/
def requestsOf (c : ClientID) (rs : List OMEClientRequest) : List OMEClientRequest :=
  rs.filter fun r => decide (r.clientId = c)

/-- The requests of a client among those that wait. -/
def pendingOf (c : ClientID) (rs : List PendingClientRequest) : List PendingClientRequest :=
  rs.filter fun r => decide (r.request.clientId = c)

namespace OrderGatewayServer

variable {B : Build}

/-- The requests forwarded to the sequencer. -/
def accepted (g : OrderGatewayServer B) : List OMEClientRequest :=
  g.forwarded.map fun x => x.record.omeRequest

/-- The requests of every client have been published in the order they were forwarded. -/
def InOrder (g : OrderGatewayServer B) : Prop :=
  ∀ c, requestsOf c g.published <+: requestsOf c g.accepted

/-- The requests of every client that wait are those not published, in the order they were
forwarded. -/
def Undisturbed (g : OrderGatewayServer B) : Prop :=
  ∀ c, requestsOf c g.published ++ requestsOf c g.fifo.requests = requestsOf c g.accepted

/-- When the requests are sorted, no two different ones of a client have the same time. -/
def Untied (g : OrderGatewayServer B) : GatewayEvent → Prop
  | .rxDone => ∀ a ∈ g.fifo.pendingRequests, ∀ b ∈ g.fifo.pendingRequests,
      a.request.clientId = b.request.clientId → a.tRx = b.tRx → a = b
  | _ => True

instance (g : OrderGatewayServer B) (e : GatewayEvent) : Decidable (g.Untied e) :=
  match e with
  | .rxDone => inferInstanceAs (Decidable (∀ a ∈ g.fifo.pendingRequests,
      ∀ b ∈ g.fifo.pendingRequests, _))
  | .sendAndRecv .. | .respond _ => isTrue trivial

end OrderGatewayServer

/-- The time of a receive on a socket. -/
def GatewayEvent.receiveTime (socket : SocketPtr) : GatewayEvent → Option Nanos
  | .sendAndRecv socket' o => if socket' = socket ∧ o.bytes ≠ [] then some o.kernelTime else none
  | _ => none

/-- The times of the receives on a socket. -/
def receiveTimes (socket : SocketPtr) (es : List GatewayEvent) : List Nanos :=
  es.filterMap (·.receiveTime socket)

/-- The time does not decrease from one receive to the next on a socket. -/
def Clocked (es : List GatewayEvent) : Prop :=
  ∀ socket, (receiveTimes socket es).Pairwise (· ≤ ·)

/-- The records have the times of the receives that completed them. -/
structure Timely {B : Build} (es : List GatewayEvent) (g : OrderGatewayServer B) : Prop where
  received : ∀ x ∈ g.arrived, x.tRx ∈ receiveTimes x.socket es
  clocked : g.arrived.Pairwise fun x y => x.socket = y.socket → x.tRx ≤ y.tRx

section order

variable {B : Build} {g g' : OrderGatewayServer B} {es es' : List GatewayEvent} {e : GatewayEvent}
  {c : ClientID}

theorem receiveTimes_append (socket : SocketPtr) (es es' : List GatewayEvent) :
    receiveTimes socket (es ++ es') = receiveTimes socket es ++ receiveTimes socket es' :=
  List.filterMap_append ..

theorem Clocked.left (h : Clocked (es ++ es')) : Clocked es := by
  intro socket
  have := h socket
  rw [receiveTimes_append] at this
  exact (List.pairwise_append.mp this).1

theorem mem_completed {inboundData : List UInt8} {socket : SocketPtr} {o : Outcome} {x : Arrival}
    (h : x ∈ completed inboundData socket o) :
    x.socket = socket ∧ x.tRx = o.kernelTime ∧ o.bytes ≠ [] := by
  unfold completed at h
  split at h
  · cases h
  · obtain ⟨bs, -, rfl⟩ := List.mem_map.mp h
    exact ⟨rfl, rfl, ‹_›⟩

/-- **Records come in by the clock of their socket.** -/
theorem GatewayRuns.timely (h : GatewayRuns es g) (hclock : Clocked es) : Timely es g := by
  refine (runsOf_gateway B).induction (P := fun es g => Clocked es → Timely es g) ?_ ?_ h hclock
  · exact fun _ => ⟨fun _ hx => absurd hx List.not_mem_nil, .nil⟩
  · rintro es e g g' - ih hstep hclock
    obtain ⟨hreceived, hpairs⟩ := ih hclock.left
    have hlater : ∀ x ∈ g.arrived, x.tRx ∈ receiveTimes x.socket (es ++ [e]) := by
      intro x hx
      rw [receiveTimes_append]
      exact List.mem_append_left _ (hreceived x hx)
    cases e with
    | rxDone =>
      obtain ⟨sorted, -, rfl⟩ := hstep
      exact ⟨hlater, hpairs⟩
    | respond res =>
      obtain ⟨-, socket, s, -, -, rfl⟩ := sendResponse_ok hstep
      exact ⟨hlater, hpairs⟩
    | sendAndRecv socket o =>
      obtain ⟨received, hcall⟩ := hstep
      have harrived := (sendAndRecv_ok hcall).1.arrived
      have hlast : ∀ x ∈ completed (g.sockets socket).inboundData socket o,
          receiveTimes x.socket [.sendAndRecv socket o] = [o.kernelTime] := by
        intro x hx
        obtain ⟨hsocket, -, hbytes⟩ := mem_completed hx
        simp [receiveTimes, GatewayEvent.receiveTime, hsocket, hbytes]
      constructor
      case received =>
        intro x hx
        rw [harrived] at hx
        rcases List.mem_append.mp hx with hx | hx
        · exact hlater x hx
        · rw [receiveTimes_append, hlast x hx, (mem_completed hx).2.1]
          exact List.mem_append_right _ (List.mem_singleton_self _)
      case clocked =>
        rw [harrived]
        refine List.pairwise_append.mpr ⟨hpairs, ?_, ?_⟩
        · apply List.pairwise_of_forall_mem_list
          intro x hx y hy _
          rw [(mem_completed hx).2.1, (mem_completed hy).2.1]
          exact Int64.le_refl _
        · intro x hx y hy hsocket
          have hpast := hclock y.socket
          rw [receiveTimes_append, hlast y hy] at hpast
          rw [(mem_completed hy).2.1]
          exact (List.pairwise_append.mp hpast).2.2 _ (hsocket ▸ hreceived x hx) _
            (List.mem_singleton_self _)

/-! ## One sorting -/

/-- The requests of a client, before and behind the sequencer. -/
theorem requestsOf_map (c : ClientID) (rs : List PendingClientRequest) :
    requestsOf c (rs.map (·.request)) = (pendingOf c rs).map (·.request) :=
  List.filter_map

/-- The requests of a client that wait are in the order of their times. -/
theorem Consistent.pendingOf_sorted (h : Consistent g) (ht : Timely es g) (c : ClientID) :
    (pendingOf c g.fifo.pendingRequests).Pairwise fun a b => a.tRx.toInt ≤ b.tRx.toInt := by
  obtain ⟨old, new, hforwarded, -, hpending⟩ := h.waiting
  have hsub : new.Sublist g.arrived := by
    have hall : g.forwarded.Sublist g.arrived := h.forwarded ▸ Gate.admitted_sublist _ _
    exact (hforwarded ▸ List.sublist_append_right old new).trans hall
  -- a client's records all come from the socket it is bound to
  have hsocket : ∀ x ∈ new, x.clientId = c → (gateAfter startGate g.arrived).owner c = some x.socket := by
    intro x hx hc
    have hmem : x ∈ admitted startGate g.arrived := by
      rw [← h.forwarded, hforwarded]
      exact List.mem_append_right _ hx
    exact hc ▸ Gate.source_of_mem_admitted hmem
  rw [pendingOf, hpending, List.filter_map, List.pairwise_map]
  apply ((ht.clocked.sublist hsub).filter _).imp_of_mem
  intro x y hx hy hle
  obtain ⟨hx, hxc⟩ := List.mem_filter.mp hx
  obtain ⟨hy, hyc⟩ := List.mem_filter.mp hy
  have hsame := (hsocket x hx (of_decide_eq_true hxc)).symm.trans
    (hsocket y hy (of_decide_eq_true hyc))
  exact Int64.le_iff_toInt_le.mp (hle (Option.some.inj hsame))

/-- **Sorting keeps the requests of a client in order** if none of them tie. -/
theorem Consistent.pendingOf_sortsTo (h : Consistent g) (ht : Timely es g)
    (hties : g.Untied .rxDone) {sorted : List PendingClientRequest}
    (hs : SortsTo g.fifo.pendingRequests sorted) (c : ClientID) :
    pendingOf c sorted = pendingOf c g.fifo.pendingRequests := by
  apply (sortsTo_iff.mp hs).filter_eq (h.pendingOf_sorted ht c)
  intro a ha b hb hkey
  obtain ⟨ha, hac⟩ := List.mem_filter.mp ha
  obtain ⟨hb, hbc⟩ := List.mem_filter.mp hb
  refine hties a ha b hb ?_ (Int64.toInt_inj.mp hkey)
  exact (of_decide_eq_true hac).trans (of_decide_eq_true hbc).symm

namespace OrderGatewayServer

theorem Undisturbed.inOrder (h : g.Undisturbed) : g.InOrder :=
  fun c => ⟨_, h c⟩

theorem Undisturbed.received {xs : List Arrival} (h : g.Undisturbed) (hr : Received g g' xs) :
    g'.Undisturbed := by
  intro c
  have hpending : g'.fifo.requests =
      g.fifo.requests ++ (admitted g.gate xs).map fun x => x.record.omeRequest := by
    rw [FIFOSequencer.requests, hr.pending, List.map_append, List.map_map]
    rfl
  rw [accepted, hr.published, hr.forwarded, hpending, List.map_append, requestsOf, requestsOf,
    requestsOf, List.filter_append, List.filter_append, ← List.append_assoc]
  exact congrArg (· ++ _) (h c)

theorem Undisturbed.rxDone (h : g.Undisturbed) (hg : Consistent g) (ht : Timely es g)
    (hties : g.Untied .rxDone) {sorted : List PendingClientRequest}
    (hs : SortsTo g.fifo.pendingRequests sorted) : (g.rxDoneCallback sorted).Undisturbed := by
  intro c
  have hpushed : requestsOf c (g.fifo.sequenceAndPublish sorted).2 = requestsOf c g.fifo.requests := by
    rw [FIFOSequencer.pushed_eq hs, requestsOf_map, hg.pendingOf_sortsTo ht hties hs,
      ← requestsOf_map]
    rfl
  have hnone : (g.rxDoneCallback sorted).fifo.requests = [] := by
    show List.map _ (g.fifo.sequenceAndPublish sorted).1.pendingRequests = _
    rw [FIFOSequencer.pendingRequests_sequenceAndPublish]
    rfl
  have hpublished : (g.rxDoneCallback sorted).published =
      g.published ++ (g.fifo.sequenceAndPublish sorted).2 := rfl
  rw [hnone, hpublished, requestsOf, List.filter_append]
  apply (List.append_nil _).trans
  exact (congrArg (_ ++ ·) hpushed).trans (h c)

end OrderGatewayServer

/-! ## Runs -/

/-- **The rule for a run without ties.** -/
theorem GatewayRuns.undisturbed (h : GatewayRuns es g) (hclock : Clocked es)
    (hties : Runs.Meets (GatewayRuns (B := B)) OrderGatewayServer.Untied es) : g.Undisturbed := by
  refine (runsOf_gateway B).induction (P := fun es g => Clocked es →
    Runs.Meets (GatewayRuns (B := B)) OrderGatewayServer.Untied es → g.Undisturbed) ?_ ?_ h hclock
    hties
  · exact fun _ _ _ => rfl
  · rintro es e g g' hrun ih hstep hclock hties
    obtain ⟨hearlier, hlast⟩ := Runs.Meets.concat_iff.mp hties
    have hg := ih hclock.left hearlier
    cases e with
    | sendAndRecv socket o =>
      obtain ⟨received, hcall⟩ := hstep
      exact hg.received (sendAndRecv_ok hcall).1
    | rxDone =>
      obtain ⟨sorted, hs, rfl⟩ := hstep
      exact hg.rxDone hrun.consistent (hrun.timely hclock.left) (hlast g hrun) hs
    | respond res =>
      obtain ⟨-, socket, s, -, -, rfl⟩ := sendResponse_ok hstep
      exact hg

/-- What a client's published requests are after sorting. -/
theorem requestsOf_published_rxDone {sorted : List PendingClientRequest}
    (hs : SortsTo g.fifo.pendingRequests sorted) (c : ClientID) :
    requestsOf c (g.rxDoneCallback sorted).published =
      requestsOf c g.published ++ (pendingOf c sorted).map (·.request) := by
  rw [← requestsOf_map, ← FIFOSequencer.pushed_eq hs]
  exact List.filter_append ..

/-- **A tie breaks the order**: sorting may leave a gateway that is not in order. -/
theorem exists_not_inOrder (hties : ¬ g.Untied .rxDone) :
    ∃ sorted, SortsTo g.fifo.pendingRequests sorted ∧ ¬ (g.rxDoneCallback sorted).InOrder := by
  by_contra hall
  push Not at hall
  unfold OrderGatewayServer.Untied at hties
  push Not at hties
  obtain ⟨a, ha, b, hb, hclient, htRx, hne⟩ := hties
  obtain ⟨ys, zs, before, behind, behind', hys, hzs, hya, hzb⟩ :=
    exists_sorts_of_tie (fun r => r.tRx.toInt)
      (fun r => decide (r.request.clientId = a.request.clientId)) ha hb
      (congrArg Int64.toInt htRx) (decide_eq_true rfl) (decide_eq_true hclient.symm)
  have hpy := hall ys (sortsTo_iff.mpr hys) a.request.clientId
  have hpz := hall zs (sortsTo_iff.mpr hzs) a.request.clientId
  have hlen : (pendingOf a.request.clientId ys).length = (pendingOf a.request.clientId zs).length :=
    ((hys.perm.trans hzs.perm.symm).filter _).length_eq
  rw [requestsOf_published_rxDone (sortsTo_iff.mpr hys)] at hpy
  rw [requestsOf_published_rxDone (sortsTo_iff.mpr hzs)] at hpz
  -- both are the first so many requests of the client
  have heq := (List.prefix_of_prefix_length_le hpy hpz (by simp [hlen])).eq_of_length (by simp [hlen])
  have hsuffix := List.append_cancel_left heq
  rw [pendingOf, pendingOf, hya, hzb, List.map_append, List.map_append] at hsuffix
  have hrequest : a.request = b.request := by
    have := List.append_cancel_left hsuffix
    rw [List.map_cons, List.map_cons] at this
    exact (List.cons.inj this).1
  cases a
  cases b
  cases htRx
  cases hrequest
  exact hne rfl

/-- **The requests of every client are published in the order they were forwarded**, however the
results of sorting turn out, exactly when no two different requests of a client ever tie as they are
sorted. -/
theorem client_order_kept (hclock : Clocked es) :
    Runs.Throughout (GatewayRuns (B := B)) OrderGatewayServer.InOrder es ↔
      Runs.Meets (GatewayRuns (B := B)) OrderGatewayServer.Untied es := by
  constructor
  · rintro h es₀ e es₁ g rfl hrun
    cases e with
    | rxDone =>
      by_contra hties
      obtain ⟨sorted, hs, hnot⟩ := exists_not_inOrder hties
      refine hnot (h (es₀ ++ [.rxDone]) es₁ _ (by simp) ?_)
      exact (runsOf_gateway B).concat.mpr ⟨g, hrun, sorted, hs, rfl⟩
    | sendAndRecv socket o => trivial
    | respond res => trivial
  · rintro h es₀ es₁ g rfl hrun
    refine (hrun.undisturbed hclock.left ?_).inOrder
    rintro es₂ e es₃ g₂ rfl hrun₂
    exact h es₂ e (es₃ ++ es₁) g₂ (by simp) hrun₂

/-- A new order and its cancel, received at one time. -/
def sampleReceive : GatewayEvent :=
  .sendAndRecv 0
    ⟨OGSClientRequest.image ⟨1, ⟨.new, 1, 0, 1, .buy, 100, 10⟩⟩ ++
      OGSClientRequest.image ⟨2, ⟨.cancel, 1, 0, 1, .buy, 100, 10⟩⟩, 5, none⟩

theorem clocked_sampleReceive : Clocked [sampleReceive, .rxDone] := by
  intro socket
  have hdone : GatewayEvent.rxDone.receiveTime socket = none := rfl
  cases h : sampleReceive.receiveTime socket <;> simp [receiveTimes, hdone, h]

/-- The requests that wait once `sampleReceives` have come in. -/
def sampleWaiting : List PendingClientRequest :=
  [⟨5, ⟨.new, 1, 0, 1, .buy, 100, 10⟩⟩, ⟨4, ⟨.new, 2, 0, 1, .sell, 101, 10⟩⟩,
    ⟨6, ⟨.cancel, 1, 0, 1, .buy, 100, 10⟩⟩]

/-- A new order and its cancel in two receives, the order of another client, which is the earliest
of the three, between them. -/
def sampleReceives : List GatewayEvent :=
  [.sendAndRecv 0 ⟨OGSClientRequest.image ⟨1, ⟨.new, 1, 0, 1, .buy, 100, 10⟩⟩, 5, none⟩,
    .sendAndRecv 1 ⟨OGSClientRequest.image ⟨1, ⟨.new, 2, 0, 1, .sell, 101, 10⟩⟩, 4, none⟩,
    .sendAndRecv 0 ⟨OGSClientRequest.image ⟨2, ⟨.cancel, 1, 0, 1, .buy, 100, 10⟩⟩, 6, none⟩]

/-- A receive leads to one gateway. -/
theorem GatewayRuns.unique_of_receives (hes : ∀ e ∈ es, ∃ socket o, e = .sendAndRecv socket o)
    (h : GatewayRuns es g) (h' : GatewayRuns es g') : g = g' := by
  induction es using List.reverseRecOn generalizing g g' with
  | nil =>
    cases h
    cases h'
    rfl
  | append_singleton es e ih =>
    obtain ⟨hearlier, hlast⟩ := List.forall_mem_append.mp hes
    obtain ⟨socket, o, rfl⟩ := hlast e (List.mem_singleton_self e)
    obtain ⟨g₁, hrun, received, hcall⟩ := (runsOf_gateway B).concat.mp h
    obtain ⟨g₁', hrun', received', hcall'⟩ := (runsOf_gateway B).concat.mp h'
    rw [ih hearlier hrun' hrun, hcall] at hcall'
    cases hcall'
    rfl

theorem clocked_sampleReceives : Clocked (sampleReceives ++ [.rxDone]) := by
  intro socket
  by_cases hzero : socket = 0
  · subst hzero
    decide
  · by_cases hone : socket = 1
    · subst hone
      decide
    · have hnone : receiveTimes socket (sampleReceives ++ [.rxDone]) = [] := by
        simp [receiveTimes, sampleReceives, GatewayEvent.receiveTime, Ne.symm hzero, Ne.symm hone]
      rw [hnone]
      exact .nil

/-- The three requests wait. -/
theorem waiting_sampleReceives {g : OrderGatewayServer .production}
    (h : GatewayRuns sampleReceives g) :
    g.fifo.pendingRequests = sampleWaiting := by
  obtain ⟨g₁, hrun, hpending⟩ := exists_gatewayRuns .production sampleReceives
    (fun g => g.fifo.pendingRequests) (a := sampleWaiting) (by decide +kernel)
  rw [h.unique_of_receives (by simp [sampleReceives]) hrun, hpending]

/-- A run that sorts three requests of two clients, at three times: the requests of each client are
published in order. -/
theorem client_order_kept_sample :
    (∃ g : OrderGatewayServer .production, GatewayRuns sampleReceives g ∧
        g.fifo.pendingRequests = sampleWaiting) ∧
      Runs.Throughout (GatewayRuns (B := .production)) OrderGatewayServer.InOrder
        (sampleReceives ++ [.rxDone]) := by
  refine ⟨exists_gatewayRuns .production sampleReceives (fun g => g.fifo.pendingRequests)
    (by decide +kernel), (client_order_kept clocked_sampleReceives).mpr ?_⟩
  refine Runs.Meets.concat_iff.mpr ⟨?_, fun g hg => ?_⟩
  · rintro es₀ e es₁ g heq -
    have hreceive : e ∈ sampleReceives := by simp [heq]
    simp only [sampleReceives, List.mem_cons, List.not_mem_nil, or_false] at hreceive
    rcases hreceive with rfl | rfl | rfl <;> trivial
  · show ∀ a ∈ g.fifo.pendingRequests, ∀ b ∈ g.fifo.pendingRequests, _
    rw [waiting_sampleReceives hg]
    decide

/-- The cancel may overtake the new order. -/
theorem cancel_overtakes :
    ¬ ∀ (B : Build) (es : List GatewayEvent), Clocked es →
      Runs.Throughout (GatewayRuns (B := B)) OrderGatewayServer.InOrder es := by
  intro h
  obtain ⟨g, hrun, hpending⟩ := exists_gatewayRuns .production [sampleReceive]
    (fun g => g.fifo.pendingRequests)
    (a := [⟨5, ⟨.new, 1, 0, 1, .buy, 100, 10⟩⟩, ⟨5, ⟨.cancel, 1, 0, 1, .buy, 100, 10⟩⟩])
    (by decide +kernel)
  have hties : ¬ g.Untied .rxDone := by
    intro hties
    change ∀ a ∈ g.fifo.pendingRequests, ∀ b ∈ g.fifo.pendingRequests, _ at hties
    rw [hpending] at hties
    have := hties _ (List.mem_cons_self ..) _ (List.mem_cons_of_mem _ (List.mem_singleton_self _))
      rfl rfl
    exact absurd this (by decide)
  obtain ⟨sorted, hs, hnot⟩ := exists_not_inOrder hties
  refine hnot (h .production [sampleReceive, .rxDone] clocked_sampleReceive
    [sampleReceive, .rxDone] [] _ rfl ?_)
  exact (runsOf_gateway .production).concat.mpr ⟨g, hrun, show GatewayStep g .rxDone _ from ⟨sorted, hs, rfl⟩⟩

end order

end HftSys
