import HftSys.Receiving

/-!
# What the gateway publishes

The requests forwarded to the sequencer, on their way to the engine's queue: `requests_kept_iff`
says that none is lost exactly when every push finds room in the queue.
-/

namespace HftSys

/-- `MAX_CLIENT_UPDATES`. Source: `types.h` -/
def maxClientUpdates (B : Build) : ℕ := omeSize B * 1024

/-- Every request that waited is still waiting or has entered the queue, once. -/
def Kept (s s' : FIFOSequencer) (q q' : Fifo.Queue OMEClientRequest) : Prop :=
  (q'.entered ++ s'.requests).Perm (q.entered ++ s.requests)

section kept

/-- **No request is lost exactly when every push finds room**: in a call of `sequenceAndPublish`,
whatever the engine takes out meanwhile; in a call during which it takes out nothing; and in a whole
run of the gateway. -/
theorem requests_kept_iff (s : FIFOSequencer) (sorted : List PendingClientRequest)
    (hs : SortsTo s.pendingRequests sorted) (q : Fifo.Queue OMEClientRequest) :
    (∀ ops, Fifo.pushes ops = (s.sequenceAndPublish sorted).2 →
        (Kept s (s.sequenceAndPublish sorted).1 q (q.run ops) ↔ q.Fits ops)) ∧
      (Kept s (s.sequenceAndPublish sorted).1 q
          (q.run ((s.sequenceAndPublish sorted).2.map .push)) ↔
        q.items.length + s.pendingRequests.length ≤ q.capacity) ∧
      ∀ (B : Build) (es : List GatewayEvent) (g : OrderGatewayServer B) (cap : ℕ) ops,
        GatewayRuns es g → Fifo.pushes ops = g.published →
        ((((Fifo.Queue.empty cap).run ops).entered ++ g.fifo.requests).Perm
            (g.forwarded.map fun x => x.record.omeRequest) ↔
          (Fifo.Queue.empty cap).Fits ops) := by
  refine ⟨fun ops hops => FIFOSequencer.kept_iff hs q hops, FIFOSequencer.kept_iff_room hs q, ?_⟩
  intro B es g cap ops hrun hops
  have hall := hrun.consistent.published_append_requests
  have hperm := (Fifo.Queue.empty cap).entered_run_perm_iff ops
  rw [Fifo.Queue.entered_empty, List.nil_append, hops] at hperm
  rw [← hperm]
  constructor
  · exact fun h => (List.perm_append_right_iff _).mp (h.trans hall.symm)
  · exact fun h => (h.append_right _).trans hall

/-- A cancel of order 1 by client 1. -/
def sampleCancel : OMEClientRequest := ⟨.cancel, 1, 0, 1, .invalid, priceInvalid, qtyInvalid⟩

/-- A sequencer in which one request waits. -/
def sampleSequencer : FIFOSequencer := ⟨[⟨0, sampleCancel⟩], by decide⟩

/-- A sequencer in which three requests wait, not in the order of their times. -/
def threeWaiting : FIFOSequencer :=
  ⟨[⟨7, ⟨.new, 1, 0, 1, .buy, 100, 10⟩⟩, ⟨5, ⟨.new, 2, 0, 1, .sell, 101, 5⟩⟩, ⟨9, sampleCancel⟩],
    by decide⟩

/-- The three in the order of their times. -/
def threeSorted : List PendingClientRequest :=
  [⟨5, ⟨.new, 2, 0, 1, .sell, 101, 5⟩⟩, ⟨7, ⟨.new, 1, 0, 1, .buy, 100, 10⟩⟩, ⟨9, sampleCancel⟩]

/-- The three are pushed while the engine takes one of them out. -/
def threePushed : List (Fifo.Op OMEClientRequest) :=
  [.push ⟨.new, 2, 0, 1, .sell, 101, 5⟩, .push ⟨.new, 1, 0, 1, .buy, 100, 10⟩, .pop,
    .push sampleCancel]

/-- Two requests come in and are sorted. -/
def twoPublished : List GatewayEvent :=
  [.sendAndRecv 0 ⟨OGSClientRequest.image ⟨1, ⟨.new, 2, 0, 1, .sell, 101, 5⟩⟩ ++
      OGSClientRequest.image ⟨2, ⟨.cancel, 2, 0, 1, .sell, 101, 5⟩⟩, 5, none⟩, .rxDone]

/-- A queue of two takes three requests if the engine takes one of them out meanwhile, and does not
if it takes out nothing; and it takes the two that a run of the gateway publishes. -/
theorem requests_kept_iff_sample :
    Kept threeWaiting (threeWaiting.sequenceAndPublish threeSorted).1 (.empty 2)
        ((Fifo.Queue.empty 2).run threePushed) ∧
      ¬ Kept threeWaiting (threeWaiting.sequenceAndPublish threeSorted).1 (.empty 2)
        ((Fifo.Queue.empty 2).run ((threeWaiting.sequenceAndPublish threeSorted).2.map .push)) ∧
      ∃ g : OrderGatewayServer .production, GatewayRuns twoPublished g ∧ g.published.length = 2 ∧
        (((Fifo.Queue.empty 2).run (g.published.map .push)).entered ++ g.fifo.requests).Perm
          (g.forwarded.map fun x => x.record.omeRequest) := by
  have hsort : SortsTo threeWaiting.pendingRequests threeSorted := by decide
  obtain ⟨hrun, hidle, hgateway⟩ := requests_kept_iff threeWaiting threeSorted hsort (.empty 2)
  refine ⟨(hrun threePushed (by decide)).mpr ?_, ?_, ?_⟩
  · exact ⟨by decide, by decide, by decide, trivial⟩
  · rw [hidle]
    decide
  · obtain ⟨g, hg, hlen⟩ := exists_gatewayRuns .production twoPublished
      (fun g => g.published.length) (a := 2) (by decide +kernel)
    refine ⟨g, hg, hlen, (hgateway _ _ g 2 _ hg (Fifo.pushes_map_push _)).mpr ?_⟩
    rw [Fifo.Queue.fits_map_push, hlen]
    decide

/-- A request is pushed to a full queue and gone: the array is empty, its number is used up. -/
theorem request_lost :
    ¬ ∀ (s : FIFOSequencer) (sorted : List PendingClientRequest) (q : Fifo.Queue OMEClientRequest)
      (ops : List (Fifo.Op OMEClientRequest)), SortsTo s.pendingRequests sorted →
      Fifo.pushes ops = (s.sequenceAndPublish sorted).2 →
      Kept s (s.sequenceAndPublish sorted).1 q (q.run ops) := by
  intro h
  have hs : SortsTo sampleSequencer.pendingRequests sampleSequencer.pendingRequests :=
    ⟨.refl _, List.pairwise_singleton _ _⟩
  have hops : Fifo.pushes [.push sampleCancel] =
      (sampleSequencer.sequenceAndPublish sampleSequencer.pendingRequests).2 := rfl
  have hkept := h _ _ (.full (maxClientUpdates .production) sampleCancel) _ hs hops
  exact Fifo.Queue.not_fits_full _ _ _ _ ((FIFOSequencer.kept_iff hs _ hops).mp hkept)

end kept

end HftSys
