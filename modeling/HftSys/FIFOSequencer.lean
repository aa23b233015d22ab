import HftSys.Lib.Fifo
import HftSys.Lib.Sorting
import HftSys.Messages
import HftSys.TCPSocket

/-!
# The FIFO sequencer

`Exchange::FIFOSequencer`: requests wait in an array until `sequenceAndPublish` sorts them by their
time of reception and pushes them to the matching engine's queue.

* `std::sort` is any function that returns a sorted permutation: its result is an argument,
  `SortsTo` what is known of it.
* `sequenceAndPublish` returns the requests it passes to `rxRequests_.push`, whose result it does
  not look at. `kept_iff`: a request is lost unless every push finds room.
-/

namespace HftSys

open Sorting

/-- `MAX_PENDING_ORDER_REQUESTS`. Source: `types.h` -/
def maxPendingOrderRequests : ℕ := 1024

/-- `FIFOSequencer::PendingClientRequest`. Source: `fifo_Sequencer.h` -/
structure PendingClientRequest where
  tRx : Nanos
  request : OMEClientRequest
deriving DecidableEq

/-- `Exchange::FIFOSequencer`. Source: `fifo_Sequencer.h` -/
structure FIFOSequencer where
  /-- `pendingRequests_[0, nPendingRequests_)`. -/
  pendingRequests : List PendingClientRequest
  bounded : pendingRequests.length ≤ maxPendingOrderRequests

/-- `sorted` may be what `std::sort` with the comparator `a.tRx < b.tRx` makes of `pending`. -/
structure SortsTo (pending sorted : List PendingClientRequest) : Prop where
  perm : sorted.Perm pending
  sorted : sorted.Pairwise fun a b => ¬ b.tRx < a.tRx

instance (pending sorted : List PendingClientRequest) : Decidable (SortsTo pending sorted) :=
  decidable_of_iff (sorted.Perm pending ∧ sorted.Pairwise fun a b => ¬ b.tRx < a.tRx)
    ⟨fun h => ⟨h.1, h.2⟩, fun h => ⟨h.perm, h.sorted⟩⟩

/-- `SortsTo` is sorting by the time of reception. -/
theorem sortsTo_iff {pending sorted : List PendingClientRequest} :
    SortsTo pending sorted ↔ Sorts (fun r : PendingClientRequest => r.tRx.toInt) pending sorted := by
  have hle : ∀ a b : PendingClientRequest, ¬ b.tRx < a.tRx ↔ a.tRx.toInt ≤ b.tRx.toInt := by
    intro a b
    rw [Int64.not_lt, Int64.le_iff_toInt_le]
  constructor
  · exact fun h => ⟨h.perm, h.sorted.imp fun {a b} => (hle a b).mp⟩
  · exact fun h => ⟨h.perm, h.sorted.imp fun {a b} => (hle a b).mpr⟩

namespace FIFOSequencer

/-- A new sequencer. Source: `fifo_Sequencer.h` -/
def create : FIFOSequencer := ⟨[], Nat.zero_le _⟩

/-- The requests waiting. -/
def requests (s : FIFOSequencer) : List OMEClientRequest := s.pendingRequests.map (·.request)

/-- One more request waits; `none` is the `FATAL` exit of a full array.
Source: `fifo_Sequencer.h`, `FIFOSequencer::pushClientRequest` -/
def pushClientRequest (s : FIFOSequencer) (request : OMEClientRequest) (tRx : Nanos) :
    Option FIFOSequencer :=
  if h : s.pendingRequests.length < maxPendingOrderRequests then
    some
      { pendingRequests := s.pendingRequests ++ [⟨tRx, request⟩]
        bounded := by
          rw [List.length_append, List.length_singleton]
          exact h }
  else none

/-- The sequencer afterwards and the requests passed to `rxRequests_.push`, where `sorted` is what
`std::sort` makes of the waiting ones.
Source: `fifo_Sequencer.h`, `FIFOSequencer::sequenceAndPublish` -/
def sequenceAndPublish (s : FIFOSequencer) (sorted : List PendingClientRequest) :
    FIFOSequencer × List OMEClientRequest :=
  if s.pendingRequests = [] then (s, []) else (create, sorted.map (·.request))

section publishing

variable {s : FIFOSequencer} {sorted : List PendingClientRequest}

theorem pendingRequests_pushClientRequest {s' : FIFOSequencer} {request : OMEClientRequest}
    {tRx : Nanos} (h : s.pushClientRequest request tRx = some s') :
    s'.pendingRequests = s.pendingRequests ++ [⟨tRx, request⟩] := by
  unfold pushClientRequest at h
  split at h
  · cases h
    rfl
  · cases h

/-- Nothing is left waiting. -/
@[simp] theorem pendingRequests_sequenceAndPublish (s : FIFOSequencer)
    (sorted : List PendingClientRequest) :
    (s.sequenceAndPublish sorted).1.pendingRequests = [] := by
  unfold sequenceAndPublish
  split
  · assumption
  · rfl

/-- The requests pushed are the sorted ones. -/
theorem pushed_eq (h : SortsTo s.pendingRequests sorted) :
    (s.sequenceAndPublish sorted).2 = sorted.map (·.request) := by
  unfold sequenceAndPublish
  split
  · rename_i hnil
    have hsorted : sorted = [] := List.Perm.eq_nil (hnil ▸ h.perm)
    rw [hsorted]
    rfl
  · rfl

/-- Every request that waits is pushed, once. -/
theorem pushed_perm (h : SortsTo s.pendingRequests sorted) :
    (s.sequenceAndPublish sorted).2.Perm s.requests := by
  rw [pushed_eq h]
  exact h.perm.map _

/-- **No request is lost exactly when every push finds room**, whatever the engine takes out of the
queue between the pushes. -/
theorem kept_iff (h : SortsTo s.pendingRequests sorted) (q : Fifo.Queue OMEClientRequest)
    {ops : List (Fifo.Op OMEClientRequest)}
    (hops : Fifo.pushes ops = (s.sequenceAndPublish sorted).2) :
    ((q.run ops).entered ++ (s.sequenceAndPublish sorted).1.requests).Perm
        (q.entered ++ s.requests) ↔ q.Fits ops := by
  have hnone : (s.sequenceAndPublish sorted).1.requests = [] := by
    rw [requests, pendingRequests_sequenceAndPublish]
    rfl
  have hsent : (q.entered ++ Fifo.pushes ops).Perm (q.entered ++ s.requests) := by
    rw [hops]
    exact (pushed_perm h).append_left _
  rw [hnone, List.append_nil, ← q.entered_run_perm_iff ops]
  exact ⟨fun hp => hp.trans hsent.symm, fun hp => hp.trans hsent⟩

/-- With the engine standing still: exactly when there is room for all. -/
theorem kept_iff_room (h : SortsTo s.pendingRequests sorted) (q : Fifo.Queue OMEClientRequest) :
    ((q.run ((s.sequenceAndPublish sorted).2.map .push)).entered ++
        (s.sequenceAndPublish sorted).1.requests).Perm (q.entered ++ s.requests) ↔
      q.items.length + s.pendingRequests.length ≤ q.capacity := by
  rw [kept_iff h q (Fifo.pushes_map_push _), Fifo.Queue.fits_map_push, (pushed_perm h).length_eq,
    requests, List.length_map]

end publishing

end FIFOSequencer

end HftSys
