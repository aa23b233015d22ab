import HftSys.Lib.Runs
import Mathlib.Data.Nat.Notation

/-!
# A TCP socket's buffers

`utils::TCPSocket`: `send` appends to the outbound buffer, and `sendAndRecv` receives what has come
in and offers the outbound buffer to the kernel, which may accept any part of it.

* A buffer is modelled by its valid bytes, `outboundData_[0, nextSendValidIndex_)` and
  `inboundData_[0, nextRcvValidIndex_)`; nothing reads the others.
* What the kernel does in a call is an `Outcome`, and `Allows` the contract it keeps.
* `passed` records the data given to `send`, `accepted` the bytes the kernel has taken.

`sendAndRecv` forgets the whole outbound buffer after offering it (`tail_dropped`), so the stream is
whole exactly as long as the kernel takes all it is offered (`outbound_reliable`).
-/

namespace HftSys

/-- `TCPBufferSize`. Source: `tcp_socket.h` -/
def tcpBufferSize : ℕ := 64 * 1024 * 1024

/-- `utils::Nanos`. Source: `time_utils.h` -/
abbrev Nanos := Int64

/-- `utils::TCPSocket`. Source: `tcp_socket.h` -/
structure TCPSocket where
  inboundData : List UInt8
  outboundData : List UInt8
  /-- All data passed to `send`. -/
  passed : List UInt8
  /-- All bytes the kernel has accepted. -/
  accepted : List UInt8
deriving DecidableEq

/-- What the kernel does in one call of `sendAndRecv`. -/
structure Outcome where
  /-- The bytes `recvmsg` has received, none when its result is not positive. -/
  bytes : List UInt8
  kernelTime : Nanos
  /-- The result of `::send`, `none` being `-1`. -/
  sent : Option ℕ
deriving DecidableEq

/-- What a receive callback does with the valid inbound bytes: what it leaves of them, and the data
it passes to `send`. -/
abbrev RecvCallback := List UInt8 → Nanos → List UInt8 × List UInt8

namespace TCPSocket

/-- A new socket. Source: `tcp_socket.cpp`, `TCPSocket::TCPSocket` -/
def create : TCPSocket := ⟨[], [], [], []⟩

/-- `memcpy` to the end of the outbound buffer, undefined past the buffer's end.
Source: `tcp_socket.cpp`, `TCPSocket::send` -/
def send (s : TCPSocket) (data : List UInt8) : Option TCPSocket :=
  if s.outboundData.length + data.length ≤ tcpBufferSize then
    some { s with outboundData := s.outboundData ++ data, passed := s.passed ++ data }
  else none

/-- The receiving half of `sendAndRecv`, up to the callback.
Source: `tcp_socket.cpp`, `TCPSocket::sendAndRecv` -/
def receive (s : TCPSocket) (o : Outcome) : TCPSocket :=
  { s with inboundData := s.inboundData ++ o.bytes }

/-- The sending half of `sendAndRecv`: the result of `::send` is not looked at.
Source: `tcp_socket.cpp`, `TCPSocket::sendAndRecv` -/
def transmit (s : TCPSocket) (o : Outcome) : TCPSocket :=
  { s with
    accepted :=
      if s.outboundData = [] then s.accepted
      else s.accepted ++ s.outboundData.take (o.sent.getD 0)
    outboundData := [] }

/-- The socket between the two halves of `sendAndRecv`, the callback having run if there is
something new. Source: `tcp_socket.cpp`, `TCPSocket::sendAndRecv` -/
def received (recvCallback : RecvCallback) (s : TCPSocket) (o : Outcome) : Option TCPSocket :=
  if o.bytes = [] then some s
  else
    let (inboundData, data) := recvCallback (s.receive o).inboundData o.kernelTime
    { s with inboundData }.send data

/-- Source: `tcp_socket.cpp`, `TCPSocket::sendAndRecv` -/
def sendAndRecv (recvCallback : RecvCallback) (s : TCPSocket) (o : Outcome) :
    Option (Bool × TCPSocket) :=
  (s.received recvCallback o).map fun s => (decide (o.bytes ≠ []), s.transmit o)

end TCPSocket

/-! ## Calls on a socket -/

/-- A call on a socket. -/
inductive SocketCall where
  | send (data : List UInt8)
  | sendAndRecv (o : Outcome)
deriving DecidableEq

namespace TCPSocket

/-- `recvmsg` fills the free part of the inbound buffer, `::send` takes a part of what it is
offered. -/
def Allows (recvCallback : RecvCallback) (s : TCPSocket) (o : Outcome) : Prop :=
  o.bytes.length ≤ tcpBufferSize - s.inboundData.length ∧
    ∀ s₁ ∈ s.received recvCallback o, ∀ n ∈ o.sent, n ≤ s₁.outboundData.length

instance (recvCallback : RecvCallback) (s : TCPSocket) (o : Outcome) :
    Decidable (s.Allows recvCallback o) :=
  inferInstanceAs (Decidable (_ ∧ _))

/-- The socket after a call, if the data fits and the kernel keeps its contract. -/
def handle (recvCallback : RecvCallback) (s : TCPSocket) : SocketCall → Option TCPSocket
  | .send data => s.send data
  | .sendAndRecv o =>
    if s.Allows recvCallback o then (s.sendAndRecv recvCallback o).map Prod.snd else none

/-- No byte is dropped, repeated or reordered: what has been accepted and what is still held is what
has been passed to `send`. -/
def Whole (s : TCPSocket) : Prop := s.accepted ++ s.outboundData = s.passed

instance (s : TCPSocket) : Decidable s.Whole :=
  inferInstanceAs (Decidable (_ = _))

/-- The kernel takes all it is offered in a call. -/
def AllTaken (recvCallback : RecvCallback) (s : TCPSocket) : SocketCall → Prop
  | .send _ => True
  | .sendAndRecv o => ∀ s₁ ∈ s.received recvCallback o, s₁.outboundData ≠ [] →
      o.sent = some s₁.outboundData.length

/-- `n` bytes are missing from the stream. -/
structure Missing (s : TCPSocket) (n : ℕ) : Prop where
  length : s.passed.length = s.accepted.length + s.outboundData.length + n
  whole : n = 0 → s.Whole

end TCPSocket

/-- The calls lead from a new socket to `s`. -/
def Calls (recvCallback : RecvCallback) (calls : List SocketCall) (s : TCPSocket) : Prop :=
  calls.foldlM (TCPSocket.handle recvCallback) .create = some s

instance (recvCallback : RecvCallback) (calls : List SocketCall) (s : TCPSocket) :
    Decidable (Calls recvCallback calls s) :=
  inferInstanceAs (Decidable (_ = _))

section calls

variable {recvCallback : RecvCallback} {calls : List SocketCall} {o : Outcome}
  {s s' : TCPSocket} {n : ℕ}

theorem runsOf_socket (recvCallback : RecvCallback) :
    Runs.RunsOf (fun s c s' => TCPSocket.handle recvCallback s c = some s') .create
      (Calls recvCallback) :=
  .ofStep (TCPSocket.handle recvCallback) .create

/-- The same calls lead to one socket. -/
theorem Calls.unique (h : Calls recvCallback calls s) (h' : Calls recvCallback calls s') : s = s' :=
  Option.some.inj (h.symm.trans h')

namespace TCPSocket

/-! ## What a call drops -/

/-- The stream is whole exactly when nothing is missing. -/
theorem Missing.whole_iff (h : s.Missing n) : s.Whole ↔ n = 0 := by
  refine ⟨fun hw => ?_, h.whole⟩
  have hlen := congrArg List.length hw
  rw [List.length_append] at hlen
  have := h.length
  omega

theorem missing_create : create.Missing 0 := ⟨rfl, fun _ => rfl⟩

theorem Missing.send {data : List UInt8} (h : s.Missing n) (hs : s.send data = some s') :
    s'.Missing n := by
  unfold TCPSocket.send at hs
  split at hs
  · cases hs
    constructor
    case length =>
      have := h.length
      simp only [List.length_append]
      omega
    case whole =>
      intro hn
      show s.accepted ++ (s.outboundData ++ data) = s.passed ++ data
      rw [← List.append_assoc, h.whole hn]
  · cases hs

theorem Missing.received (h : s.Missing n) (hs : s.received recvCallback o = some s') :
    s'.Missing n := by
  unfold TCPSocket.received at hs
  split at hs
  · cases hs
    exact h
  · have h' : { s with inboundData :=
        (recvCallback (s.receive o).inboundData o.kernelTime).1 }.Missing n := ⟨h.length, h.whole⟩
    exact h'.send hs

/-- **The sending half drops what the kernel does not take.** -/
theorem Missing.transmit (h : s.Missing n) (ho : ∀ k ∈ o.sent, k ≤ s.outboundData.length) :
    (s.transmit o).Missing (n + (s.outboundData.length - o.sent.getD 0)) := by
  have htaken : o.sent.getD 0 ≤ s.outboundData.length := by
    cases hsent : o.sent with
    | none => exact Nat.zero_le _
    | some k => exact ho k hsent
  have haccepted : (s.transmit o).accepted = s.accepted ++ s.outboundData.take (o.sent.getD 0) := by
    show (if s.outboundData = [] then s.accepted else _) = _
    split
    · rename_i hnil
      rw [hnil, List.take_nil, List.append_nil]
    · rfl
  constructor
  case length =>
    have := h.length
    rw [haccepted, List.length_append, List.length_take]
    show s.passed.length = _ + 0 + _
    omega
  case whole =>
    intro hn
    show (s.transmit o).accepted ++ [] = s.passed
    rw [haccepted, List.append_nil, List.take_of_length_le (by omega)]
    exact h.whole (by omega)

/-- Nothing is dropped exactly when the kernel takes all it is offered. -/
theorem dropped_eq_zero_iff (ho : ∀ k ∈ o.sent, k ≤ s.outboundData.length) :
    s.outboundData.length - o.sent.getD 0 = 0 ↔
      (s.outboundData ≠ [] → o.sent = some s.outboundData.length) := by
  cases hsent : o.sent with
  | none => simp
  | some k =>
    have hk := ho k hsent
    simp only [Option.getD_some, Option.some.injEq]
    constructor
    · intro h _
      omega
    · intro h
      by_cases hnil : s.outboundData = []
      · rw [hnil] at hk ⊢
        exact Nat.sub_eq_zero_of_le (Nat.zero_le _)
      · rw [h hnil]
        exact Nat.sub_self _

/-- **What a call drops**: something, unless the kernel takes all it is offered. -/
theorem Missing.handle {c : SocketCall} (h : s.Missing n)
    (hs : s.handle recvCallback c = some s') :
    ∃ k, s'.Missing (n + k) ∧ (k = 0 ↔ s.AllTaken recvCallback c) := by
  cases c with
  | send data => exact ⟨0, h.send hs, fun _ => trivial, fun _ => rfl⟩
  | sendAndRecv o =>
    simp only [TCPSocket.handle] at hs
    split at hs
    · rename_i hallows
      rw [TCPSocket.sendAndRecv, Option.map_map] at hs
      obtain ⟨s₁, hs₁, rfl⟩ := Option.map_eq_some_iff.mp hs
      have ho := hallows.2 s₁ hs₁
      refine ⟨_, (h.received hs₁).transmit ho, (dropped_eq_zero_iff ho).trans ?_⟩
      constructor
      · rintro htaken s₂ hs₂
        cases hs₁.symm.trans hs₂
        exact htaken
      · exact fun htaken => htaken s₁ hs₁
    · cases hs

end TCPSocket

/-- **The bytes missing after a run** are none exactly when the kernel has taken all it was
offered. -/
theorem Calls.missing (h : Calls recvCallback calls s) :
    ∃ n, s.Missing n ∧
      (n = 0 ↔ Runs.Meets (Calls recvCallback) (TCPSocket.AllTaken recvCallback) calls) := by
  refine (runsOf_socket recvCallback).induction (P := fun calls s => ∃ n, s.Missing n ∧
    (n = 0 ↔ Runs.Meets (Calls recvCallback) (TCPSocket.AllTaken recvCallback) calls)) ?_ ?_ h
  · exact ⟨0, TCPSocket.missing_create, fun _ => Runs.Meets.nil _ _, fun _ => rfl⟩
  · rintro calls c s s' hcalls ⟨n, hn, hmeets⟩ hs
    obtain ⟨k, hk, htaken⟩ := hn.handle hs
    refine ⟨n + k, hk, ?_⟩
    rw [Nat.add_eq_zero_iff, hmeets, htaken, Runs.Meets.concat_iff]
    apply and_congr_right
    intro _
    exact ⟨fun h s₀ hs₀ => hs₀.unique hcalls ▸ h, fun h => h s hcalls⟩

/-- **The outbound stream is reliable** exactly as long as the kernel takes all it is offered. -/
theorem outbound_reliable (h : Calls recvCallback calls s) :
    s.Whole ↔ Runs.Meets (Calls recvCallback) (TCPSocket.AllTaken recvCallback) calls := by
  obtain ⟨n, hn, hmeets⟩ := h.missing
  exact hn.whole_iff.trans hmeets

/-- Two bytes, both taken. -/
theorem outbound_reliable_sample :
    ∃ s, Calls (fun bs _ => (bs, [])) [.send [1, 2], .sendAndRecv ⟨[], 0, some 2⟩] s ∧
      (s.Whole ↔ Runs.Meets (Calls fun bs _ => (bs, []))
        (TCPSocket.AllTaken fun bs _ => (bs, []))
        [.send [1, 2], .sendAndRecv ⟨[], 0, some 2⟩]) := by
  have hcalls : Calls (fun bs _ => (bs, [])) [.send [1, 2], .sendAndRecv ⟨[], 0, some 2⟩]
      ⟨[], [], [1, 2], [1, 2]⟩ := by decide +kernel
  exact ⟨_, hcalls, outbound_reliable hcalls⟩

/-- Of two bytes the kernel takes one, and the other is gone. -/
theorem tail_dropped :
    ¬ ∀ (recvCallback : RecvCallback) (calls : List SocketCall) (s : TCPSocket),
      Calls recvCallback calls s → s.Whole := by
  intro h
  have hcalls : Calls (fun bs _ => (bs, [])) [.send [1, 2], .sendAndRecv ⟨[], 0, some 1⟩]
      ⟨[], [], [1, 2], [1]⟩ := by decide +kernel
  exact absurd (h _ _ _ hcalls) (by decide)

end calls

end HftSys
