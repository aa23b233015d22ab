import HftSys.PoolInvariant
import HftSys.TCPServer

/-!
# Connections over a server's lifetime

`utils::TCPServer` takes the sockets of its connections from `socketPool_`, whose size is that of
`events_`, and gives none back: a connection closed by its peer keeps its socket and its place in
the lists. `poll` asks for as many events as there are sockets in both lists, and one more for the
listener, and uses what `allocate` returns without looking at it.

* `Reaches`: where some calls may lead a server, the kernel reporting sockets that are registered.
* `Counted.of_reaches`: the lists and the pool follow from what has been accepted and reported so
  far.
* `connections_survived_iff`: how many connections a server survives. The lists only grow, so with
  1024 connections the next call of `poll` asks for 1025 events (`too_many_connections`).

A pointer to a socket is the index of its block, and that to the listener's socket the next number.
-/

namespace HftSys

open Exec

/-! ## The source -/

/-- `TCPServer::MAX_EVENTS`: the size of `events_` and of `socketPool_`. Source: `tcp_server.h` -/
def maxEvents : ℕ := 1024

/-- `&listenerSocket_`. -/
abbrev listenerPtr : SocketPtr := maxEvents

/-- `utils::TCPServer`, with its sockets. Source: `tcp_server.h` -/
structure PooledServer where
  /-- The listener and the two lists. -/
  lists : TCPServer
  listenerSocket : TCPSocket
  socketPool : MemoryPool TCPSocket maxEvents

/-- A call of `poll`: what is reported, and how many connections `accept` yields. -/
structure Polling where
  events : List PollEvent
  connections : ℕ
deriving DecidableEq

/-- A call on the server. -/
inductive ServerCall where
  | poll (p : Polling)
  | sendAndReceive (outcome : SocketPtr → Outcome)

namespace PooledServer

/-- A new server. Source: `tcp_server.h` -/
def create : PooledServer where
  lists := .create listenerPtr
  listenerSocket := .create
  socketPool := .create maxEvents (by decide) .create

/-- The local variable `maxEvents`, the argument of `epoll_wait` and `kevent`.
Source: `tcp_server.cpp`, `TCPServer::poll` -/
def maxEventsArg (s : PooledServer) : ℕ :=
  1 + s.lists.sendSockets.length + s.lists.receiveSockets.length

/-- The loop that accepts connections, for `n` of them: `setSocketFd` dereferences what `allocate`
returns. Source: `tcp_server.cpp`, `TCPServer::poll` -/
def acceptAll : ℕ → PooledServer → Except Fault PooledServer
  | 0, s => .ok s
  | n + 1, s => do
    let (socket, socketPool) ← s.socketPool.allocate .create
    match socket with
    | none => .error .nullDereference
    | some i =>
      acceptAll n { s with
        lists := { s.lists with
          receiveSockets := TCPServer.addSocket s.lists.receiveSockets i.val }
        socketPool := socketPool }

/-- `poll`: events past the end of `events_` are out of range.
Source: `tcp_server.cpp`, `TCPServer::poll` -/
def poll (s : PooledServer) (p : Polling) : Except Fault PooledServer :=
  if maxEvents < p.events.length then .error .outOfRange
  else
    let (lists, haveNewConnection) := p.events.foldl TCPServer.handleEvent (s.lists, false)
    if haveNewConnection then acceptAll p.connections { s with lists := lists }
    else .ok { s with lists := lists }

/-- `socket->sendAndRecv()`; a `send` past the end of a buffer is out of range. The listener's
socket has no callback. -/
def sendAndRecv (recvCallback : RecvCallback) (outcome : SocketPtr → Outcome) (s : PooledServer)
    (socket : SocketPtr) : Except Fault PooledServer :=
  if h : socket < maxEvents then do
    let x ← s.socketPool.deref (some ⟨socket, h⟩)
    match x.sendAndRecv recvCallback (outcome socket) with
    | none => .error .outOfRange
    | some (_, x) => .ok { s with socketPool := s.socketPool.set ⟨socket, h⟩ x }
  else
    match s.listenerSocket.sendAndRecv (fun bytes _ => (bytes, [])) (outcome socket) with
    | none => .error .outOfRange
    | some (_, x) => .ok { s with listenerSocket := x }

/-- Both passes of `sendAndReceive`. Source: `tcp_server.cpp`, `TCPServer::sendAndReceive` -/
def sendAndReceive (recvCallback : RecvCallback) (outcome : SocketPtr → Outcome)
    (s : PooledServer) : Except Fault PooledServer :=
  (s.lists.receiveSockets ++ s.lists.sendSockets).foldlM (sendAndRecv recvCallback outcome) s

/-- A call of a server whose sockets have the callback `recvCallback`. -/
def call (recvCallback : RecvCallback) (s : PooledServer) : ServerCall → Except Fault PooledServer
  | .poll p => s.poll p
  | .sendAndReceive outcome => s.sendAndReceive recvCallback outcome

/-- The socket is that of a connection. -/
def Connected (s : PooledServer) (socket : SocketPtr) : Prop :=
  ∃ i, s.socketPool.Live i ∧ socket = i.val

/-- The sockets registered with the event system: the listener's and those of all connections. -/
def Registered (s : PooledServer) (socket : SocketPtr) : Prop :=
  socket = listenerPtr ∨ s.Connected socket

/-- What the kernel may report: registered sockets, and no more events than it is asked for. -/
structure Reports (s : PooledServer) (p : Polling) : Prop where
  registered : ∀ event ∈ p.events, s.Registered event.socket
  length_le : p.events.length ≤ s.maxEventsArg

/-- The kernel keeps its contract in a call. -/
def Allows (s : PooledServer) : ServerCall → Prop
  | .poll p => s.Reports p
  | .sendAndReceive _ => True

/-- A call that returns. -/
def Takes (recvCallback : RecvCallback) (s : PooledServer) (c : ServerCall) (s' : PooledServer) :
    Prop :=
  s.Allows c ∧ s.call recvCallback c = .ok s'

/-- The calls may lead from a new server to `s`. -/
abbrev Reaches (recvCallback : RecvCallback) : List ServerCall → PooledServer → Prop :=
  Runs.Path (Takes recvCallback) create

/-- A call of `poll` goes well: it asks for no more events than `events_` takes, and gets a socket
for every connection. -/
structure PollsSafely (s : PooledServer) (p : Polling) : Prop where
  maxEvents_le : s.maxEventsArg ≤ maxEvents
  notNull : s.poll p ≠ .error .nullDereference

/-- Every call of `poll` goes well. -/
def Survives (recvCallback : RecvCallback) (calls : List ServerCall) : Prop :=
  ∀ pre p post s, calls = pre ++ .poll p :: post → Reaches recvCallback pre s → s.Reports p →
    s.PollsSafely p

end PooledServer

/-! ## What has been accepted and reported -/

/-- `poll` sees that there are connections to accept. -/
def Polling.announced (p : Polling) : Bool :=
  p.events.any fun event => event.readable && event.socket == listenerPtr

/-- The connections accepted. -/
def Polling.accepted (p : Polling) : ℕ := if p.announced then p.connections else 0

/-- The events looked at beyond the first test. -/
def Polling.others (p : Polling) : List PollEvent :=
  p.events.filter fun event => !(event.readable && event.socket == listenerPtr)

/-- The sockets reported writable. -/
def Polling.writable (p : Polling) : Finset SocketPtr :=
  ((p.others.filter PollEvent.writable).map PollEvent.socket).toFinset

/-- The listener is reported as failed. -/
def Polling.listenerFailed (p : Polling) : Bool :=
  p.others.any fun event => event.failed && event.socket == listenerPtr

/-- The calls of `poll`. -/
def pollings (calls : List ServerCall) : List Polling :=
  calls.filterMap fun
    | .poll p => some p
    | .sendAndReceive _ => none

/-- The listener has something to read, and `n` connections are accepted. -/
def Polling.arriving (n : ℕ) : Polling := ⟨[⟨listenerPtr, true, false, false⟩], n⟩

/-- All connections accepted. -/
def acceptedIn (calls : List ServerCall) : ℕ := ((pollings calls).map Polling.accepted).sum

/-- All sockets reported writable. -/
def writableIn (calls : List ServerCall) : Finset SocketPtr :=
  (pollings calls).foldl (fun sockets p => sockets ∪ p.writable) ∅

/-- The listener has been reported as failed. -/
def listenerFailedIn (calls : List ServerCall) : Bool :=
  (pollings calls).any Polling.listenerFailed

/-! ## The lists -/

namespace TCPServer

section lists

variable {sockets : List SocketPtr} {socket q : SocketPtr} {events : List PollEvent}

theorem mem_addSocket : q ∈ addSocket sockets socket ↔ q ∈ sockets ∨ q = socket := by
  unfold addSocket
  split
  · rename_i hmem
    constructor
    · exact .inl
    · rintro (hq | rfl)
      · exact hq
      · exact hmem
  · rw [List.mem_append, List.mem_singleton]

theorem nodup_addSocket (h : sockets.Nodup) : (addSocket sockets socket).Nodup := by
  unfold addSocket
  split
  · exact h
  · rename_i hmem
    exact List.nodup_append_comm.mp (List.nodup_cons.mpr ⟨hmem, h⟩)

/-- `addSocket` under a condition. -/
def addIf (c : Bool) (sockets : List SocketPtr) (socket : SocketPtr) : List SocketPtr :=
  if c then addSocket sockets socket else sockets

theorem mem_addIf {c : Bool} :
    q ∈ addIf c sockets socket ↔ q ∈ sockets ∨ socket = q ∧ c = true := by
  unfold addIf
  split
  · rename_i hc
    rw [mem_addSocket, hc, eq_comm]
    simp
  · rename_i hc
    simp [hc]

theorem nodup_addIf {c : Bool} (h : sockets.Nodup) : (addIf c sockets socket).Nodup := by
  unfold addIf
  split
  · exact nodup_addSocket h
  · exact h

/-- What becomes of the lists when some events are looked at. -/
structure Hears (lists lists' : TCPServer) (events : List PollEvent) : Prop where
  listenerSocket : lists'.listenerSocket = lists.listenerSocket
  mem_receive : ∀ q, q ∈ lists'.receiveSockets ↔ q ∈ lists.receiveSockets ∨
    ∃ event ∈ events, event.socket = q ∧ (event.readable = true ∨ event.failed = true)
  mem_send : ∀ q, q ∈ lists'.sendSockets ↔ q ∈ lists.sendSockets ∨
    ∃ event ∈ events, event.socket = q ∧ event.writable = true
  nodup_receive : lists.receiveSockets.Nodup → lists'.receiveSockets.Nodup
  nodup_send : lists.sendSockets.Nodup → lists'.sendSockets.Nodup

theorem Hears.refl (lists : TCPServer) : Hears lists lists [] where
  listenerSocket := rfl
  mem_receive q := by simp
  mem_send q := by simp
  nodup_receive h := h
  nodup_send h := h

theorem Hears.trans {lists lists₁ lists' : TCPServer} {events events' : List PollEvent}
    (h : Hears lists lists₁ events) (h' : Hears lists₁ lists' events') :
    Hears lists lists' (events ++ events') where
  listenerSocket := h'.listenerSocket.trans h.listenerSocket
  mem_receive q := by
    rw [h'.mem_receive, h.mem_receive, or_assoc]
    simp only [List.mem_append, or_and_right, exists_or]
  mem_send q := by
    rw [h'.mem_send, h.mem_send, or_assoc]
    simp only [List.mem_append, or_and_right, exists_or]
  nodup_receive hnodup := h'.nodup_receive (h.nodup_receive hnodup)
  nodup_send hnodup := h'.nodup_send (h.nodup_send hnodup)

/-- The event is that of connections to accept, to a server listening on `listener`. -/
abbrev Announces (listener : SocketPtr) (event : PollEvent) : Bool :=
  event.readable && event.socket == listener

theorem handleEvent_of_announces {lists : TCPServer} {haveNewConnection : Bool} {event : PollEvent}
    (h : Announces lists.listenerSocket event = true) :
    handleEvent (lists, haveNewConnection) event = (lists, true) := by
  have hcond : event.readable = true ∧ event.socket = lists.listenerSocket := by
    simpa [Announces] using h
  simp only [handleEvent, if_pos hcond]

/-- Any other event is looked at to the end. -/
theorem handleEvent_hears {lists : TCPServer} {event : PollEvent}
    (h : Announces lists.listenerSocket event = false) :
    ∃ lists', Hears lists lists' [event] ∧ ∀ haveNewConnection,
      handleEvent (lists, haveNewConnection) event = (lists', haveNewConnection) := by
  have hcond : ¬ (event.readable = true ∧ event.socket = lists.listenerSocket) := by
    simpa [Announces] using h
  refine ⟨{ lists with
    receiveSockets := addIf event.failed
      (addIf event.readable lists.receiveSockets event.socket) event.socket
    sendSockets := addIf event.writable lists.sendSockets event.socket }, ?_, ?_⟩
  · constructor
    · rfl
    · intro q
      rw [mem_addIf, mem_addIf, or_assoc, ← and_or_left]
      simp
    · intro q
      rw [mem_addIf]
      simp
    · exact fun hnodup => nodup_addIf (nodup_addIf hnodup)
    · exact fun hnodup => nodup_addIf hnodup
  · intro haveNewConnection
    simp only [handleEvent, if_neg hcond, addIf]
    split <;> split <;> split <;> rfl

/-- **The loop over the events.** -/
theorem handleEvents_hears (events : List PollEvent) (lists : TCPServer)
    (haveNewConnection : Bool) :
    ∃ lists', events.foldl handleEvent (lists, haveNewConnection) =
        (lists', haveNewConnection || events.any (Announces lists.listenerSocket)) ∧
      Hears lists lists' (events.filter fun event => !Announces lists.listenerSocket event) := by
  induction events generalizing lists haveNewConnection with
  | nil => exact ⟨lists, by simp, .refl lists⟩
  | cons event events ih =>
    rw [List.foldl_cons, List.any_cons]
    cases hann : Announces lists.listenerSocket event with
    | true =>
      obtain ⟨lists', hfold, hhears⟩ := ih lists true
      refine ⟨lists', ?_, ?_⟩
      · rw [handleEvent_of_announces hann, hfold]
        simp
      · rw [List.filter_cons_of_neg (by simp [hann])]
        exact hhears
    | false =>
      obtain ⟨lists₁, hfirst, hone⟩ := handleEvent_hears hann
      obtain ⟨lists', hfold, hrest⟩ := ih lists₁ haveNewConnection
      rw [hfirst.listenerSocket] at hfold hrest
      refine ⟨lists', ?_, ?_⟩
      · rw [hone, hfold]
        simp
      · rw [List.filter_cons_of_pos (by simp [hann])]
        exact hfirst.trans hrest

end lists

end TCPServer

/-! ## The connections -/

namespace PooledServer

variable {s s₁ s' : PooledServer} {recvCallback : RecvCallback} {calls : List ServerCall}
  {p : Polling} {n m : ℕ} {q : SocketPtr}

/-- The sockets of the connections. -/
def connections (s : PooledServer) : Finset SocketPtr :=
  (s.socketPool.freeBlocksᶜ).map Fin.valEmbedding

theorem mem_connections : q ∈ s.connections ↔ s.Connected q := by
  simp only [connections, Connected, Finset.mem_map, Finset.mem_compl, MemoryPool.mem_freeBlocks,
    not_not, Fin.valEmbedding_apply]
  constructor
  · rintro ⟨i, hi, rfl⟩
    exact ⟨i, hi, rfl⟩
  · rintro ⟨i, hi, rfl⟩
    exact ⟨i, hi, rfl⟩

/-- Every block that is not free is the socket of a connection. -/
theorem card_connections (h : s.socketPool.WellFormed) :
    s.socketPool.freeBlocksCount + s.connections.card = maxEvents := by
  rw [connections, Finset.card_map, h.count, Finset.card_add_card_compl, Fintype.card_fin]

theorem Connected.lt (h : s.Connected q) : q < maxEvents := by
  obtain ⟨i, -, rfl⟩ := h
  exact i.isLt

/-- `n` connections are accepted: their sockets are at the end of the first list. -/
structure Accepts (n : ℕ) (s s' : PooledServer) : Prop where
  listenerSocket : s'.lists.listenerSocket = s.lists.listenerSocket
  sendSockets : s'.lists.sendSockets = s.lists.sendSockets
  wellFormed : s'.socketPool.WellFormed
  count : s'.socketPool.freeBlocksCount + n = s.socketPool.freeBlocksCount
  connected : ∀ q, s.Connected q → s'.Connected q
  mem_receive : ∀ q, q ∈ s'.lists.receiveSockets ↔
    q ∈ s.lists.receiveSockets ∨ s'.Connected q ∧ ¬ s.Connected q
  nodup_receive : s.lists.receiveSockets.Nodup → s'.lists.receiveSockets.Nodup

theorem Accepts.refl (h : s.socketPool.WellFormed) : Accepts 0 s s where
  listenerSocket := rfl
  sendSockets := rfl
  wellFormed := h
  count := rfl
  connected _ hq := hq
  mem_receive q := by simp
  nodup_receive h := h

theorem Accepts.trans (h : Accepts m s s₁) (h' : Accepts n s₁ s') : Accepts (n + m) s s' where
  listenerSocket := h'.listenerSocket.trans h.listenerSocket
  sendSockets := h'.sendSockets.trans h.sendSockets
  wellFormed := h'.wellFormed
  count := by rw [← Nat.add_assoc, h'.count, h.count]
  connected q hq := h'.connected q (h.connected q hq)
  mem_receive q := by
    have hfirst := h.connected q
    have hlater := h'.connected q
    rw [h'.mem_receive, h.mem_receive]
    tauto
  nodup_receive hnodup := h'.nodup_receive (h.nodup_receive hnodup)

/-- One connection is accepted as long as a block is free. -/
theorem acceptAll_succ (h : s.socketPool.WellFormed) (hpos : 0 < s.socketPool.freeBlocksCount) :
    ∃ s₁, Accepts 1 s s₁ ∧ ∀ n, acceptAll (n + 1) s = acceptAll n s₁ := by
  obtain ⟨pool', halloc, hblocks, hcount, hwf⟩ := h.allocate_of_pos hpos .create
  set i := s.socketPool.nextFreeIndex with hi
  have hfree : ¬ s.socketPool.Live i := h.cursor hpos
  have hlive : ∀ j, pool'.Live j ↔ j = i ∨ s.socketPool.Live j := by
    intro j
    rw [MemoryPool.live_of_blocks hblocks, MemoryPool.live_take]
  refine ⟨{ s with
    lists := { s.lists with
      receiveSockets := TCPServer.addSocket s.lists.receiveSockets i.val }
    socketPool := pool' }, ?_, ?_⟩
  · constructor
    · rfl
    · rfl
    · exact hwf
    · exact hcount
    · rintro q ⟨j, hj, rfl⟩
      exact ⟨j, (hlive j).mpr (.inr hj), rfl⟩
    · intro q
      rw [TCPServer.mem_addSocket]
      apply or_congr_right
      constructor
      · rintro rfl
        refine ⟨⟨i, (hlive i).mpr (.inl rfl), rfl⟩, ?_⟩
        rintro ⟨j, hj, hij⟩
        exact hfree (Fin.ext hij ▸ hj)
      · rintro ⟨⟨j, hj, rfl⟩, hnew⟩
        rcases (hlive j).mp hj with rfl | hold
        · rfl
        · exact absurd ⟨j, hold, rfl⟩ hnew
    · exact TCPServer.nodup_addSocket
  · intro n
    rw [acceptAll, halloc]
    rfl

/-- **As many connections are accepted as there are free blocks.** -/
theorem acceptAll_ok (h : s.socketPool.WellFormed) (hn : n ≤ s.socketPool.freeBlocksCount) :
    ∃ s', acceptAll n s = .ok s' ∧ Accepts n s s' := by
  induction n generalizing s with
  | zero => exact ⟨s, rfl, .refl h⟩
  | succ n ih =>
    obtain ⟨s₁, hone, heq⟩ := acceptAll_succ h (by omega)
    have hcount := hone.count
    obtain ⟨s', hok, hrest⟩ := ih hone.wellFormed (by omega)
    exact ⟨s', (heq n).trans hok, hone.trans hrest⟩

/-- **With fewer free blocks, null is dereferenced.** -/
theorem acceptAll_null (h : s.socketPool.WellFormed) (hn : s.socketPool.freeBlocksCount < n) :
    acceptAll n s = .error .nullDereference := by
  induction n generalizing s with
  | zero => exact absurd hn (Nat.not_lt_zero _)
  | succ n ih =>
    rcases Nat.eq_zero_or_pos s.socketPool.freeBlocksCount with hzero | hpos
    · rw [acceptAll, MemoryPool.allocate_of_zero hzero]
      rfl
    · obtain ⟨s₁, hone, heq⟩ := acceptAll_succ h hpos
      have hcount := hone.count
      rw [heq]
      exact ih hone.wellFormed (by omega)

/-- `poll` looks at the events and accepts what there is. -/
theorem poll_eq (hlistener : s.lists.listenerSocket = listenerPtr)
    (hlen : p.events.length ≤ maxEvents) :
    ∃ lists', TCPServer.Hears s.lists lists' p.others ∧
      s.poll p = acceptAll p.accepted { s with lists := lists' } := by
  obtain ⟨lists', hfold, hhears⟩ := TCPServer.handleEvents_hears p.events s.lists false
  rw [hlistener] at hfold hhears
  refine ⟨lists', hhears, ?_⟩
  rw [poll, if_neg (Nat.not_lt.mpr hlen), hfold, Bool.false_or]
  show (if p.announced = true then _ else _) = _
  rw [Polling.accepted]
  split
  · rfl
  · rw [acceptAll]

end PooledServer

/-! ## A run -/

section calls

variable {calls : List ServerCall} {p : Polling} {outcome : SocketPtr → Outcome}

theorem pollings_concat_poll : pollings (calls ++ [.poll p]) = pollings calls ++ [p] := by
  simp [pollings]

theorem pollings_concat_sendAndReceive :
    pollings (calls ++ [.sendAndReceive outcome]) = pollings calls := by
  simp [pollings]

@[simp] theorem acceptedIn_concat_poll :
    acceptedIn (calls ++ [.poll p]) = acceptedIn calls + p.accepted := by
  simp [acceptedIn, pollings_concat_poll]

@[simp] theorem writableIn_concat_poll :
    writableIn (calls ++ [.poll p]) = writableIn calls ∪ p.writable := by
  rw [writableIn, pollings_concat_poll, List.foldl_append]
  rfl

@[simp] theorem listenerFailedIn_concat_poll :
    listenerFailedIn (calls ++ [.poll p]) = (listenerFailedIn calls || p.listenerFailed) := by
  simp [listenerFailedIn, pollings_concat_poll]

theorem Polling.mem_writable {q : SocketPtr} :
    q ∈ p.writable ↔ ∃ event ∈ p.others, event.socket = q ∧ event.writable = true := by
  simp only [Polling.writable, List.mem_toFinset, List.mem_map, List.mem_filter]
  grind

theorem Polling.listenerFailed_iff :
    p.listenerFailed = true ↔
      ∃ event ∈ p.others, event.socket = listenerPtr ∧ event.failed = true := by
  simp only [Polling.listenerFailed, List.any_eq_true, Bool.and_eq_true, beq_iff_eq]
  grind

/-- An event looked at is not about reading from the listener. -/
theorem Polling.readable_others {event : PollEvent} (h : event ∈ p.others) :
    event ∈ p.events ∧ (event.readable = true → event.socket ≠ listenerPtr) := by
  simp only [Polling.others, List.mem_filter, Bool.not_eq_true', Bool.and_eq_false_iff,
    beq_eq_false_iff_ne] at h
  grind

end calls

namespace PooledServer

variable {s s' : PooledServer} {recvCallback : RecvCallback} {calls : List ServerCall}
  {p : Polling} {outcome : SocketPtr → Outcome} {q : SocketPtr}

/-- What the calls have left behind: a block in use and a place in the first list for every
connection, another for a failed listener, and a place in the second for every writable socket. -/
structure Counted (calls : List ServerCall) (s : PooledServer) : Prop where
  listenerSocket : s.lists.listenerSocket = listenerPtr
  wellFormed : s.socketPool.WellFormed
  count : s.socketPool.freeBlocksCount + acceptedIn calls = maxEvents
  nodup_receive : s.lists.receiveSockets.Nodup
  mem_receive : ∀ q, q ∈ s.lists.receiveSockets ↔
    s.Connected q ∨ q = listenerPtr ∧ listenerFailedIn calls = true
  nodup_send : s.lists.sendSockets.Nodup
  mem_send : ∀ q, q ∈ s.lists.sendSockets ↔ q ∈ writableIn calls

theorem counted_create : Counted [] create where
  listenerSocket := rfl
  wellFormed := MemoryPool.wellFormed_create _ _
  count := rfl
  nodup_receive := List.nodup_nil
  mem_receive q := by
    have hnone : ¬ create.Connected q := by
      rintro ⟨i, hi, -⟩
      exact MemoryPool.live_create _ _ i hi
    have hempty : create.lists.receiveSockets = [] := rfl
    simp [hempty, hnone, listenerFailedIn, pollings]
  nodup_send := List.nodup_nil
  mem_send q := by simp [create, TCPServer.create, writableIn, pollings]

/-- Looking at the events and accepting what there is keeps count. -/
theorem Counted.poll {lists' : TCPServer} (h : Counted calls s)
    (hreg : ∀ event ∈ p.events, s.Registered event.socket)
    (hhears : TCPServer.Hears s.lists lists' p.others)
    (haccepts : Accepts p.accepted { s with lists := lists' } s') :
    Counted (calls ++ [.poll p]) s' where
  listenerSocket := (haccepts.listenerSocket.trans hhears.listenerSocket).trans h.listenerSocket
  wellFormed := haccepts.wellFormed
  count := by
    have hbefore := h.count
    have hnew := haccepts.count
    rw [acceptedIn_concat_poll]
    simp only [] at hnew
    omega
  nodup_receive := haccepts.nodup_receive (hhears.nodup_receive h.nodup_receive)
  mem_receive q := by
    rw [haccepts.mem_receive, hhears.mem_receive, h.mem_receive, listenerFailedIn_concat_poll,
      Bool.or_eq_true, Polling.listenerFailed_iff]
    have hsame : Connected { s with lists := lists' } q ↔ s.Connected q := Iff.rfl
    have hmono : s.Connected q → s'.Connected q := haccepts.connected q
    rw [hsame]
    constructor
    · rintro (((hconn | ⟨hq, hfailed⟩) | ⟨event, hmem, rfl, hflag⟩) | ⟨hconn, -⟩)
      · exact .inl (hmono hconn)
      · exact .inr ⟨hq, .inl hfailed⟩
      · -- the event is for a connection's socket, which is there already, or the listener has failed
        obtain ⟨hevents, hreadable⟩ := Polling.readable_others hmem
        rcases hreg event hevents with hq | hconn
        · have hfailed := hflag.resolve_left fun hread => hreadable hread hq
          exact .inr ⟨hq, .inr ⟨event, hmem, hq, hfailed⟩⟩
        · exact .inl (hmono hconn)
      · exact .inl hconn
    · rintro (hconn | ⟨hq, hfailed | ⟨event, hmem, hsocket, hflag⟩⟩)
      · by_cases hold : s.Connected q
        · exact .inl (.inl (.inl hold))
        · exact .inr ⟨hconn, hold⟩
      · exact .inl (.inl (.inr ⟨hq, hfailed⟩))
      · exact .inl (.inr ⟨event, hmem, hsocket.trans hq.symm, .inr hflag⟩)
  nodup_send := by
    rw [haccepts.sendSockets]
    exact hhears.nodup_send h.nodup_send
  mem_send q := by
    rw [haccepts.sendSockets, writableIn_concat_poll, Finset.mem_union, Polling.mem_writable,
      ← h.mem_send]
    exact hhears.mem_send q

/-- `sendAndRecv` changes a socket's buffers only. -/
structure SameSockets (s s' : PooledServer) : Prop where
  lists : s'.lists = s.lists
  count : s'.socketPool.freeBlocksCount = s.socketPool.freeBlocksCount
  live : ∀ i, s'.socketPool.Live i ↔ s.socketPool.Live i
  wellFormed : s.socketPool.WellFormed → s'.socketPool.WellFormed

theorem SameSockets.refl (s : PooledServer) : SameSockets s s := ⟨rfl, rfl, fun _ => Iff.rfl, id⟩

theorem SameSockets.trans {s₁ : PooledServer} (h : SameSockets s s₁) (h' : SameSockets s₁ s') :
    SameSockets s s' where
  lists := h'.lists.trans h.lists
  count := h'.count.trans h.count
  live i := (h'.live i).trans (h.live i)
  wellFormed hwf := h'.wellFormed (h.wellFormed hwf)

theorem sendAndRecv_same (h : sendAndRecv recvCallback outcome s q = .ok s') :
    SameSockets s s' := by
  unfold sendAndRecv at h
  split at h
  · obtain ⟨x, -, h⟩ := except_bind_eq_ok.mp h
    split at h
    · cases h
    · cases h
      exact ⟨rfl, rfl, fun i => MemoryPool.live_set _ _ _ _, fun hwf => hwf.set _ _⟩
  · split at h
    · cases h
    · cases h
      exact ⟨rfl, rfl, fun _ => Iff.rfl, id⟩

theorem sendAndRecvs_same {sockets : List SocketPtr}
    (h : sockets.foldlM (sendAndRecv recvCallback outcome) s = .ok s') : SameSockets s s' := by
  induction sockets generalizing s with
  | nil =>
    cases h
    exact .refl _
  | cons socket sockets ih =>
    rw [List.foldlM_cons] at h
    obtain ⟨s₁, hone, hrest⟩ := except_bind_eq_ok.mp h
    exact (sendAndRecv_same hone).trans (ih hrest)

theorem Counted.sendAndReceive (h : Counted calls s) (hsame : SameSockets s s') :
    Counted (calls ++ [.sendAndReceive outcome]) s' := by
  have hconn : ∀ q, s'.Connected q ↔ s.Connected q := by
    intro q
    simp only [Connected, hsame.live]
  constructor
  · rw [hsame.lists, h.listenerSocket]
  · exact hsame.wellFormed h.wellFormed
  · rw [hsame.count, acceptedIn, pollings_concat_sendAndReceive]
    exact h.count
  · rw [hsame.lists]
    exact h.nodup_receive
  · intro q
    rw [hsame.lists, hconn, listenerFailedIn, pollings_concat_sendAndReceive]
    exact h.mem_receive q
  · rw [hsame.lists]
    exact h.nodup_send
  · intro q
    rw [hsame.lists, writableIn, pollings_concat_sendAndReceive]
    exact h.mem_send q

/-- A call of `poll`, given what has been accepted so far. -/
theorem Counted.poll_cases (h : Counted calls s)
    (hreg : ∀ event ∈ p.events, s.Registered event.socket) (hlen : p.events.length ≤ maxEvents) :
    (acceptedIn calls + p.accepted ≤ maxEvents ∧
        ∃ s', s.poll p = .ok s' ∧ Counted (calls ++ [.poll p]) s') ∨
      maxEvents < acceptedIn calls + p.accepted ∧ s.poll p = .error .nullDereference := by
  obtain ⟨lists', hhears, heq⟩ := poll_eq h.listenerSocket hlen
  have hcount := h.count
  rw [heq]
  rcases Nat.lt_or_ge s.socketPool.freeBlocksCount p.accepted with hlt | hge
  · exact .inr ⟨by omega, acceptAll_null h.wellFormed hlt⟩
  · obtain ⟨s', hok, haccepts⟩ := acceptAll_ok (s := { s with lists := lists' }) h.wellFormed hge
    exact .inl ⟨by omega, s', hok, h.poll hreg hhears haccepts⟩

/-- **What a run leaves behind.** -/
theorem Counted.of_reaches (h : Reaches recvCallback calls s) : Counted calls s := by
  refine (Runs.RunsOf.path (Takes recvCallback) create).induction
    (P := fun calls s => Counted calls s) counted_create ?_ h
  rintro calls c s s' - hcounted ⟨hallows, hcall⟩
  cases c with
  | poll p =>
    have hlen : p.events.length ≤ maxEvents := by
      by_contra hlt
      rw [call, PooledServer.poll, if_pos (Nat.lt_of_not_le hlt)] at hcall
      cases hcall
    rcases hcounted.poll_cases hallows.registered hlen with ⟨-, s₁, hok, h₁⟩ | ⟨-, herror⟩
    · cases hok.symm.trans hcall
      exact h₁
    · cases herror.symm.trans hcall
  | sendAndReceive outcome => exact hcounted.sendAndReceive (sendAndRecvs_same hcall)

theorem length_eq_card {sockets : List SocketPtr} {t : Finset SocketPtr} (h : sockets.Nodup)
    (hmem : ∀ q, q ∈ sockets ↔ q ∈ t) : sockets.length = t.card := by
  have heq : sockets.toFinset = t := by
    ext q
    rw [List.mem_toFinset, hmem]
  rw [← heq, List.toFinset_card_of_nodup h]

/-- **The argument of the event wait**: all that has been accepted and reported, and the
listener. -/
theorem Counted.maxEventsArg_eq (h : Counted calls s) : s.maxEventsArg =
    acceptedIn calls + (writableIn calls).card + (listenerFailedIn calls).toNat + 1 := by
  have hsend : s.lists.sendSockets.length = (writableIn calls).card :=
    length_eq_card h.nodup_send h.mem_send
  have hreceive : s.lists.receiveSockets.length =
      s.connections.card + (listenerFailedIn calls).toNat := by
    have hmem := h.mem_receive
    cases hfailed : listenerFailedIn calls with
    | false =>
      rw [Bool.toNat_false, Nat.add_zero]
      apply length_eq_card h.nodup_receive
      intro q
      rw [hmem, mem_connections]
      simp [hfailed]
    | true =>
      have hnew : listenerPtr ∉ s.connections := by
        rw [mem_connections]
        exact fun hconn => Nat.lt_irrefl _ hconn.lt
      rw [Bool.toNat_true, ← Finset.card_insert_of_notMem hnew]
      apply length_eq_card h.nodup_receive
      intro q
      rw [hmem, Finset.mem_insert, mem_connections, or_comm]
      simp [hfailed]
  have hconns : s.connections.card = acceptedIn calls := by
    have htotal := card_connections h.wellFormed
    have hcount := h.count
    omega
  rw [maxEventsArg, hsend, hreceive, hconns]
  omega

end PooledServer

/-! ## How many connections a server survives -/

/-- A call of `poll` after some calls is within the limits: connections, sockets reported writable
and a failed listener are fewer than `events_` takes, and there is a socket for every connection. -/
structure WithinLimits (calls : List ServerCall) (p : Polling) : Prop where
  sockets :
    acceptedIn calls + (writableIn calls).card + (listenerFailedIn calls).toNat < maxEvents
  connections : acceptedIn calls + p.accepted ≤ maxEvents

namespace PooledServer

variable {s : PooledServer} {recvCallback : RecvCallback} {calls : List ServerCall} {p : Polling}

/-- A call of `poll` in a run goes well exactly when it is within the limits. -/
theorem Counted.pollsSafely_iff (h : Counted calls s) (hreports : s.Reports p) :
    s.PollsSafely p ↔ WithinLimits calls p := by
  have harg := h.maxEventsArg_eq
  have hcases : s.maxEventsArg ≤ maxEvents →
      (s.poll p ≠ .error .nullDereference ↔ acceptedIn calls + p.accepted ≤ maxEvents) := by
    intro hle
    rcases h.poll_cases hreports.registered (hreports.length_le.trans hle) with
      ⟨hroom, s', hok, -⟩ | ⟨hfull, hnull⟩
    · rw [hok]
      exact ⟨fun _ => hroom, fun _ hnull => by cases hnull⟩
    · exact ⟨fun hne => absurd hnull hne, fun hroom => absurd hroom (Nat.not_le.mpr hfull)⟩
  constructor
  · rintro ⟨hle, hne⟩
    exact ⟨by omega, (hcases hle).mp hne⟩
  · rintro ⟨hlt, hroom⟩
    have hle : s.maxEventsArg ≤ maxEvents := by omega
    exact ⟨hle, (hcases hle).mpr hroom⟩

/-- **The connections a server survives.** Every call of `poll` in a run asks for no more events
than `events_` takes and gets a socket for every connection, exactly when every one is within the
limits. -/
theorem connections_survived_iff (recvCallback : RecvCallback) (calls : List ServerCall) :
    Survives recvCallback calls ↔
      ∀ pre p post s, calls = pre ++ .poll p :: post → Reaches recvCallback pre s → s.Reports p →
        WithinLimits pre p := by
  constructor
  · intro h pre p post s heq hreaches hreports
    exact ((Counted.of_reaches hreaches).pollsSafely_iff hreports).mp
      (h pre p post s heq hreaches hreports)
  · intro h pre p post s heq hreaches hreports
    exact ((Counted.of_reaches hreaches).pollsSafely_iff hreports).mpr
      (h pre p post s heq hreaches hreports)

/-- With as many connections as there are sockets, the next call asks for one event more than
`events_` takes. -/
theorem too_many_connections :
    ¬ ∀ (recvCallback : RecvCallback) (calls : List ServerCall), Survives recvCallback calls := by
  intro h
  have hreports : ∀ n, create.Reports (.arriving n) := by
    intro n
    refine ⟨?_, Nat.le_refl _⟩
    intro event hevent
    cases List.mem_singleton.mp hevent
    exact .inl rfl
  rcases counted_create.poll_cases (p := .arriving maxEvents) (hreports _).registered (by decide)
    with ⟨-, s, hok, hcounted⟩ | ⟨hfull, -⟩
  · have hsafe := h (fun bytes _ => (bytes, [])) [.poll (.arriving maxEvents), .poll ⟨[], 0⟩]
      [.poll (.arriving maxEvents)] ⟨[], 0⟩ [] s rfl ⟨s, ⟨hreports _, hok⟩, rfl⟩
      ⟨(List.forall_mem_nil _), Nat.zero_le _⟩
    have harg := hcounted.maxEventsArg_eq
    have hle := hsafe.maxEvents_le
    have haccepted : acceptedIn [.poll (.arriving maxEvents)] = maxEvents := by decide
    rw [List.nil_append, haccepted] at harg
    omega
  · exact absurd hfull (by decide)

end PooledServer

end HftSys
