import DashDim.Tcp.Types
import DashDim.Tpproxy.Server
import DashDim.Tpproxy.Sessions
import DashDim.Tpproxy.Socket

/-!
# Servers and connections of the multipath proxy

The objects of the multipath proxy, as in `tpproxy/mpproxy_types.cc`, `mpproxy_client.cc`
and `mpproxy_server.cc`. A server (`TpServerLeft` at the client, `TpServerRight` at the
server) has the descriptor of the plain connection, a connection (`TcpConnectionRight` and
`TcpConnectionLeft`) that of a path. A server has lists of its connections, and these
point back to it.

Objects are numbered, and a pointer is a number. An object that is deleted may not be used
any more. What the system answers is part of the world: what `send()` takes (`calls`), and
whether sockets can be made and start to connect (`starts`); a connection that starts is
one that does not fail at once. A server keeps what its peer has sent and is not read yet,
and all of the bytes it was sent and has passed on, for the theorems to speak of.

Left out are the addresses of the paths, the goodput and the alarms that measure it, and
the exit of the process.
-/

namespace DashDim

namespace Mpproxy

/-! ## Messages and signals -/

/-- The first message of a connection. -/
def proxyMessageMeta : UInt8 := 1

/-- The message that the origin is connected. -/
def proxyMessageOriginConnected : UInt8 := 2

/-- The message that the origin could not be reached. -/
def proxyMessageOriginFail : UInt8 := 3

/-- The signals to a server. Those that a connection or the origin failed are never
    sent. -/
inductive ProxySignal
  | proxyConnected
  | proxyClose
  | proxyDstConnected
  deriving DecidableEq, Repr

/-! ## Objects -/

/-- `ConnectionRole`. -/
inductive ConnectionRole
  | connectionLeft
  | connectionRight
  deriving DecidableEq, Repr

/-- `ServerRole`. -/
inductive ServerRole
  | serverLeft
  | serverRight
  deriving DecidableEq, Repr

/-- The address and port of the plain connection's origin; none if they are not known. -/
abbrev OriginDst := Option (UInt32 × UInt16)

/-- A connection. The session is that of a `TcpConnectionRight`, or what a
    `TcpConnectionLeft` has got (`uuid`). `rejoined` is whether it was given a server when
    it had another one, or was closed by it. -/
structure TcpConnectionBase extends SocketBase where
  role : ConnectionRole
  server : Option ℕ := none
  uuid : UInt64 := 0
  sid : UInt64 := 0
  originDst : OriginDst := none
  originConnected : Bool := false
  dstConnectMsgSent : Bool := false
  rejoined : Bool := false

/-- A server: its connections, the offset of what it sends next, and its sequencer;
    whether it is connected to the origin and has its alarm; its session and origin. A
    `TpServerRight` has no list of connections that wait: it is empty. Then what its peer
    has sent, and closed, and what was passed to the connections; whether it was
    registered, and whether its last connection closed when its descriptor was closed
    with something to write. -/
structure TpServerBase extends SocketBase where
  role : ServerRole
  readyList : List ℕ := []
  waitList : List ℕ := []
  writeOffset : UInt64 := kReserveOffset
  sequencer : SequencerBuffer := .new
  originConnected : Bool := false
  budgetAlarm : Bool := false
  uuid : UInt64 := 0
  sid : UInt64 := 0
  originDst : OriginDst := none
  queue : Bytes := []
  peerSent : Bytes := []
  peerClosed : Bool := false
  passed : Bytes := []
  registered : Bool := false
  stranded : Bool := false

/-- The constructor of a `TcpConnectionLeft`. A descriptor may be any positive number. -/
def TcpConnectionBase.newLeft : TcpConnectionBase :=
  { SocketBase.new 1 with role := .connectionLeft, isConnected := true }

/-- The constructor of a `TcpConnectionRight`. -/
def TcpConnectionBase.newRight (s : ℕ) (uuid sid : UInt64) (originDst : OriginDst) :
    TcpConnectionBase :=
  { SocketBase.new 1 with
    role := .connectionRight, server := some s, uuid := uuid, sid := sid, originDst := originDst }

/-- The constructor of a `TpServerLeft`, as far as it makes no connections. -/
def TpServerBase.newLeft (originDst : OriginDst) : TpServerBase :=
  { SocketBase.new 1 with role := .serverLeft, originDst := originDst }

/-- The constructor of a `TpServerRight`. -/
def TpServerBase.newRight (uuid sid : UInt64) (originDst : OriginDst) : TpServerBase :=
  { SocketBase.new 1 with role := .serverRight, uuid := uuid, sid := sid, originDst := originDst }

/-- The connections of a server. -/
def TpServerBase.connections (x : TpServerBase) : List ℕ := x.readyList ++ x.waitList

/-- How a socket is made and starts to connect: there is none, it fails, or it does. -/
inductive SocketStart
  | noSocket
  | failed
  | started
  deriving DecidableEq, Repr

/-- The objects made so far, the sessions of the server, those of the client, and the
    answers the system has yet to give in the handler that runs. -/
structure World where
  connections : ℕ → TcpConnectionBase
  servers : ℕ → TpServerBase
  connectionCount : ℕ
  serverCount : ℕ
  uuidSessions : UuidSessions
  uuid : UInt64
  sid : UInt64
  calls : List SendCall
  starts : List SocketStart

namespace World

/-- A connection does something of its own. -/
def updateConnection (c : ℕ) (f : TcpConnectionBase → TcpConnectionBase) (w : World) : World :=
  { w with connections := Function.update w.connections c (f (w.connections c)) }

/-- Writes a server. -/
def setServer (s : ℕ) (x : TpServerBase) (w : World) : World :=
  { w with servers := Function.update w.servers s x }

/-- A server does something of its own. If it has posted its deletion thereby, then a
    `TpServerRight` takes itself out of the registry: this is its `DeleteSelf`. -/
def updateServer (s : ℕ) (f : TpServerBase → TpServerBase) (w : World) : Except Fault World :=
  let old := w.servers s
  let new := f old
  if new.role = .serverRight ∧ old.destroyed = false ∧ new.destroyed = true then
    match w.uuidSessions.unRegsiterSink new.uuid new.sid with
    | .error e => .error e
    | .ok sessions => .ok { w.setServer s new with uuidSessions := sessions }
  else .ok (w.setServer s new)

section update

variable (w : World) (c s : ℕ) (f : TcpConnectionBase → TcpConnectionBase) (x : TpServerBase)

@[simp] theorem updateConnection_self :
    (w.updateConnection c f).connections c = f (w.connections c) := Function.update_self ..

theorem updateConnection_ne {c' : ℕ} (hne : c' ≠ c) :
    (w.updateConnection c f).connections c' = w.connections c' := Function.update_of_ne hne ..

@[simp] theorem updateConnection_servers : (w.updateConnection c f).servers = w.servers := rfl

@[simp] theorem setServer_self : (w.setServer s x).servers s = x := Function.update_self ..

theorem setServer_ne {s' : ℕ} (hne : s' ≠ s) : (w.setServer s x).servers s' = w.servers s' :=
  Function.update_of_ne hne ..

end update

section updateServer

variable {w : World} {s : ℕ} {f : TpServerBase → TpServerBase}

/-- A server that does not post its deletion. -/
theorem updateServer_eq (h : (f (w.servers s)).destroyed = (w.servers s).destroyed) :
    w.updateServer s f = .ok (w.setServer s (f (w.servers s))) := by
  rw [updateServer, if_neg]
  rintro ⟨-, hold, hnew⟩
  rw [h, hold] at hnew
  exact Bool.false_ne_true hnew

/-- What holds of a server that has done something, whatever becomes of the registry. -/
theorem updateServer_outcome {P : World → Prop} {E : Fault → Prop} (hE : E .registry)
    (h : ∀ sessions, P { w.setServer s (f (w.servers s)) with uuidSessions := sessions }) :
    Outcome P E (w.updateServer s f) := by
  rw [updateServer]
  split_ifs
  · split
    · next e he =>
      obtain ⟨rfl, -⟩ := UuidSessions.unRegsiterSink_eq_error he
      exact hE
    · exact h _
  · exact h w.uuidSessions

end updateServer

/-- An object is used by another one. -/
def useConnection (c : ℕ) (w : World) : Except Fault TcpConnectionBase :=
  if (w.connections c).freed then .error .deleted else .ok (w.connections c)

/-- A server that is called; a deleted one is the use of freed memory. -/
def useServer (s : ℕ) (w : World) : Except Fault TpServerBase :=
  if (w.servers s).freed then .error .deleted else .ok (w.servers s)

/-- The answers to the next function that sends. -/
def nextCall (w : World) : SendCall := w.calls.headD {}

/-- The answers of the next call. -/
def popCall (w : World) : World := { w with calls := w.calls.tail }

/-- An object is made. -/
def newConnection (x : TcpConnectionBase) (w : World) : World :=
  { w with connectionCount := w.connectionCount + 1 }.updateConnection w.connectionCount fun _ => x

/-- A server at the next free place. -/
def newServer (x : TpServerBase) (w : World) : World :=
  { w with serverCount := w.serverCount + 1 }.setServer w.serverCount x

end World

/-! ## What servers do by themselves -/

namespace TpServerBase

/-- `CloseFd` of a server. -/
def closeFd (x : TpServerBase) : TpServerBase := { x with toSocketBase := x.toSocketBase.closeFd }

/-- `OnWriteEvent` of a server. -/
def onWriteEvent (answers : List SendAnswer) (x : TpServerBase) : TpServerBase :=
  { x with toSocketBase := x.toSocketBase.onWriteEvent answers }

/-- `RecvData` -/
def recvData (call : SendCall) (offset : UInt64) (pv : Bytes) (x : TpServerBase) : TpServerBase :=
  let (buffer, sequencer) := DashDim.recvData offset pv x.sequencer
  let x := { x with sequencer := sequencer }
  if buffer = [] then x
  else { x with toSocketBase := x.toSocketBase.writeDataToFd call buffer }

/-- What the data of a frame changes: what is read of it goes to the write buffer, unless
    the descriptor is closed. -/
theorem recvData_eq (call : SendCall) (offset : UInt64) (pv : Bytes) (x : TpServerBase) :
    ∃ sequencer wb sent, x.recvData call offset pv =
      { x with sequencer := sequencer, fdWriteBuffer := wb, sent := sent } ∧
      (x.fd < 0 → wb = x.fdWriteBuffer) := by
  dsimp only [recvData]
  split_ifs
  · exact ⟨_, x.fdWriteBuffer, x.sent, rfl, fun _ => rfl⟩
  · obtain ⟨wb, sent, heq⟩ :=
      x.toSocketBase.writeDataToFd_eq call (DashDim.recvData offset pv x.sequencer).1
    refine ⟨(DashDim.recvData offset pv x.sequencer).2, wb, sent, by rw [heq], fun hfd => ?_⟩
    rw [SocketBase.writeDataToFd_of_closed call _ hfd] at heq
    exact (congrArg (·.fdWriteBuffer) heq).symm

/-- The loop of `OnReadEvent`, for how much each `read()` returns: of what the peer has
    sent, the end of the stream when there is nothing more, or that there is nothing now.
    The descriptor is closed at the end of the stream, and cannot be read then. -/
def readLoop (target : ℤ) : List ℕ → ℕ → TpServerBase → TpServerBase
  | [], _, x => x
  | n :: reads, readBytes, x =>
    if ¬x.fd > 0 then x
    else if x.queue = [] then if x.peerClosed then x.closeFd else x
    else
      let nbytes := min (max n 1) (min kBufferSize x.queue.length)
      let x := { x with
        fdReadBuffer := x.fdReadBuffer ++ x.queue.take nbytes
        queue := x.queue.drop nbytes }
      let readBytes := readBytes + nbytes
      if (readBytes : ℤ) ≥ target then x else readLoop target reads readBytes x

/-- A descriptor that is closed is not read. -/
theorem readLoop_of_closed (target : ℤ) (reads : List ℕ) (readBytes : ℕ) {x : TpServerBase}
    (hfd : ¬x.fd > 0) : readLoop target reads readBytes x = x := by
  cases reads with
  | nil => rfl
  | cons n reads => rw [readLoop, if_pos hfd]

/-- What `OnReadEvent` reads goes from what the peer has sent to the read buffer, and the
    descriptor is closed only if that is all, and the peer has closed. -/
theorem readLoop_eq (target : ℤ) (reads : List ℕ) (readBytes : ℕ) (x : TpServerBase) :
    ∃ rb queue, rb ++ queue = x.fdReadBuffer ++ x.queue ∧
      (readLoop target reads readBytes x = { x with fdReadBuffer := rb, queue := queue } ∨
        x.fd > 0 ∧ x.peerClosed = true ∧ queue = [] ∧
          readLoop target reads readBytes x =
            { x with fdReadBuffer := rb, queue := queue }.closeFd) := by
  induction reads generalizing readBytes x with
  | nil => exact ⟨x.fdReadBuffer, x.queue, rfl, .inl rfl⟩
  | cons n reads ih =>
    rw [readLoop]
    split_ifs with hfd hqueue hpeer
    · exact ⟨x.fdReadBuffer, x.queue, rfl, .inr ⟨hfd, hpeer, hqueue, rfl⟩⟩
    · exact ⟨x.fdReadBuffer, x.queue, rfl, .inl rfl⟩
    · dsimp only
      have hall : (x.fdReadBuffer ++ x.queue.take (min (max n 1) (min kBufferSize x.queue.length)))
          ++ x.queue.drop (min (max n 1) (min kBufferSize x.queue.length)) =
          x.fdReadBuffer ++ x.queue := by
        rw [List.append_assoc, List.take_append_drop]
      split_ifs
      · exact ⟨_, _, hall, .inl rfl⟩
      · obtain ⟨rb, queue, heq, hloop⟩ := ih
          (readBytes + min (max n 1) (min kBufferSize x.queue.length))
          { x with
            fdReadBuffer := x.fdReadBuffer ++
              x.queue.take (min (max n 1) (min kBufferSize x.queue.length))
            queue := x.queue.drop (min (max n 1) (min kBufferSize x.queue.length)) }
        exact ⟨rb, queue, heq.trans hall, hloop⟩
    · exact ⟨x.fdReadBuffer, x.queue, rfl, .inl rfl⟩

/-- Data was passed to a connection. -/
def pass (pv : Bytes) (x : TpServerBase) : TpServerBase :=
  { x with writeOffset := x.writeOffset + UInt64.ofNat pv.length, passed := x.passed ++ pv }

/-- `Register`, but for the signal -/
def register (c : ℕ) (x : TpServerBase) : TpServerBase :=
  { x with readyList := x.readyList.erase c ++ [c], budgetAlarm := true }

/-- `RemoveFromWaitList`, and if the connection was there, it is ready. -/
def makeReady (c : ℕ) (x : TpServerBase) : TpServerBase :=
  if c ∈ x.waitList then
    { x with waitList := x.waitList.erase c, readyList := x.readyList ++ [c] }
  else x

/-- `Notify(PROXY_DST_CONNECTED)`: those that wait and are connected are ready too. -/
def dstConnected (isConnected : ℕ → Bool) (c : ℕ) (x : TpServerBase) : TpServerBase :=
  let x := x.makeReady c
  { x with
    waitList := x.waitList.filter fun c => !isConnected c
    readyList := x.readyList ++ x.waitList.filter isConnected
    originConnected := true
    budgetAlarm := x.budgetAlarm || !x.originConnected }

/-- `Notify(PROXY_CONNECTED)` -/
def proxyConnected (c : ℕ) (x : TpServerBase) : TpServerBase :=
  if x.originConnected then x.makeReady c else x

/-- `Notify(PROXY_CLOSE)`: with its last connection, the server closes what is written. -/
def proxyClose (c : ℕ) (x : TpServerBase) : TpServerBase :=
  let x := { x with waitList := x.waitList.erase c, readyList := x.readyList.erase c }
  if x.waitList.length = 0 ∧ x.readyList.length = 0 then
    let x := { x with
      stranded := x.stranded || x.fdClosed && !x.fdWriteBuffer.isEmpty
      fdWaitClose := true
      entityClosed := true }
    { x with toSocketBase := x.toSocketBase.checkCloseFd }
  else x

/-- `CloseEntity`, with what is done for each connection before and after it. -/
def setEntityClosed (x : TpServerBase) : TpServerBase := { x with entityClosed := true }

/-- The end of `CloseEntity`: no connection is ready, and the server may now be deleted. -/
def clearReadyList (x : TpServerBase) : TpServerBase :=
  { x with readyList := [], toSocketBase := x.toSocketBase.checkToDeleteSelf }

/-- The plain connection is established. -/
def connected (x : TpServerBase) : TpServerBase :=
  { x with isConnected := true, connecting := false }

/-- A server starts to connect, and is put into the registry. -/
def started (x : TpServerBase) : TpServerBase := { x with connecting := true, registered := true }

/-- A server that fails to start: `CloseFd` and `DeleteSelf`. -/
def abandon (x : TpServerBase) : TpServerBase :=
  { x with toSocketBase := x.toSocketBase.closeFd.deleteSelf }

/-! ### The connections of a server -/

section connections

variable (x : TpServerBase) (c : ℕ)

@[simp] theorem makeReady_toSocketBase : (x.makeReady c).toSocketBase = x.toSocketBase := by
  rw [makeReady]
  split_ifs <;> rfl

@[simp] theorem makeReady_stranded : (x.makeReady c).stranded = x.stranded := by
  rw [makeReady]
  split_ifs <;> rfl

@[simp] theorem dstConnected_toSocketBase (isConnected : ℕ → Bool) :
    (x.dstConnected isConnected c).toSocketBase = x.toSocketBase := x.makeReady_toSocketBase c

@[simp] theorem dstConnected_stranded (isConnected : ℕ → Bool) :
    (x.dstConnected isConnected c).stranded = x.stranded := x.makeReady_stranded c

@[simp] theorem proxyConnected_toSocketBase :
    (x.proxyConnected c).toSocketBase = x.toSocketBase := by
  rw [proxyConnected]
  split_ifs
  · exact x.makeReady_toSocketBase c
  · rfl

@[simp] theorem proxyConnected_stranded : (x.proxyConnected c).stranded = x.stranded := by
  rw [proxyConnected]
  split_ifs
  · exact x.makeReady_stranded c
  · rfl

/-- A connection that is ready is a connection still. -/
theorem connections_makeReady : (x.makeReady c).connections.Perm x.connections := by
  rw [makeReady]
  split_ifs with hmem
  · rw [connections, connections, List.append_assoc, List.singleton_append]
    exact (List.perm_cons_erase hmem).symm.append_left x.readyList
  · exact List.Perm.refl _

theorem connections_dstConnected (isConnected : ℕ → Bool) :
    (x.dstConnected isConnected c).connections.Perm x.connections := by
  have hsplit : ((x.makeReady c).waitList.filter isConnected ++
      (x.makeReady c).waitList.filter fun c => !isConnected c).Perm (x.makeReady c).waitList :=
    List.filter_append_perm isConnected _
  refine List.Perm.trans ?_ (x.connections_makeReady c)
  rw [connections, connections, dstConnected]
  dsimp only
  rw [List.append_assoc]
  exact hsplit.append_left _

theorem connections_proxyConnected : (x.proxyConnected c).connections.Perm x.connections := by
  rw [proxyConnected]
  split_ifs
  · exact x.connections_makeReady c
  · exact List.Perm.refl _

theorem mem_connections_register {c' : ℕ} :
    c' ∈ (x.register c).connections ↔ c' = c ∨ c' ∈ x.connections := by
  rw [connections, connections, register]
  dsimp only
  rw [List.append_assoc, List.mem_append, List.singleton_append, List.mem_cons, List.mem_append]
  by_cases hc : c' = c
  · exact ⟨fun _ => .inl hc, fun _ => .inr (.inl hc)⟩
  · rw [List.mem_erase_of_ne hc]
    tauto

theorem connections_proxyClose :
    (x.proxyClose c).connections = x.readyList.erase c ++ x.waitList.erase c := by
  rw [proxyClose]
  dsimp only
  split_ifs
  · rfl
  · rfl

theorem mem_connections_proxyClose {c' : ℕ} (hc : c' ≠ c) :
    c' ∈ (x.proxyClose c).connections ↔ c' ∈ x.connections := by
  rw [connections_proxyClose, connections, List.mem_append, List.mem_append,
    List.mem_erase_of_ne hc, List.mem_erase_of_ne hc]

end connections

end TpServerBase

/-! ## What connections do by themselves -/

namespace TcpConnectionBase

/-- `CloseFd` of a connection. -/
def closeFd (x : TcpConnectionBase) : TcpConnectionBase :=
  { x with toSocketBase := x.toSocketBase.closeFd }

/-- `OnWriteEvent` of a connection. -/
def onWriteEvent (answers : List SendAnswer) (x : TcpConnectionBase) : TcpConnectionBase :=
  { x with toSocketBase := x.toSocketBase.onWriteEvent answers }

/-- `Notify(PROXY_CLOSE)` -/
def proxyClose (x : TcpConnectionBase) : TcpConnectionBase :=
  let x := { x with fdWaitClose := true, entityClosed := true, server := none }
  { x with toSocketBase := x.toSocketBase.checkCloseFd }

/-- `CloseEntity`, before and after the server is told. -/
def setEntityClosed (x : TcpConnectionBase) : TcpConnectionBase := { x with entityClosed := true }

/-- The server forgotten; the connection may now be deleted. -/
def detach (x : TcpConnectionBase) : TcpConnectionBase :=
  { x with server := none, toSocketBase := x.toSocketBase.checkToDeleteSelf }

/-- A connection that fails to start: `CloseFd` and `DeleteSelf`. -/
def abandon (x : TcpConnectionBase) : TcpConnectionBase :=
  { x with toSocketBase := x.toSocketBase.closeFd.deleteSelf }

/-- A `TcpConnectionLeft` gets its server. -/
def joined (s : ℕ) (x : TcpConnectionBase) : TcpConnectionBase :=
  { x with
    server := some s
    rejoined := x.rejoined || x.fdWaitClose || x.entityClosed ||
      (x.server.isSome && x.server != some s) }

/-- The bytes that `SendData` and `WriteMessage` put into the write buffer. -/
def setWriteBuffer (wb : Bytes) (x : TcpConnectionBase) : TcpConnectionBase :=
  { x with fdWriteBuffer := wb }

/-- Writes what is read but not parsed. -/
def setReadBuffer (rb : Bytes) (x : TcpConnectionBase) : TcpConnectionBase :=
  { x with fdReadBuffer := rb }

end TcpConnectionBase

end Mpproxy

end DashDim
