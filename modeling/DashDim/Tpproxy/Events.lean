import DashDim.Lib.Run
import DashDim.Tpproxy.World

/-!
# Events of the multipath proxy

What the objects of the multipath proxy do in an event: a new plain connection or path, a
descriptor that can be read or written or is hung up, the alarm of a server, and the
deletion of an object that has posted it. An event comes with what the system answers.

An event of a descriptor is for an object that has it open. It has the flags for reading
(`EPOLLIN`), writing (`EPOLLOUT`), and that the other end has hung up (one of `EPOLLRDHUP`,
`EPOLLHUP` and, where the code looks at it, `EPOLLERR`); that of a plain connection only
if its peer has closed. A handler is a list of parts, one for each flag, in the order of
the code.
-/

namespace DashDim

namespace Mpproxy

namespace World

/-! ## Closing -/

/-- `OnWriteEvent` of a connection -/
def connectionOnWriteEvent (c : ℕ) (w : World) : World :=
  (w.updateConnection c (.onWriteEvent w.nextCall.flush)).popCall

/-- `Notify` of a server, by a connection. -/
def notifyServer (s c : ℕ) (signal : ProxySignal) (w : World) : Except Fault World := do
  let x ← w.useServer s
  match signal, x.role with
  | .proxyClose, _ => w.updateServer s (.proxyClose c)
  | .proxyDstConnected, .serverLeft =>
    w.updateServer s (.dstConnected (fun c => (w.connections c).isConnected) c)
  | .proxyConnected, .serverLeft => w.updateServer s (.proxyConnected c)
  | _, .serverRight => .ok w

/-- `CloseEntity` of a connection -/
def connectionCloseEntity (c : ℕ) (w : World) : Except Fault World := do
  let w := w.updateConnection c .setEntityClosed
  let w ← (match (w.connections c).server with
    | none => .ok w
    | some s => w.notifyServer s c .proxyClose)
  .ok (w.updateConnection c .detach)

/-- `CheckCloseEntity` of a connection -/
def connectionCheckCloseEntity (c : ℕ) (w : World) : Except Fault World :=
  let x := w.connections c
  if x.entityWaitClose ∧ x.fdReadBuffer.length = 0 then w.connectionCloseEntity c else .ok w

/-- `Notify(PROXY_CLOSE)` of a connection, by its server. -/
def notifyClose (c : ℕ) (w : World) : Except Fault World := do
  let _ ← w.useConnection c
  .ok (w.updateConnection c .proxyClose)

/-- `CloseEntity` of a server -/
def serverCloseEntity (s : ℕ) (w : World) : Except Fault World := do
  let w ← w.updateServer s .setEntityClosed
  let w ← (w.servers s).readyList.foldlM (fun w c => w.notifyClose c) w
  w.updateServer s .clearReadyList

/-- `CheckCloseEntity` of a server -/
def serverCheckCloseEntity (s : ℕ) (w : World) : Except Fault World :=
  let x := w.servers s
  if x.entityWaitClose ∧ x.fdReadBuffer.length = 0 then w.serverCloseEntity s else .ok w

/-! ## Messages and data -/

/-- What `SendData` and `WriteMessage` do when the frame is in the write buffer. -/
@[irreducible] def writeFrame (c : ℕ) (frame : Option (Bytes × TcpConnection)) (w : World) :
    Except Fault World :=
  match frame with
  | none => .error .packet
  | some (_, base) =>
    let w := w.updateConnection c (.setWriteBuffer base.fdWriteBuffer)
    if (w.connections c).isConnected then .ok (w.connectionOnWriteEvent c) else .ok w

/-- `WriteMessage` -/
def writeMessage (c : ℕ) (type : UInt8) (data : Bytes) (w : World) : Except Fault World :=
  w.writeFrame c
    ({ (w.connections c).toTcpConnection with isConnected := false }.writeMessage [] type data)

/-- `SendData`, by the server -/
def sendData (c : ℕ) (offset : UInt64) (pv : Bytes) (w : World) : Except Fault World := do
  let x ← w.useConnection c
  if ¬x.fd > 0 then .error .fd
  else w.writeFrame c ({ x.toTcpConnection with isConnected := false }.sendData [] offset pv)

/-- `SendDstConnectMessage` -/
def sendDstConnectMessage (c : ℕ) (w : World) : Except Fault World :=
  if (w.connections c).dstConnectMsgSent then .ok w
  else do
    let w ← w.writeMessage c proxyMessageOriginConnected []
    .ok ((w.connectionOnWriteEvent c).updateConnection c ({ · with dstConnectMsgSent := true }))

/-- `Notify(PROXY_CONNECTED)` of a connection, by its server. -/
def notifyConnected (c : ℕ) (w : World) : Except Fault World := do
  let x ← w.useConnection c
  match x.role with
  | .connectionLeft => w.sendDstConnectMessage c
  | .connectionRight => .ok w

/-- The session and origin as `WriteMetaData` writes them, and whether they could be
    written. -/
@[irreducible] def metaData (uuid sid : UInt64) (originDst : UInt32 × UInt16) : Bool × Bytes :=
  let (success, writer) := writeAll [(DataWriter.writeVarInt62 · uuid),
    (DataWriter.writeVarInt62 · sid), (DataWriter.writeUInt32 · originDst.1),
    (DataWriter.writeUInt16 · originDst.2)] (DataWriter.new (List.replicate kBufferSize 0))
  (success, writer.written)

/-- `WriteMetaData` -/
def writeMetaData (c : ℕ) (w : World) : Except Fault World := do
  let x := w.connections c
  let written := metaData x.uuid x.sid (x.originDst.getD (0, 0))
  let w ← w.writeMessage c proxyMessageMeta written.2
  if written.1 then .ok w else .error .packet

/-- `SendDataWithLimit`, for a number of rounds -/
def sendDataLoop (s c : ℕ) : ℕ → Bytes → World → Except Fault World
  | 0, _, w => .ok w
  | rounds + 1, pv, w =>
    if pv.length > 0 then do
      let sent := min pv.length kMaxPacketLength
      let w ← w.sendData c (w.servers s).writeOffset (pv.take sent)
      let w ← w.updateServer s (.pass (pv.take sent))
      sendDataLoop s c rounds (pv.drop sent) w
    else .ok w

/-- The loops of `Schedule` over the connections with room: what remains of the data. -/
def scheduleLoop (s : ℕ) (share : ℕ → ℕ → ℕ) : List ℕ → Bytes → World →
    Except Fault (Bytes × World)
  | [], data, w => .ok (data, w)
  | [c], data, w => do
    let w ← w.sendDataLoop s c data.length data
    .ok ([], w)
  | c :: c' :: connections, data, w =>
    if data.length > 0 then do
      let target := max (share c data.length) kMinPayloadSize
      let sent := min target data.length
      let w ← w.sendDataLoop s c sent (data.take sent)
      scheduleLoop s share (c' :: connections) (data.drop sent) w
    else .ok (data, w)

/-- `Schedule` -/
def schedule (s : ℕ) (share : ℕ → ℕ → ℕ) (w : World) : Except Fault World := do
  let x := w.servers s
  let connections := x.readyList.filter fun c => !(w.connections c).isBufferAboveThreshold
  if connections = [] then .ok w
  else
    let (remain, w) ← w.scheduleLoop s share connections x.fdReadBuffer
    w.updateServer s ({ · with fdReadBuffer := remain })

/-! ## Reading from paths -/

/-- `RecvData` of a server, by a connection -/
def recvData (s : ℕ) (offset : UInt64) (pv : Bytes) (w : World) : Except Fault World := do
  let _ ← w.useServer s
  let w' ← w.updateServer s (.recvData w.nextCall offset pv)
  .ok w'.popCall

/-- A connection gets a server, that may have been made for it, and `Register`s. -/
def join (c s : ℕ) (w : World) : Except Fault World := do
  let x ← w.useServer s
  let w ← (w.updateConnection c (.joined s)).updateServer s (.register c)
  if x.isConnected then w.notifyConnected c else .ok w

/-- A server of a new session: it is made, the connection joins it, and it is registered
    if it starts to connect; else the connection closes. -/
def createServer (c : ℕ) (uuid sid : UInt64) (originDst : OriginDst) (w : World) :
    Except Fault World := do
  let start := w.starts.headD .noSocket
  let w := { w with starts := w.starts.tail }
  if start = .noSocket then .ok w
  else
    let s := w.serverCount
    let w ← (w.newServer (.newRight uuid sid originDst)).join c s
    if start = .failed then
      let w ← w.updateServer s .abandon
      (w.updateConnection c .closeFd).connectionCloseEntity c
    else
      let w ← w.updateServer s .started
      match w.uuidSessions.regsiterSink s uuid sid with
      | .error e => .error e
      | .ok sessions => .ok { w with uuidSessions := sessions }

/-- What `ParseMessage` reads of a first message after its type, and `success`: a number that
    cannot be read is `0`, as those after it, and the address then is not set. -/
def readMeta (data : Bytes) : UInt64 × UInt64 × OriginDst × Bool :=
  let reader := (DataReader.readUInt8 (DataReader.new data)).2
  match DataReader.readVarInt62 reader with
  | (none, _) => (0, 0, none, false)
  | (some uuid, reader) =>
    match DataReader.readVarInt62 reader with
    | (none, _) => (uuid, 0, none, false)
    | (some sid, reader) =>
      match DataReader.readUInt32 reader with
      | (none, _) => (uuid, sid, none, false)
      | (some ip, reader) =>
        match DataReader.readUInt16 reader with
        | (none, _) => (uuid, sid, some (ip, 0), false)
        | (some port, _) => (uuid, sid, some (ip, port), true)

/-- `TcpConnectionLeft::ParseMessage` -/
def parseMessageLeft (c : ℕ) (data : Bytes) (w : World) : Except Fault World :=
  if data.head? = some proxyMessageMeta ∧ (w.connections c).uuid = 0 then
    -- the address is used whether the reads succeeded or not
    let (uuid, sid, originDst, _) := readMeta data
    let w := w.updateConnection c ({ · with uuid := uuid })
    match w.uuidSessions.find uuid sid with
    | some s => w.join c s
    | none => w.createServer c uuid sid originDst
  else .ok w

/-- `TcpConnectionRight::ParseMessage` -/
def parseMessageRight (c : ℕ) (data : Bytes) (w : World) : Except Fault World := do
  let x := w.connections c
  let w ← (if data.head? = some proxyMessageOriginConnected ∧ x.originConnected = false then
      let w := w.updateConnection c ({ · with originConnected := true })
      match x.server with
      | none => .ok w
      | some s => w.notifyServer s c .proxyDstConnected
    else .ok w)
  if data.head? = some proxyMessageOriginFail then
    (w.updateConnection c .closeFd).connectionCloseEntity c
  else .ok w

/-- `ParseMessage`, by the role of the connection. -/
def parseMessage (c : ℕ) (data : Bytes) (w : World) : Except Fault World :=
  match (w.connections c).role with
  | .connectionLeft => w.parseMessageLeft c data
  | .connectionRight => w.parseMessageRight c data

/-- Handing on the data of a frame, to the server the connection has. -/
def recvFrame (c : ℕ) (offset : UInt64) (pv : Bytes) (w : World) : Except Fault World :=
  match (w.connections c).server with
  | none => .error .server
  | some s => w.recvData s offset pv

/-- What a connection hands its frames to, up to a failure. -/
def receiver (c : ℕ) : Receiver (Except Fault World) where
  attached x :=
    match x with
    | .ok w => (w.connections c).server.isSome
    | .error _ => true
  recvData offset pv x := x >>= fun w => w.recvFrame c offset pv
  parseMessage _ pv x := x >>= fun w => w.parseMessage c pv
  checkCloseEntity x := x >>= fun w =>
    (w.updateConnection c (.setReadBuffer [])).connectionCheckCloseEntity c

/-- `Deliver` -/
def deliver (c : ℕ) (w : World) : Except Fault World :=
  match (receiver c).deliver (w.connections c).fdReadBuffer (.ok w) with
  | none => .error .server
  | some (remain, x) => x.map fun w => w.updateConnection c (.setReadBuffer remain)

/-- `OnReadEvent` of a connection: a descriptor that is closed cannot be read. -/
def connectionOnReadEvent (c : ℕ) (reads : List ReadResult) (w : World) : Except Fault World := do
  let x := w.connections c
  let reads := if x.fd > 0 then reads else []
  let data := ReadResult.bytes reads
  let w := w.updateConnection c (.setReadBuffer (x.fdReadBuffer ++ data))
  let w ← (if ReadResult.eof ∈ reads then
      if x.fdWriteBuffer.length = 0 then .ok (w.updateConnection c .closeFd)
      else .error .writeBuffer
    else .ok w)
  let w ← (if data = [] then .ok w else w.deliver c)
  if (w.connections c).fdClosed ∧ (w.connections c).fdReadBuffer.length ≠ 0 then
    .error .readBuffer
  else .ok w

/-! ## Events of connections -/

/-- What a handler of a descriptor does for one of the flags of an event. -/
inductive ConnectionPart
  | readable (reads : List ReadResult)
  | writable
  | hangup
  deriving DecidableEq, Repr

/-- A connection that is readable, writable or hung up. -/
def connectionPart (c : ℕ) (part : ConnectionPart) (w : World) : Except Fault World :=
  match part, (w.connections c).role with
  | .readable reads, _ => w.connectionOnReadEvent c reads
  | .writable, .connectionLeft => .ok (w.connectionOnWriteEvent c)
  | .writable, .connectionRight => do
    let w ← (if (w.connections c).connecting then do
        let w ← (w.updateConnection c ({ · with isConnected := true, connecting := false })
          ).writeMetaData c
        match (w.connections c).server with
        | none => .ok w
        | some s => w.notifyServer s c .proxyConnected
      else .ok w)
    .ok (w.connectionOnWriteEvent c)
  | .hangup, .connectionLeft => do
    let w ← w.deliver c
    let w ← (w.updateConnection c .closeFd).connectionCheckCloseEntity c
    if (w.connections c).fdWriteBuffer.length = 0 then .ok w else .error .writeBuffer
  | .hangup, .connectionRight => do
    let w ← (w.updateConnection c .closeFd).connectionCloseEntity c
    if (w.connections c).fdWriteBuffer.length = 0 then .ok w else .error .writeBuffer

/-- The parts of a handler for the flags of an event: a `TcpConnectionRight` looks at the
    hangup first, a `TcpConnectionLeft` last. -/
def connectionParts (role : ConnectionRole) (input output hup : Bool) (reads : List ReadResult) :
    List ConnectionPart :=
  let readable := if input then [.readable reads] else []
  let writable := if output then [.writable] else []
  let hangup := if hup then [.hangup] else []
  match role with
  | .connectionLeft => readable ++ writable ++ hangup
  | .connectionRight => hangup ++ writable ++ readable

/-! ## Events of servers -/

/-- The parts of an event of a server. -/
inductive ServerPart
  | readable (target : ℤ) (reads : List ℕ)
  | writable
  | hangup
  deriving DecidableEq, Repr

/-- `OnReadEvent` of a server, with the budget that is left -/
def serverOnReadEvent (s : ℕ) (target : ℤ) (reads : List ℕ) (w : World) : Except Fault World :=
  if target < 0 then .ok w
  else do
    let w ← w.updateServer s (.readLoop target reads 0)
    w.serverCheckCloseEntity s

/-- `OnWriteEvent` of a server -/
def serverOnWriteEvent (s : ℕ) (w : World) : Except Fault World := do
  let w' ← w.updateServer s (.onWriteEvent w.nextCall.flush)
  .ok w'.popCall

/-- A server that is readable, writable or hung up: a `TpServerRight` closes its entity
    when it is hung up, a `TpServerLeft` only if it waits for that. -/
def serverPart (s : ℕ) (part : ServerPart) (w : World) : Except Fault World :=
  match part, (w.servers s).role with
  | .readable target reads, _ => w.serverOnReadEvent s target reads
  | .writable, .serverLeft => w.serverOnWriteEvent s
  | .writable, .serverRight => do
    let w ← (if (w.servers s).connecting then do
        let w ← w.updateServer s .connected
        (w.servers s).readyList.foldlM (fun w c => w.notifyConnected c) w
      else .ok w)
    w.serverOnWriteEvent s
  | .hangup, .serverLeft => do
    let w ← w.updateServer s .closeFd
    w.serverCheckCloseEntity s
  | .hangup, .serverRight => do
    let w ← w.updateServer s .closeFd
    w.serverCloseEntity s

/-- The parts of a handler for the flags of an event: a `TpServerLeft` looks at the hangup
    first, a `TpServerRight` last. -/
def serverParts (role : ServerRole) (input output hup : Bool) (target : ℤ) (reads : List ℕ) :
    List ServerPart :=
  let readable := if input then [.readable target reads] else []
  let writable := if output then [.writable] else []
  let hangup := if hup then [.hangup] else []
  match role with
  | .serverLeft => hangup ++ readable ++ writable
  | .serverRight => writable ++ readable ++ hangup

/-- `OnBudgetAlarm` of a server, with the budget there is then. It looks at all of its
    connections. -/
def serverOnBudgetAlarm (s : ℕ) (target : ℤ) (reads : List ℕ) (share : ℕ → ℕ → ℕ) (w : World) :
    Except Fault World := do
  let x := w.servers s
  if x.readyList.any fun c => (w.connections c).freed then .error .deleted
  else
    let bufferFull := x.readyList.all fun c => (w.connections c).isBufferAboveThreshold
    let w ← (if x.fd > 0 ∧ bufferFull = false then w.serverOnReadEvent s target reads else .ok w)
    let w ← (if (w.servers s).fdReadBuffer.length > 0 then w.schedule s share else .ok w)
    if (w.servers s).fdClosed then w.serverCheckCloseEntity s else .ok w

/-! ## New objects -/

/-- One round of `CreateConnections` -/
def createConnection (s : ℕ) (uuid sid : UInt64) (originDst : OriginDst) (w : World)
    (start : SocketStart) : Except Fault World :=
  if start = .noSocket then .ok w
  else
    let c := w.connectionCount
    let w := w.newConnection (.newRight s uuid sid originDst)
    if start = .failed then .ok (w.updateConnection c .abandon)
    else (w.updateConnection c ({ · with connecting := true })).updateServer s fun x =>
      { x with waitList := x.waitList ++ [c] }

/-- `TpClientBackend::CreateEndpoint`: a `TpServerLeft` for a plain connection, with a
    connection for each address. -/
def createEndpoint (originDst : OriginDst) (starts : List SocketStart) (w : World) :
    Except Fault World := do
  let s := w.serverCount
  let uuid := w.uuid
  let sid := w.sid
  let w := { w with sid := sid + 1 }.newServer (.newLeft originDst)
  if starts.length = 0 then .error .addresses
  else if originDst = none then w.updateServer s .abandon
  else
    let w ← w.updateServer s ({ · with isConnected := true })
    let w ← starts.foldlM (createConnection s uuid sid originDst) w
    if (w.servers s).waitList.length = 0 then do
      let w ← w.updateServer s .closeFd
      w.serverCloseEntity s
    else .ok w

/-- `TpServerBackend::CreateEndpoint`: a `TcpConnectionLeft` for a path. -/
def acceptPath (w : World) : World := w.newConnection .newLeft

/-! ## Steps -/

/-- The events, with what the system answers. -/
inductive Event
  | createEndpoint (originDst : OriginDst) (starts : List SocketStart)
  | acceptPath
  | connection (c : ℕ) (input output hup : Bool) (reads : List ReadResult)
  | server (s : ℕ) (input output hup : Bool) (target : ℤ) (reads : List ℕ)
  | budgetAlarm (s : ℕ) (target : ℤ) (reads : List ℕ) (share : ℕ → ℕ → ℕ)
  | deleteConnection (c : ℕ)
  | deleteServer (s : ℕ)
  | peerSends (s : ℕ) (data : Bytes)
  | peerCloses (s : ℕ)

/-- What happens in an event: that of a closed descriptor is none, nor is an alarm that a
    server does not have, or the deletion of an object that has not posted it. -/
def handle (w : World) : Event → Except Fault World
  | .createEndpoint originDst starts => w.createEndpoint originDst starts
  | .acceptPath => .ok w.acceptPath
  | .connection c input output hup reads =>
    if (w.connections c).fd > 0 then
      (connectionParts (w.connections c).role input output hup reads).foldlM
        (fun w part => w.connectionPart c part) w
    else .ok w
  | .server s input output hup target reads =>
    if (w.servers s).fd > 0 then
      (serverParts (w.servers s).role input output (hup && (w.servers s).peerClosed) target
        reads).foldlM (fun w part => w.serverPart s part) w
    else .ok w
  | .budgetAlarm s target reads share =>
    if (w.servers s).budgetAlarm = true ∧ (w.servers s).freed = false then
      w.serverOnBudgetAlarm s target reads share
    else .ok w
  | .deleteConnection c =>
    .ok (w.updateConnection c fun x => { x with freed := x.freed || x.destroyed })
  | .deleteServer s =>
    w.updateServer s fun x => { x with freed := x.freed || x.destroyed }
  | .peerSends s data =>
    w.updateServer s fun x =>
      if x.fd > 0 ∧ x.peerClosed = false then
        { x with queue := x.queue ++ data, peerSent := x.peerSent ++ data }
      else x
  | .peerCloses s => w.updateServer s ({ · with peerClosed := true })

/-- An event, with the answers to the functions that send, and to sockets that are made
    for sessions. -/
structure Input where
  event : Event
  calls : List SendCall := []
  starts : List SocketStart := []

/-- One input: an event with the answers of the calls it makes. -/
def step (w : World) (i : Input) : Except Fault World :=
  { w with calls := i.calls, starts := i.starts }.handle i.event

/-- Nothing is made yet. -/
def empty (uuid : UInt64) : World where
  connections _ := { SocketBase.new (-1) with
    role := .connectionLeft, fdClosed := true, entityWaitClose := true }
  servers _ := { SocketBase.new (-1) with
    role := .serverLeft, fdClosed := true, entityWaitClose := true }
  connectionCount := 0
  serverCount := 0
  uuidSessions := ∅
  uuid := uuid
  sid := 1
  calls := []
  starts := []

/-- The runs of the proxy in which each step is of some kind. -/
def system (allowed : World → Input → Prop) : System World where
  init w := ∃ uuid, w = empty uuid
  step w w' := ∃ i, allowed w i ∧ w.step i = .ok w'

/-- What a run of inputs reaches, if they are of the kind. -/
theorem reachable_of_run {allowed : World → Input → Prop} {w w' : World} {inputs : List Input}
    (hallowed : ∀ i ∈ inputs, ∀ w, allowed w i) (h : (system allowed).Reachable w)
    (hrun : inputs.foldlM step w = .ok w') : (system allowed).Reachable w' := by
  have hstep : ∀ i ∈ inputs, ∀ w w', step w i = .ok w' → (system allowed).step w w' :=
    fun i hi w _ hw => ⟨i, hallowed i hi w, hw⟩
  exact h.run hstep hrun

/-- One more input of a run, in the state it is for. -/
theorem reachable_of_step {allowed : World → Input → Prop} {w₀ w w' : World} {inputs : List Input}
    {i : Input} (h : (system allowed).Reachable w) (hallowed : allowed w i)
    (hrun : inputs.foldlM step w₀ = .ok w) (hnext : (inputs ++ [i]).foldlM step w₀ = .ok w') :
    (system allowed).Reachable w' := by
  rw [List.foldlM_append, hrun, ok_bind, List.foldlM_cons] at hnext
  cases hi : w.step i with
  | error e =>
    rw [hi] at hnext
    cases hnext
  | ok w₁ =>
    rw [hi] at hnext
    cases hnext
    exact h.step ⟨i, hallowed, hi⟩

end World

end Mpproxy

end DashDim
