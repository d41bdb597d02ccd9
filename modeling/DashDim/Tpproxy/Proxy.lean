import DashDim.Tcp.Types
import DashDim.Tpproxy.Socket

/-!
# The transparent proxy

`TpProxyLeft` and `TpProxyRight` of `tpproxy/tpproxy_server.cc` relay a plain connection:
what one of them reads the other sends. When one closes, the other is told, forgets it,
and closes in turn once it has sent what it has.

The two ends of a connection are a `Pair`. An event comes with what `read()` returns, the
budget for reading (`target`, never negative), and what the calls of `sendData` and
`flushBuffer` are answered. A failed check throws out of the event loop.

* `sendData_content`, `flushBuffer_content`: no byte is lost or repeated.
-/

namespace DashDim

namespace TpProxy

/-- The size of a buffer that is full. -/
def kWriteBufferThreshold : ℕ := 1500 * 5

/-- The checks that may fail. -/
inductive CheckFailure
  /-- a closed descriptor has nothing to write -/
  | pending
  /-- who reads data has a peer -/
  | peer
  deriving DecidableEq, Repr

/-- An end: whether its descriptor is open, the bytes to write and those `send()` took,
    whether it has a peer, was told that the peer closed, and has an alarm for reading. -/
structure TpProxyBase where
  fdOpen : Bool := true
  status : TcpConnectionStatus := .tcpDisconnect
  fdWriteBuffer : Bytes := []
  sent : Bytes := []
  peer : Bool := false
  signalClose : Bool := false
  readBudgetAlarm : Bool := false
  destroyed : Bool := false
  deriving DecidableEq, Repr

namespace TpProxyBase

/-- `FlushBuffer`; a closed descriptor with bytes pending is the failed `CHECK`. -/
def flushBuffer (answers : List SendAnswer) (e : TpProxyBase) : Except CheckFailure TpProxyBase :=
  if e.fdOpen then
    let (out, remain) := TcpConnection.flushLoop answers e.fdWriteBuffer
    .ok { e with fdWriteBuffer := remain, sent := e.sent ++ out }
  else if e.fdWriteBuffer = [] then .ok e
  else .error .pending

/-- What cannot be sent waits, after what waits already. -/
def sendData (call : SendCall) (pv : Bytes) (e : TpProxyBase) : Except CheckFailure TpProxyBase :=
  if e.fdOpen = false then .ok e
  else if e.status = .tcpConnected then
    match e.flushBuffer call.flush with
    | .error err => .error err
    | .ok e =>
      if e.fdWriteBuffer.length > 0 then .ok { e with fdWriteBuffer := e.fdWriteBuffer ++ pv }
      else
        let sent := min call.direct pv.length
        .ok { e with fdWriteBuffer := pv.drop sent, sent := e.sent ++ pv.take sent }
  else .ok { e with fdWriteBuffer := e.fdWriteBuffer ++ pv }

/-- `IsBufferAboveThreshold`. -/
def isBufferAboveThreshold (e : TpProxyBase) : Bool :=
  e.fdWriteBuffer.length ≥ kWriteBufferThreshold

/-- `CloseFd` of an end, but for telling its peer. -/
def close (e : TpProxyBase) : TpProxyBase :=
  { e with
    fdOpen := false
    status := if e.fdOpen then .tcpDisconnect else e.status
    peer := false
    destroyed := true }

/-- `Notify` with `TPPROXY_CLOSE`: without a peer, closing tells nobody. -/
def notifyClose (e : TpProxyBase) : TpProxyBase :=
  let e := { e with peer := false, signalClose := true }
  if e.fdWriteBuffer = [] then e.close else e

/-- What `send()` took, followed by what waits. -/
def content (e : TpProxyBase) : Bytes := e.sent ++ e.fdWriteBuffer

theorem flushBuffer_content {answers : List SendAnswer} {e e' : TpProxyBase}
    (h : e.flushBuffer answers = .ok e') : e'.fdOpen = e.fdOpen ∧ e'.content = e.content := by
  rw [flushBuffer] at h
  split_ifs at h
  · cases h
    refine ⟨rfl, ?_⟩
    dsimp only [content]
    rw [List.append_assoc, TcpConnection.flushLoop_eq]
  · cases h
    exact ⟨rfl, rfl⟩

theorem sendData_content {call : SendCall} {pv : Bytes} {e e' : TpProxyBase}
    (hopen : e.fdOpen = true) (h : e.sendData call pv = .ok e') :
    e'.fdOpen = true ∧ e'.content = e.content ++ pv := by
  rw [sendData, if_neg (by rw [hopen]; decide)] at h
  split_ifs at h
  · split at h
    · cases h
    · next e₁ hflush =>
      obtain ⟨hopen₁, hcontent⟩ := flushBuffer_content hflush
      rw [content] at hcontent
      split_ifs at h with hlen
      · cases h
        refine ⟨hopen₁.trans hopen, ?_⟩
        rw [content, ← List.append_assoc, hcontent]
      · cases h
        have hnil := List.length_eq_zero_iff.1 (Nat.eq_zero_of_not_pos hlen)
        rw [hnil, List.append_nil] at hcontent
        refine ⟨hopen₁.trans hopen, ?_⟩
        rw [content, List.append_assoc, List.take_append_drop, hcontent]
  · cases h
    refine ⟨hopen, ?_⟩
    rw [content, content, List.append_assoc]

theorem flushBuffer_isOk {e : TpProxyBase} (hopen : e.fdOpen = true)
    (answers : List SendAnswer) : ∃ e', e.flushBuffer answers = .ok e' := by
  rw [flushBuffer, if_pos hopen]
  exact ⟨_, rfl⟩

/-- Sending what is passed in fails no check: a closed end ignores it. -/
theorem sendData_isOk (call : SendCall) (pv : Bytes) (e : TpProxyBase) :
    ∃ e', e.sendData call pv = .ok e' := by
  rw [sendData]
  split_ifs with hclosed hconn
  · exact ⟨e, rfl⟩
  · rw [flushBuffer, if_pos (Bool.of_not_eq_false hclosed)]
    dsimp only
    split_ifs
    · exact ⟨_, rfl⟩
    · exact ⟨_, rfl⟩
  · exact ⟨_, rfl⟩

end TpProxyBase

/-! ## The two ends -/

/-- The two ends of a proxy. -/
inductive Side
  | left
  | right
  deriving DecidableEq, Repr

namespace Side

/-- The peer's side. -/
def other : Side → Side
  | left => right
  | right => left

@[simp] theorem other_ne (x : Side) : x.other ≠ x := by
  cases x <;> decide

end Side

/-- The ends of a connection, and what the calls that send will be answered. -/
structure Pair where
  ends : Side → TpProxyBase
  calls : List SendCall

namespace Pair

/-- Writes an end. -/
def set (x : Side) (e : TpProxyBase) (p : Pair) : Pair :=
  { p with ends := Function.update p.ends x e }

@[simp] theorem set_ends_self (x : Side) (e : TpProxyBase) (p : Pair) : (p.set x e).ends x = e := by
  simp [set]

@[simp] theorem set_other_ends (x : Side) (e : TpProxyBase) (p : Pair) :
    (p.set x.other e).ends x = p.ends x :=
  Function.update_of_ne x.other_ne.symm _ _

/-- The answers of the next call that sends. -/
def nextCall (p : Pair) : SendCall := p.calls.headD {}

/-- The answers of the next call. -/
def popCall (p : Pair) : Pair := { p with calls := p.calls.tail }

@[simp] theorem popCall_ends (p : Pair) : p.popCall.ends = p.ends := rfl

/-- `CloseFd` -/
def closeFd (x : Side) (p : Pair) : Pair :=
  let closed := p.set x (p.ends x).close
  if (p.ends x).peer then closed.set x.other (p.ends x.other).notifyClose else closed

/-- `CheckCloseFd`: closes once the signal is set and nothing is pending. -/
def checkCloseFd (x : Side) (p : Pair) : Pair :=
  if (p.ends x).signalClose = true ∧ (p.ends x).fdWriteBuffer = [] then p.closeFd x else p

/-- The loop of `OnReadEvent`; reading a closed descriptor fails. -/
def readLoop (x : Side) (target : ℕ) : List ReadResult → ℕ → Pair → Except CheckFailure Pair
  | [], _, p => .ok p
  | .eof :: _, _, p => .ok (p.closeFd x)
  | .data first rest :: reads, readBytes, p =>
    if (p.ends x).peer then
      match (p.ends x.other).sendData p.nextCall (first :: rest) with
      | .error e => .error e
      | .ok e =>
        let readBytes := readBytes + (first :: rest).length
        let p := (p.set x.other e).popCall
        if readBytes ≥ target then .ok p else readLoop x target reads readBytes p
    else .error .peer

/-- `OnReadEvent`. -/
def onReadEvent (x : Side) (target : ℕ) (reads : List ReadResult) (p : Pair) :
    Except CheckFailure Pair :=
  if (p.ends x).fdOpen then p.readLoop x target reads 0 else .ok p

/-- `OnWriteEvent`. -/
def onWriteEvent (x : Side) (p : Pair) : Except CheckFailure Pair :=
  match (p.ends x).flushBuffer p.nextCall.flush with
  | .error e => .error e
  | .ok e => .ok ((p.set x e).popCall.checkCloseFd x)

/-- `CreateReadAlarm`. -/
def createReadAlarm (x : Side) (p : Pair) : Pair :=
  p.set x { p.ends x with readBudgetAlarm := true }

/-- The socket of the right end can be written for the first time: it is connected, and
    tells the left end. -/
def onConnected (p : Pair) : Pair :=
  if (p.ends .right).status = .tcpConnecting then
    let p := (p.set .right { p.ends .right with status := .tcpConnected }).createReadAlarm .right
    if (p.ends .right).peer then p.createReadAlarm .left else p
  else p

/-- `OnEvent`: the right end closes when its peer hangs up, the left one when it reads
    the end of the stream. -/
def onEvent (x : Side) (input output hup : Bool) (target : ℕ) (reads : List ReadResult)
    (p : Pair) : Except CheckFailure Pair :=
  let p := if x = .right ∧ hup = true then p.closeFd x else p
  match if input then p.onReadEvent x target reads else .ok p with
  | .error e => .error e
  | .ok p =>
    if output then (if x = .right then p.onConnected else p).onWriteEvent x else .ok p

/-- `OnReadBudgetAlarm` -/
def onReadBudgetAlarm (x : Side) (target : ℕ) (reads : List ReadResult) (p : Pair) :
    Except CheckFailure Pair :=
  let bufferFull := (p.ends x).peer && (p.ends x.other).isBufferAboveThreshold
  match if bufferFull = false ∧ (p.ends x).status = .tcpConnected then
    p.onReadEvent x target reads else .ok p with
  | .error e => .error e
  | .ok p => .ok (p.checkCloseFd x)

/-! ## Runs -/

/-- How far the left end gets with making the right one. -/
inductive Start
  | noOrigin
  | noSocket
  | noConnection
  | started
  deriving DecidableEq, Repr

/-- The constructor of the left end. -/
def start : Start → Pair
  | .noOrigin | .noSocket => closeFd .left ⟨fun
    | .left => {}
    | .right => { fdOpen := false, destroyed := true }, []⟩
  | .noConnection => closeFd .left (closeFd .right ⟨fun
    | .left => { peer := true }
    | .right => {}, []⟩)
  | .started => ⟨fun
    | .left => { peer := true, status := .tcpConnected }
    | .right => { peer := true, status := .tcpConnecting }, []⟩

/-- What happens to the ends. -/
inductive Event
  | onEvent (x : Side) (input output hup : Bool) (target : ℕ) (reads : List ReadResult)
  | readBudgetAlarm (x : Side) (target : ℕ) (reads : List ReadResult)
  | delete (x : Side)

/-- Handling an event. A descriptor that is closed has none, an object that was deleted
    no alarm. -/
def handle (p : Pair) : Event → Except CheckFailure Pair
  | .onEvent x input output hup target reads =>
    if (p.ends x).fdOpen then p.onEvent x input output hup target reads else .ok p
  | .readBudgetAlarm x target reads =>
    if (p.ends x).readBudgetAlarm then p.onReadBudgetAlarm x target reads else .ok p
  | .delete x =>
    if (p.ends x).destroyed then .ok (p.set x { p.ends x with readBudgetAlarm := false })
    else .ok p

/-- A step of a run: an event, and what the calls that send are answered. -/
def step (p : Pair) (e : Event × List SendCall) : Except CheckFailure Pair :=
  handle { p with calls := e.2 } e.1

end Pair

end TpProxy

end DashDim
