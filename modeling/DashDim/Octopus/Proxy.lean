import DashDim.Lib.Run
import DashDim.Octopus.Base
import DashDim.Octopus.Session

/-!
# Hands and dispatchers

The octopus proxy relays a plain connection over a connection between its two halves,
as in `octopus/octopus_base.cc`. A dispatcher (`OctopusDispatcher`) has the socket of
the plain connection, a hand (`OctopusHand`) a socket to the other half. A hand of a
client sends a first message with the session, and gets one byte for an answer; one of
a server gets a dispatcher when it has this message. The two signal each other when
something is connected or closed.

Objects are numbered, and a pointer is a number; which of a set of pointers comes first
is not known. An object is deleted after the handler that asks for it, but an alarm may
go off before. What the system answers comes with an event: what is read and how much
may be, what `send()` takes, and whether a session is in the table of the manager, a
socket is bound, and a connection can start; a connection that starts is one that does
not fail at once. The exit of the process is left out.
-/

namespace DashDim

namespace Octopus

/-- `OctopusHandRole`. -/
inductive OctopusHandRole
  | handClient
  | handServer
  deriving DecidableEq, Repr

/-- `OctopusDispatcherRole`. -/
inductive OctopusDispatcherRole
  | dispatcherClient
  | dispatcherServer
  deriving DecidableEq, Repr

/-- A hand; the flags are the bits of `msg_flag_`, and `outBwAlarm` whether it has an
    alarm. -/
structure OctopusHand extends OctopusBase where
  role : OctopusHandRole
  dispatcher : Option ℕ
  metaFlag : Bool := false
  metaAckFlag : Bool := false
  spFlag : Bool := true
  waitClose : Bool := false
  outBwAlarm : Bool := false

/-- The constructor. -/
def OctopusHand.new (role : OctopusHandRole) (dispatcher : Option ℕ) : OctopusHand :=
  { role := role, dispatcher := dispatcher
    status := if role = .handServer then .connConnected else .connConnecting }

/-- A hand that has executed `ConnClose`. -/
def OctopusHand.closed (hand : OctopusHand) : OctopusHand :=
  { hand with
    toOctopusBase := { hand.closeFd.deleteSelf with status := .connDisconn }
    dispatcher := none }

/-- A hand is connected when its socket can be written. -/
def OctopusHand.writable (hand : OctopusHand) : OctopusHand :=
  if hand.status = .connConnecting then { hand with status := .connConnected } else hand

/-- A dispatcher; `registered` is whether its socket is, and `socketAlarm` whether it has
    an alarm. -/
structure OctopusDispatcher extends OctopusBase where
  role : OctopusDispatcherRole
  uuid : OctopusSessionKey
  waitHands : List ℕ := []
  readyHands : List ℕ := []
  waitClose : Bool := false
  registered : Bool := false
  socketAlarm : Bool := false

/-- The constructor. -/
def OctopusDispatcher.new (role : OctopusDispatcherRole) (uuid : OctopusSessionKey) :
    OctopusDispatcher :=
  { role := role, uuid := uuid
    status := if role = .dispatcherClient then .connConnected else .connConnecting }

/-- The hands and dispatchers made so far, and the answers `send()` has yet to give in
    the handler that runs. -/
structure World where
  hands : ℕ → OctopusHand
  dispatchers : ℕ → OctopusDispatcher
  handCount : ℕ
  dispatcherCount : ℕ
  answers : List ℕ

namespace World

/-- Writes a hand. -/
def setHand (h : ℕ) (hand : OctopusHand) (w : World) : World :=
  { w with hands := Function.update w.hands h hand }

/-- Writes a dispatcher. -/
def setDispatcher (d : ℕ) (dispatcher : OctopusDispatcher) (w : World) : World :=
  { w with dispatchers := Function.update w.dispatchers d dispatcher }

/-- `send()` will give these answers. -/
def setAnswers (answers : List ℕ) (w : World) : World := { w with answers := answers }

/-- An object is made. -/
def newHand (hand : OctopusHand) (w : World) : World :=
  { w with handCount := w.handCount + 1 }.setHand w.handCount hand

/-- A dispatcher at the next free place. -/
def newDispatcher (dispatcher : OctopusDispatcher) (w : World) : World :=
  { w with dispatcherCount := w.dispatcherCount + 1 }.setDispatcher w.dispatcherCount dispatcher

section update

variable (w : World) (h d : ℕ) (hand hand' : OctopusHand)
  (dispatcher dispatcher' : OctopusDispatcher)

@[simp] theorem setHand_hands_self : (w.setHand h hand).hands h = hand := by
  simp [setHand]

@[simp] theorem setHand_hands_ne {h' : ℕ} (hne : h' ≠ h) :
    (w.setHand h hand).hands h' = w.hands h' := by
  simp [setHand, hne]

@[simp] theorem setHand_dispatchers : (w.setHand h hand).dispatchers = w.dispatchers := rfl

@[simp] theorem setHand_self : w.setHand h (w.hands h) = w := by
  simp [setHand]

@[simp] theorem setHand_dispatcherCount :
    (w.setHand h hand).dispatcherCount = w.dispatcherCount := rfl

@[simp] theorem setHand_setHand :
    (w.setHand h hand).setHand h hand' = w.setHand h hand' := by
  simp [setHand]

@[simp] theorem newHand_hands_self : (w.newHand hand).hands w.handCount = hand := by
  simp [newHand]

@[simp] theorem setDispatcher_dispatchers_self :
    (w.setDispatcher d dispatcher).dispatchers d = dispatcher := by
  simp [setDispatcher]

@[simp] theorem setDispatcher_dispatchers_ne {d' : ℕ} (hne : d' ≠ d) :
    (w.setDispatcher d dispatcher).dispatchers d' = w.dispatchers d' := by
  simp [setDispatcher, hne]

@[simp] theorem setDispatcher_hands : (w.setDispatcher d dispatcher).hands = w.hands := rfl

@[simp] theorem setDispatcher_setDispatcher :
    (w.setDispatcher d dispatcher).setDispatcher d dispatcher' =
      w.setDispatcher d dispatcher' := by
  simp [setDispatcher]

theorem setHand_setDispatcher : (w.setHand h hand).setDispatcher d dispatcher =
    (w.setDispatcher d dispatcher).setHand h hand := rfl

theorem setHand_newDispatcher : (w.setHand h hand).newDispatcher dispatcher =
    (w.newDispatcher dispatcher).setHand h hand := rfl

theorem setAnswers_setHand (answers : List ℕ) : (w.setAnswers answers).setHand h hand =
    (w.setHand h hand).setAnswers answers := rfl

@[simp] theorem newDispatcher_dispatchers_self :
    (w.newDispatcher dispatcher).dispatchers w.dispatcherCount = dispatcher := by
  simp [newDispatcher]

@[simp] theorem newDispatcher_setDispatcher :
    (w.newDispatcher dispatcher).setDispatcher w.dispatcherCount dispatcher' =
      w.newDispatcher dispatcher' := by
  simp [newDispatcher]

end update

/-! ## Closing -/

/-- `OctopusHand::ConnClose` of a hand whose dispatcher does not know it any more. -/
def detachedClose (h : ℕ) (w : World) : World := w.setHand h (w.hands h).closed

/-- The byte a server hand answers the first message with. -/
def metaAckType (code : OctopusSignalCode) : UInt8 :=
  if code = .sigDstConnected then octopusMsgDstConnected else octopusMsgDstFailed

/-- `SendMetaAck`: the byte is sent once, and lost if the socket takes none. -/
def sendMetaAck (h : ℕ) (code : OctopusSignalCode) (w : World) : World :=
  let hand := w.hands h
  if hand.fdOpen = true ∧ hand.metaAckFlag = false then
    (w.setHand h { hand with
      metaAckFlag := true
      sent := hand.sent ++ [metaAckType code].take (min 1 (w.answers.headD 0)) }).setAnswers
        w.answers.tail
  else w

/-- A server hand tells whether its dispatcher is connected, or could not connect; then
    it closes. -/
def signalDst (h : ℕ) (code : OctopusSignalCode) (w : World) : World :=
  if (w.hands h).role = .handServer ∧ (code = .sigDstFailed ∨ code = .sigDstConnected) then
    let w := w.sendMetaAck h code
    if code = .sigDstFailed then w.detachedClose h else w
  else w

/-- A hand lets its dispatcher go, and closes when it has nothing to send. -/
def signalDisconn (h : ℕ) (w : World) : World :=
  let w := w.setHand h { w.hands h with dispatcher := none, waitClose := true }
  if (w.hands h).wb = [] then w.detachedClose h else w

/-- `OctopusHand::SignalFrom` -/
def handSignalFrom (h : ℕ) (code : OctopusSignalCode) (w : World) : World :=
  let w := w.signalDst h code
  if code = .sigConnDisconn then w.signalDisconn h else w

/-- A signal to some hands. -/
def signalHands (code : OctopusSignalCode) (hands : List ℕ) (w : World) : World :=
  hands.foldl (fun w h => w.handSignalFrom h code) w

/-- A signal to all hands of a dispatcher. -/
def signalAll (d : ℕ) (code : OctopusSignalCode) (w : World) : World :=
  let w := w.signalHands code (w.dispatchers d).waitHands
  w.signalHands code (w.dispatchers d).readyHands

/-- `OctopusDispatcher::ConnClose` -/
def dispatcherConnClose (d : ℕ) (code : OctopusSignalCode) (w : World) : World :=
  let w := w.signalAll d code
  let dispatcher := w.dispatchers d
  w.setDispatcher d { dispatcher with
    toOctopusBase := { dispatcher.closeFd.deleteSelf with status := .connDisconn }
    waitHands := []
    readyHands := []
    registered := false }

/-- A hand of a client is ready when the other half is connected. -/
def addReady (d h : ℕ) (w : World) : World :=
  let dispatcher := w.dispatchers d
  w.setDispatcher d { dispatcher with
    waitHands := dispatcher.waitHands.filter (· ≠ h)
    readyHands := dispatcher.readyHands.insert h
    socketAlarm := true }

/-- A dispatcher lets a hand go. With its last hand it closes, if it has nothing to
    send. -/
def dropHand (d h : ℕ) (w : World) : World :=
  let dispatcher := w.dispatchers d
  let dispatcher := { dispatcher with
    waitHands := dispatcher.waitHands.filter (· ≠ h)
    readyHands := dispatcher.readyHands.filter (· ≠ h) }
  if dispatcher.waitHands = [] ∧ dispatcher.readyHands = [] then
    let w := w.setDispatcher d { dispatcher with waitClose := true }
    if dispatcher.wb = [] then w.dispatcherConnClose d .sigConnDisconn else w
  else w.setDispatcher d dispatcher

/-- `OctopusDispatcher::SignalFrom` -/
def dispatcherSignalFrom (d h : ℕ) (code : OctopusSignalCode) (w : World) : World :=
  let w := if (w.dispatchers d).role = .dispatcherClient ∧ code = .sigDstConnected then
    w.addReady d h else w
  if code = .sigConnFailed ∨ code = .sigConnDisconn then w.dropHand d h else w

/-- `OctopusHand::ConnClose` -/
def handConnClose (h : ℕ) (code : OctopusSignalCode) (w : World) : World :=
  let w := match (w.hands h).dispatcher with
    | none => w
    | some d => w.dispatcherSignalFrom d h code
  w.detachedClose h

/-! ## Data -/

/-- `OctopusHand::Sink` -/
def handSink (h : ℕ) (pv : Bytes) (w : World) : Except CheckFailure World :=
  let hand := w.hands h
  match hand.sink w.answers pv with
  | .error e => .error e
  | .ok (base, answers) =>
    .ok ((w.setHand h { hand with toOctopusBase := base, outBwAlarm := true }).setAnswers answers)

/-- `FlushBuffer` of a hand. -/
def handFlushBuffer (h : ℕ) (w : World) : Except CheckFailure World :=
  let hand := w.hands h
  match hand.flushBuffer w.answers with
  | .error e => .error e
  | .ok (base, answers) =>
    .ok ((w.setHand h { hand with toOctopusBase := base }).setAnswers answers)

/-- `OctopusDispatcher::Sink` -/
def dispatcherSink (d : ℕ) (pv : Bytes) (w : World) : Except CheckFailure World :=
  let dispatcher := w.dispatchers d
  match dispatcher.sink w.answers pv with
  | .error e => .error e
  | .ok (base, answers) =>
    .ok ((w.setDispatcher d { dispatcher with toOctopusBase := base }).setAnswers answers)

/-- `FlushBuffer` of a dispatcher. -/
def dispatcherFlushBuffer (d : ℕ) (w : World) : Except CheckFailure World :=
  let dispatcher := w.dispatchers d
  match dispatcher.flushBuffer w.answers with
  | .error e => .error e
  | .ok (base, answers) =>
    .ok ((w.setDispatcher d { dispatcher with toOctopusBase := base }).setAnswers answers)

/-! ## The first message -/

/-- What a server hand finds when it has the first message: the dispatcher of the
    session, or whether it can bind a socket and start to connect it. -/
structure Answer where
  found : Option ℕ
  bound : Bool
  connected : Bool

/-- The first message: its type, whether the session has one path, and its key. -/
def metaMessage (spFlag : Bool) (uuid : OctopusSessionKey) : Bytes :=
  (writeAll [(DataWriter.writeUInt8 · octopusMsgMeta),
    (DataWriter.writeUInt8 · (if spFlag then 1 else 0)),
    (DataWriter.writeUInt32 · uuid.fromAddr), (DataWriter.writeUInt32 · uuid.toAddr),
    (DataWriter.writeUInt16 · uuid.srcPort), (DataWriter.writeUInt16 · uuid.dstPort)]
    (DataWriter.new (List.replicate kBufferSize 0))).2.written

/-- `WriteMeta`: once, and by the client's hand only. -/
def writeMeta (uuid : OctopusSessionKey) (spFlag : Bool) (hand : OctopusHand) : OctopusHand :=
  if hand.role = .handServer ∨ hand.metaFlag = true then hand
  else { hand with
    spFlag := spFlag
    wb := hand.wb ++ metaMessage spFlag uuid
    metaFlag := true }

/-- Reading it: whether the session has one path, its key, and what else is there. -/
def readMeta (rb : Bytes) : Option (Bool × OctopusSessionKey × ℕ) :=
  let read : Read (Bool × OctopusSessionKey) :=
    Read.andThen DataReader.readUInt8 fun _ =>
    Read.andThen DataReader.readUInt8 fun sp =>
    Read.andThen DataReader.readUInt32 fun fromAddr =>
    Read.andThen DataReader.readUInt32 fun toAddr =>
    Read.andThen DataReader.readUInt16 fun srcPort =>
    Read.map (fun dstPort => (sp != 0, ⟨fromAddr, toAddr, srcPort, dstPort⟩))
      DataReader.readUInt16
  match read (DataReader.new rb) with
  | (none, _) => none
  | (some (sp, uuid), reader) => some (sp, uuid, reader.bytesRemaining)

/-- `RegisterHand` -/
def registerHand (d h : ℕ) (w : World) : World :=
  let dispatcher := w.dispatchers d
  match dispatcher.status with
  | .connConnecting =>
    w.setDispatcher d { dispatcher with waitHands := dispatcher.waitHands.insert h }
  | .connConnected =>
    (w.setDispatcher d { dispatcher with
      readyHands := dispatcher.readyHands.insert h }).handSignalFrom h .sigDstConnected
  | _ => w

/-- A dispatcher is made for a server hand, if a socket is bound. It is deleted if it
    cannot start to connect. -/
def makeDispatcher (h : ℕ) (uuid : OctopusSessionKey) (answer : Answer) (w : World) :
    World × Bool :=
  if answer.bound then
    let d := w.dispatcherCount
    let dispatcher := { OctopusDispatcher.new .dispatcherServer uuid with registered := true }
    let w := (w.newDispatcher dispatcher).setHand h { w.hands h with dispatcher := some d }
    if answer.connected then (w.registerHand d h, true)
    else (w.setDispatcher d { dispatcher with
      toOctopusBase := dispatcher.closeFd.deleteSelf, registered := false }, false)
  else (w, false)

/-- A session that is new: a hand without a dispatcher says that it failed, and closes. -/
def connectSession (h : ℕ) (uuid : OctopusSessionKey) (answer : Answer) (w : World) : World :=
  let (w, positive) := w.makeDispatcher h uuid answer
  if positive then w else (w.sendMetaAck h .sigDstFailed).handConnClose h .sigDstFailed

/-- `CalleeParseMeta` -/
def calleeParseMeta (h : ℕ) (answer : Answer) (w : World) : Except CheckFailure World :=
  match readMeta (w.hands h).rb with
  | none => .ok w
  | some (sp, uuid, remaining) =>
    let w := w.setHand h { w.hands h with metaFlag := true, spFlag := sp }
    match answer.found with
    | none =>
      let w := w.connectSession h uuid answer
      if remaining = 0 then .ok (w.setHand h { w.hands h with rb := [] }) else .error .remaining
    | some d =>
      .ok ((w.setHand h { w.hands h with dispatcher := some d }).registerHand d h)

/-! ## Events of hands -/

/-- A result of `read()`: some bytes; nothing to read now; the end, or an error. -/
inductive ReadResult
  | data (first : UInt8) (rest : Bytes)
  | again
  | closed

/-- The first byte read by a client hand is the answer to its first message. -/
def callerAck (h : ℕ) (first : UInt8) (rest : Bytes) (w : World) : Except CheckFailure World :=
  let w := w.setHand h { w.hands h with metaAckFlag := true }
  if first = octopusMsgDstConnected then
    match (w.hands h).dispatcher with
    | none => .ok w
    | some d =>
      let w := w.dispatcherSignalFrom d h .sigDstConnected
      if rest = [] then .ok w else w.dispatcherSink d rest
  else .ok w

/-- The loop over what a client hand reads. -/
def callerLoop (h : ℕ) : List ReadResult → World → Except CheckFailure World
  | [], w => .ok w
  | .again :: _, w => .ok w
  | .closed :: _, w => .ok (w.handConnClose h .sigConnDisconn)
  | .data first rest :: reads, w =>
    if (w.hands h).metaAckFlag = false then
      match w.callerAck h first rest with
      | .error e => .error e
      | .ok w =>
        if first = octopusMsgDstFailed then .ok (w.handConnClose h .sigDstFailed)
        else callerLoop h reads w
    else
      match (w.hands h).dispatcher with
      | none => .error .dispatcher
      | some d =>
        match w.dispatcherSink d (first :: rest) with
        | .error e => .error e
        | .ok w => callerLoop h reads w

/-- The socket of a client hand can be written: it is connected, and sends what waits. -/
def callerOutput (h : ℕ) (w : World) : Except CheckFailure World :=
  let w := w.setHand h (w.hands h).writable
  if (w.hands h).status = .connConnected then w.handFlushBuffer h else .ok w

/-- `OnCallerEvent`: the events of a client's hand. -/
def onCallerEvent (h : ℕ) (error input output : Bool) (reads : List ReadResult) (w : World) :
    Except CheckFailure World :=
  if error then
    .ok (w.handConnClose h (if (w.hands h).status = .connConnecting then .sigConnFailed
      else .sigConnDisconn))
  else
    match if (w.hands h).fdOpen ∧ input ∧ (w.hands h).spFlag then w.callerLoop h reads
      else .ok w with
    | .error e => .error e
    | .ok w => if (w.hands h).fdOpen ∧ output then w.callerOutput h else .ok w

/-- What a server hand reads after the first message. -/
def calleeData (h : ℕ) (pv : Bytes) (w : World) : Except CheckFailure World :=
  if (w.hands h).rb ≠ [] then .error .rest
  else
    match (w.hands h).dispatcher with
    | none => .error .dispatcher
    | some d => w.dispatcherSink d pv

/-- A server hand reads: its first message, or what comes after it. -/
def calleeRead (h : ℕ) (answer : Answer) (first : UInt8) (rest : Bytes) (w : World) :
    Except CheckFailure World :=
  if (w.hands h).metaFlag = false then
    (w.setHand h { w.hands h with rb := (w.hands h).rb ++ first :: rest }).calleeParseMeta h answer
  else w.calleeData h (first :: rest)

/-- The loop over what a server hand reads. Reading a closed socket fails. -/
def calleeLoop (h : ℕ) (answer : Answer) : List ReadResult → World → Except CheckFailure World
  | [], w => .ok w
  | .again :: _, w => .ok w
  | .closed :: _, w => .ok (w.handConnClose h .sigConnDisconn)
  | .data first rest :: reads, w =>
    if (w.hands h).fdOpen = false then .ok (w.handConnClose h .sigConnDisconn)
    else
      match w.calleeRead h answer first rest with
      | .error e => .error e
      | .ok w => calleeLoop h answer reads w

/-- `OnCalleeEvent`: the events of a server's hand. -/
def onCalleeEvent (h : ℕ) (error input : Bool) (reads : List ReadResult) (answer : Answer)
    (w : World) : Except CheckFailure World :=
  let w := if error then w.handConnClose h .sigConnDisconn else w
  if (w.hands h).fdOpen ∧ input then w.calleeLoop h answer reads else .ok w

/-- The alarm of a hand: it sends what waits, and closes if it waits to. -/
def outBandwidthAlarm (h : ℕ) (w : World) : Except CheckFailure World :=
  match if (w.hands h).wb ≠ [] then w.handFlushBuffer h else .ok w with
  | .error e => .error e
  | .ok w =>
    if (w.hands h).waitClose = true ∧ (w.hands h).wb = [] then
      .ok (w.handConnClose h .sigConnDisconn)
    else .ok w

/-! ## Events of dispatchers -/

/-- The socket of a server dispatcher: it has failed to connect, or is connected. -/
def dispatcherOnEvent (d : ℕ) (error output : Bool) (w : World) : Except CheckFailure World :=
  let w := if error = true ∧ (w.dispatchers d).status = .connConnecting then
    w.dispatcherConnClose d .sigDstFailed else w
  if (w.dispatchers d).fdOpen = true ∧ output = true ∧
      (w.dispatchers d).status = .connConnecting then
    let waitHands := (w.dispatchers d).waitHands
    let w := w.signalHands .sigDstConnected waitHands
    if (w.dispatchers d).readyHands = [] then
      .ok (w.setDispatcher d { w.dispatchers d with
        status := .connConnected
        waitHands := []
        readyHands := waitHands
        registered := false
        socketAlarm := true })
    else .error .readyHands
  else .ok w

/-- The loop over what a dispatcher reads, as long as there is a budget: whether its
    socket is closed. -/
def alarmLoop (h : ℕ) : List ReadResult → ℤ → World → Except CheckFailure (World × Bool)
  | [], _, w => .ok (w, false)
  | read :: reads, budget, w =>
    if budget > 0 then
      match read with
      | .again => .ok (w, false)
      | .closed => .ok (w, true)
      | .data first rest =>
        match w.handSink h (first :: rest) with
        | .error e => .error e
        | .ok w => alarmLoop h reads (budget - (1 + rest.length)) w
    else .ok (w, false)

/-- What is read is given to the ready hand whose address comes first. -/
def alarmRead (d first : ℕ) (budget : ℤ) (reads : List ReadResult) (w : World) :
    Except CheckFailure (World × Bool) :=
  if first ∈ (w.dispatchers d).readyHands then w.alarmLoop first reads budget
  else .ok (w, false)

/-- `HandleSocketAlarm`: what waits is sent, then what the socket has is read. -/
def handleSocketAlarm (d first : ℕ) (budget : ℤ) (reads : List ReadResult) (w : World) :
    Except CheckFailure World :=
  if (w.dispatchers d).fdOpen then
    match w.dispatcherFlushBuffer d with
    | .error e => .error e
    | .ok w =>
      match w.alarmRead d first budget reads with
      | .error e => .error e
      | .ok (w, closed) => .ok (if closed then w.dispatcherConnClose d .sigConnDisconn else w)
  else .ok w

/-! ## Connections -/

/-- A plain connection to the client is accepted: it gets a dispatcher and a hand. -/
def createEndpoint (uuid : OctopusSessionKey) (bound connected : Bool) (w : World) : World :=
  let d := w.dispatcherCount
  let h := w.handCount
  let dispatcher := OctopusDispatcher.new .dispatcherClient uuid
  let w := w.newDispatcher dispatcher
  if bound then
    let hand := writeMeta uuid true (OctopusHand.new .handClient (some d))
    if connected then
      (w.newHand hand).setDispatcher d { dispatcher with waitHands := [h] }
    else
      (w.newHand { hand with
        toOctopusBase := hand.closeFd.deleteSelf }).dispatcherConnClose d .sigConnFailed
  else w.dispatcherConnClose d .sigConnFailed

/-- A connection to the server is accepted: it is a hand. -/
def acceptHand (w : World) : World :=
  w.newHand (OctopusHand.new .handServer none)

/-! ## Runs -/

/-- What happens to the objects of the proxy. -/
inductive Event
  | createEndpoint (uuid : OctopusSessionKey) (bound connected : Bool)
  | acceptHand
  | hand (h : ℕ) (error input output : Bool) (reads : List ReadResult) (answer : Answer)
  | handAlarm (h : ℕ)
  | dispatcher (d : ℕ) (error output : Bool)
  | dispatcherAlarm (d first : ℕ) (budget : ℤ) (reads : List ReadResult)
  | deleteHand (h : ℕ)
  | deleteDispatcher (d : ℕ)

/-- Handling an event. A socket that is closed has none, an object that was deleted no
    alarm. -/
def handle (w : World) : Event → Except CheckFailure World
  | .createEndpoint uuid bound connected => .ok (w.createEndpoint uuid bound connected)
  | .acceptHand => .ok w.acceptHand
  | .hand h error input output reads answer =>
    if (w.hands h).fdOpen then
      match (w.hands h).role with
      | .handServer => w.onCalleeEvent h error input reads answer
      | .handClient => w.onCallerEvent h error input output reads
    else .ok w
  | .handAlarm h => if (w.hands h).outBwAlarm then w.outBandwidthAlarm h else .ok w
  | .dispatcher d error output =>
    if (w.dispatchers d).registered then w.dispatcherOnEvent d error output else .ok w
  | .dispatcherAlarm d first budget reads =>
    if (w.dispatchers d).socketAlarm then w.handleSocketAlarm d first budget reads else .ok w
  | .deleteHand h =>
    if (w.hands h).destroyed then .ok (w.setHand h { w.hands h with outBwAlarm := false })
    else .ok w
  | .deleteDispatcher d =>
    if (w.dispatchers d).destroyed then
      .ok (w.setDispatcher d { w.dispatchers d with socketAlarm := false })
    else .ok w

/-- A step of a run: an event is handled, with these answers of `send()`. -/
def step (w : World) (e : Event × List ℕ) : Except CheckFailure World :=
  handle (w.setAnswers e.2) e.1

/-- An object that was not made yet. -/
def noHand : OctopusHand :=
  { role := .handClient, dispatcher := none, fdOpen := false }

/-- A dispatcher that is not there. -/
def noDispatcher : OctopusDispatcher :=
  { role := .dispatcherClient, uuid := {}, fdOpen := false }

/-- Nothing was made. -/
def empty : World where
  hands _ := noHand
  dispatchers _ := noDispatcher
  handCount := 0
  dispatcherCount := 0
  answers := []

/-- The steps: an event that is allowed is handled, with any answers of `send()`. -/
inductive Step (allowed : World → Event → Prop) : World → World → Prop
  | handle (w : World) (e : Event) (answers : List ℕ) (w' : World) : allowed w e →
    handle (w.setAnswers answers) e = .ok w' → Step allowed w w'

/-- The runs of a proxy. -/
def system (allowed : World → Event → Prop) : System World := ⟨(· = empty), Step allowed⟩

/-- Any event may happen. -/
def anyEvent : World → Event → Prop := fun _ _ => True

/-- The state after some events, each with its answers of `send()`. A failed check ends
    the run. -/
def after : List (Event × List ℕ) → World → World
  | [], w => w
  | (e, answers) :: events, w =>
    match handle (w.setAnswers answers) e with
    | .ok w => after events w
    | .error _ => w

theorem reachable_after {allowed : World → Event → Prop} (events : List (Event × List ℕ))
    (hallowed : ∀ p ∈ events, ∀ w, allowed w p.1) {w : World}
    (hreach : (system allowed).Reachable w) : (system allowed).Reachable (after events w) := by
  induction events generalizing w with
  | nil => exact hreach
  | cons p events ih =>
    obtain ⟨e, answers⟩ := p
    rw [after]
    split
    · next w' hcall =>
      refine ih (fun p hp => hallowed p (List.mem_cons_of_mem _ hp)) (hreach.step ?_)
      exact .handle w e answers w' (hallowed _ List.mem_cons_self w) hcall
    · exact hreach

end World

end Octopus

end DashDim
