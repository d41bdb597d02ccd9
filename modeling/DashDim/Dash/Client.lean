import Mathlib.Data.Int.Init
import Mathlib.Data.List.Basic
import Mathlib.Data.Rat.Defs
import Mathlib.Algebra.Order.Ring.Rat
import DashDim.Lib.Run
import DashDim.Tcp.Types

/-!
# The DASH client

A client that downloads a video segment by segment and plays it, as in
`dash/dash_client.cc`. Three sources of events drive it: the socket, on which the
segments requested arrive; an alarm for requests that are delayed; and an alarm
that plays a frame. Before each request an adaptation algorithm chooses the level
of the next segment, and how long to wait.

The model has all fields the handlers read, but those for the final report. An
`int` of the code is an integer, and a counter that only goes up a natural
number: they do not overflow. The bytes of a segment are counted in 64 bits, as in
the code. Times are in microseconds.

What the environment did is recorded beside it (`Ghost`), for what is said about
runs: it is not part of the client, which never looks at it.
-/

namespace DashDim

/-- The frames of a second of video. -/
def kFramesPerSecond : ℤ := 25

/-! ## What an algorithm sees and says -/

/-- The level of the next segment, and how long to wait before its request. -/
structure AlgorithmReply where
  nextQuality : ℤ := 0
  nextDownloadDelay : Time := 0
  deriving DecidableEq, Repr

/-- When segments were requested, when their first and last bytes arrived, and how
    many bytes they had. -/
structure ThroughputData where
  transmissionRequested : List Time := []
  transmissionStart : List Time := []
  transmissionEnd : List Time := []
  bytesReceived : List ℕ := []
  deriving DecidableEq, Repr

/-- When segments were complete, and the buffered playtime in milliseconds before
    and after them. -/
structure BufferData where
  timeNow : List Time := []
  bufferLevelOld : List ℤ := []
  bufferLevelNew : List ℤ := []
  deriving DecidableEq, Repr

/-- The sizes of the segments at each level, the bitrates of the levels, and the
    duration of a segment in milliseconds. -/
structure VideoData where
  representation : List (List Int64)
  averageBitrate : List ℚ
  segmentDuration : ℤ

/-- What the client shows to its algorithm. -/
structure ClientData where
  videoData : VideoData
  throughput : ThroughputData := {}
  bufferData : BufferData := {}
  historyQuality : List ℤ := []
  playedFrames : ℕ := 0

/-- The buffered playtime when the last segment was complete. -/
def ClientData.getBufferLevelMs (d : ClientData) : ℤ :=
  d.bufferData.bufferLevelNew.getLast?.getD 0

/-- How the last segment changed it. -/
def ClientData.getBufferDiffMs (d : ClientData) : ℤ :=
  let levels := d.bufferData.bufferLevelNew
  if levels.length > 1 then
    levels.getD (levels.length - 1) 0 - levels.getD (levels.length - 2) 0
  else 0

/-- An adaptation algorithm, with its own state: called with what the client shows,
    the time, the level of the last segment and the number of the next one. It has no
    reply where it fails a check or reads outside of an array. -/
structure AdaptationAlgorithm where
  State : Type
  getNextQuality : State → ClientData → Time → ℤ → ℕ → Option (AlgorithmReply × State)

/-- A level of a table. -/
def VideoData.Level (videoData : VideoData) (quality : ℤ) : Prop :=
  0 ≤ quality ∧ quality < videoData.representation.length

/-- The algorithm answers a level of the table, if the last one was. -/
def AdaptationAlgorithm.Playable (alg : AdaptationAlgorithm) : Prop :=
  ∀ st data now preQuality segmentCount reply st',
    data.videoData.Level preQuality →
    alg.getNextQuality st data now preQuality segmentCount = some (reply, st') →
    data.videoData.Level reply.nextQuality

/-! ## The state of the client -/

/-- `DashPlayerState`. -/
inductive DashPlayerState
  | playerNotStarted
  | playerInitBuffering
  | playerPlay
  | playerPaused
  | playerDone
  deriving DecidableEq, Repr

/-- What the environment did. -/
structure Ghost where
  /-- the bytes requested and not read yet -/
  outstanding : ℕ := 0
  /-- only bytes requested were read -/
  served : Bool := true
  /-- what the algorithm was shown of the throughput at each call -/
  histories : List ThroughputData := []

/-- The client: its algorithm and the data of that, the connection, the player, and the
    segment under way. -/
structure DashClient (alg : AdaptationAlgorithm) where
  data : ClientData
  algorithm : alg.State
  fdOpen : Bool := true
  registered : Bool := true
  status : TcpConnectionStatus := .tcpConnecting
  playerState : DashPlayerState := .playerNotStarted
  quality : ℤ := 0
  index : ℕ := 0
  playbackIndex : ℕ := 0
  framesInSegment : ℤ
  initSegments : ℤ
  segmentsInBuffer : ℤ := 0
  segmentCounter : ℕ := 0
  segmentBytes : UInt64 := 0
  readBytes : UInt64 := 0
  playerAlarm : Option Time := none
  requestAlarm : Option Time := none
  ghost : Ghost := {}

/-- What the handlers do that the language does not define. -/
inductive Fault
  /-- an access to a segment that is not in the table -/
  | segmentAccess (quality : ℤ) (index : ℕ)
  /-- an access to the first row of an empty table -/
  | emptyTable
  /-- a remainder of a division by zero -/
  | divisionByZero
  /-- the algorithm fails -/
  | algorithm
  deriving DecidableEq, Repr

/-- Setting an alarm for a time; `0` is no time. -/
def updateAlarm (deadline : Time) : Option Time := if deadline = 0 then none else some deadline

namespace DashClient

variable {alg : AdaptationAlgorithm}

/-- The client of a table, as it is constructed and connecting. -/
def new (videoData : VideoData) (initSegments : ℤ) (algorithm : alg.State) : DashClient alg where
  data := { videoData := videoData }
  algorithm := algorithm
  framesInSegment := (videoData.segmentDuration * kFramesPerSecond).tdiv 1000
  initSegments := initSegments

/-- `Close`. -/
def close (c : DashClient alg) : DashClient alg :=
  if c.fdOpen then { c with status := .tcpDisconnect, fdOpen := false } else c

/-- The request is written, if the socket is open. -/
def sendRequest (bytes : UInt64) (c : DashClient alg) : DashClient alg :=
  if c.fdOpen then
    { c with ghost := { c.ghost with outstanding := c.ghost.outstanding + bytes.toNat } }
  else c

/-- `DelayRequestHandle`: asks for the segment the algorithm settled on earlier. -/
def delayRequestHandle (now : Time) (c : DashClient alg) : DashClient alg :=
  match c.data.videoData.representation with
  | [] => c
  | row :: _ =>
    if c.index < row.length then
      let throughput := { c.data.throughput with
        transmissionRequested := c.data.throughput.transmissionRequested ++ [now] }
      let c := { c with data := { c.data with throughput := throughput } }
      let c := c.sendRequest c.segmentBytes
      { c with index := c.index + 1 }
    else c

/-- `representation[quality][index]`, if it is in the table. -/
def segmentSize (representation : List (List Int64)) (quality : ℤ) (index : ℕ) : Option Int64 :=
  if quality < 0 then none
  else (representation[quality.toNat]?).bind fun row => row[index]?

/-- `RequestSegment`: asks the algorithm, then for the segment, at once or after a delay. -/
def requestSegment (now : Time) (c : DashClient alg) : Except Fault (DashClient alg) :=
  match alg.getNextQuality c.algorithm c.data now c.quality c.index with
  | none => .error .algorithm
  | some (reply, algorithm) =>
    match segmentSize c.data.videoData.representation reply.nextQuality c.index with
    | none => .error (.segmentAccess reply.nextQuality c.index)
    | some size =>
      let c := { c with
        algorithm := algorithm
        quality := reply.nextQuality
        data := { c.data with historyQuality := c.data.historyQuality ++ [reply.nextQuality] }
        readBytes := 0
        segmentBytes := size.toUInt64
        ghost := { c.ghost with histories := c.ghost.histories ++ [c.data.throughput] } }
      if reply.nextDownloadDelay ≠ 0 then
        .ok { c with requestAlarm := updateAlarm (now + reply.nextDownloadDelay) }
      else .ok (c.delayRequestHandle now)

/-- `CheckBufferStatus`: starts the player once enough segments are there. -/
def checkBufferStatus (now : Time) (c : DashClient alg) : DashClient alg :=
  let c := if c.playerState = .playerInitBuffering ∧ c.segmentsInBuffer ≥ c.initSegments then
    { c with playerState := .playerPlay, playerAlarm := updateAlarm now } else c
  if c.playerState = .playerPaused ∧ c.segmentsInBuffer > 0 then
    { c with playerState := .playerPlay, playerAlarm := updateAlarm now } else c

/-- The buffered playtime before the segment that is complete now. -/
def bufferLevelBefore (now : Time) (c : DashClient alg) : ℤ :=
  if c.segmentCounter > 0 then
    let ms := c.data.bufferData.bufferLevelNew.getLast?.getD 0
    let ms := if c.playerState = .playerInitBuffering then ms
      else ms - toMilliseconds (now - c.data.throughput.transmissionEnd.getLast?.getD 0)
    max ms 0
  else 0

/-- A segment is complete: it is recorded, and counted as buffered. -/
def recordSegment (now : Time) (c : DashClient alg) : DashClient alg :=
  let old := c.bufferLevelBefore now
  let bufferData := { c.data.bufferData with
    timeNow := c.data.bufferData.timeNow ++ [now]
    bufferLevelOld := c.data.bufferData.bufferLevelOld ++ [old]
    bufferLevelNew := c.data.bufferData.bufferLevelNew ++
      [old + c.data.videoData.segmentDuration] }
  let throughput := { c.data.throughput with
    transmissionEnd := c.data.throughput.transmissionEnd ++ [now]
    bytesReceived := c.data.throughput.bytesReceived ++ [c.readBytes.toNat] }
  { c with
    data := { c.data with bufferData := bufferData, throughput := throughput }
    segmentCounter := c.segmentCounter + 1
    segmentsInBuffer := c.segmentsInBuffer + 1 }

/-- A segment is complete: the next one is requested, unless it was the last. The
    second result is whether `onReadEvent` returns. -/
def completeSegment (now : Time) (c : DashClient alg) : Except Fault (DashClient alg × Bool) :=
  let c := (c.recordSegment now).checkBufferStatus now
  match c.data.videoData.representation with
  | [] => (c.requestSegment now).map (·, false)
  | row :: _ =>
    if c.index = row.length then .ok (({ c with registered := false } : DashClient alg).close, true)
    else (c.requestSegment now).map (·, false)

/-- The bytes of a chunk are counted, and the time of the first one is recorded. -/
def countBytes (now : Time) (nbytes : ℕ) (c : DashClient alg) : DashClient alg :=
  let throughput := if c.readBytes = 0 then { c.data.throughput with
    transmissionStart := c.data.throughput.transmissionStart ++ [now] } else c.data.throughput
  { c with
    data := { c.data with throughput := throughput }
    readBytes := c.readBytes + UInt64.ofNat nbytes
    ghost := { c.ghost with
      outstanding := c.ghost.outstanding - nbytes
      served := c.ghost.served && decide (nbytes ≤ c.ghost.outstanding) } }

/-- A chunk is read: what `onReadEvent` does in a round. -/
def onData (now : Time) (nbytes : ℕ) (c : DashClient alg) : Except Fault (DashClient alg × Bool) :=
  let c := c.countBytes now nbytes
  if c.readBytes = c.segmentBytes then c.completeSegment now else .ok (c, false)

/-- The loop of `onReadEvent` over the results of its reads: so many bytes, none
    for the end of the stream. When there are no more results, a read has failed. -/
def onReadLoop (now : Time) : List ℕ → DashClient alg → Except Fault (DashClient alg)
  | [], c => .ok c
  | 0 :: reads, c => onReadLoop now reads { c with registered := false }
  | (nbytes + 1) :: reads, c =>
    match c.onData now (nbytes + 1) with
    | .error e => .error e
    | .ok (c, true) => .ok c
    | .ok (c, false) => onReadLoop now reads c

/-- The socket can be read. Reading a closed one fails. -/
def onReadEvent (now : Time) (reads : List ℕ) (c : DashClient alg) :
    Except Fault (DashClient alg) :=
  if c.fdOpen then onReadLoop now reads c else .ok c

/-- `OnConnected`. -/
def onConnected (now : Time) (c : DashClient alg) : Except Fault (DashClient alg) :=
  requestSegment now { c with
    playerState := .playerInitBuffering, playerAlarm := none, requestAlarm := none }

/-- An event of the socket: an error or hang-up, data to read, or that it can be
    written. -/
def onEvent (now : Time) (error input output : Bool) (reads : List ℕ) (c : DashClient alg) :
    Except Fault (DashClient alg) :=
  let c := if error then
    ({ c with playerState := .playerDone, registered := false } : DashClient alg).close else c
  match if input then c.onReadEvent now reads else .ok c with
  | .error e => .error e
  | .ok c =>
    if output ∧ c.status = .tcpConnecting then
      onConnected now { c with status := .tcpConnected }
    else .ok c

/-- A frame is played: at the end of a segment, it leaves the buffer. -/
def playFrame (c : DashClient alg) : Except Fault (DashClient alg) :=
  if c.segmentsInBuffer > 0 then
    let c := { c with data := { c.data with playedFrames := c.data.playedFrames + 1 } }
    if c.framesInSegment = 0 then .error .divisionByZero
    else if (c.data.playedFrames : ℤ).tmod c.framesInSegment = 0 then
      .ok { c with
        segmentsInBuffer := c.segmentsInBuffer - 1, playbackIndex := c.playbackIndex + 1 }
    else .ok c
  else .ok c

/-- The player stops when its buffer is empty, and else goes on. -/
def afterFrame (now : Time) (c : DashClient alg) : Except Fault (DashClient alg) :=
  if c.segmentsInBuffer = 0 then
    match c.data.videoData.representation with
    | [] => .error .emptyTable
    | row :: _ =>
      if c.playbackIndex ≥ row.length then .ok { c with playerState := .playerDone }
      else .ok { c with playerState := .playerPaused }
  else if c.segmentsInBuffer > 0 then
    .ok { c with playerAlarm :=
      updateAlarm (now + fromMilliseconds ((1000 : ℤ).tdiv kFramesPerSecond)) }
  else .ok c

/-- `PlayBackHandle`. -/
def playBackHandle (now : Time) (c : DashClient alg) : Except Fault (DashClient alg) :=
  match c.playFrame with
  | .error e => .error e
  | .ok c => c.afterFrame now

/-! ## Runs -/

/-- What happens to a client. -/
inductive Event
  | socket (error input output : Bool) (reads : List ℕ)
  | requestAlarm
  | playerAlarm

/-- Handling an event. A socket that is not registered has none, and an alarm that
    is not set does not go off. -/
def handle (now : Time) (c : DashClient alg) : Event → Except Fault (DashClient alg)
  | .socket error input output reads =>
    if c.registered then c.onEvent now error input output reads else .ok c
  | .requestAlarm =>
    if c.requestAlarm.isSome then
      .ok (delayRequestHandle now { c with requestAlarm := none })
    else .ok c
  | .playerAlarm =>
    if c.playerAlarm.isSome then playBackHandle now { c with playerAlarm := none }
    else .ok c

/-- A client in its event loop, at the time of a round. -/
structure World (alg : AdaptationAlgorithm) where
  client : DashClient alg
  now : Time

/-- The steps of the event loop: an event that is allowed is handled, or a new round
    begins, at a time the clock allows. -/
inductive Step (allowed : DashClient alg → Event → Prop) (clock : Time → Time → Prop) :
    World alg → World alg → Prop
  | handle (w : World alg) (e : Event) (client : DashClient alg) :
    allowed w.client e → w.client.handle w.now e = .ok client →
    Step allowed clock w { w with client := client }
  | round (w : World alg) (now : Time) :
    clock w.now now → Step allowed clock w { w with now := now }

/-- A client that starts to connect, which it does with a table that is not empty.
    If this does not succeed at once, it is buffering already. -/
def Init (videoData : VideoData) (w : World alg) : Prop :=
  videoData.representation ≠ [] ∧ ∃ initSegments algorithm playerState,
    (playerState = .playerNotStarted ∨ playerState = .playerInitBuffering) ∧
    w.client = { DashClient.new videoData initSegments algorithm with playerState := playerState }

/-- The runs of a client with a table. -/
def system (alg : AdaptationAlgorithm) (videoData : VideoData)
    (allowed : DashClient alg → Event → Prop) (clock : Time → Time → Prop) :
    System (World alg) := ⟨Init videoData, Step allowed clock⟩

/-- Any event may happen. -/
def anyEvent : DashClient alg → Event → Prop := fun _ _ => True

/-- The events of a round, one after the other. -/
def runRound (now : Time) : List Event → DashClient alg → Except Fault (DashClient alg)
  | [], c => .ok c
  | e :: events, c =>
    match c.handle now e with
    | .error e => .error e
    | .ok c => runRound now events c

/-- A client can go through the events of a round. -/
theorem reachable_runRound {videoData : VideoData} {clock : Time → Time → Prop} {now : Time}
    {events : List Event} {c c' : DashClient alg}
    (h : (system alg videoData anyEvent clock).Reachable ⟨c, now⟩)
    (hrun : runRound now events c = .ok c') :
    (system alg videoData anyEvent clock).Reachable ⟨c', now⟩ := by
  induction events generalizing c with
  | nil =>
    cases hrun
    exact h
  | cons e events ih =>
    rw [runRound] at hrun
    split at hrun
    · cases hrun
    · next c₁ hres => exact ih (h.step (.handle _ e c₁ trivial hres)) hrun

end DashClient

end DashDim
