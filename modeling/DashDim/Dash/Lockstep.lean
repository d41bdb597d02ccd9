import DashDim.Dash.Server
import DashDim.Dash.Playback

/-!
# Client and server in lockstep

A DASH client and the server it is connected to, with the requests that were written and
not read, and the bytes that are in flight. The steps are finer than the handlers of the
client: the loop of its `OnReadEvent` asks for a segment and reads on, and the server may
serve it between two rounds of the loop.

A request is on its way, or being served, or served (`Transit`), and with what the client
counts this tells how many bytes are still to come:

* `Transit.responce`, `Transit.onRead`: what the server does about a request;
* `Phase.put_requestSegment`, `Phase.read`: what the client does;
* `lockstep_reachable`: nothing but the bytes of one request is in flight, and a segment is
  complete exactly when it is read.
-/

namespace DashDim

open DashClient

variable {alg : AdaptationAlgorithm} {videoData : VideoData}

/-! ## The two parties -/

/-- A client and its server, and what is between them; then the lengths the client has
    asked for, and how many bytes it has read. -/
structure DashLink (alg : AdaptationAlgorithm) where
  client : DashClient alg
  now : Time
  channel : List Bytes := []
  server : DashServerEndpoint := {}
  asked : List ℕ := []
  received : ℕ := 0

namespace DashLink

/-- What `SendRequest` is called with when a client becomes another one, if its socket is
    open. -/
def sends (c c' : DashClient alg) : List UInt64 :=
  if c.data.throughput.transmissionRequested.length <
      c'.data.throughput.transmissionRequested.length ∧ c'.fdOpen = true then [c'.segmentBytes]
  else []

/-- The request for a segment of so many bytes, which `SendRequest` takes as an `int`. -/
def message (segmentBytes : UInt64) : Bytes := requestMessage segmentBytes.toUInt32.toInt32

/-- The client takes bytes that are in flight. -/
def take (nbytes : ℕ) (s : DashLink alg) : DashLink alg :=
  { s with
    server := { s.server with unread := s.server.unread - nbytes }
    received := s.received + nbytes }

/-- The client has done something, and what it sent by that is on its way. -/
def put (c : DashClient alg) (s : DashLink alg) : DashLink alg :=
  { s with
    client := c
    channel := s.channel ++ (sends s.client c).map message
    asked := s.asked ++ (sends s.client c).map UInt64.toNat }

/-- An event in which the client reads nothing. -/
def Quiet : Event → Prop
  | .socket _ _ _ reads => reads = []
  | _ => True

/-- The steps of the two parties. -/
inductive Step : DashLink alg → DashLink alg → Prop
  /-- the client reads some of the bytes that are in flight -/
  | read (s : DashLink alg) (nbytes : ℕ) (c : DashClient alg) (done : Bool) :
    s.client.fdOpen = true → 0 < nbytes → nbytes ≤ s.server.unread →
    s.client.onData s.now nbytes = .ok (c, done) → Step s ((s.take nbytes).put c)
  /-- the client reads the end of the stream -/
  | endOfStream (s : DashLink alg) :
    s.client.fdOpen = true → s.server.unread = 0 → s.server.fdOpen = false →
    Step s { s with client := { s.client with registered := false } }
  /-- the client handles another event -/
  | event (s : DashLink alg) (e : Event) (c : DashClient alg) :
    Quiet e → s.client.handle s.now e = .ok c → Step s (s.put c)
  /-- the server reads a request -/
  | request (s : DashLink alg) (buffer : Bytes) (channel : List Bytes) (answers : List ℕ) :
    s.channel = buffer :: channel → s.server.fdOpen = true →
    Step s { s with channel := channel, server := s.server.onRead buffer answers }
  /-- the server can write -/
  | writable (s : DashLink alg) (answers : List ℕ) :
    Step s { s with server := s.server.handle (.writable answers) }
  /-- the server reads that the client has closed -/
  | hangUp (s : DashLink alg) :
    s.client.fdOpen = false → s.channel = [] → Step s { s with server := s.server.onRead [] [] }
  /-- time goes on -/
  | round (s : DashLink alg) (now : Time) : Step s { s with now := now }

/-- The runs of a client with a table, and a server. -/
def system (alg : AdaptationAlgorithm) (videoData : VideoData) : System (DashLink alg) where
  init s := ∃ w : World alg, Init videoData w ∧ s = { client := w.client, now := w.now }
  step := Step

/-- A client and its server in lockstep: the requests after those recorded as complete are
    outstanding, of which there is one at most. The bytes in flight belong to it, and the
    client counts which of its bytes it has read. -/
structure Lockstep (s : DashLink alg) : Prop where
  counter_le : s.client.segmentCounter ≤ s.asked.length
  le_counter : s.asked.length ≤ s.client.segmentCounter + 1
  pending : s.channel.length + s.server.requestBytes.length ≤
    s.asked.length - s.client.segmentCounter
  recorded : s.client.data.throughput.bytesReceived = s.asked.take s.client.segmentCounter
  received_ge : (s.asked.take s.client.segmentCounter).sum ≤ s.received
  inFlight : s.received + s.server.unread ≤ s.asked.sum
  readBytes_le : s.client.readBytes.toNat ≤ s.client.segmentBytes.toNat
  outstanding : s.asked.length = s.client.segmentCounter + 1 →
    s.asked.getLast? = some s.client.segmentBytes.toNat ∧
    s.received = (s.asked.take s.client.segmentCounter).sum + s.client.readBytes.toNat
  complete_iff : ∀ k, k < s.client.segmentCounter ↔
    k < s.asked.length ∧ (s.asked.take (k + 1)).sum ≤ s.received

/-! ## Requests on their way -/

/-- Nothing is between the parties. -/
structure Idle (channel : List Bytes) (server : DashServerEndpoint) : Prop where
  channel : channel = []
  requestBytes : server.requestBytes = []
  sentBytes : server.sentBytes = 0
  unread : server.unread = 0

/-- A request of a length, of which so many bytes are read. -/
inductive Transit (bytes : UInt64) (readBytes : ℕ) :
    List Bytes → DashServerEndpoint → Prop
  | asked {server : DashServerEndpoint} :
    server.requestBytes = [] → server.sentBytes = 0 → server.unread = 0 → readBytes = 0 →
    Transit bytes readBytes [message bytes] server
  | serving {server : DashServerEndpoint} :
    server.requestBytes = [bytes.toUInt32.toInt32] → server.sentBytes < bytes.toNat →
    server.unread + readBytes = server.sentBytes → Transit bytes readBytes [] server
  | served {server : DashServerEndpoint} :
    server.requestBytes = [] → server.sentBytes = 0 →
    server.unread + readBytes = bytes.toNat → Transit bytes readBytes [] server

variable {bytes : UInt64} {readBytes : ℕ} {channel : List Bytes} {server : DashServerEndpoint}

theorem writeLoop_bounds {bytes : ℕ} (answers : List ℕ) {sentBytes : ℕ} (h : sentBytes ≤ bytes) :
    sentBytes ≤ (DashServerEndpoint.writeLoop bytes answers sentBytes).1 ∧
      (DashServerEndpoint.writeLoop bytes answers sentBytes).1 ≤ bytes := by
  induction answers generalizing sentBytes with
  | nil => exact ⟨le_rfl, h⟩
  | cons answer answers ih =>
    rw [DashServerEndpoint.writeLoop]
    split_ifs with hlt hint
    · dsimp only
      have hle : sentBytes + min (max answer 1) (min DashServerEndpoint.kBufferSize
          (bytes - sentBytes)) ≤ bytes := by
        omega
      obtain ⟨hge, hle'⟩ := ih hle
      exact ⟨(Nat.le_add_right _ _).trans hge, hle'⟩
    · exact ⟨le_rfl, h⟩
    · exact ⟨le_rfl, h⟩

theorem toNat_message (h : bytes.toNat < 2 ^ 31) :
    bytes.toUInt32.toInt32.toUInt32.toNat = bytes.toNat := by
  rw [UInt32.toUInt32_toInt32, UInt64.toNat_toUInt32]
  omega

/-- Serving moves a request on. -/
theorem Transit.responce (hbytes : bytes.toNat < 2 ^ 31)
    (h : Transit bytes readBytes channel server) (answers : List ℕ) :
    Transit bytes readBytes channel (server.responce answers) := by
  rw [DashServerEndpoint.responce]
  split_ifs
  · cases h with
    | asked hqueue hsent hunread hread =>
      rw [hqueue, DashServerEndpoint.responceLoop]
      exact .asked rfl hsent hunread hread
    | served hqueue hsent hunread =>
      rw [hqueue, DashServerEndpoint.responceLoop]
      exact .served rfl hsent hunread
    | serving hqueue hsent hunread =>
      obtain ⟨hge, hle⟩ := writeLoop_bounds answers hsent.le
      rw [hqueue, DashServerEndpoint.responceLoop, toNat_message hbytes]
      dsimp only
      split_ifs with hall
      · rw [DashServerEndpoint.responceLoop]
        refine .served rfl rfl ?_
        dsimp only
        omega
      · refine .serving rfl ?_ ?_
        · exact lt_of_le_of_ne hle hall
        · dsimp only
          omega
  · exact h

/-- The request is read, and served. -/
theorem Transit.onRead (hbytes : bytes.toNat < 2 ^ 31) (hpos : 0 < bytes.toNat)
    {buffer : Bytes} (h : Transit bytes readBytes (buffer :: channel) server) (answers : List ℕ)
    (hfd : server.fdOpen = true) :
    Transit bytes readBytes channel (server.onRead buffer answers) := by
  generalize hall : buffer :: channel = all at h
  cases h with
  | serving => cases hall
  | served => cases hall
  | asked hqueue hsent hunread hread =>
    obtain ⟨hbuffer, hchannel⟩ := List.cons.inj hall
    rw [hbuffer, hchannel]
    have hne : message bytes ≠ [] := by
      intro hnil
      have hlength := requestMessage_length bytes.toUInt32.toInt32
      rw [← message, hnil] at hlength
      cases hlength
    have hparse : readRequest (message bytes) = some bytes.toUInt32.toInt32 := by
      rw [← List.append_nil (message bytes)]
      exact readRequest_append _ []
    rw [DashServerEndpoint.onRead, if_pos hfd, if_neg hne, hparse]
    dsimp only
    refine Transit.responce hbytes (.serving ?_ ?_ ?_) answers
    · rw [hqueue, List.nil_append]
    · rw [hsent]
      exact hpos
    · dsimp only
      rw [hunread, hread, hsent]

theorem Idle.responce (h : Idle channel server) (answers : List ℕ) :
    Idle channel (server.responce answers) := by
  rw [DashServerEndpoint.responce]
  split_ifs
  · rw [h.requestBytes, DashServerEndpoint.responceLoop]
    exact ⟨h.channel, rfl, h.sentBytes, h.unread⟩
  · exact h

theorem onRead_end (server : DashServerEndpoint) :
    server.onRead [] [] = { server with fdOpen := false } := by
  rw [DashServerEndpoint.onRead]
  by_cases hfd : server.fdOpen = true
  · rw [if_pos hfd, if_pos rfl]
  · rw [if_neg hfd]
    rw [Bool.not_eq_true] at hfd
    rw [← hfd]

/-! ## The phases of the two -/

/-- The lengths of a table are those of requests. -/
def Requestable (videoData : VideoData) : Prop :=
  ∀ row ∈ videoData.representation, ∀ size ∈ row, 1 ≤ size.toInt ∧ size.toInt ≤ 2 ^ 31 - 1

/-- The client has read all it has asked for. -/
structure Settled (videoData : VideoData) (s : DashLink alg) (c : DashClient alg) : Prop where
  video : c.data.videoData = videoData
  requested : c.data.throughput.transmissionRequested =
    s.client.data.throughput.transmissionRequested
  counter : c.segmentCounter = s.asked.length
  recorded : c.data.throughput.bytesReceived = s.asked
  received : s.received = s.asked.sum
  between : Idle s.channel s.server

/-- The next segment is not asked for yet: if there is an alarm for that, it is chosen. -/
structure Waiting (videoData : VideoData) (s : DashLink alg) : Prop
    extends Settled videoData s s.client where
  readBytes : s.client.readBytes = 0
  alarm : s.client.requestAlarm.isSome → s.client.status ≠ .tcpConnecting ∧
    0 < s.client.segmentBytes.toNat ∧ s.client.segmentBytes.toNat < 2 ^ 31

/-- A segment is asked for, and not all of it is read. -/
structure Loading (videoData : VideoData) (s : DashLink alg) : Prop where
  video : s.client.data.videoData = videoData
  status : s.client.status ≠ .tcpConnecting
  alarm : s.client.requestAlarm = none
  counter : s.client.segmentCounter = s.client.data.throughput.bytesReceived.length
  asked : s.asked = s.client.data.throughput.bytesReceived ++ [s.client.segmentBytes.toNat]
  received : s.received =
    s.client.data.throughput.bytesReceived.sum + s.client.readBytes.toNat
  readBytes_lt : s.client.readBytes.toNat < s.client.segmentBytes.toNat
  segmentBytes_lt : s.client.segmentBytes.toNat < 2 ^ 31
  transit : Transit s.client.segmentBytes s.client.readBytes.toNat s.channel s.server

/-- The last segment is read. -/
structure Ended (videoData : VideoData) (s : DashLink alg) : Prop
    extends Settled videoData s s.client where
  fd : s.client.fdOpen = false
  status : s.client.status ≠ .tcpConnecting
  readBytes : s.client.readBytes = s.client.segmentBytes

/-- Where a session is: before a request is answered, with a segment under way, or at
    its end. -/
inductive Phase (videoData : VideoData) (s : DashLink alg) : Prop
  | waiting : Waiting videoData s → Phase videoData s
  | loading : Loading videoData s → Phase videoData s
  | ended : Ended videoData s → Phase videoData s

variable {s : DashLink alg} {c c' : DashClient alg} {now : Time}

theorem put_of_sends (sent : List UInt64) (h : sends s.client c = sent) : s.put c = { s with
    client := c
    channel := s.channel ++ sent.map message
    asked := s.asked ++ sent.map UInt64.toNat } := by
  rw [put, h]

theorem put_of_sends_nil (h : sends s.client c = []) : s.put c = { s with client := c } := by
  rw [put_of_sends [] h, List.map_nil, List.map_nil, List.append_nil, List.append_nil]

/-- Nothing is sent where no request is recorded. -/
theorem put_of_eq (h : c.data.throughput.transmissionRequested =
    s.client.data.throughput.transmissionRequested) : s.put c = { s with client := c } := by
  refine put_of_sends_nil ?_
  rw [sends, if_neg]
  rw [h]
  exact fun hlt => absurd hlt.1 (lt_irrefl _)

/-- Nothing is sent by a closed client. -/
theorem put_of_closed (h : c.fdOpen = false) : s.put c = { s with client := c } := by
  refine put_of_sends_nil ?_
  rw [sends, if_neg]
  rw [h]
  exact fun hopen => Bool.noConfusion hopen.2

/-- What is between the parties after the last byte is read. -/
theorem Transit.idle (h : Transit bytes readBytes channel server)
    (hall : readBytes + server.unread = bytes.toNat) (hpos : 0 < server.unread) :
    Idle channel { server with unread := 0 } := by
  cases h with
  | asked hqueue hsent hunread hread => omega
  | serving hqueue hsent hunread => omega
  | served hqueue hsent hunread => exact ⟨rfl, hqueue, hsent, rfl⟩

theorem Transit.unread_le (h : Transit bytes readBytes channel server)
    (hlt : readBytes < bytes.toNat) : readBytes + server.unread ≤ bytes.toNat := by
  cases h with
  | asked hqueue hsent hunread hread => omega
  | serving hqueue hsent hunread => omega
  | served hqueue hsent hunread => omega

/-- Some of the bytes in flight are read. -/
theorem Transit.take (h : Transit bytes readBytes channel server) {nbytes : ℕ} (hpos : 0 < nbytes)
    (hle : nbytes ≤ server.unread) : Transit bytes (readBytes + nbytes) channel
      { server with unread := server.unread - nbytes } := by
  cases h with
  | asked hqueue hsent hunread hread => omega
  | serving hqueue hsent hunread =>
    refine .serving hqueue hsent ?_
    dsimp only
    omega
  | served hqueue hsent hunread =>
    refine .served hqueue hsent ?_
    dsimp only
    omega

/-- A client that has chosen a segment asks for it. -/
theorem Settled.put_delayRequestHandle (h : Settled videoData s c) (hread : c.readBytes = 0)
    (halarm : c.requestAlarm = none) (hstatus : c.status ≠ .tcpConnecting)
    (hpos : 0 < c.segmentBytes.toNat) (hlt : c.segmentBytes.toNat < 2 ^ 31) (now : Time) :
    Phase videoData (s.put (c.delayRequestHandle now)) := by
  have hnone : ∀ alarm : c.requestAlarm.isSome = true, False := by
    rw [halarm]
    exact fun h => Bool.noConfusion h
  rcases delayRequestHandle_cases now c with heq | ⟨-, heq⟩
  · rw [heq, put_of_eq h.requested]
    exact .waiting ⟨⟨h.video, rfl, h.counter, h.recorded, h.received, h.between⟩, hread,
      fun hsome => (hnone hsome).elim⟩
  · rw [heq]
    by_cases hfd : c.fdOpen = true
    · have hzero : c.readBytes.toNat = 0 := by
        rw [hread]
        rfl
      rw [put_of_sends [c.segmentBytes]]
      · refine .loading ⟨h.video, hstatus, halarm, ?_, ?_, ?_, ?_, hlt, ?_⟩
        · exact h.counter.trans (congrArg List.length h.recorded.symm)
        · exact congrArg (· ++ [c.segmentBytes.toNat]) h.recorded.symm
        · dsimp only
          rw [hzero, Nat.add_zero, h.recorded, h.received]
        · dsimp only
          omega
        · dsimp only
          rw [h.between.channel]
          exact .asked h.between.requestBytes h.between.sentBytes h.between.unread hzero
      · rw [sends, if_pos]
        dsimp only
        rw [List.length_append, h.requested]
        exact ⟨Nat.lt_succ_self _, hfd⟩
    · rw [Bool.not_eq_true] at hfd
      rw [put_of_closed]
      · exact .waiting ⟨⟨h.video, rfl, h.counter, h.recorded, h.received, h.between⟩, hread,
          fun hsome => (hnone hsome).elim⟩
      · exact hfd

/-- The length of a segment of the table. -/
theorem Requestable.segmentSize {quality : ℤ} {index : ℕ} {size : Int64}
    (h : Requestable videoData)
    (hsize : DashClient.segmentSize videoData.representation quality index = some size) :
    0 < size.toUInt64.toNat ∧ size.toUInt64.toNat < 2 ^ 31 := by
  obtain ⟨row, hrow, hmem, -⟩ := segmentSize_mem hsize
  obtain ⟨hge, hle⟩ := h row hrow size hmem
  have hnat : (size.toUInt64.toNat : ℤ) = size.toInt := by
    have hlt := size.toUInt64.toNat_lt
    have htoInt : size.toInt = Int.bmod size.toUInt64.toNat (2 ^ 64) := by
      rw [← Int64.toInt_toBitVec, BitVec.toInt_eq_toNat_bmod]
      rfl
    rw [Int.bmod_def] at htoInt
    split_ifs at htoInt <;> omega
  omega

/-- A client that has read everything chooses the next segment. -/
theorem Settled.put_requestSegment (hvideo : Requestable videoData) (h : Settled videoData s c)
    (halarm : c.requestAlarm = none) (hstatus : c.status ≠ .tcpConnecting)
    (hrequest : c.requestSegment now = .ok c') : Phase videoData (s.put c') := by
  obtain ⟨reply, algorithm, size, -, hsize, c₁, hc₁, hor⟩ := requestSegment_cases hrequest
  rw [h.video] at hsize
  obtain ⟨hpos, hlt⟩ := hvideo.segmentSize hsize
  have h₁ : Settled videoData s c₁ := by
    rw [hc₁]
    exact ⟨h.video, h.requested, h.counter, h.recorded, h.received, h.between⟩
  rcases hor with rfl | rfl
  · rw [put_of_eq]
    · rw [hc₁] at h₁ ⊢
      exact .waiting ⟨⟨h₁.video, rfl, h₁.counter, h₁.recorded, h₁.received, h₁.between⟩, rfl,
        fun _ => ⟨hstatus, hpos, hlt⟩⟩
    · exact h₁.requested
  · refine h₁.put_delayRequestHandle ?_ ?_ ?_ ?_ ?_ now
    · rw [hc₁]
    · rw [hc₁]
      exact halarm
    · rw [hc₁]
      exact hstatus
    · rw [hc₁]
      exact hpos
    · rw [hc₁]
      exact hlt

theorem countBytes_requested (now : Time) (nbytes : ℕ) (c : DashClient alg) :
    (c.countBytes now nbytes).data.throughput.transmissionRequested =
      c.data.throughput.transmissionRequested := by
  rw [countBytes]
  dsimp only
  split_ifs <;> rfl

theorem countBytes_bytesReceived (now : Time) (nbytes : ℕ) (c : DashClient alg) :
    (c.countBytes now nbytes).data.throughput.bytesReceived =
      c.data.throughput.bytesReceived := by
  rw [countBytes]
  dsimp only
  split_ifs <;> rfl

/-- The last byte of the segment is read: nothing of it is on the way any more. -/
theorem Loading.settled (h : Loading videoData s) {nbytes : ℕ}
    (hpos : 0 < nbytes) (hle : nbytes ≤ s.server.unread)
    (hread : (s.client.countBytes now nbytes).readBytes.toNat =
      s.client.readBytes.toNat + nbytes)
    (hall : s.client.readBytes.toNat + nbytes = s.client.segmentBytes.toNat) :
    Settled videoData (s.take nbytes)
      (((s.client.countBytes now nbytes).recordSegment now).checkBufferStatus now) := by
  have hunread := h.transit.unread_le h.readBytes_lt
  have hnone : s.server.unread - nbytes = 0 := by omega
  have hidle : Idle s.channel { s.server with unread := 0 } :=
    h.transit.idle (by omega) (by omega)
  obtain ⟨ps, pa, hcheck⟩ :=
    checkBufferStatus_eq now ((s.client.countBytes now nbytes).recordSegment now)
  rw [hcheck, take, hnone]
  refine ⟨h.video, countBytes_requested now nbytes s.client, ?_, ?_, ?_, hidle⟩
  · change s.client.segmentCounter + 1 = s.asked.length
    rw [h.asked, List.length_append, List.length_singleton, h.counter]
  · change (s.client.countBytes now nbytes).data.throughput.bytesReceived ++
      [(s.client.countBytes now nbytes).readBytes.toNat] = s.asked
    rw [countBytes_bytesReceived, hread, hall, h.asked]
  · dsimp only
    rw [h.received, h.asked, List.sum_append, List.sum_singleton]
    omega

/-- A segment that was the last one closes the socket. -/
theorem Settled.put_close {c : DashClient alg} (h : Settled videoData s c)
    (hstatus : c.status ≠ .tcpConnecting) (hsegment : c.readBytes = c.segmentBytes) :
    Phase videoData (s.put ({ c with registered := false } : DashClient alg).close) := by
  have hclose : ∃ status, status ≠ TcpConnectionStatus.tcpConnecting ∧
      ({ c with registered := false } : DashClient alg).close =
        { c with registered := false, status := status, fdOpen := false } := by
    rw [close]
    split_ifs with hfd
    · exact ⟨.tcpDisconnect, fun h => TcpConnectionStatus.noConfusion h, rfl⟩
    · refine ⟨c.status, hstatus, ?_⟩
      rw [Bool.not_eq_true] at hfd
      rw [← hfd]
  obtain ⟨status, hne, heq⟩ := hclose
  rw [heq, put_of_eq (c := { c with registered := false, status := status, fdOpen := false })
    h.requested]
  exact .ended ⟨⟨h.video, rfl, h.counter, h.recorded, h.received, h.between⟩, rfl, hne, hsegment⟩

/-- The last byte of a segment is read. -/
theorem Loading.complete (hvideo : Requestable videoData) (h : Loading videoData s) {nbytes : ℕ}
    (hpos : 0 < nbytes) (hle : nbytes ≤ s.server.unread) {done : Bool}
    (hread : (s.client.countBytes now nbytes).readBytes.toNat =
      s.client.readBytes.toNat + nbytes)
    (hcomplete : (s.client.countBytes now nbytes).readBytes =
      (s.client.countBytes now nbytes).segmentBytes)
    (hdata : (s.client.countBytes now nbytes).completeSegment now = .ok (c', done)) :
    Phase videoData ((s.take nbytes).put c') := by
  have hall : s.client.readBytes.toNat + nbytes = s.client.segmentBytes.toNat := by
    rw [← hread, hcomplete]
    rfl
  have hsettled := h.settled hpos hle hread hall
  obtain ⟨ps, pa, hcheck⟩ :=
    checkBufferStatus_eq now ((s.client.countBytes now nbytes).recordSegment now)
  have hstatus : (((s.client.countBytes now nbytes).recordSegment now).checkBufferStatus
      now).status ≠ .tcpConnecting := by
    rw [hcheck]
    exact h.status
  have halarm : (((s.client.countBytes now nbytes).recordSegment now).checkBufferStatus
      now).requestAlarm = none := by
    rw [hcheck]
    exact h.alarm
  have hsegment : (((s.client.countBytes now nbytes).recordSegment now).checkBufferStatus
      now).readBytes = (((s.client.countBytes now nbytes).recordSegment now).checkBufferStatus
      now).segmentBytes := by
    rw [hcheck]
    exact hcomplete
  have hcases := completeSegment_cases hdata
  generalize ((s.client.countBytes now nbytes).recordSegment now).checkBufferStatus now = c at *
  rcases hcases with ⟨hrequest, -⟩ | ⟨rfl, -⟩
  · exact hsettled.put_requestSegment hvideo halarm hstatus hrequest
  · -- there is no other segment
    exact hsettled.put_close hstatus hsegment

/-- Bytes are read, and the rest of the segment is still on the way. -/
theorem Loading.countBytes (h : Loading videoData s) {nbytes : ℕ} (hpos : 0 < nbytes)
    (hle : nbytes ≤ s.server.unread)
    (hread : (s.client.countBytes now nbytes).readBytes.toNat =
      s.client.readBytes.toNat + nbytes)
    (hne : s.client.readBytes.toNat + nbytes ≠ s.client.segmentBytes.toNat) :
    Phase videoData ((s.take nbytes).put (s.client.countBytes now nbytes)) := by
  have hunread := h.transit.unread_le h.readBytes_lt
  have hlt := h.segmentBytes_lt
  have hbytes := countBytes_bytesReceived now nbytes s.client
  rw [put_of_eq (s := s.take nbytes) (countBytes_requested now nbytes s.client)]
  refine .loading ⟨h.video, h.status, h.alarm, ?_, ?_, ?_, ?_, h.segmentBytes_lt, ?_⟩
  · dsimp only [take]
    rw [hbytes]
    exact h.counter
  · dsimp only [take]
    rw [hbytes]
    exact h.asked
  · dsimp only [take]
    rw [hbytes, hread, h.received, Nat.add_assoc]
  · dsimp only
    rw [hread]
    refine lt_of_le_of_ne ?_ hne
    change _ ≤ s.client.segmentBytes.toNat
    omega
  · dsimp only [take]
    rw [hread]
    exact h.transit.take hpos hle

/-- A chunk is read. -/
theorem Loading.read (hvideo : Requestable videoData) (h : Loading videoData s) {nbytes : ℕ}
    (hpos : 0 < nbytes) (hle : nbytes ≤ s.server.unread) {done : Bool}
    (hdata : s.client.onData now nbytes = .ok (c', done)) :
    Phase videoData ((s.take nbytes).put c') := by
  have hunread := h.transit.unread_le h.readBytes_lt
  have hlt := h.segmentBytes_lt
  have hread : (s.client.countBytes now nbytes).readBytes.toNat =
      s.client.readBytes.toNat + nbytes := countBytes_readBytes (by omega) now
  rw [onData] at hdata
  by_cases hcomplete : (s.client.countBytes now nbytes).readBytes =
      (s.client.countBytes now nbytes).segmentBytes
  · rw [if_pos hcomplete] at hdata
    exact h.complete hvideo hpos hle hread hcomplete hdata
  · rw [if_neg hcomplete] at hdata
    cases hdata
    refine h.countBytes hpos hle hread fun hall => ?_
    exact hcomplete (UInt64.toNat_inj.1 (hread.trans hall))

/-! ## Steps -/

/-- The client is the same but for its player and for its socket, which may be closed. -/
structure Same (c c' : DashClient alg) : Prop where
  video : c'.data.videoData = c.data.videoData
  requested : c'.data.throughput.transmissionRequested = c.data.throughput.transmissionRequested
  recorded : c'.data.throughput.bytesReceived = c.data.throughput.bytesReceived
  counter : c'.segmentCounter = c.segmentCounter
  readBytes : c'.readBytes = c.readBytes
  segmentBytes : c'.segmentBytes = c.segmentBytes
  alarm : c'.requestAlarm = c.requestAlarm
  status : c'.status = .tcpConnecting → c.status = .tcpConnecting
  fd : c.fdOpen = false → c'.fdOpen = false

theorem Same.refl (c : DashClient alg) : Same c c :=
  ⟨rfl, rfl, rfl, rfl, rfl, rfl, rfl, id, id⟩

theorem Settled.same (h : Settled videoData s c) (hc : Same c c') : Settled videoData s c' :=
  ⟨hc.video.trans h.video, hc.requested.trans h.requested, hc.counter.trans h.counter,
    hc.recorded.trans h.recorded, h.received, h.between⟩

theorem Phase.put_same (h : Phase videoData s) (hc : Same s.client c') :
    Phase videoData (s.put c') := by
  rw [put_of_eq hc.requested]
  cases h with
  | waiting h =>
    have hsettled := h.toSettled.same hc
    refine .waiting ⟨⟨hsettled.video, rfl, hsettled.counter, hsettled.recorded, h.received,
      h.between⟩, hc.readBytes.trans h.readBytes, ?_⟩
    dsimp only
    rw [hc.alarm, hc.segmentBytes]
    exact fun hsome => (h.alarm hsome).imp_left fun hne hstatus => hne (hc.status hstatus)
  | loading h =>
    refine .loading ⟨hc.video.trans h.video, fun hstatus => h.status (hc.status hstatus),
      hc.alarm.trans h.alarm, ?_, ?_, ?_, ?_, ?_, ?_⟩
    · dsimp only
      rw [hc.counter, hc.recorded]
      exact h.counter
    · dsimp only
      rw [hc.recorded, hc.segmentBytes]
      exact h.asked
    · dsimp only
      rw [hc.recorded, hc.readBytes]
      exact h.received
    · dsimp only
      rw [hc.readBytes, hc.segmentBytes]
      exact h.readBytes_lt
    · dsimp only
      rw [hc.segmentBytes]
      exact h.segmentBytes_lt
    · dsimp only
      rw [hc.readBytes, hc.segmentBytes]
      exact h.transit
  | ended h =>
    have hsettled := h.toSettled.same hc
    refine .ended ⟨⟨hsettled.video, rfl, hsettled.counter, hsettled.recorded, h.received,
      h.between⟩, hc.fd h.fd, fun hstatus => h.status (hc.status hstatus), ?_⟩
    exact hc.readBytes.trans (h.readBytes.trans hc.segmentBytes.symm)

/-- An error of the socket. -/
theorem same_failed (c : DashClient alg) :
    Same c ({ c with playerState := .playerDone, registered := false } : DashClient alg).close := by
  rw [close]
  split_ifs
  · exact ⟨rfl, rfl, rfl, rfl, rfl, rfl, rfl, fun h => TcpConnectionStatus.noConfusion h,
      fun _ => rfl⟩
  · exact ⟨rfl, rfl, rfl, rfl, rfl, rfl, rfl, id, id⟩

theorem same_playBackHandle (h : playBackHandle now { c with playerAlarm := none } = .ok c') :
    Same c c' := by
  rw [playBackHandle] at h
  split at h
  · cases h
  · next c₁ hplay =>
    obtain ⟨ps, pa, rfl⟩ := afterFrame_eq h
    obtain ⟨-, -, rfl⟩ | ⟨-, -, rfl⟩ | ⟨-, rfl⟩ := playFrame_cases hplay <;>
      exact ⟨rfl, rfl, rfl, rfl, rfl, rfl, rfl, id, id⟩

/-- An event of the socket without data: an error, or the client gets connected. -/
theorem Phase.onEvent (hvideo : Requestable videoData) (h : Phase videoData s)
    {error input output : Bool} (hevent : s.client.onEvent now error input output [] = .ok c') :
    Phase videoData (s.put c') := by
  obtain ⟨c₁, hc₁, hsame⟩ : ∃ c₁, c₁ = (if error then
      ({ s.client with playerState := .playerDone, registered := false } : DashClient alg).close
      else s.client) ∧ Same s.client c₁ := by
    refine ⟨_, rfl, ?_⟩
    split_ifs
    · exact same_failed s.client
    · exact Same.refl s.client
  have hread : (if input then c₁.onReadEvent now [] else .ok c₁) = .ok c₁ := by
    rw [onReadEvent, onReadLoop]
    split_ifs <;> rfl
  rw [DashClient.onEvent, ← hc₁] at hevent
  rw [hread] at hevent
  dsimp only at hevent
  split_ifs at hevent with hconnected
  · have hstatus := hsame.status hconnected.2
    cases h with
    | loading h => exact absurd hstatus h.status
    | ended h => exact absurd hstatus h.status
    | waiting h =>
      have hsettled := h.toSettled.same hsame
      refine Settled.put_requestSegment (c := { c₁ with
        status := .tcpConnected
        playerState := .playerInitBuffering
        playerAlarm := none
        requestAlarm := none }) hvideo ?_ rfl (fun hs => TcpConnectionStatus.noConfusion hs) hevent
      exact ⟨hsettled.video, hsettled.requested, hsettled.counter, hsettled.recorded,
        hsettled.received, hsettled.between⟩
  · cases hevent
    exact h.put_same hsame

/-- The alarm for a request that is delayed. -/
theorem Phase.requestAlarm (h : Phase videoData s) (hset : s.client.requestAlarm.isSome = true)
    (now : Time) : Phase videoData
      (s.put (DashClient.delayRequestHandle now { s.client with requestAlarm := none })) := by
  cases h with
  | waiting h =>
    obtain ⟨hstatus, hpos, hlt⟩ := h.alarm hset
    refine Settled.put_delayRequestHandle (c := { s.client with requestAlarm := none })
      ⟨h.video, rfl, h.counter, h.recorded, h.received, h.between⟩ h.readBytes rfl hstatus hpos hlt
      now
  | loading h =>
    rw [h.alarm] at hset
    cases hset
  | ended h =>
    have hsent : ∀ c : DashClient alg, c.fdOpen = false → c.data.videoData = videoData →
        c.segmentCounter = s.client.segmentCounter →
        c.data.throughput.bytesReceived = s.client.data.throughput.bytesReceived →
        c.status = s.client.status → c.readBytes = c.segmentBytes →
        Phase videoData (s.put c) := by
      intro c hfd hdata hcounter hrecorded hstatus hread
      rw [put_of_closed hfd]
      exact .ended ⟨⟨hdata, rfl, hcounter.trans h.counter, hrecorded.trans h.recorded, h.received,
        h.between⟩, hfd, fun hs => h.status (hstatus ▸ hs), hread⟩
    rcases delayRequestHandle_cases now { s.client with requestAlarm := none } with heq | ⟨-, heq⟩
    · rw [heq]
      exact hsent _ h.fd h.video rfl rfl rfl h.readBytes
    · rw [heq]
      exact hsent _ h.fd h.video rfl rfl rfl h.readBytes

theorem Phase.event (hvideo : Requestable videoData) (h : Phase videoData s) {e : Event}
    (hquiet : Quiet e) (hhandle : s.client.handle now e = .ok c') :
    Phase videoData (s.put c') := by
  cases e with
  | socket error input output reads =>
    rw [Quiet] at hquiet
    rw [hquiet, DashClient.handle] at hhandle
    split_ifs at hhandle
    · exact h.onEvent hvideo hhandle
    · cases hhandle
      exact h.put_same (Same.refl _)
  | requestAlarm =>
    rw [DashClient.handle] at hhandle
    split_ifs at hhandle with hset
    · cases hhandle
      exact h.requestAlarm hset now
    · cases hhandle
      exact h.put_same (Same.refl _)
  | playerAlarm =>
    rw [DashClient.handle] at hhandle
    split_ifs at hhandle
    · exact h.put_same (same_playBackHandle hhandle)
    · cases hhandle
      exact h.put_same (Same.refl _)

/-- The client reads: there are bytes in flight while a segment is loading only. -/
theorem Phase.read (hvideo : Requestable videoData) (h : Phase videoData s) {nbytes : ℕ}
    (hpos : 0 < nbytes) (hle : nbytes ≤ s.server.unread) {done : Bool}
    (hdata : s.client.onData now nbytes = .ok (c', done)) :
    Phase videoData ((s.take nbytes).put c') := by
  cases h with
  | loading h => exact h.read hvideo hpos hle hdata
  | waiting h =>
    rw [h.between.unread] at hle
    omega
  | ended h =>
    rw [h.between.unread] at hle
    omega

/-- What the server does: it moves a request on, and does nothing if there is none. -/
theorem Phase.serve (h : Phase videoData s) {channel : List Bytes} {server : DashServerEndpoint}
    (hidle : Idle s.channel s.server → Idle channel server)
    (htransit : Loading videoData s →
      Transit s.client.segmentBytes s.client.readBytes.toNat channel server) :
    Phase videoData { s with channel := channel, server := server } := by
  cases h with
  | waiting h =>
    exact .waiting ⟨⟨h.video, rfl, h.counter, h.recorded, h.received, hidle h.between⟩,
      h.readBytes, h.alarm⟩
  | ended h =>
    exact .ended ⟨⟨h.video, rfl, h.counter, h.recorded, h.received, hidle h.between⟩, h.fd,
      h.status, h.readBytes⟩
  | loading h =>
    exact .loading ⟨h.video, h.status, h.alarm, h.counter, h.asked, h.received, h.readBytes_lt,
      h.segmentBytes_lt, htransit h⟩

theorem Phase.step (hvideo : Requestable videoData) {s' : DashLink alg} (h : Phase videoData s)
    (hstep : Step s s') : Phase videoData s' := by
  cases hstep with
  | read nbytes c done hfd hpos hle hdata => exact h.read hvideo hpos hle hdata
  | endOfStream hfd hunread hclosed =>
    -- the client only takes its socket out of the loop
    have hsame : Same s.client { s.client with registered := false } :=
      ⟨rfl, rfl, rfl, rfl, rfl, rfl, rfl, id, id⟩
    have hput := h.put_same hsame
    rwa [put_of_eq hsame.requested] at hput
  | event e c hquiet hhandle => exact h.event hvideo hquiet hhandle
  | request buffer channel answers hchannel hfd =>
    refine h.serve (fun hidle => ?_) fun hloading => ?_
    · -- an idle client has asked for nothing
      rw [hidle.channel] at hchannel
      cases hchannel
    · have htransit := hloading.transit
      rw [hchannel] at htransit
      exact htransit.onRead hloading.segmentBytes_lt
        (lt_of_le_of_lt (Nat.zero_le _) hloading.readBytes_lt) answers hfd
  | writable answers =>
    exact h.serve (fun hidle => hidle.responce answers)
      fun hloading => hloading.transit.responce hloading.segmentBytes_lt answers
  | hangUp hfd hchannel =>
    rw [onRead_end]
    refine h.serve (fun hidle => ?_) fun hloading => ?_
    · exact ⟨hidle.channel, hidle.requestBytes, hidle.sentBytes, hidle.unread⟩
    · -- the end of the stream changes neither queue
      have htransit := hloading.transit
      generalize s.channel = channel at htransit ⊢
      cases htransit with
      | asked hqueue hsent hunread hread => exact .asked hqueue hsent hunread hread
      | serving hqueue hsent hunread => exact .serving hqueue hsent hunread
      | served hqueue hsent hunread => exact .served hqueue hsent hunread
  | round now =>
    -- no phase speaks of the time
    cases h with
    | waiting h =>
      exact .waiting ⟨⟨h.video, rfl, h.counter, h.recorded, h.received, h.between⟩, h.readBytes,
        h.alarm⟩
    | ended h =>
      exact .ended ⟨⟨h.video, rfl, h.counter, h.recorded, h.received, h.between⟩, h.fd, h.status,
        h.readBytes⟩
    | loading h =>
      exact .loading ⟨h.video, h.status, h.alarm, h.counter, h.asked, h.received,
        h.readBytes_lt, h.segmentBytes_lt, h.transit⟩

/-! ## Runs -/

theorem sum_take_le (l : List ℕ) {m n : ℕ} (h : m ≤ n) : (l.take m).sum ≤ (l.take n).sum :=
  (List.take_sublist_take_left h).sum_le_sum fun _ _ => Nat.zero_le _

theorem Settled.lockstep (h : Settled videoData s s.client)
    (hle : s.client.readBytes.toNat ≤ s.client.segmentBytes.toNat) : Lockstep s where
  counter_le := h.counter.le
  le_counter := by
    rw [h.counter]
    exact Nat.le_succ _
  pending := by
    rw [h.between.channel, h.between.requestBytes]
    exact Nat.zero_le _
  recorded := by rw [h.recorded, h.counter, List.take_length]
  received_ge := by rw [h.counter, List.take_length, h.received]
  inFlight := by rw [h.received, h.between.unread, Nat.add_zero]
  readBytes_le := hle
  outstanding hlength := by
    rw [h.counter] at hlength
    omega
  complete_iff k := by
    rw [h.counter]
    refine ⟨fun hlt => ⟨hlt, ?_⟩, And.left⟩
    rw [h.received]
    exact (sum_take_le s.asked hlt).trans (by rw [List.take_length])

theorem Loading.lockstep (h : Loading videoData s) : Lockstep s := by
  have hlength : s.asked.length = s.client.segmentCounter + 1 := by
    rw [h.asked, List.length_append, List.length_singleton, h.counter]
  have htake : s.asked.take s.client.segmentCounter =
      s.client.data.throughput.bytesReceived := by
    rw [h.asked, h.counter, List.take_left]
  have hsum : s.asked.sum = s.client.data.throughput.bytesReceived.sum +
      s.client.segmentBytes.toNat := by
    rw [h.asked, List.sum_append, List.sum_singleton]
  have hunread := h.transit.unread_le h.readBytes_lt
  have hlt := h.readBytes_lt
  have hreceived := h.received
  refine ⟨by omega, hlength.le, ?_, htake.symm, ?_, by omega, hlt.le, fun _ => ⟨?_, ?_⟩,
    fun k => ?_⟩
  · rw [hlength, Nat.add_sub_cancel_left]
    have htransit := h.transit
    generalize s.channel = channel at htransit ⊢
    cases htransit with
    | asked hqueue => rw [hqueue]; exact le_rfl
    | serving hqueue => rw [hqueue]; exact le_rfl
    | served hqueue => rw [hqueue]; exact Nat.zero_le _
  · rw [htake, hreceived]
    exact Nat.le_add_right _ _
  · rw [h.asked, List.getLast?_concat]
  · rw [htake]
    exact hreceived
  · refine ⟨fun hk => ⟨by omega, ?_⟩, fun hk => ?_⟩
    · have hle := sum_take_le s.asked (show k + 1 ≤ s.client.segmentCounter by omega)
      rw [htake] at hle
      omega
    · by_contra hge
      have hall := hk.2
      rw [List.take_of_length_le (by omega)] at hall
      omega

theorem Phase.lockstep (h : Phase videoData s) : Lockstep s := by
  cases h with
  | waiting h =>
    refine h.toSettled.lockstep ?_
    rw [h.readBytes]
    exact Nat.zero_le _
  | loading h => exact h.lockstep
  | ended h => exact h.toSettled.lockstep (by rw [h.readBytes])

theorem phase_reachable (hvideo : Requestable videoData)
    (h : (system alg videoData).Reachable s) : Phase videoData s := by
  refine h.invariant (P := Phase videoData) ?_ fun s s' _ hs hstep => hs.step hvideo hstep
  rintro s ⟨w, ⟨-, initSegments, algorithm, playerState, -, hclient⟩, rfl⟩
  rw [hclient]
  exact .waiting ⟨⟨rfl, rfl, rfl, rfl, rfl, ⟨rfl, rfl, rfl, rfl⟩⟩, rfl, fun hset => by cases hset⟩

/-- The steps contain the loop of the client, for bytes that are in flight already. -/
theorem reachable_onReadLoop {reads : List ℕ} (h : (system alg videoData).Reachable s)
    (hpos : ∀ nbytes ∈ reads, 0 < nbytes) (hle : reads.sum ≤ s.server.unread)
    (hfd : s.client.fdOpen = true) (hloop : onReadLoop s.now reads s.client = .ok c') :
    ∃ s', (system alg videoData).Reachable s' ∧ s'.client = c' := by
  induction reads generalizing s with
  | nil =>
    cases hloop
    exact ⟨s, h, rfl⟩
  | cons nbytes reads ih =>
    rw [List.forall_mem_cons] at hpos
    rw [List.sum_cons] at hle
    obtain ⟨k, rfl⟩ := Nat.exists_eq_succ_of_ne_zero hpos.1.ne'
    rw [onReadLoop] at hloop
    split at hloop
    · cases hloop
    · next c hdata =>
      cases hloop
      exact ⟨_, h.step (.read s (k + 1) _ true hfd hpos.1 (by omega) hdata), rfl⟩
    · next c hdata =>
      refine ih (h.step (.read s (k + 1) c false hfd hpos.1 (by omega) hdata)) hpos.2 ?_ ?_ hloop
      · rw [put, take]
        dsimp only
        omega
      · exact ((onData_frame hdata).2 rfl).trans hfd

/-- In every state of the two parties, with a table of lengths that a request can have,
    the client and the server are in lockstep. -/
theorem lockstep_reachable (hvideo : Requestable videoData)
    (h : (system alg videoData).Reachable s) : Lockstep s :=
  (phase_reachable hvideo h).lockstep

/-- A client and a server that have both segments of a table between them: one is read, and
    the next one is asked for. -/
theorem lockstep_second_segment : ∃ s : DashLink lowestLevel,
    (system lowestLevel smallTable).Reachable s ∧ s.client.segmentCounter = 1 ∧
      s.asked = [2, 3] ∧ Lockstep s := by
  have hvideo : Requestable smallTable := by
    intro row hrow size hsize
    obtain rfl := List.mem_singleton.1 hrow
    rcases List.mem_pair.1 hsize with rfl | rfl
    · decide
    · decide
  have hinit : (system lowestLevel smallTable).Reachable
      { client := DashClient.new smallTable 1 (), now := 1000 } :=
    .init ⟨⟨_, 1000⟩, ⟨by decide, 1, (), _, .inl rfl, rfl⟩, rfl⟩
  have hconnected := hinit.step (.event _ (.socket false false true []) _ rfl rfl)
  have hserved := hconnected.step (.request _ (message 2) [] [2] rfl rfl)
  have hread := hserved.step (.read _ 2 _ false rfl (by decide) (by decide +kernel) rfl)
  exact ⟨_, hread, rfl, rfl, lockstep_reachable hvideo hread⟩

end DashLink

end DashDim
