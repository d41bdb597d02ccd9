import DashDim.Dash.Client
import Mathlib.Tactic.Linarith

/-!
# The bookkeeping of the DASH client

The counters and the parallel arrays of the client agree, in every state between
its handlers, as long as no more data arrives than was requested.

A client is in one of three phases (`Phase`): it is idle, all that was requested
having arrived; or busy, one segment being requested and not all of it here; or its
socket is closed. One lemma for each function says how it takes the client from one
to the next, with the counts kept (`Counts`), and from these follows the invariant
`Bookkeeping`:

* `bookkeeping_reachable`: it holds of every reachable state.
-/

namespace DashDim

namespace DashClient

variable {alg : AdaptationAlgorithm}

/-- A table whose rows all have `n` segments, none of them empty. -/
structure Uniform (n : ℕ) (representation : List (List Int64)) : Prop where
  pos : 1 ≤ n
  length : ∀ row ∈ representation, row.length = n
  size : ∀ row ∈ representation, ∀ size ∈ row, 1 ≤ size

/-- What the counters and arrays of the client have in common, for a table of rows
    of `n` segments. -/
structure Bookkeeping (n : ℕ) (c : DashClient alg) : Prop where
  counter : (c.segmentCounter : ℤ) = c.playbackIndex + c.segmentsInBuffer
  buffered : 0 ≤ c.segmentsInBuffer
  played_ge : c.playbackIndex * c.framesInSegment ≤ c.data.playedFrames
  played_lt : c.data.playedFrames < (c.playbackIndex + 1) * c.framesInSegment
  end_length : c.data.throughput.transmissionEnd.length = c.segmentCounter
  bytes_length : c.data.throughput.bytesReceived.length = c.segmentCounter
  timeNow_length : c.data.bufferData.timeNow.length = c.segmentCounter
  old_length : c.data.bufferData.bufferLevelOld.length = c.segmentCounter
  new_length : c.data.bufferData.bufferLevelNew.length = c.segmentCounter
  start_length : c.data.throughput.transmissionStart.length = c.segmentCounter ∨
    c.data.throughput.transmissionStart.length = c.segmentCounter + 1
  requested_length : c.data.throughput.transmissionRequested.length = c.index
  counter_le : c.segmentCounter ≤ c.index
  index_le : c.index ≤ c.segmentCounter + 1
  index_le_length : c.index ≤ n

/-! ## Counts and phases -/

/-- The counts that hold in every phase, and within the handlers. -/
structure Counts (videoData : VideoData) (n : ℕ) (c : DashClient alg) : Prop where
  video : c.data.videoData = videoData
  frames : 0 < c.framesInSegment
  counter : (c.segmentCounter : ℤ) = c.playbackIndex + c.segmentsInBuffer
  buffered : 0 ≤ c.segmentsInBuffer
  played_ge : c.playbackIndex * c.framesInSegment ≤ c.data.playedFrames
  played_lt : c.data.playedFrames < (c.playbackIndex + 1) * c.framesInSegment
  end_length : c.data.throughput.transmissionEnd.length = c.segmentCounter
  bytes_length : c.data.throughput.bytesReceived.length = c.segmentCounter
  timeNow_length : c.data.bufferData.timeNow.length = c.segmentCounter
  old_length : c.data.bufferData.bufferLevelOld.length = c.segmentCounter
  new_length : c.data.bufferData.bufferLevelNew.length = c.segmentCounter
  requested_length : c.data.throughput.transmissionRequested.length = c.index
  index_le_length : c.index ≤ n
  levels : 0 ≤ videoData.segmentDuration →
    ∀ level ∈ c.data.bufferData.bufferLevelNew, 0 ≤ level

/-- The client has all it has requested. -/
structure Settled (c : DashClient alg) : Prop where
  index : c.index = c.segmentCounter
  outstanding : c.ghost.outstanding = 0
  start_length : c.data.throughput.transmissionStart.length = c.segmentCounter

/-- Nothing of the next segment has arrived, nor was it requested. -/
structure Idle (c : DashClient alg) : Prop extends Settled c where
  readBytes : c.readBytes = 0
  alarm : c.requestAlarm.isSome → c.segmentBytes ≠ 0 ∧ c.status ≠ .tcpConnecting

/-- The next segment is requested, and not all of it has arrived. -/
structure Busy (c : DashClient alg) : Prop where
  status : c.status ≠ .tcpConnecting
  index : c.index = c.segmentCounter + 1
  alarm : c.requestAlarm = none
  outstanding : c.ghost.outstanding + c.readBytes.toNat ≤ c.segmentBytes.toNat
  incomplete : c.readBytes.toNat < c.segmentBytes.toNat
  start_length : c.data.throughput.transmissionStart.length =
    c.segmentCounter + if c.readBytes = 0 then 0 else 1

/-- The socket is closed. -/
structure Closed (c : DashClient alg) : Prop where
  fd : c.fdOpen = false
  status : c.status ≠ .tcpConnecting
  index : c.index = c.segmentCounter ∨ c.index = c.segmentCounter + 1 ∧ c.requestAlarm = none
  start_length : c.data.throughput.transmissionStart.length = c.segmentCounter ∨
    c.data.throughput.transmissionStart.length = c.segmentCounter + 1

/-- The phases of a client between its handlers. -/
inductive Phase (c : DashClient alg) : Prop
  | idle : Idle c → Phase c
  | busy : Busy c → Phase c
  | closed : Closed c → Phase c

/-- The counts and the phases give the invariant. -/
theorem Phase.bookkeeping {videoData : VideoData} {n : ℕ} {c : DashClient alg}
    (hc : Counts videoData n c) (hp : Phase c) : Bookkeeping n c := by
  have hindex : c.segmentCounter ≤ c.index ∧ c.index ≤ c.segmentCounter + 1 ∧
      (c.data.throughput.transmissionStart.length = c.segmentCounter ∨
        c.data.throughput.transmissionStart.length = c.segmentCounter + 1) := by
    cases hp with
    | idle h =>
      have hi := h.index
      exact ⟨by omega, by omega, .inl h.start_length⟩
    | busy h =>
      have hi := h.index
      have hs := h.start_length
      split_ifs at hs
      · exact ⟨by omega, by omega, .inl hs⟩
      · exact ⟨by omega, by omega, .inr hs⟩
    | closed h =>
      rcases h.index with hi | ⟨hi, -⟩
      · exact ⟨by omega, by omega, h.start_length⟩
      · exact ⟨by omega, by omega, h.start_length⟩
  exact ⟨hc.counter, hc.buffered, hc.played_ge, hc.played_lt, hc.end_length, hc.bytes_length,
    hc.timeNow_length, hc.old_length, hc.new_length, hindex.2.2, hc.requested_length,
    hindex.1, hindex.2.1, hc.index_le_length⟩

/-! ## Requests -/

variable {videoData : VideoData} {n : ℕ}

theorem toUInt64_ne_zero {size : Int64} (h : 1 ≤ size) : size.toUInt64 ≠ 0 := by
  intro hz
  have hzero : size = 0 := by
    rw [← Int64.toInt64_toUInt64 size, hz]
    rfl
  rw [hzero] at h
  exact absurd h (by decide)

/-- The segment of an access is one of the table. -/
theorem segmentSize_mem {representation : List (List Int64)} {quality : ℤ} {index : ℕ}
    {size : Int64} (h : segmentSize representation quality index = some size) :
    ∃ row ∈ representation, size ∈ row ∧ index < row.length := by
  rw [segmentSize] at h
  split_ifs at h
  obtain ⟨row, hrow, hsize⟩ := Option.bind_eq_some_iff.1 h
  obtain ⟨hlt, -⟩ := List.getElem?_eq_some_iff.1 hsize
  exact ⟨row, List.mem_of_getElem? hrow, List.mem_of_getElem? hsize, hlt⟩

/-- What a request does: the next segment is requested, unless there is none. -/
theorem delayRequestHandle_cases (now : Time) (c : DashClient alg) :
    c.delayRequestHandle now = c ∨
      (∃ row rows, c.data.videoData.representation = row :: rows ∧ c.index < row.length) ∧
      c.delayRequestHandle now = { c with
        data := { c.data with throughput := { c.data.throughput with
          transmissionRequested := c.data.throughput.transmissionRequested ++ [now] } }
        index := c.index + 1
        ghost := { c.ghost with outstanding :=
          c.ghost.outstanding + if c.fdOpen then c.segmentBytes.toNat else 0 } } := by
  rw [delayRequestHandle]
  split
  · exact .inl rfl
  · next row rows hrep =>
    by_cases hlt : c.index < row.length
    · rw [if_pos hlt]
      refine .inr ⟨⟨row, rows, hrep, hlt⟩, ?_⟩
      cases hfd : c.fdOpen <;> simp [sendRequest]
    · rw [if_neg hlt]
      exact .inl rfl

/-- A request keeps the counts. -/
theorem Counts.delayRequestHandle {c : DashClient alg} (hu : Uniform n videoData.representation)
    (hc : Counts videoData n c) (now : Time) : Counts videoData n (c.delayRequestHandle now) := by
  rcases delayRequestHandle_cases now c with heq | ⟨⟨row, rows, hrep, hlt⟩, heq⟩
  · rw [heq]
    exact hc
  · have hrow : row.length = n := hu.length row (by rw [← hc.video, hrep]; exact List.mem_cons_self)
    rw [heq]
    refine { hc with requested_length := ?_, index_le_length := ?_ }
    · simp [hc.requested_length]
    · dsimp only
      omega

/-- A request makes an idle client busy. -/
theorem Idle.delayRequestHandle {c : DashClient alg} (hi : Idle c) (halarm : c.requestAlarm = none)
    (hseg : c.segmentBytes ≠ 0) (hstatus : c.status ≠ .tcpConnecting) (now : Time) :
    Phase (c.delayRequestHandle now) := by
  rcases delayRequestHandle_cases now c with heq | ⟨-, heq⟩
  · rw [heq]
    exact .idle hi
  · have hpos : 0 < c.segmentBytes.toNat :=
      Nat.pos_of_ne_zero fun h => hseg (UInt64.toNat_inj.1 h)
    have hzero : c.readBytes.toNat = 0 := by rw [hi.readBytes]; rfl
    rw [heq]
    refine .busy ⟨hstatus, ?_, halarm, ?_, ?_, ?_⟩
    · dsimp only
      rw [hi.index]
    · dsimp only
      rw [hi.outstanding, hzero]
      split_ifs <;> omega
    · dsimp only
      omega
    · dsimp only
      rw [if_pos hi.readBytes, hi.start_length, Nat.add_zero]

/-- A request that is not sent any more. -/
theorem Closed.delayRequestHandle {c : DashClient alg} (hcl : Closed c)
    (halarm : c.requestAlarm = none) (hindex : c.index = c.segmentCounter) (now : Time) :
    Phase (c.delayRequestHandle now) := by
  rcases delayRequestHandle_cases now c with heq | ⟨-, heq⟩
  · rw [heq]
    exact .closed hcl
  · rw [heq]
    refine .closed ⟨hcl.fd, hcl.status, .inr ⟨?_, halarm⟩, hcl.start_length⟩
    dsimp only
    rw [hindex]

/-- What choosing the next segment does: its level is in the table, and it is
    requested at once or after a delay. -/
theorem requestSegment_cases {now : Time} {c c' : DashClient alg}
    (h : c.requestSegment now = .ok c') :
    ∃ (reply : AlgorithmReply) (algorithm : alg.State) (size : Int64),
      alg.getNextQuality c.algorithm c.data now c.quality c.index = some (reply, algorithm) ∧
      segmentSize c.data.videoData.representation reply.nextQuality c.index = some size ∧
      ∃ c₁ : DashClient alg, c₁ = { c with
          algorithm := algorithm
          quality := reply.nextQuality
          data := { c.data with historyQuality := c.data.historyQuality ++ [reply.nextQuality] }
          readBytes := 0
          segmentBytes := size.toUInt64
          ghost := { c.ghost with histories := c.ghost.histories ++ [c.data.throughput] } } ∧
        (c' = { c₁ with requestAlarm := updateAlarm (now + reply.nextDownloadDelay) } ∨
          c' = c₁.delayRequestHandle now) := by
  rw [requestSegment] at h
  split at h
  · cases h
  · next reply algorithm hreply =>
    split at h
    · cases h
    · next size hsize =>
      refine ⟨reply, algorithm, size, hreply, hsize, _, rfl, ?_⟩
      split_ifs at h
      · exact .inl (Except.ok.inj h).symm
      · exact .inr (Except.ok.inj h).symm

/-- After the next segment is chosen, the client is idle or busy. -/
theorem Settled.requestSegment {now : Time} {c c' : DashClient alg}
    (hu : Uniform n videoData.representation) (hc : Counts videoData n c) (hs : Settled c)
    (halarm : c.requestAlarm = none) (hstatus : c.status ≠ .tcpConnecting)
    (h : c.requestSegment now = .ok c') : Counts videoData n c' ∧ Phase c' := by
  obtain ⟨reply, algorithm, size, -, hsize, c₁, hc₁, hor⟩ := requestSegment_cases h
  obtain ⟨row, hrow, hmem, -⟩ := segmentSize_mem hsize
  have hne : size.toUInt64 ≠ 0 :=
    toUInt64_ne_zero (hu.size row (by rw [← hc.video]; exact hrow) size hmem)
  have hcounts : Counts videoData n c₁ := by
    rw [hc₁]
    exact { hc with }
  have hidle : Idle c₁ := by
    rw [hc₁]
    exact { hs with readBytes := rfl, alarm := fun _ => ⟨hne, hstatus⟩ }
  rcases hor with rfl | rfl
  · refine ⟨{ hcounts with }, .idle { hidle with alarm := fun _ => ?_ }⟩
    rw [hc₁]
    exact ⟨hne, hstatus⟩
  · refine ⟨hcounts.delayRequestHandle hu now, hidle.delayRequestHandle ?_ ?_ ?_ now⟩
    · rw [hc₁]
      exact halarm
    · rw [hc₁]
      exact hne
    · rw [hc₁]
      exact hstatus

/-! ## Data -/

/-- Of the client, `checkBufferStatus` only changes the player. -/
theorem checkBufferStatus_eq (now : Time) (c : DashClient alg) :
    ∃ playerState playerAlarm, c.checkBufferStatus now =
      { c with playerState := playerState, playerAlarm := playerAlarm } := by
  unfold checkBufferStatus
  extract_lets c₁
  have h₁ : ∃ playerState playerAlarm, c₁ =
      { c with playerState := playerState, playerAlarm := playerAlarm } := by
    unfold c₁
    split_ifs
    · exact ⟨_, _, rfl⟩
    · exact ⟨c.playerState, c.playerAlarm, rfl⟩
  obtain ⟨ps, pa, h₁⟩ := h₁
  rw [h₁]
  split_ifs
  · exact ⟨_, _, rfl⟩
  · exact ⟨ps, pa, rfl⟩

/-- What a result mapped came from. -/
theorem map_eq_ok {α β : Type} {f : α → β} {x : Except Fault α} {b : β} (h : x.map f = .ok b) :
    ∃ a, x = .ok a ∧ f a = b := by
  cases x with
  | error e => cases h
  | ok a => exact ⟨a, rfl, Except.ok.inj h⟩

/-- A segment that is complete is recorded; then the next one is requested, or the client
    closes. -/
theorem completeSegment_cases {now : Time} {c c' : DashClient alg} {done : Bool}
    (h : c.completeSegment now = .ok (c', done)) :
    ((c.recordSegment now).checkBufferStatus now).requestSegment now = .ok c' ∧ done = false ∨
      c' = ({ (c.recordSegment now).checkBufferStatus now with registered := false } :
        DashClient alg).close ∧ done = true := by
  have hrequest : ∀ x : Except Fault (DashClient alg), x.map (·, false) = .ok (c', done) →
      x = .ok c' ∧ done = false := by
    intro x hx
    obtain ⟨c₁, hres, heq⟩ := map_eq_ok hx
    cases heq
    exact ⟨hres, rfl⟩
  rw [completeSegment] at h
  split at h
  · exact .inl (hrequest _ h)
  · split_ifs at h
    · cases h
      exact .inr ⟨rfl, rfl⟩
    · exact .inl (hrequest _ h)

/-- All segments are requested. -/
def Last (c : DashClient alg) : Prop :=
  ∃ row ∈ c.data.videoData.representation.head?, c.index = row.length

instance (c : DashClient alg) : Decidable c.Last := by
  rw [Last]
  infer_instance

/-- A segment is complete: the next one is chosen, unless it was the last. -/
theorem completeSegment_eq (now : Time) (c : DashClient alg) :
    c.completeSegment now = if c.Last then
        .ok (({ (c.recordSegment now).checkBufferStatus now with registered := false } :
          DashClient alg).close, true)
      else (((c.recordSegment now).checkBufferStatus now).requestSegment now).map (·, false) := by
  obtain ⟨ps, pa, hcheck⟩ := checkBufferStatus_eq now (c.recordSegment now)
  rw [completeSegment, hcheck]
  dsimp only
  split
  · next hrep =>
    have hrep' : c.data.videoData.representation = [] := hrep
    rw [if_neg]
    rintro ⟨row, hrow, -⟩
    rw [hrep'] at hrow
    cases hrow
  · next row rows hrep =>
    have hrep' : c.data.videoData.representation = row :: rows := hrep
    have hlast : c.Last ↔ c.index = row.length := by
      rw [Last, hrep']
      constructor
      · rintro ⟨row', hrow, h⟩
        exact Option.mem_some_iff.1 hrow ▸ h
      · exact fun h => ⟨row, rfl, h⟩
    exact if_congr hlast.symm rfl rfl

/-- All of a segment is here. -/
structure Arrived (c : DashClient alg) : Prop where
  status : c.status ≠ .tcpConnecting
  index : c.index = c.segmentCounter + 1
  alarm : c.requestAlarm = none
  outstanding : c.ghost.outstanding = 0
  start_length : c.data.throughput.transmissionStart.length = c.segmentCounter + 1

theorem bufferLevelBefore_nonneg (now : Time) (c : DashClient alg) :
    0 ≤ c.bufferLevelBefore now := by
  rw [bufferLevelBefore]
  by_cases hcounter : c.segmentCounter > 0
  · rw [if_pos hcounter]
    exact le_max_right _ _
  · rw [if_neg hcounter]

/-- Recording a segment keeps the counts, and settles the client. -/
theorem Arrived.recordSegment {c : DashClient alg} (hc : Counts videoData n c) (ha : Arrived c)
    (now : Time) : Counts videoData n (c.recordSegment now) ∧ Settled (c.recordSegment now) := by
  have hcounter := hc.counter
  have hbuffered := hc.buffered
  refine ⟨{ hc with
    counter := ?_, buffered := ?_, end_length := ?_, bytes_length := ?_, timeNow_length := ?_,
    old_length := ?_, new_length := ?_, levels := fun hduration level hlevel => ?_ },
    ⟨ha.index, ha.outstanding, ha.start_length⟩⟩
  · change ((c.segmentCounter + 1 : ℕ) : ℤ) = c.playbackIndex + (c.segmentsInBuffer + 1)
    omega
  · change 0 ≤ c.segmentsInBuffer + 1
    omega
  · simp [DashClient.recordSegment, hc.end_length]
  · simp [DashClient.recordSegment, hc.bytes_length]
  · simp [DashClient.recordSegment, hc.timeNow_length]
  · simp [DashClient.recordSegment, hc.old_length]
  · simp [DashClient.recordSegment, hc.new_length]
  · rcases List.mem_append.1 hlevel with hlevel | hlevel
    · exact hc.levels hduration level hlevel
    · rw [List.mem_singleton.1 hlevel, hc.video]
      exact add_nonneg (bufferLevelBefore_nonneg now c) hduration

/-- A segment that is complete is recorded, and the next one requested if there is
    one. -/
theorem Arrived.completeSegment {now : Time} {c c' : DashClient alg} {done : Bool}
    (hu : Uniform n videoData.representation) (hc : Counts videoData n c) (ha : Arrived c)
    (h : c.completeSegment now = .ok (c', done)) : Counts videoData n c' ∧ Phase c' := by
  obtain ⟨hcounts, hsettled⟩ := ha.recordSegment hc now
  obtain ⟨ps, pa, hcheck⟩ := checkBufferStatus_eq now (c.recordSegment now)
  obtain ⟨c₁, hc₁⟩ : ∃ c₁ : DashClient alg,
    c₁ = { c.recordSegment now with playerState := ps, playerAlarm := pa } := ⟨_, rfl⟩
  have hcounts₁ : Counts videoData n c₁ := by
    rw [hc₁]
    exact { hcounts with }
  have hsettled₁ : Settled c₁ := by
    rw [hc₁]
    exact { hsettled with }
  have halarm : c₁.requestAlarm = none := by
    rw [hc₁]
    exact ha.alarm
  have hstatus : c₁.status ≠ .tcpConnecting := by
    rw [hc₁]
    exact ha.status
  have hcases := completeSegment_cases h
  rw [hcheck, ← hc₁] at hcases
  rcases hcases with ⟨hres, -⟩ | ⟨rfl, -⟩
  · exact hsettled₁.requestSegment hu hcounts₁ halarm hstatus hres
  · -- the last one
    rw [close]
    split_ifs with hfd
    · exact ⟨{ hcounts₁ with },
        .closed ⟨rfl, by simp, .inl hsettled₁.index, .inl hsettled₁.start_length⟩⟩
    · exact ⟨{ hcounts₁ with },
        .closed ⟨by simpa using hfd, hstatus, .inl hsettled₁.index, .inl hsettled₁.start_length⟩⟩

/-- The bytes of a chunk are added to those read, if the counter has room. -/
theorem countBytes_readBytes {c : DashClient alg} {nbytes : ℕ}
    (hfit : c.readBytes.toNat + nbytes < 2 ^ 64) (now : Time) :
    (c.countBytes now nbytes).readBytes.toNat = c.readBytes.toNat + nbytes := by
  change (c.readBytes + UInt64.ofNat nbytes).toNat = _
  rw [UInt64.toNat_add, UInt64.toNat_ofNat', Nat.mod_eq_of_lt (a := nbytes) (by omega),
    Nat.mod_eq_of_lt hfit]

/-- Counting the bytes of a chunk keeps the counts. -/
theorem Counts.countBytes {c : DashClient alg} (hc : Counts videoData n c) (now : Time)
    (nbytes : ℕ) : Counts videoData n (c.countBytes now nbytes) := by
  rw [DashClient.countBytes]
  split_ifs <;> exact { hc with }

/-- Of an open client, a chunk of no more than was requested arrives at a busy one,
    and does not go beyond the segment. -/
theorem Phase.countBytes {c : DashClient alg} (hp : Phase c) (hfd : c.fdOpen = true) (now : Time)
    {nbytes : ℕ} (hpos : 0 < nbytes) (hle : nbytes ≤ c.ghost.outstanding) :
    Busy c ∧ (c.readBytes + UInt64.ofNat nbytes).toNat = c.readBytes.toNat + nbytes ∧
      (c.countBytes now nbytes).data.throughput.transmissionStart.length =
        c.segmentCounter + 1 := by
  cases hp with
  | idle h =>
    have hout := h.outstanding
    omega
  | closed h =>
    rw [h.fd] at hfd
    cases hfd
  | busy h =>
    have hout := h.outstanding
    have hlt := c.segmentBytes.toNat_lt
    refine ⟨h, countBytes_readBytes (by omega) now, ?_⟩
    · have hstart := h.start_length
      rw [DashClient.countBytes]
      by_cases hzero : c.readBytes = 0
      · rw [if_pos hzero] at hstart
        simp [hzero, hstart]
      · rw [if_neg hzero] at hstart
        simp [hzero, hstart]

/-- A chunk of no more than was requested. -/
theorem Phase.onData {now : Time} {c c' : DashClient alg} {nbytes : ℕ} {done : Bool}
    (hu : Uniform n videoData.representation) (hc : Counts videoData n c) (hp : Phase c)
    (hfd : c.fdOpen = true) (hpos : 0 < nbytes) (hle : nbytes ≤ c.ghost.outstanding)
    (h : c.onData now nbytes = .ok (c', done)) : Counts videoData n c' ∧ Phase c' := by
  obtain ⟨hb, hread, hstart⟩ := hp.countBytes hfd now hpos hle
  have hout := hb.outstanding
  have hcounts := hc.countBytes now nbytes
  have hread' : (c.countBytes now nbytes).readBytes.toNat = c.readBytes.toNat + nbytes := hread
  rw [DashClient.onData] at h
  by_cases heq : (c.countBytes now nbytes).readBytes = (c.countBytes now nbytes).segmentBytes
  · rw [if_pos heq] at h
    have hbytes : c.readBytes.toNat + nbytes = c.segmentBytes.toNat := by
      rw [← hread', heq]
      rfl
    have harrived : Arrived (c.countBytes now nbytes) :=
      ⟨hb.status, hb.index, hb.alarm, by
        change c.ghost.outstanding - nbytes = 0
        omega, hstart⟩
    exact harrived.completeSegment hu hcounts h
  · -- the segment is still on its way: no byte of another one can have come
    rw [if_neg heq] at h
    obtain ⟨rfl, -⟩ := Prod.mk.inj (Except.ok.inj h)
    have hne : c.readBytes.toNat + nbytes ≠ c.segmentBytes.toNat := by
      rw [← hread']
      exact fun hz => heq (UInt64.toNat_inj.1 hz)
    refine ⟨hcounts, .busy ⟨hb.status, hb.index, hb.alarm, ?_, ?_, ?_⟩⟩
    · rw [hread']
      change c.ghost.outstanding - nbytes + (c.readBytes.toNat + nbytes) ≤ c.segmentBytes.toNat
      omega
    · rw [hread']
      change c.readBytes.toNat + nbytes < c.segmentBytes.toNat
      omega
    · have hnz : (c.countBytes now nbytes).readBytes ≠ 0 := by
        intro hz
        rw [hz] at hread'
        have hzero : (0 : UInt64).toNat = 0 := rfl
        omega
      rw [if_neg hnz]
      exact hstart

/-! ## What is read -/

/-- Requests do not change what was served. -/
@[simp] theorem delayRequestHandle_served (now : Time) (c : DashClient alg) :
    (c.delayRequestHandle now).ghost.served = c.ghost.served := by
  rcases delayRequestHandle_cases now c with heq | ⟨-, heq⟩ <;> rw [heq]

@[simp] theorem delayRequestHandle_fdOpen (now : Time) (c : DashClient alg) :
    (c.delayRequestHandle now).fdOpen = c.fdOpen := by
  rcases delayRequestHandle_cases now c with heq | ⟨-, heq⟩ <;> rw [heq]

theorem requestSegment_frame {now : Time} {c c' : DashClient alg}
    (h : c.requestSegment now = .ok c') :
    c'.ghost.served = c.ghost.served ∧ c'.fdOpen = c.fdOpen := by
  obtain ⟨reply, algorithm, size, -, -, c₁, rfl, hor⟩ := requestSegment_cases h
  rcases hor with rfl | rfl
  · exact ⟨rfl, rfl⟩
  · exact ⟨delayRequestHandle_served .., delayRequestHandle_fdOpen ..⟩

theorem close_served (c : DashClient alg) : c.close.ghost.served = c.ghost.served := by
  rw [close]
  split_ifs <;> rfl

/-- Completing a segment does not change what was served, and leaves the socket open
    if it does not end the loop. -/
theorem completeSegment_frame {now : Time} {c c' : DashClient alg} {done : Bool}
    (h : c.completeSegment now = .ok (c', done)) :
    c'.ghost.served = c.ghost.served ∧ (done = false → c'.fdOpen = c.fdOpen) := by
  obtain ⟨ps, pa, hcheck⟩ := checkBufferStatus_eq now (c.recordSegment now)
  have hcases := completeSegment_cases h
  rw [hcheck] at hcases
  rcases hcases with ⟨hres, rfl⟩ | ⟨rfl, rfl⟩
  · exact ⟨(requestSegment_frame hres).1, fun _ => (requestSegment_frame hres).2⟩
  · exact ⟨close_served _, nofun⟩

theorem onData_frame {now : Time} {nbytes : ℕ} {c c' : DashClient alg} {done : Bool}
    (h : c.onData now nbytes = .ok (c', done)) :
    c'.ghost.served = (c.ghost.served && decide (nbytes ≤ c.ghost.outstanding)) ∧
      (done = false → c'.fdOpen = c.fdOpen) := by
  rw [DashClient.onData] at h
  split_ifs at h
  · exact completeSegment_frame h
  · cases h
    exact ⟨rfl, fun _ => rfl⟩

/-! ## Segments that are complete -/

/-- A segment that is not the last is recorded, and the next one is requested. -/
def requestNext (now : Time) (c : DashClient alg) : Except Fault (DashClient alg) :=
  ((c.recordSegment now).checkBufferStatus now).requestSegment now

/-- The segments that reads complete: the client when their last bytes are counted. Nothing is
    read after the last segment, nor when the next one cannot be requested. -/
def finished (now : Time) : List ℕ → DashClient alg → List (DashClient alg)
  | [], _ => []
  | 0 :: reads, c => finished now reads { c with registered := false }
  | (nbytes + 1) :: reads, c =>
    let c₁ := c.countBytes now (nbytes + 1)
    if c₁.readBytes = c₁.segmentBytes then
      c₁ :: if c₁.Last then [] else
        match c₁.requestNext now with
        | .error _ => []
        | .ok c₂ => finished now reads c₂
    else finished now reads c₁

/-- A chunk is counted, and what follows when it completes a segment. -/
theorem onData_eq (now : Time) (nbytes : ℕ) (c : DashClient alg) :
    c.onData now nbytes =
      if (c.countBytes now nbytes).readBytes = (c.countBytes now nbytes).segmentBytes then
        if (c.countBytes now nbytes).Last then
          .ok (({ ((c.countBytes now nbytes).recordSegment now).checkBufferStatus now with
            registered := false } : DashClient alg).close, true)
        else ((c.countBytes now nbytes).requestNext now).map (·, false)
      else .ok (c.countBytes now nbytes, false) := by
  rw [onData]
  dsimp only
  split_ifs with hcomplete hlast
  · rw [completeSegment_eq, if_pos hlast]
  · rw [completeSegment_eq, if_neg hlast, requestNext]
  · rfl

/-- The reads complete a segment if some of them bring what is missing of it. -/
theorem finished_ne_nil_iff {now : Time} {reads : List ℕ} {c : DashClient alg}
    (hfit : c.readBytes.toNat + reads.sum < 2 ^ 64) : finished now reads c ≠ [] ↔
      ∃ before nbytes after, reads = before ++ (nbytes + 1) :: after ∧
        c.readBytes.toNat + before.sum + (nbytes + 1) = c.segmentBytes.toNat := by
  induction reads generalizing c with
  | nil => simp [finished]
  | cons n reads ih =>
    rw [List.sum_cons] at hfit
    cases n with
    | zero =>
      rw [finished, ih (c := { c with registered := false }) (by dsimp only; omega)]
      constructor
      · rintro ⟨before, nbytes, after, rfl, hsum⟩
        refine ⟨0 :: before, nbytes, after, rfl, ?_⟩
        rw [List.sum_cons, Nat.zero_add]
        exact hsum
      · rintro ⟨before, nbytes, after, hsplit, hsum⟩
        rcases List.cons_eq_append_iff.1 hsplit with ⟨rfl, h⟩ | ⟨before, rfl, rfl⟩
        · cases h
        · rw [List.sum_cons, Nat.zero_add] at hsum
          exact ⟨before, nbytes, after, rfl, hsum⟩
    | succ n =>
      have hcount : (c.countBytes now (n + 1)).readBytes.toNat = c.readBytes.toNat + (n + 1) :=
        countBytes_readBytes (by omega) now
      have hbytes : (c.countBytes now (n + 1)).segmentBytes = c.segmentBytes := rfl
      rw [finished]
      split_ifs with hcomplete hlast
      · refine iff_of_true (List.cons_ne_nil _ _) ⟨[], n, reads, rfl, ?_⟩
        rw [← hbytes, ← hcomplete, hcount, List.sum_nil, Nat.add_zero]
      · refine iff_of_true (List.cons_ne_nil _ _) ⟨[], n, reads, rfl, ?_⟩
        rw [← hbytes, ← hcomplete, hcount, List.sum_nil, Nat.add_zero]
      · rw [ih (by rw [hcount]; omega), hcount, hbytes]
        constructor
        · rintro ⟨before, nbytes, after, rfl, hsum⟩
          refine ⟨(n + 1) :: before, nbytes, after, rfl, ?_⟩
          rw [List.sum_cons]
          omega
        · rintro ⟨before, nbytes, after, hsplit, hsum⟩
          rcases List.cons_eq_append_iff.1 hsplit with ⟨rfl, h⟩ | ⟨before, rfl, rfl⟩
          · cases h
            refine absurd (UInt64.toNat_inj.1 ?_) hcomplete
            rw [hcount, hbytes, ← hsum, List.sum_nil]
            omega
          · rw [List.sum_cons] at hsum
            exact ⟨before, nbytes, after, rfl, by omega⟩

/-- Of a client that has asked for its last segment, the reads complete no other one. -/
theorem last_of_mem_finished {now : Time} {reads : List ℕ} {c c₁ : DashClient alg}
    (hlast : c.Last) (h : c₁ ∈ finished now reads c) : c₁.Last := by
  induction reads generalizing c with
  | nil => exact absurd h List.not_mem_nil
  | cons n reads ih =>
    cases n with
    | zero => exact ih (c := { c with registered := false }) hlast h
    | succ n =>
      have hlast₁ : (c.countBytes now (n + 1)).Last := hlast
      rw [finished] at h
      split_ifs at h
      · obtain rfl := List.mem_singleton.1 h
        exact hlast₁
      · exact ih hlast₁ h

/-! ## Handlers -/

/-- The counts and the phase, as long as only what was requested was read. -/
def Good (videoData : VideoData) (n : ℕ) (c : DashClient alg) : Prop :=
  c.ghost.served = true → Counts videoData n c ∧ Phase c

theorem Good.onReadLoop {now : Time} {reads : List ℕ} {c c' : DashClient alg}
    (hu : Uniform n videoData.representation) (hg : Good videoData n c) (hfd : c.fdOpen = true)
    (h : onReadLoop now reads c = .ok c') : Good videoData n c' := by
  induction reads generalizing c with
  | nil =>
    cases h
    exact hg
  | cons nbytes reads ih =>
    cases nbytes with
    | zero =>
      -- the end of the stream
      refine ih (c := { c with registered := false }) (fun hs => ?_) hfd h
      obtain ⟨hc, hp⟩ := hg hs
      refine ⟨{ hc with }, ?_⟩
      cases hp with
      | idle hi => exact .idle { hi with }
      | busy hb => exact .busy { hb with }
      | closed hcl => exact .closed { hcl with }
    | succ nbytes =>
      rw [DashClient.onReadLoop] at h
      cases hres : c.onData now (nbytes + 1) with
      | error e =>
        rw [hres] at h
        cases h
      | ok res =>
        obtain ⟨c₁, done⟩ := res
        rw [hres] at h
        obtain ⟨hserved, hopen⟩ := onData_frame hres
        have hg₁ : Good videoData n c₁ := by
          intro hs
          rw [hserved, Bool.and_eq_true, decide_eq_true_eq] at hs
          obtain ⟨hc, hp⟩ := hg hs.1
          exact hp.onData hu hc hfd (Nat.succ_pos nbytes) hs.2 hres
        cases done with
        | true =>
          cases h
          exact hg₁
        | false => exact ih hg₁ ((hopen rfl).trans hfd) h

/-- Closing a client, whatever it does. -/
theorem Good.close {c : DashClient alg} (hg : Good videoData n c) :
    Good videoData n c.close := by
  intro hs
  rw [close_served] at hs
  obtain ⟨hc, hp⟩ := hg hs
  rw [DashClient.close]
  split_ifs with hfd
  · refine ⟨{ hc with }, .closed ?_⟩
    cases hp with
    | idle h => exact ⟨rfl, by simp, .inl h.index, .inl h.start_length⟩
    | busy h =>
      refine ⟨rfl, by simp, .inr ⟨h.index, h.alarm⟩, ?_⟩
      have hstart := h.start_length
      split_ifs at hstart
      · exact .inl hstart
      · exact .inr hstart
    | closed h => exact ⟨rfl, by simp, h.index, h.start_length⟩
  · exact ⟨hc, hp⟩

/-- A client that gets connected is settled: it has requested nothing yet. -/
theorem Good.onConnected {now : Time} {c c' : DashClient alg}
    (hu : Uniform n videoData.representation) (hg : Good videoData n c)
    (hstatus : c.status = .tcpConnecting)
    (h : onConnected now { c with status := .tcpConnected } = .ok c') : Good videoData n c' := by
  intro hs
  rw [DashClient.onConnected] at h
  rw [(requestSegment_frame h).1] at hs
  obtain ⟨hc, hp⟩ := hg hs
  have hset : Settled c := by
    cases hp with
    | idle hi => exact hi.toSettled
    | busy hb => exact absurd hstatus hb.status
    | closed hcl => exact absurd hstatus hcl.status
  refine Settled.requestSegment hu ?_ ?_ rfl ?_ h
  · exact { hc with }
  · exact { hset with }
  · exact nofun

theorem Good.onEvent {now : Time} {error input output : Bool} {reads : List ℕ}
    {c c' : DashClient alg} (hu : Uniform n videoData.representation) (hg : Good videoData n c)
    (h : c.onEvent now error input output reads = .ok c') : Good videoData n c' := by
  unfold DashClient.onEvent at h
  extract_lets c₁ at h
  have hg₁ : Good videoData n c₁ := by
    unfold c₁
    split_ifs
    · refine Good.close fun hs => ?_
      obtain ⟨hc, hp⟩ := hg hs
      refine ⟨{ hc with }, ?_⟩
      cases hp with
      | idle hi => exact .idle { hi with }
      | busy hb => exact .busy { hb with }
      | closed hcl => exact .closed { hcl with }
    · exact hg
  split at h
  · cases h
  · next c₂ hread =>
    have hg₂ : Good videoData n c₂ := by
      split_ifs at hread
      · rw [DashClient.onReadEvent] at hread
        split_ifs at hread with hfd
        · exact hg₁.onReadLoop hu hfd hread
        · cases hread
          exact hg₁
      · cases hread
        exact hg₁
    split_ifs at h with hconn
    · exact hg₂.onConnected hu hconn.2 h
    · cases h
      exact hg₂

/-- A frame is played within the segments that are buffered. -/
theorem Counts.playFrame {c c' : DashClient alg} (hc : Counts videoData n c)
    (h : c.playFrame = .ok c') : Counts videoData n c' := by
  have hcounter := hc.counter
  have hge := hc.played_ge
  have hlt := hc.played_lt
  have hpos := hc.frames
  rw [DashClient.playFrame] at h
  split_ifs at h with hbuf
  · dsimp only at h
    split_ifs at h with hzero hmod
    · -- the frame is the last one of its segment
      cases h
      obtain ⟨k, hk⟩ := Int.dvd_of_tmod_eq_zero hmod
      have hlast : ((c.data.playedFrames + 1 : ℕ) : ℤ) =
          (c.playbackIndex + 1) * c.framesInSegment := by
        -- the only multiple in reach, as the frame was in the segment being played
        have hk' : k = c.playbackIndex + 1 := by
          have h1 : (c.playbackIndex : ℤ) * c.framesInSegment < k * c.framesInSegment := by
            rw [mul_comm k, ← hk]
            push_cast
            omega
          have h2 : k * c.framesInSegment ≤ (c.playbackIndex + 1) * c.framesInSegment := by
            rw [mul_comm k, ← hk]
            push_cast
            omega
          have h3 := lt_of_mul_lt_mul_right h1 hpos.le
          have h4 := le_of_mul_le_mul_right h2 hpos
          omega
        rw [hk, hk', mul_comm]
      refine { hc with counter := ?_, buffered := ?_, played_ge := ?_, played_lt := ?_ }
      · dsimp only
        push_cast
        omega
      · dsimp only
        omega
      · dsimp only
        push_cast at hlast ⊢
        rw [hlast]
      · dsimp only
        push_cast at hlast ⊢
        rw [hlast, add_mul (_ + 1 : ℤ) 1, one_mul]
        omega
    · cases h
      refine { hc with played_ge := ?_, played_lt := ?_ }
      · dsimp only
        push_cast
        omega
      · dsimp only
        have hne : ((c.data.playedFrames + 1 : ℕ) : ℤ) ≠
            (c.playbackIndex + 1) * c.framesInSegment := by
          intro heq
          exact hmod (by rw [heq, Int.mul_tmod_left])
        push_cast at hne ⊢
        omega
  · cases h
    exact hc

/-- Of the client, playing a frame changes the player only. -/
theorem playFrame_frame {c c' : DashClient alg} (h : c.playFrame = .ok c') :
    (Phase c → Phase c') ∧ c'.ghost = c.ghost := by
  have hphase : ∀ (frames : ℕ) (buffered : ℤ) (played : ℕ), Phase c → Phase { c with
      data := { c.data with playedFrames := frames }
      segmentsInBuffer := buffered
      playbackIndex := played } := by
    intro frames buffered played hp
    cases hp with
    | idle hi => exact .idle { hi with }
    | busy hb => exact .busy { hb with }
    | closed hcl => exact .closed { hcl with }
  rw [DashClient.playFrame] at h
  split_ifs at h
  · dsimp only at h
    split_ifs at h
    · cases h
      exact ⟨hphase _ _ _, rfl⟩
    · cases h
      exact ⟨hphase _ c.segmentsInBuffer c.playbackIndex, rfl⟩
  · cases h
    exact ⟨id, rfl⟩

/-- What is done after a frame changes the player only. -/
theorem afterFrame_eq {now : Time} {c c' : DashClient alg} (h : c.afterFrame now = .ok c') :
    ∃ playerState playerAlarm,
      c' = { c with playerState := playerState, playerAlarm := playerAlarm } := by
  rw [DashClient.afterFrame] at h
  split_ifs at h
  · split at h
    · cases h
    · split_ifs at h
      · cases h
        exact ⟨.playerDone, c.playerAlarm, rfl⟩
      · cases h
        exact ⟨.playerPaused, c.playerAlarm, rfl⟩
  · cases h
    exact ⟨c.playerState, _, rfl⟩
  · cases h
    exact ⟨c.playerState, c.playerAlarm, rfl⟩

theorem Good.playBackHandle {now : Time} {c c' : DashClient alg} (hg : Good videoData n c)
    (h : c.playBackHandle now = .ok c') : Good videoData n c' := by
  rw [DashClient.playBackHandle] at h
  split at h
  · cases h
  · next c₁ hplay =>
    obtain ⟨ps, pa, rfl⟩ := afterFrame_eq h
    obtain ⟨hphase, hghost⟩ := playFrame_frame hplay
    intro hs
    obtain ⟨hc, hp⟩ := hg (by rw [← hghost]; exact hs)
    refine ⟨{ hc.playFrame hplay with }, ?_⟩
    cases hphase hp with
    | idle hi => exact .idle { hi with }
    | busy hb => exact .busy { hb with }
    | closed hcl => exact .closed { hcl with }

/-- The request alarm goes off. -/
theorem Good.requestAlarm {c : DashClient alg} (hu : Uniform n videoData.representation)
    (hg : Good videoData n c) (hset : c.requestAlarm.isSome) (now : Time) :
    Good videoData n (DashClient.delayRequestHandle now { c with requestAlarm := none }) := by
  intro hs
  rw [delayRequestHandle_served] at hs
  obtain ⟨hc, hp⟩ := hg hs
  refine ⟨Counts.delayRequestHandle hu ?_ now, ?_⟩
  · exact { hc with }
  cases hp with
  | idle hi =>
    obtain ⟨hseg, hstatus⟩ := hi.alarm hset
    refine Idle.delayRequestHandle (c := { c with requestAlarm := none }) ?_ rfl hseg hstatus now
    exact { hi with alarm := nofun }
  | busy hb =>
    rw [hb.alarm] at hset
    cases hset
  | closed hcl =>
    rcases hcl.index with hindex | ⟨-, hnone⟩
    · refine Closed.delayRequestHandle (c := { c with requestAlarm := none }) ?_ rfl hindex now
      exact { hcl with index := .inl hindex }
    · rw [hnone] at hset
      cases hset

/-- Each handler keeps the counts and the phase. -/
theorem Good.handle {now : Time} {e : Event} {c c' : DashClient alg}
    (hu : Uniform n videoData.representation) (hg : Good videoData n c)
    (h : c.handle now e = .ok c') : Good videoData n c' := by
  cases e with
  | socket error input output reads =>
    rw [DashClient.handle] at h
    split_ifs at h
    · exact hg.onEvent hu h
    · cases h
      exact hg
  | requestAlarm =>
    rw [DashClient.handle] at h
    split_ifs at h with hset
    · cases h
      exact hg.requestAlarm hu hset now
    · cases h
      exact hg
  | playerAlarm =>
    rw [DashClient.handle] at h
    split_ifs at h with hset
    · refine Good.playBackHandle (fun hs => ?_) h
      obtain ⟨hc, hp⟩ := hg hs
      refine ⟨{ hc with }, ?_⟩
      cases hp with
      | idle hi => exact .idle { hi with }
      | busy hb => exact .busy { hb with }
      | closed hcl => exact .closed { hcl with }
    · cases h
      exact hg

/-! ## Runs -/

/-- A client that starts to connect is idle. -/
theorem good_init (hms : 40 ≤ videoData.segmentDuration) {w : World alg}
    (h : Init videoData w) : Good videoData n w.client := by
  obtain ⟨-, initSegments, algorithm, ps, -, hclient⟩ := h
  have hframes : 0 < (videoData.segmentDuration * kFramesPerSecond).tdiv 1000 := by
    rw [kFramesPerSecond, Int.tdiv_eq_ediv_of_nonneg (by omega)]
    omega
  rw [hclient]
  refine fun _ => ⟨?_, .idle ⟨⟨rfl, rfl, rfl⟩, rfl, nofun⟩⟩
  refine ⟨rfl, hframes, rfl, le_rfl, ?_, ?_, rfl, rfl, rfl, rfl, rfl, rfl, Nat.zero_le n,
    fun _ => nofun⟩
  · simp [DashClient.new]
  · simpa [DashClient.new] using hframes

theorem good_reachable {allowed : DashClient alg → Event → Prop} {clock : Time → Time → Prop}
    (hu : Uniform n videoData.representation) (hms : 40 ≤ videoData.segmentDuration)
    {w : World alg} (h : (system alg videoData allowed clock).Reachable w) :
    Good videoData n w.client := by
  refine h.invariant (fun w hi => good_init (w := w) hms hi) fun w w' _ hg hstep => ?_
  cases hstep with
  | handle e client _ hrun => exact hg.handle hu hrun
  | round now hclock => exact hg

/-- In every state between handlers, as long as no more than the requested bytes
    arrive, the counters and the arrays of the client agree. -/
theorem bookkeeping_reachable {allowed : DashClient alg → Event → Prop}
    {clock : Time → Time → Prop} (hu : Uniform n videoData.representation)
    (hms : 40 ≤ videoData.segmentDuration) {w : World alg}
    (h : (system alg videoData allowed clock).Reachable w)
    (hserved : w.client.ghost.served = true) : Bookkeeping n w.client :=
  have hgood := good_reachable hu hms h hserved
  hgood.2.bookkeeping hgood.1

/-- The buffered playtime the client shows is not negative. -/
theorem bufferLevel_nonneg_reachable {allowed : DashClient alg → Event → Prop}
    {clock : Time → Time → Prop} (hu : Uniform n videoData.representation)
    (hms : 40 ≤ videoData.segmentDuration) {w : World alg}
    (h : (system alg videoData allowed clock).Reachable w)
    (hserved : w.client.ghost.served = true) : 0 ≤ w.client.data.getBufferLevelMs := by
  have hcounts := (good_reachable hu hms h hserved).1
  rw [ClientData.getBufferLevelMs]
  cases hlast : w.client.data.bufferData.bufferLevelNew.getLast? with
  | none => exact le_rfl
  | some level => exact hcounts.levels (by omega) level (List.mem_of_getLast? hlast)

/-- The lowest level, without delay. -/
def lowestLevel : AdaptationAlgorithm := ⟨Unit, fun st _ _ _ _ => some ({}, st)⟩

/-- Two segments, of two and three bytes. -/
def smallTable : VideoData := ⟨[[2, 3]], [1], 40⟩

/-- The client connects, and reads the first segment and a byte of the second. -/
theorem bookkeeping_second_segment : ∃ w : World lowestLevel,
    (system lowestLevel smallTable anyEvent (· ≤ ·)).Reachable w ∧ w.client.index = 2 ∧
      w.client.segmentCounter = 1 ∧ Bookkeeping 2 w.client := by
  have hinit : (system lowestLevel smallTable anyEvent (· ≤ ·)).Reachable
      ⟨DashClient.new smallTable 1 (), 1000⟩ := .init ⟨by decide, 1, (), _, .inl rfl, rfl⟩
  obtain ⟨c, hrun, hserved, hindex, hcounter⟩ : ∃ c, runRound 1000 [.socket false false true [],
      .socket false true false [2, 1]] (DashClient.new smallTable 1 () : DashClient lowestLevel) =
        .ok c ∧ c.ghost.served = true ∧ c.index = 2 ∧ c.segmentCounter = 1 :=
    ⟨_, rfl, rfl, rfl, rfl⟩
  exact ⟨⟨c, 1000⟩, reachable_runRound hinit hrun, hindex, hcounter,
    bookkeeping_reachable ⟨by decide, by decide, by simp [smallTable]⟩ (by decide)
      (reachable_runRound hinit hrun) hserved⟩

end DashClient

end DashDim
