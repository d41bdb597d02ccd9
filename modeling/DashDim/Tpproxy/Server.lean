import DashDim.Tpproxy.Connection
import DashDim.Tpproxy.Sequencer

/-!
# Servers of the multipath proxy

A server relays a plain connection over paths, as in `tpproxy/mpproxy_types.cc`.
At the near end, `schedule` cuts what was read from the plain connection, and sends
the parts over the paths that have room. At the far end, `recvData` gives the data
of the paths to the sequencer, and `onDataAvailable` passes on what the sequencer
has in order.

How much of the data a path gets depends on its goodput, as a ratio of floating
point numbers: here it is any function (`share`).
-/

namespace DashDim

/-- The least data given to a path, unless there is less. -/
def kMinPayloadSize : ℕ := 1500

/-! ## The near end -/

/-- The near end: the data read and not scheduled, the offset of the next data, the
    connections of the paths, and what they have handed to the kernel that the far
    end has not read. -/
structure NearEnd (n : ℕ) where
  fdReadBuffer : Bytes
  writeOffset : UInt64
  connections : Fin n → TcpConnection
  wires : Fin n → Bytes

namespace NearEnd

variable {n : ℕ}

/-- Data is read from the plain connection. -/
def onDataFromFd (pv : Bytes) (s : NearEnd n) : NearEnd n :=
  { s with fdReadBuffer := s.fdReadBuffer ++ pv }

/-- What an operation of the connection `i` does: the connection is changed, and the
    bytes `out` are on their way. -/
def put (i : Fin n) (out : Bytes) (c : TcpConnection) (s : NearEnd n) : NearEnd n :=
  { s with
    connections := Function.update s.connections i c
    wires := Function.update s.wires i (s.wires i ++ out) }

@[simp] theorem put_connections (i : Fin n) (out : Bytes) (c : TcpConnection) (s : NearEnd n) :
    (s.put i out c).connections = Function.update s.connections i c := rfl

@[simp] theorem put_wires (i : Fin n) (out : Bytes) (c : TcpConnection) (s : NearEnd n) :
    (s.put i out c).wires = Function.update s.wires i (s.wires i ++ out) := rfl

/-- The connection `i` sends data, the kernel answering by the offset. -/
def sendData (answers : UInt64 → List SendAnswer) (i : Fin n) (pv : Bytes) (s : NearEnd n) :
    Option (NearEnd n) :=
  ((s.connections i).sendData (answers s.writeOffset) s.writeOffset pv).map fun (out, c) =>
    s.put i out c

/-- The loop of `sendDataWithLimit`, for a number of rounds. -/
def sendDataLoop (answers : UInt64 → List SendAnswer) (i : Fin n) :
    ℕ → Bytes → NearEnd n → Option (NearEnd n)
  | 0, _, s => some s
  | rounds + 1, pv, s =>
    if pv.length > 0 then
      let sent := min pv.length kMaxPacketLength
      match s.sendData answers i (pv.take sent) with
      | none => none
      | some s =>
        sendDataLoop answers i rounds (pv.drop sent)
          { s with writeOffset := s.writeOffset + UInt64.ofNat sent }
    else some s

-- each round sends at least a byte
/-- The connection `i` sends data, in frames of at most a packet. -/
def sendDataWithLimit (answers : UInt64 → List SendAnswer) (i : Fin n) (pv : Bytes)
    (s : NearEnd n) : Option (NearEnd n) :=
  sendDataLoop answers i pv.length pv s

/-- The loop of `schedule` over the connections: each gets its share, and the last
    one the rest. It ends when there is no data left. -/
def scheduleLoop (share : Fin n → ℕ → ℕ) (answers : UInt64 → List SendAnswer) :
    List (Fin n) → Bytes → NearEnd n → Option (Bytes × NearEnd n)
  | [], data, s => some (data, s)
  | [i], data, s =>
    if data.length > 0 then (s.sendDataWithLimit answers i data).map fun s => ([], s)
    else some (data, s)
  | i :: j :: connections, data, s =>
    if data.length > 0 then
      let target := max (share i data.length) kMinPayloadSize
      let sent := min target data.length
      match s.sendDataWithLimit answers i (data.take sent) with
      | none => none
      | some s => scheduleLoop share answers (j :: connections) (data.drop sent) s
    else some (data, s)

/-- Scheduling the data read over the connections that are ready and have room. -/
def schedule (ready : List (Fin n)) (share : Fin n → ℕ → ℕ)
    (answers : UInt64 → List SendAnswer) (s : NearEnd n) : Option (NearEnd n) :=
  let connections := ready.filter fun i => !(s.connections i).isBufferAboveThreshold
  if connections.length = 0 then some s
  else
    match s.scheduleLoop share answers connections s.fdReadBuffer with
    | none => none
    | some (remain, s) => some { s with fdReadBuffer := remain }

/-- The connection `i` sends a message. -/
def writeMessage (answers : List SendAnswer) (i : Fin n) (type : UInt8) (data : Bytes)
    (s : NearEnd n) : Option (NearEnd n) :=
  ((s.connections i).writeMessage answers type data).map fun (out, c) => s.put i out c

/-- The connection `i` can be written. -/
def onWriteEvent (answers : List SendAnswer) (i : Fin n) (s : NearEnd n) : NearEnd n :=
  let (out, c) := (s.connections i).onWriteEvent answers
  s.put i out c

/-- What is read goes to the one connection that has room, as a frame. -/
theorem schedule_one {s : NearEnd n} (ready : List (Fin n)) {i : Fin n}
    (havail : ready.filter (fun j => !(s.connections j).isBufferAboveThreshold) = [i])
    (hpos : 0 < s.fdReadBuffer.length) (hlen : s.fdReadBuffer.length ≤ kMaxPacketLength)
    (hfd : (s.connections i).fd > 0) (hoff : s.writeOffset.toNat < 2 ^ 62)
    (share : Fin n → ℕ → ℕ) (answers : UInt64 → List SendAnswer) {out : Bytes} {c : TcpConnection}
    (happend : (s.connections i).append (answers s.writeOffset)
      (TcpConnection.dataFrame s.writeOffset s.fdReadBuffer hoff hlen).bytes = (out, c)) :
    s.schedule ready share answers = some { s.put i out c with
      fdReadBuffer := []
      writeOffset := s.writeOffset + UInt64.ofNat s.fdReadBuffer.length } := by
  obtain ⟨rounds, hrounds⟩ : ∃ rounds, s.fdReadBuffer.length = rounds + 1 :=
    ⟨s.fdReadBuffer.length - 1, by omega⟩
  have hnil : ∀ (r : ℕ) (s' : NearEnd n), s'.sendDataLoop answers i r [] = some s' := by
    intro r s'
    cases r <;> rfl
  have hsend : s.sendData answers i s.fdReadBuffer = some (s.put i out c) := by
    rw [sendData, TcpConnection.sendData_eq hfd hoff hlen, happend]
    rfl
  have hloop : s.sendDataWithLimit answers i s.fdReadBuffer =
      some { s.put i out c with
        writeOffset := s.writeOffset + UInt64.ofNat s.fdReadBuffer.length } := by
    rw [sendDataWithLimit, hrounds, sendDataLoop, if_pos hpos, Nat.min_eq_left hlen]
    dsimp only
    rw [List.take_length, hsend, List.drop_length, ← hrounds]
    exact hnil rounds _
  rw [schedule]
  dsimp only
  rw [havail, if_neg (by simp), scheduleLoop, if_pos hpos, hloop]
  rfl

end NearEnd

/-! ## The far end -/

/-- `onFrameData`: data is received, and if there was nothing to read before and
    there is now, `onDataAvailable` is called. -/
def SequencerBuffer.onFrameData (onDataAvailable : SequencerBuffer → Bytes × SequencerBuffer)
    (byteOffset : ℕ) (data : Bytes) (b : SequencerBuffer) : Bytes × SequencerBuffer :=
  let previousReadableBytes := b.readableBytes
  match b.onStreamData byteOffset data with
  | ((.noError, bytesWritten), b) =>
    if bytesWritten = 0 then ([], b)
    else if previousReadableBytes = 0 ∧ b.readableBytes > 0 then onDataAvailable b
    else ([], b)
  | (_, b) => ([], b)

/-- All that can be read is passed to `writeDataToFd`. -/
def onDataAvailable (b : SequencerBuffer) : Bytes × SequencerBuffer := b.read

/-- The data of a frame is received: what is passed to `writeDataToFd` for it. The
    length is that of a packet, of 16 bits. -/
def recvData (offset : UInt64) (pv : Bytes) (b : SequencerBuffer) : Bytes × SequencerBuffer :=
  if offset ≥ kReserveOffset then
    let offset := offset - kReserveOffset
    b.onFrameData onDataAvailable offset.toNat (pv.take (pv.length % 2 ^ 16))
  else ([], b)

/-- The far end: its sequencer, all that was passed to `writeDataToFd`, and whether
    all frames were within the limits of the sequencer so far. -/
structure FarEnd where
  sequencer : SequencerBuffer
  delivered : Bytes
  withinLimits : Bool

namespace FarEnd

/-- A far end that has received nothing. -/
def new : FarEnd := ⟨SequencerBuffer.new, [], true⟩

/-- A frame is received. -/
def recvData (offset : UInt64) (pv : Bytes) (s : FarEnd) : FarEnd :=
  let (buffer, sequencer) := DashDim.recvData offset pv s.sequencer
  { sequencer := sequencer
    delivered := s.delivered ++ buffer
    withinLimits := s.withinLimits &&
      decide (s.sequencer.WithinLimits (offset - kReserveOffset).toNat pv.length) }

/-- The connections of the far end are attached to it, stay so, and their messages
    are not its concern. -/
def receiver : Receiver FarEnd where
  attached _ := true
  recvData := recvData
  parseMessage _ _ s := s
  checkCloseEntity s := s

end FarEnd

/-! ## What the far end has in order -/

/-- The data of a frame, with its offset in the stream. -/
def Frame.segment (f : Frame) : Segment UInt8 := ⟨(f.offset - kReserveOffset).toNat, f.payload⟩

/-- The far end has passed on the stream up to the first byte missing, and its
    sequencer holds the rest of what has arrived, the others being in flight. -/
structure FarEnd.Reassembles (sent : Bytes) (flight : Multiset (Segment UInt8)) (s : FarEnd) :
    Prop where
  tiles : Tiles sent flight (· ∈ s.sequencer.bytesReceived)
  holds : s.sequencer.Holds sent
  allRead : s.sequencer.totalBytesRead = s.sequencer.firstMissingByte
  delivered_eq : s.delivered = sent.take s.sequencer.totalBytesRead

namespace FarEnd.Reassembles

variable {sent : Bytes} {flight : Multiset (Segment UInt8)} {s : FarEnd}

theorem new : FarEnd.Reassembles [] 0 FarEnd.new where
  tiles := Tiles.nil.congr fun x => iff_false_intro (IntervalSet.not_mem_empty x)
  holds x hx := absurd hx (IntervalSet.not_mem_empty x)
  allRead := rfl
  delivered_eq := rfl

/-- The stream goes on with a segment. -/
theorem send (h : s.Reassembles sent flight) {data : Bytes} (hne : data ≠ []) :
    s.Reassembles (sent ++ data) (⟨sent.length, data⟩ ::ₘ flight) where
  tiles := h.tiles.send hne
  holds := h.holds.append data
  allRead := h.allRead
  delivered_eq := by
    -- what is read has arrived
    have hle : s.sequencer.totalBytesRead ≤ sent.length := by
      by_contra hgt
      rw [h.allRead] at hgt
      exact lt_irrefl _ (h.tiles.arrived_lt _ (IntervalSet.mem_of_lt_firstGap (not_le.1 hgt)))
    rw [h.delivered_eq, List.take_append_of_le_length hle]

/-- A segment in flight has not arrived, nor been read. -/
theorem not_read {a : Segment UInt8} (h : s.Reassembles sent (a ::ₘ flight)) {x : ℕ}
    (hx : a.Covers x) : s.sequencer.totalBytesRead ≤ x := by
  by_contra hlt
  rw [h.allRead] at hlt
  exact h.tiles.not_arrived hx (IntervalSet.mem_of_lt_firstGap (not_le.1 hlt))

/-- The data of a frame in flight is received, within the limits. -/
theorem onStreamData_eq {f : Frame} (h : s.Reassembles sent (f.segment ::ₘ flight))
    (hoff : f.offset ≥ kReserveOffset) (hpv : f.payload.length ≤ kMaxPacketLength)
    (hlim : s.sequencer.WithinLimits f.segment.offset f.payload.length) :
    s.sequencer.onStreamData (f.offset - kReserveOffset).toNat
      (f.payload.take (f.payload.length % 2 ^ 16)) =
    ((.noError, f.segment.data.length), { s.sequencer with
      bytesReceived := s.sequencer.bytesReceived.add f.segment.offset
        (f.segment.offset + f.segment.data.length)
      memory := SequencerBuffer.copyStreamData f.segment.offset f.segment.data
        s.sequencer.memory }) := by
  have hpart := h.tiles.partOf f.segment (Multiset.mem_cons_self _ _)
  have hmax : kMaxPacketLength = 65535 := rfl
  have hlt : f.segment.offset + f.segment.data.length < 2 ^ 64 := by
    have hoff_lt : f.segment.offset < 2 ^ 62 := by
      have h1 : (f.offset - kReserveOffset).toNat ≤ f.offset.toNat := by
        rw [UInt64.toNat_sub_of_le _ _ hoff]
        exact Nat.sub_le _ _
      exact h1.trans_lt f.offset_lt
    have hlen : f.segment.data.length ≤ kMaxPacketLength := hpv
    omega
  have htake : f.payload.take (f.payload.length % 2 ^ 16) = f.segment.data := by
    rw [Nat.mod_eq_of_lt (by omega), List.take_length]
    rfl
  rw [htake]
  exact SequencerBuffer.onStreamData_eq hpart.1 (fun x => h.tiles.not_arrived) hlim hlt

/-- A segment in flight arrives, within the limits. -/
theorem recvData {f : Frame} (h : s.Reassembles sent (f.segment ::ₘ flight))
    (hoff : f.offset ≥ kReserveOffset) (hpv : f.payload.length ≤ kMaxPacketLength)
    (hlim : s.sequencer.WithinLimits f.segment.offset f.payload.length) :
    (s.recvData f.offset f.payload).Reassembles sent flight := by
  have hpart := h.tiles.partOf f.segment (Multiset.mem_cons_self _ _)
  have hstream := h.onStreamData_eq hoff hpv hlim
  -- the sequencer after it has received the segment
  obtain ⟨b, hb⟩ : ∃ b : SequencerBuffer, b = { s.sequencer with
      bytesReceived := s.sequencer.bytesReceived.add f.segment.offset
        (f.segment.offset + f.segment.data.length)
      memory := SequencerBuffer.copyStreamData f.segment.offset f.segment.data
        s.sequencer.memory } := ⟨_, rfl⟩
  have hholds : b.Holds sent := by
    rw [hb]
    exact h.holds.receive hpart hlim fun x => h.not_read
  have htiles : Tiles sent flight (· ∈ b.bytesReceived) :=
    h.tiles.arrive.congr fun x => by
      rw [hb]
      exact IntervalSet.mem_add
  have htotal : b.totalBytesRead = s.sequencer.totalBytesRead := by rw [hb]
  have hgap : b.totalBytesRead ≤ b.firstMissingByte := by
    rw [htotal, h.allRead]
    by_contra hgt
    have hmem : b.firstMissingByte ∈ s.sequencer.bytesReceived :=
      IntervalSet.mem_of_lt_firstGap (not_le.1 hgt)
    refine b.bytesReceived.firstGap_not_mem ?_
    rw [hb]
    rw [hb] at hmem
    exact IntervalSet.mem_add.2 (.inr hmem)
  have hprev : s.sequencer.readableBytes = 0 := by
    rw [SequencerBuffer.readableBytes, h.allRead, Nat.sub_self]
  have hrecv : DashDim.recvData f.offset f.payload s.sequencer =
      if b.readableBytes > 0 then b.read else ([], b) := by
    rw [DashDim.recvData, if_pos hoff, SequencerBuffer.onFrameData, hstream, ← hb]
    dsimp only
    rw [if_neg (List.length_pos_iff.2 hpart.1).ne', hprev]
    simp only [true_and, onDataAvailable]
  rw [FarEnd.recvData, hrecv]
  by_cases hpos : b.readableBytes > 0
  · rw [if_pos hpos]
    refine ⟨htiles, hholds.read, ?_, ?_⟩
    · change b.totalBytesRead + b.readableBytes = b.firstMissingByte
      rw [SequencerBuffer.readableBytes]
      omega
    · dsimp only
      rw [h.delivered_eq, hholds.read_eq, ← htotal, ← List.take_add]
      rfl
  · rw [if_neg hpos]
    refine ⟨htiles, hholds, ?_, ?_⟩
    · dsimp only
      rw [SequencerBuffer.readableBytes] at hpos
      omega
    · dsimp only
      rw [List.append_nil, h.delivered_eq, htotal]

/-- What is passed on is a start of the stream. -/
theorem delivered_prefix (h : s.Reassembles sent flight) : s.delivered <+: sent := by
  rw [h.delivered_eq]
  exact List.take_prefix _ _

/-- With nothing in flight, all of the stream is passed on. -/
theorem delivered_all (h : s.Reassembles sent 0) : s.delivered = sent := by
  have hgap : s.sequencer.firstMissingByte = sent.length :=
    IntervalSet.firstGap_eq h.tiles.complete
  rw [h.delivered_eq, h.allRead, hgap, List.take_length]

end FarEnd.Reassembles

end DashDim
