import DashDim.Tpproxy.Frame

/-!
# Path connections of the multipath proxy

One end of a path, as in `tpproxy/mpproxy_types.cc`. It appends frames to its
write buffer (`sendData` for data, `writeMessage` for messages), hands the buffer
to the kernel as far as its budget and the kernel allow (`flushBuffer`), and takes
the complete frames off its read buffer (`deliver`).

What the kernel and the budget do is not up to the code: they answer each round of
`flushBuffer` (`SendAnswer`). A failed `CHECK` ends the program, and is no result.

* `sendData_eq`, `writeMessage_eq`: they append the bytes of one frame;
* `onWriteEvent_eq`: the bytes handed to the kernel and the write buffer after are
  the write buffer before;
* `deliver_eq`: `deliver` takes the frames off the read buffer that the framing
  recognises, and hands them on in order.
-/

namespace DashDim

/-- The size of the buffers of the proxy. -/
def kBufferSize : ℕ := 1500

/-- The largest length of a packet, of 16 bits. -/
def kMaxPacketLength : ℕ := 65535

/-- A connection with more than this to write is given nothing more. -/
def kWriteBufferThreshold : ℕ := 1500 * 10

/-- What `flushBuffer` is answered in a round: the budget is used up, or the
    kernel takes up to so many of the bytes it is given (none, for an error). -/
inductive SendAnswer
  | noBudget
  | sent (bytes : ℕ)
  deriving DecidableEq, Repr

/-- One end of a path: its descriptor, whether it is connected, whether it waits
    to close the descriptor, and the bytes it has to write. -/
structure TcpConnection where
  fd : ℤ
  isConnected : Bool
  fdWaitClose : Bool
  fdWriteBuffer : Bytes
  deriving DecidableEq, Repr

namespace TcpConnection

/-- The loop of `flushBuffer` over the answers it gets: the bytes sent, and those
    that remain. -/
def flushLoop : List SendAnswer → Bytes → Bytes × Bytes
  | [], data => ([], data)
  | answer :: answers, data =>
    if data.length > 0 then
      let intend := min kBufferSize data.length
      match answer with
      | .noBudget => ([], data)
      | .sent bytes =>
        let sent := min bytes intend
        if sent = 0 then ([], data)
        else
          let (out, remain) := flushLoop answers (data.drop sent)
          (data.take sent ++ out, remain)
    else ([], data)

/-- Handing the write buffer to the kernel: the bytes sent, and the connection
    after it. -/
def flushBuffer (answers : List SendAnswer) (c : TcpConnection) : Bytes × TcpConnection :=
  if c.fd < 0 then ([], c)
  else
    let (out, remain) := flushLoop answers c.fdWriteBuffer
    (out, { c with fdWriteBuffer := remain })

/-- Closing the descriptor, once all is written, of a connection that waits to. -/
def checkCloseFd (c : TcpConnection) : TcpConnection :=
  if c.fdWaitClose ∧ c.fdWriteBuffer.length = 0 then
    if c.fd > 0 then { c with fd := -1 } else c
  else c

/-- The descriptor can be written. -/
def onWriteEvent (answers : List SendAnswer) (c : TcpConnection) : Bytes × TcpConnection :=
  let (out, c) := c.flushBuffer answers
  (out, c.checkCloseFd)

/-- Appending `frame` to the write buffer, and writing if the connection can. -/
def append (answers : List SendAnswer) (frame : Bytes) (c : TcpConnection) :
    Bytes × TcpConnection :=
  let c := { c with fdWriteBuffer := c.fdWriteBuffer ++ frame }
  if c.isConnected then c.onWriteEvent answers else ([], c)

/-- Sending the data `pv` as a frame: an offset, a length and the bytes. -/
def sendData (answers : List SendAnswer) (offset : UInt64) (pv : Bytes) (c : TcpConnection) :
    Option (Bytes × TcpConnection) :=
  if ¬c.fd > 0 then none
  else if ¬pv.length ≤ kMaxPacketLength then none
  else
    let size := UInt64.ofNat pv.length
    let offsetBytes := DataWriter.getVarInt62Len offset
    let sizeBytes := DataWriter.getVarInt62Len size
    let bufferSize := offsetBytes + sizeBytes + pv.length
    let writer := DataWriter.new (List.replicate bufferSize 0)
    match writeAll [(DataWriter.writeVarInt62 · offset), (DataWriter.writeVarInt62 · size),
      (DataWriter.writeBytes · pv)] writer with
    | (false, _) => none
    | (true, writer) => some (c.append answers writer.buffer)

/-- Sending a message as a frame: the offset `0`, a length, the type of the
    message and its bytes. The frame is made in a buffer of fixed size. -/
def writeMessage (answers : List SendAnswer) (type : UInt8) (data : Bytes) (c : TcpConnection) :
    Option (Bytes × TcpConnection) :=
  let offset : UInt64 := 0
  let len := UInt64.ofNat (1 + data.length)
  let writer := DataWriter.new (List.replicate kBufferSize 0)
  match writeAll [(DataWriter.writeVarInt62 · offset), (DataWriter.writeVarInt62 · len),
    (DataWriter.writeUInt8 · type)] writer with
  | (false, _) => none
  | (true, writer) =>
    if data.length > 0 then
      match writer.writeBytes data with
      | (false, _) => none
      | (true, writer) => some (c.append answers writer.written)
    else some (c.append answers writer.written)

/-- Whether the write buffer is too full to be given more. -/
def isBufferAboveThreshold (c : TcpConnection) : Bool :=
  c.fdWriteBuffer.length > kWriteBufferThreshold

/-! ## Writing -/

theorem flushLoop_eq (answers : List SendAnswer) (data : Bytes) :
    (flushLoop answers data).1 ++ (flushLoop answers data).2 = data := by
  induction answers generalizing data with
  | nil => rfl
  | cons answer answers ih =>
    rw [flushLoop]
    split_ifs
    · cases answer with
      | noBudget => rfl
      | sent bytes =>
        dsimp only
        split_ifs
        · rfl
        · rw [List.append_assoc, ih, List.take_append_drop]
    · rfl

/-- The kernel takes all that is given to it, if it is asked often enough. -/
theorem flushLoop_all {k : ℕ} {data : Bytes} (h : data.length ≤ k * kBufferSize) :
    flushLoop (List.replicate k (.sent kBufferSize)) data = (data, []) := by
  induction k generalizing data with
  | zero =>
    obtain rfl := List.length_eq_zero_iff.1 (Nat.le_zero.1 (Nat.zero_mul kBufferSize ▸ h))
    rfl
  | succ k ih =>
    have hpos : 0 < kBufferSize := by decide
    rw [List.replicate_succ, flushLoop]
    by_cases hdata : data.length > 0
    · rw [Nat.succ_mul] at h
      rw [if_pos hdata]
      dsimp only
      rw [if_neg (by omega), min_eq_right (Nat.min_le_left _ _),
        ih (by rw [List.length_drop]; omega)]
      exact Prod.ext (List.take_append_drop _ _) rfl
    · obtain rfl := List.length_eq_zero_iff.1 (Nat.le_zero.1 (not_lt.1 hdata))
      rfl

/-- Closing does not touch the write buffer. -/
@[simp] theorem checkCloseFd_fdWriteBuffer (c : TcpConnection) :
    c.checkCloseFd.fdWriteBuffer = c.fdWriteBuffer := by
  unfold checkCloseFd
  split_ifs <;> rfl

/-- Nothing of the write buffer is lost or repeated: what is sent is its start. -/
theorem onWriteEvent_eq (answers : List SendAnswer) (c : TcpConnection) :
    (c.onWriteEvent answers).1 ++ (c.onWriteEvent answers).2.fdWriteBuffer =
      c.fdWriteBuffer := by
  rw [onWriteEvent, checkCloseFd_fdWriteBuffer, flushBuffer]
  split_ifs
  · rfl
  · exact flushLoop_eq answers c.fdWriteBuffer

theorem append_eq (answers : List SendAnswer) (frame : Bytes) (c : TcpConnection) :
    (c.append answers frame).1 ++ (c.append answers frame).2.fdWriteBuffer =
      c.fdWriteBuffer ++ frame := by
  unfold append
  dsimp only
  split_ifs
  · exact onWriteEvent_eq ..
  · rfl

/-- A connection that is connected, and has nothing to write, writes a frame at once if the
    kernel takes all. -/
theorem append_all {k : ℕ} {frame : Bytes} (h : frame.length ≤ k * kBufferSize)
    {fd : ℤ} (hfd : 0 ≤ fd) :
    append (List.replicate k (.sent kBufferSize)) frame ⟨fd, true, false, []⟩ =
      (frame, ⟨fd, true, false, []⟩) := by
  have hnew : ¬ fd < 0 := not_lt.2 hfd
  simp only [append, onWriteEvent, flushBuffer, List.nil_append, if_true, if_neg hnew,
    flushLoop_all h, checkCloseFd, Bool.false_eq_true, false_and, if_false]

/-- The frame of some data. -/
def dataFrame (offset : UInt64) (pv : Bytes) (h : offset.toNat < 2 ^ 62)
    (hpv : pv.length ≤ kMaxPacketLength) : Frame :=
  ⟨offset, pv, h, hpv.trans_lt (by decide)⟩

/-- `sendData` appends the frame of its data. -/
theorem sendData_eq {answers : List SendAnswer} {offset : UInt64} {pv : Bytes}
    {c : TcpConnection} (hfd : c.fd > 0) (hoff : offset.toNat < 2 ^ 62)
    (hpv : pv.length ≤ kMaxPacketLength) :
    c.sendData answers offset pv =
      some (c.append answers (dataFrame offset pv hoff hpv).bytes) := by
  have hsize : (UInt64.ofNat pv.length).toNat = pv.length := by
    have hmax : kMaxPacketLength < 2 ^ 64 := by decide
    rw [UInt64.toNat_ofNat', Nat.mod_eq_of_lt (by omega)]
  have hlt : pv.length < 2 ^ 62 := hpv.trans_lt (by decide)
  -- the writes of `sendData`, and the bytes they put
  let ops : List Write := [.varInt62 offset, .varInt62 (UInt64.ofNat pv.length), .bytes pv]
  have himage : ops.flatMap (Write.image .networkByteOrder) =
      (dataFrame offset pv hoff hpv).bytes := by
    simp [ops, Write.image, Frame.bytes, dataFrame, hsize, List.append_assoc]
  have hlen : DataWriter.getVarInt62Len offset +
      DataWriter.getVarInt62Len (UInt64.ofNat pv.length) + pv.length =
      (dataFrame offset pv hoff hpv).bytes.length := by
    rw [DataWriter.getVarInt62Len_eq hoff, DataWriter.getVarInt62Len_eq (by rw [hsize]; exact hlt),
      hsize, Frame.bytes_length]
    rfl
  obtain ⟨w, hw, hcap⟩ := writeAll_of_room ops
    (w := DataWriter.new (List.replicate (dataFrame offset pv hoff hpv).bytes.length 0))
    (Nat.zero_le _)
    (by
      intro op hop w' hw' he hroom
      simp only [ops, List.mem_cons, List.not_mem_nil, or_false] at hop
      rcases hop with rfl | rfl | rfl
      · rw [Write.image, varInt62Bytes_length] at hroom
        exact (DataWriter.writeVarInt62_eq w' _).trans (if_pos ⟨hoff, hroom⟩)
      · rw [Write.image, varInt62Bytes_length] at hroom
        exact (DataWriter.writeVarInt62_eq w' _).trans (if_pos ⟨by rw [hsize]; exact hlt, hroom⟩)
      · exact (DataWriter.writeBytes_eq hw' pv).trans (if_pos hroom))
    (by
      rw [show (DataWriter.new (List.replicate (dataFrame offset pv hoff hpv).bytes.length 0)
        ).endianness = .networkByteOrder from rfl, himage, DataWriter.remaining,
        DataWriter.capacity, DataWriter.new, List.length_replicate]
      exact le_rfl)
  obtain ⟨hwr, hwlen, -, -⟩ := writeAll_new hw
  rw [himage] at hwr hwlen
  -- the buffer has just the size of the frame
  have hbuffer : w.buffer = (dataFrame offset pv hoff hpv).bytes := by
    rw [DataWriter.capacity, DataWriter.capacity, DataWriter.new, List.length_replicate] at hcap
    rw [← hwr, DataWriter.written, hwlen, ← hcap, List.take_length]
  rw [sendData, if_neg (not_not.2 hfd), if_neg (not_not.2 hpv)]
  dsimp only
  rw [hlen, show [fun x => DataWriter.writeVarInt62 x offset,
    fun x => DataWriter.writeVarInt62 x (UInt64.ofNat pv.length),
    fun x => DataWriter.writeBytes x pv] = ops.map Write.run from rfl, hw]
  dsimp only
  rw [hbuffer]

/-- What `sendData` needs to get through: an open descriptor, a packet's length,
    and an offset of 62 bits. -/
theorem sendData_isSome {answers : List SendAnswer} {offset : UInt64} {pv : Bytes}
    {c : TcpConnection} {res : Bytes × TcpConnection}
    (h : c.sendData answers offset pv = some res) :
    c.fd > 0 ∧ offset.toNat < 2 ^ 62 ∧ pv.length ≤ kMaxPacketLength := by
  unfold sendData at h
  split_ifs at h with hfd hpv
  dsimp only at h
  split at h
  · cases h
  · next w hw =>
    have hops : writeAll (List.map Write.run [.varInt62 offset,
      .varInt62 (UInt64.ofNat pv.length), .bytes pv]) (DataWriter.new _) = (true, w) := hw
    obtain ⟨-, -, -, henc⟩ := writeAll_new hops
    exact ⟨hfd, henc (.varInt62 offset) (by simp), hpv⟩

/-- `writeMessage` appends the frame of its message, if it gets through. -/
theorem writeMessage_eq {answers : List SendAnswer} {type : UInt8} {data : Bytes}
    {c : TcpConnection} {res : Bytes × TcpConnection}
    (h : c.writeMessage answers type data = some res) :
    ∃ f : Frame, f.offset = 0 ∧ f.payload = type :: data ∧ res = c.append answers f.bytes := by
  -- the message is in a buffer of 1500 bytes
  have key : ∀ (ops : List Write) (w : DataWriter), ops = [.varInt62 0,
      .varInt62 (UInt64.ofNat (1 + data.length)), .uInt8 type, .bytes data] →
      writeAll (ops.map Write.run) (DataWriter.new (List.replicate kBufferSize 0)) = (true, w) →
      ∃ f : Frame, f.offset = 0 ∧ f.payload = type :: data ∧ w.written = f.bytes := by
    intro ops w hops hw
    obtain ⟨hwr, hlen, hle, -⟩ := writeAll_new hw
    subst hops
    have hdata : data.length ≤ kBufferSize := by
      rw [hlen, List.length_replicate] at hle
      simp only [List.flatMap_cons, List.flatMap_nil, List.length_append, Write.image] at hle
      omega
    have hsize : (UInt64.ofNat (1 + data.length)).toNat = data.length + 1 := by
      have hmax : kBufferSize + 1 < 2 ^ 64 := by decide
      rw [UInt64.toNat_ofNat', Nat.mod_eq_of_lt (by omega), Nat.add_comm]
    have hlt : (type :: data).length < 2 ^ 62 := by
      have hmax : kBufferSize + 1 < 2 ^ 62 := by decide
      rw [List.length_cons]
      omega
    refine ⟨⟨0, type :: data, by decide, hlt⟩, rfl, rfl, ?_⟩
    rw [hwr]
    simp only [List.flatMap_cons, List.flatMap_nil, Write.image, hsize, Frame.bytes,
      List.length_cons, List.append_nil, List.append_assoc, List.singleton_append]
  unfold writeMessage at h
  dsimp only at h
  split at h
  · cases h
  · next w hw =>
    split_ifs at h with hpos
    · split at h
      · cases h
      · next w' hw' =>
        have hall := writeAll_append [(DataWriter.writeBytes · data)] hw
        rw [writeAll, hw'] at hall
        obtain ⟨f, hoff, hpay, hwr⟩ := key _ w' rfl hall
        rw [← Option.some.inj h, hwr]
        exact ⟨f, hoff, hpay, rfl⟩
    · have hnil : data = [] := List.length_eq_zero_iff.1 (by omega)
      subst hnil
      have hle : w.length ≤ w.capacity := by
        have hops : writeAll (List.map Write.run [.varInt62 0,
          .varInt62 (UInt64.ofNat 1), .uInt8 type]) (DataWriter.new _) = (true, w) := hw
        obtain ⟨-, -, hle, hcap, -⟩ := writeAll_eq (Nat.zero_le _) hops
        rw [hcap]
        exact hle
      have hall := writeAll_append [(DataWriter.writeBytes · [])] hw
      rw [writeAll, DataWriter.writeBytes_eq hle,
        if_pos (show ([] : Bytes).length ≤ _ from Nat.zero_le _), DataWriter.put_nil] at hall
      obtain ⟨f, hoff, hpay, hwr⟩ := key _ w rfl hall
      rw [← Option.some.inj h, hwr]
      exact ⟨f, hoff, hpay, rfl⟩

end TcpConnection

/-! ## Reading -/

/-- What a connection hands its frames to: the server it is attached to, if it is,
    which takes data, its own handling of messages, and what it does when all it
    has read is handed on. -/
structure Receiver (σ : Type) where
  attached : σ → Bool
  recvData : UInt64 → Bytes → σ → σ
  parseMessage : UInt64 → Bytes → σ → σ
  checkCloseEntity : σ → σ

namespace Receiver

variable {σ : Type} (R : Receiver σ)

/-- Handing on one frame: its data goes to the server, which has to be there, and
    a message, if there is one, is parsed. -/
def handOn (offset : UInt64) (pv : Bytes) (s : σ) : Option σ :=
  if offset ≥ kReserveOffset then
    if R.attached s then some (R.recvData offset pv s) else none
  else if pv.length > 0 then some (R.parseMessage offset pv s)
  else some s

/-- The loop of `deliver`, for a number of rounds: whether it handed on a frame,
    and the bytes that remain. -/
def deliverLoop : ℕ → Bytes → Bool → σ → Option ((Bytes × Bool) × σ)
  | 0, data, update, s => some ((data, update), s)
  | rounds + 1, data, update, s =>
    if data.length > 0 then
      match isDeliverable data with
      | (true, hd) =>
        let headerSize := hd.offsetBytes + hd.lenBytes
        let frameSize := headerSize + hd.len.toNat
        let pv := (data.drop headerSize).take hd.len.toNat
        match R.handOn hd.offset pv s with
        | none => none
        | some s => deliverLoop rounds (data.drop frameSize) true s
      | (false, _) => some ((data, update), s)
    else some ((data, update), s)

-- a frame has at least one byte: there are no more rounds than bytes
/-- Handing on the complete frames of the read buffer: what remains of it. -/
def deliver (fdReadBuffer : Bytes) (s : σ) : Option (Bytes × σ) :=
  match R.deliverLoop fdReadBuffer.length fdReadBuffer false s with
  | none => none
  | some ((remain, update), s) =>
    if update then
      if remain.length > 0 then some (remain, s) else some ([], R.checkCloseEntity s)
    else some (fdReadBuffer, s)

/-- A chunk is read, and the frames it completes are handed on. -/
def receive (chunk : Bytes) (fdReadBuffer : Bytes) (s : σ) : Option (Bytes × σ) :=
  R.deliver (fdReadBuffer ++ chunk) s

/-- Chunks are read one after the other. -/
def receiveAll : List Bytes → Bytes → σ → Option (Bytes × σ)
  | [], fdReadBuffer, s => some (fdReadBuffer, s)
  | chunk :: chunks, fdReadBuffer, s =>
    match R.receive chunk fdReadBuffer s with
    | none => none
    | some (fdReadBuffer, s) => receiveAll chunks fdReadBuffer s

/-- Handing on frames one after the other. -/
def handOnAll : List Frame → σ → Option σ
  | [], s => some s
  | f :: fs, s => (R.handOn f.offset f.payload s).bind (handOnAll fs)

variable {R}

theorem handOnAll_append (fs gs : List Frame) (s : σ) :
    R.handOnAll (fs ++ gs) s = (R.handOnAll fs s).bind (R.handOnAll gs) := by
  induction fs generalizing s with
  | nil => rfl
  | cons f fs ih =>
    rw [List.cons_append, handOnAll, handOnAll, Option.bind_assoc]
    congr 1
    funext s'
    exact ih s'

/-- The loop hands on the frames at the start of its data, and leaves the rest. -/
theorem deliverLoop_eq {rounds : ℕ} {data : Bytes} (h : data.length ≤ rounds) (update : Bool)
    (s : σ) :
    R.deliverLoop rounds data update s = (R.handOnAll (tpFraming.drain data).1 s).map fun s =>
      (((tpFraming.drain data).2, update || (tpFraming.drain data).1 != []), s) := by
  induction rounds generalizing data update s with
  | zero =>
    obtain rfl := List.length_eq_zero_iff.1 (Nat.le_zero.1 h)
    rw [Framing.drain_of_none Framing.parse_nil]
    simp [deliverLoop, handOnAll]
  | succ rounds ih =>
    rw [deliverLoop]
    cases hp : tpFraming.parse data with
    | none =>
      have hfalse := isDeliverable_of_parse_none hp
      rw [Framing.drain_of_none hp]
      generalize isDeliverable data = res at hfalse ⊢
      obtain ⟨ok, hd⟩ := res
      cases hfalse
      simp [handOnAll]
    | some p =>
      obtain ⟨f, n⟩ := p
      obtain ⟨hd, hdeliv, hoff, hn, hlen, hpay⟩ := isDeliverable_of_parse hp
      obtain ⟨hpos, hle⟩ := tpFraming.parse_length hp
      rw [if_pos (by omega), hdeliv, Framing.drain_of_some hp]
      dsimp only
      rw [← hpay, hn, hoff, handOnAll]
      cases hs : R.handOn f.offset f.payload s with
      | none => rfl
      | some s' =>
        dsimp only
        have hne : (f :: (tpFraming.drain (data.drop n)).1 != []) = true := rfl
        rw [ih (by rw [List.length_drop]; omega), Option.bind_some, hne, Bool.or_true]
        simp only [Bool.true_or]

/-- `deliver` hands on the frames the framing takes off the read buffer, in order,
    and what they leave remains. -/
theorem deliver_eq (fdReadBuffer : Bytes) (s : σ) :
    R.deliver fdReadBuffer s = (R.handOnAll (tpFraming.drain fdReadBuffer).1 s).map fun s =>
      ((tpFraming.drain fdReadBuffer).2,
        if (tpFraming.drain fdReadBuffer).1 ≠ [] ∧ (tpFraming.drain fdReadBuffer).2 = [] then
          R.checkCloseEntity s else s) := by
  rw [deliver, deliverLoop_eq le_rfl]
  cases R.handOnAll (tpFraming.drain fdReadBuffer).1 s with
  | none => rfl
  | some s' =>
    dsimp only [Option.map_some]
    rw [Bool.false_or]
    by_cases hfs : (tpFraming.drain fdReadBuffer).1 = []
    · -- nothing is handed on: the buffer stays as it is
      have hdrain : (tpFraming.drain fdReadBuffer).2 = fdReadBuffer := by
        cases hp : tpFraming.parse fdReadBuffer with
        | none => rw [Framing.drain_of_none hp]
        | some p =>
          rw [Framing.drain_of_some (b := p.1) (n := p.2) hp] at hfs
          cases hfs
      simp [hfs, hdrain]
    · rw [if_pos (by simpa using hfs)]
      by_cases hremain : (tpFraming.drain fdReadBuffer).2 = []
      · rw [hremain, if_neg (by simp), if_pos ⟨hfs, rfl⟩]
      · rw [if_pos (List.length_pos_iff.2 hremain), if_neg (by tauto)]

end Receiver

end DashDim
