import DashDim.Codec.Failure
import DashDim.Lib.Traced

/-!
# The codec on memory

`DataReader` and `DataWriter` once more, now with what they are made of: memory behind a
pointer, and cursors of 64 bits that wrap around. Nothing keeps an operation from looking at a
cell outside the buffer, or from subtracting more than there is; each notes the cells it loads
and stores and the differences it computes (`Access`). An index is relative to the pointer.

The checks that only a debug build makes are left out: what they would stop is carried out
here.
-/

namespace DashDim

/-- Memory behind a pointer. -/
abbrev Memory := UInt64 → UInt8

/-- What an operation of a reader or a writer does to its buffer and its cursors. -/
inductive Access
  /-- the difference of two sizes -/
  | sub (a b : UInt64)
  /-- a cell is read -/
  | load (i : UInt64)
  /-- a cell is written -/
  | store (i : UInt64)
  deriving DecidableEq, Repr

namespace Access

/-- The difference does not wrap around, and the cell lies in a part of the buffer. -/
def Within (lo hi : UInt64) : Access → Prop
  | sub a b => b ≤ a
  | load i => lo ≤ i ∧ i < hi
  | store i => lo ≤ i ∧ i < hi

instance (lo hi : UInt64) : DecidablePred (Within lo hi)
  | sub a b => inferInstanceAs (Decidable (b ≤ a))
  | load i => inferInstanceAs (Decidable (lo ≤ i ∧ i < hi))
  | store i => inferInstanceAs (Decidable (lo ≤ i ∧ i < hi))

end Access

/-! ## Memory -/

namespace Memory

/-- The `n` bytes from `pos` on. -/
def bytes (data : Memory) (pos : UInt64) : ℕ → Bytes
  | 0 => []
  | n + 1 => data pos :: bytes data (pos + 1) n

/-- The bytes of a variable. -/
def ofBytes (bs : Bytes) : Memory := fun i => bs.getD i.toNat 0

/-- Reads a byte, noting the place. -/
def loadByte (data : Memory) (i : UInt64) : Traced Access UInt8 := .note (.load i) (data i)

/-- Writes a byte, noting the place. -/
def storeByte (buffer : Memory) (i : UInt64) (b : UInt8) : Traced Access Memory :=
  .note (.store i) (Function.update buffer i b)

/-- A `memcpy` out of a buffer. -/
def load (data : Memory) (pos : UInt64) : ℕ → Traced Access Bytes
  | 0 => pure []
  | n + 1 => do
    let b ← data.loadByte pos
    let bs ← load data (pos + 1) n
    pure (b :: bs)

/-- A `memcpy` into a buffer. -/
def store (buffer : Memory) (pos : UInt64) : Bytes → Traced Access Memory
  | [] => pure buffer
  | b :: bs => do
    let buffer ← buffer.storeByte pos b
    store buffer (pos + 1) bs

end Memory

/-- The difference of two `size_t`. -/
def sizeDiff (a b : UInt64) : Traced Access UInt64 := .note (.sub a b) (a - b)

/-! ## Reading -/

/-- A `DataReader` on memory. -/
structure RawReader where
  data : Memory
  len : UInt64
  pos : UInt64
  endianness : Endianness

/-- A read of a `RawReader`. -/
abbrev RawRead (α : Type) := RawReader → Traced Access (Option α × RawReader)

/-- A read whose value is converted. -/
def RawRead.map {α β : Type} (g : α → β) (f : RawRead α) : RawRead β := fun r => do
  let (a, r') ← f r
  pure (a.map g, r')

namespace RawReader

/-- A reader at the start of `data`. -/
def new (data : Memory) (len : UInt64) (endianness : Endianness) : RawReader :=
  ⟨data, len, 0, endianness⟩

variable (r : RawReader)

/-- `BytesRemaining`, over `size_t`. -/
def bytesRemaining : Traced Access UInt64 := sizeDiff r.len r.pos

/-- `CanRead`. -/
def canRead (bytes : UInt64) : Traced Access Bool := do
  let remaining ← sizeDiff r.len r.pos
  pure (decide (bytes ≤ remaining))

/-- `OnFailure`: nothing more can be read. -/
def onFailure : RawReader := { r with pos := r.len }

/-- `AdvancePos`. -/
def advancePos (amount : UInt64) : RawReader := { r with pos := r.pos + amount }

/-- `PeekByte`. -/
def peekByte : Traced Access UInt8 := if r.pos ≥ r.len then pure 0 else r.data.loadByte r.pos

/-- `TruncateRemaining`. -/
def truncateRemaining (truncationLength : UInt64) : Traced Access (Bool × RawReader) := do
  let remaining ← r.bytesRemaining
  if truncationLength > remaining then pure (false, r)
  else pure (true, { r with len := r.pos + truncationLength })

/-- Reading `size` bytes. -/
def readBytes (size : UInt32) : Traced Access (Option Bytes × RawReader) := do
  let fits ← r.canRead size.toUInt64
  if fits then do
    let bs ← r.data.load r.pos size.toNat
    pure (some bs, { r with pos := r.pos + size.toUInt64 })
  else pure (none, r.onFailure)

/-- `Seek`. -/
def seek (size : UInt64) : Traced Access (Bool × RawReader) := do
  let fits ← r.canRead size
  if fits then pure (true, { r with pos := r.pos + size })
  else pure (false, r.onFailure)

/-- What the reads of 16, 32 and 64 bits have in common. -/
def readUInt (n : UInt32) : Traced Access (Option ℕ × RawReader) := do
  let (bs, r') ← r.readBytes n
  pure (bs.map fun bs =>
    if r.endianness = .networkByteOrder then netToHost n.toNat (leValue bs) else leValue bs, r')

/-- `ReadUInt8`. -/
def readUInt8 : Traced Access (Option UInt8 × RawReader) :=
  RawRead.map (fun bs => bs.headD 0) (readBytes · 1) r

/-- `ReadUInt16`. -/
def readUInt16 : Traced Access (Option UInt16 × RawReader) :=
  RawRead.map UInt16.ofNat (readUInt · 2) r

/-- `ReadUInt32`. -/
def readUInt32 : Traced Access (Option UInt32 × RawReader) :=
  RawRead.map UInt32.ofNat (readUInt · 4) r

/-- `ReadUInt64`. -/
def readUInt64 : Traced Access (Option UInt64 × RawReader) :=
  RawRead.map UInt64.ofNat (readUInt · 8) r

/-- Reading the low `numBytes` bytes of a 64-bit integer. The size is narrowed to 32 bits. -/
def readBytesToUInt64 (numBytes : UInt64) : Traced Access (Option UInt64 × RawReader) :=
  if numBytes > 8 then pure (none, r)
  else if r.endianness = .hostByteOrder then
    RawRead.map (fun bs => UInt64.ofNat (leValue (bs ++ List.replicate (8 - numBytes.toNat) 0)))
      (readBytes · numBytes.toUInt32) r
  else
    RawRead.map (fun bs =>
      UInt64.ofNat (netToHost 8 (leValue (List.replicate (8 - numBytes.toNat) 0 ++ bs))))
      (readBytes · numBytes.toUInt32) r

/-- `*(next + i)`, where `next` points at what is not read yet. -/
def next (i : UInt64) : Traced Access UInt8 := r.data.loadByte (r.pos + i)

/-- `ReadVarInt62`, branch by branch on the first two bits. -/
def readVarInt62 : Traced Access (Option UInt64 × RawReader) := do
  let remaining ← r.bytesRemaining
  if remaining ≠ 0 then do
    let first ← r.next 0
    if first &&& 0xc0 = 0xc0 then
      if remaining ≥ 8 then do
        let b0 ← r.next 0
        let b1 ← r.next 1
        let b2 ← r.next 2
        let b3 ← r.next 3
        let b4 ← r.next 4
        let b5 ← r.next 5
        let b6 ← r.next 6
        let b7 ← r.next 7
        pure (some (((b0.toUInt64 &&& 0x3f) <<< 56) + (b1.toUInt64 <<< 48)
          + (b2.toUInt64 <<< 40) + (b3.toUInt64 <<< 32) + (b4.toUInt64 <<< 24)
          + (b5.toUInt64 <<< 16) + (b6.toUInt64 <<< 8) + (b7.toUInt64 <<< 0)), r.advancePos 8)
      else pure (none, r)
    else if first &&& 0xc0 = 0x80 then
      if remaining ≥ 4 then do
        let b0 ← r.next 0
        let b1 ← r.next 1
        let b2 ← r.next 2
        let b3 ← r.next 3
        pure (some (((b0.toUInt64 &&& 0x3f) <<< 24) + (b1.toUInt64 <<< 16)
          + (b2.toUInt64 <<< 8) + (b3.toUInt64 <<< 0)), r.advancePos 4)
      else pure (none, r)
    else if first &&& 0xc0 = 0x40 then
      if remaining ≥ 2 then do
        let b0 ← r.next 0
        let b1 ← r.next 1
        pure (some (((b0.toUInt64 &&& 0x3f) <<< 8) + b1.toUInt64), r.advancePos 2)
      else pure (none, r)
    else do
      let b0 ← r.next 0
      pure (some (b0.toUInt64 &&& 0x3f), r.advancePos 1)
  else pure (none, r)

/-- The search of `readVarInt` for the last group, over what remains from `i` on. -/
def varIntScan : ℕ → UInt64 → UInt64 → Traced Access (UInt64 × Bool)
  | 0, _, length => pure (length, false)
  | remaining + 1, i, length => do
    let length := length + 1
    let b ← r.next i
    if b &&& 128 = 0 then pure (length, true)
    else if length > 8 then pure (length, false)
    else varIntScan remaining (i + 1) length

/-- The value of the `count` groups from `i` on, the first having the weight `remainMulti`. -/
def varIntValue : ℕ → UInt64 → UInt64 → UInt64 → Traced Access UInt64
  | 0, _, remain, _ => pure remain
  | count + 1, i, remain, remainMulti => do
    let b ← r.next i
    varIntValue count (i + 1) (remain + (b &&& 127).toUInt64 * remainMulti) (remainMulti * 128)

/-- `ReadVarInt`: scans for the end of the number, then reads it from there backwards. -/
def readVarInt : Traced Access (Option UInt64 × RawReader) := do
  let remaining ← r.bytesRemaining
  let (length, decodable) ← r.varIntScan remaining.toNat 0 0
  if (length > 0 ∧ length ≤ 8) ∧ decodable then do
    let remain ← r.varIntValue length.toNat 0 0 1
    pure (some remain, r.advancePos length)
  else pure (none, r)

/-- Whether a read succeeds, and the reader after it. -/
def succeeds {α : Type} (x : Traced Access (Option α × RawReader)) :
    Traced Access (Bool × RawReader) := do
  let (a, r') ← x
  pure (a.isSome, r')

/-- Whether the operation succeeds, and the reader after it. -/
def run : ReaderOp → Traced Access (Bool × RawReader)
  | .uInt8 => succeeds r.readUInt8
  | .uInt16 => succeeds r.readUInt16
  | .uInt32 => succeeds r.readUInt32
  | .uInt64 => succeeds r.readUInt64
  | .bytesToUInt64 numBytes => succeeds (r.readBytesToUInt64 numBytes)
  | .varInt62 => succeeds r.readVarInt62
  | .varInt => succeeds r.readVarInt
  | .bytes size => succeeds (r.readBytes size)
  | .seek size => r.seek size
  | .truncateRemaining truncationLength => r.truncateRemaining truncationLength
  | .peekByte => do
    let _ ← r.peekByte
    pure (true, r)

/-- The reader after a sequence of operations. -/
def runAll (ops : List ReaderOp) : RawReader := ops.foldl (fun r op => (r.run op).value.2) r

end RawReader

/-! ## Writing -/

/-- A `DataWriter` on memory. -/
structure RawWriter where
  buffer : Memory
  capacity : UInt64
  length : UInt64
  endianness : Endianness

/-- The operations of a `DataWriter`, with their arguments. -/
inductive WriterOp
  | uInt8 (value : UInt8)
  | uInt16 (value : UInt16)
  | uInt32 (value : UInt32)
  | uInt64 (value : UInt64)
  | bytesToUInt64 (numBytes value : UInt64)
  | varInt62 (value : UInt64)
  | varInt (value : UInt64)
  | bytes (data : Memory) (dataLen : UInt64)
  | seek (length : UInt64)

namespace RawWriter

/-- A writer at the start of `buffer`. -/
def new (buffer : Memory) (size : UInt64) (endianness : Endianness) : RawWriter :=
  ⟨buffer, size, 0, endianness⟩

variable (w : RawWriter)

/-- `remaining`, over `size_t`. -/
def remaining : Traced Access UInt64 := sizeDiff w.capacity w.length

/-- Where a write of `length` bytes goes, if there is room for it. -/
def beginWrite (length : UInt64) : Traced Access (Option UInt64) :=
  if w.length > w.capacity then pure none
  else do
    let room ← sizeDiff w.capacity w.length
    if room < length then pure none else pure (some w.length)

/-- `IncreaseLength`. -/
def increaseLength (delta : UInt64) : RawWriter := { w with length := w.length + delta }

/-- `WriteBytes`. -/
def writeBytes (data : Memory) (dataLen : UInt64) : Traced Access (Bool × RawWriter) := do
  let dest ← w.beginWrite dataLen
  match dest with
  | none => pure (false, w)
  | some dest => do
    let buffer ← w.buffer.store dest (data.bytes 0 dataLen.toNat)
    pure (true, { w with buffer := buffer, length := w.length + dataLen })

/-- What the writes of 16, 32 and 64 bits have in common. -/
def writeUInt (n : UInt64) (value : ℕ) : Traced Access (Bool × RawWriter) :=
  let value := if w.endianness = .networkByteOrder then hostToNet n.toNat value else value
  w.writeBytes (.ofBytes (leBytes n.toNat value)) n

/-- `WriteUInt8`. -/
def writeUInt8 (value : UInt8) : Traced Access (Bool × RawWriter) :=
  w.writeBytes (.ofBytes [value]) 1

/-- `WriteUInt16`. -/
def writeUInt16 (value : UInt16) : Traced Access (Bool × RawWriter) := w.writeUInt 2 value.toNat

/-- `WriteUInt32`. -/
def writeUInt32 (value : UInt32) : Traced Access (Bool × RawWriter) := w.writeUInt 4 value.toNat

/-- `WriteUInt64`. -/
def writeUInt64 (value : UInt64) : Traced Access (Bool × RawWriter) := w.writeUInt 8 value.toNat

/-- Writing the low `numBytes` bytes of `value`. -/
def writeBytesToUInt64 (numBytes value : UInt64) : Traced Access (Bool × RawWriter) :=
  if numBytes > 8 then pure (false, w)
  else if w.endianness = .hostByteOrder then w.writeBytes (.ofBytes (leBytes 8 value.toNat)) numBytes
  else
    let value := Memory.ofBytes (leBytes 8 (hostToNet 8 value.toNat))
    w.writeBytes (fun i => value (8 - numBytes + i)) numBytes

/-- The cells `*(next + 0)`, `*(next + 1)` and so on are assigned, where `next` points at what
    is not written yet, and counted in the length. -/
def put (bs : Bytes) : Traced Access (Bool × RawWriter) := do
  let buffer ← w.buffer.store w.length bs
  pure (true, { w with buffer := buffer }.increaseLength (.ofNat bs.length))

/-- `WriteVarInt62`, branch by branch on the masks. -/
def writeVarInt62 (value : UInt64) : Traced Access (Bool × RawWriter) := do
  let remainingBytes ← w.remaining
  if value &&& kVarInt62ErrorMask = 0 then
    if value &&& kVarInt62Mask8Bytes ≠ 0 then
      if remainingBytes ≥ 8 then
        w.put [(((value >>> 56) &&& 0x3f) + 0xc0).toUInt8,
          ((value >>> 48) &&& 0xff).toUInt8, ((value >>> 40) &&& 0xff).toUInt8,
          ((value >>> 32) &&& 0xff).toUInt8, ((value >>> 24) &&& 0xff).toUInt8,
          ((value >>> 16) &&& 0xff).toUInt8, ((value >>> 8) &&& 0xff).toUInt8,
          (value &&& 0xff).toUInt8]
      else pure (false, w)
    else if value &&& kVarInt62Mask4Bytes ≠ 0 then
      if remainingBytes ≥ 4 then
        w.put [(((value >>> 24) &&& 0x3f) + 0x80).toUInt8,
          ((value >>> 16) &&& 0xff).toUInt8, ((value >>> 8) &&& 0xff).toUInt8,
          (value &&& 0xff).toUInt8]
      else pure (false, w)
    else if value &&& kVarInt62Mask2Bytes ≠ 0 then
      if remainingBytes ≥ 2 then
        w.put [(((value >>> 8) &&& 0x3f) + 0x40).toUInt8, (value &&& 0xff).toUInt8]
      else pure (false, w)
    else if remainingBytes ≥ 1 then w.put [(value &&& 0x3f).toUInt8]
    else pure (false, w)
  else pure (false, w)

/-- The loop of `writeVarInt`. -/
def writeVarIntLoop (w : RawWriter) (next : UInt64) : Traced Access RawWriter := do
  let first := (next % 128).toUInt8
  let rest := next / 128
  let byte := if rest > 0 then first ||| 128 else first
  let (_, w) ← w.writeUInt8 byte
  if _h : rest > 0 then writeVarIntLoop w rest else pure w
termination_by next.toNat
decreasing_by
  have hrest : (next / 128).toNat = next.toNat / 128 := UInt64.toNat_div next 128
  have hpos : 0 < (next / 128).toNat := UInt64.lt_iff_toNat_lt.1 _h
  omega

/-- `WriteVarInt`. -/
def writeVarInt (value : UInt64) : Traced Access (Bool × RawWriter) := do
  let remainingBytes ← w.remaining
  let need := DataWriter.getVarIntLen value
  if 0 = need ∨ .ofNat need > remainingBytes then pure (false, w)
  else do
    let w ← w.writeVarIntLoop value
    pure (true, w)

/-- Skipping `length` bytes of the buffer. -/
def seek (length : UInt64) : Traced Access (Bool × RawWriter) := do
  let dest ← w.beginWrite length
  match dest with
  | none => pure (false, w)
  | some _ => pure (true, { w with length := w.length + length })

/-- Whether the operation succeeds, and the writer after it. -/
def run : WriterOp → Traced Access (Bool × RawWriter)
  | .uInt8 value => w.writeUInt8 value
  | .uInt16 value => w.writeUInt16 value
  | .uInt32 value => w.writeUInt32 value
  | .uInt64 value => w.writeUInt64 value
  | .bytesToUInt64 numBytes value => w.writeBytesToUInt64 numBytes value
  | .varInt62 value => w.writeVarInt62 value
  | .varInt value => w.writeVarInt value
  | .bytes data dataLen => w.writeBytes data dataLen
  | .seek length => w.seek length

/-- The writer after a sequence of operations. -/
def runAll (ops : List WriterOp) : RawWriter := ops.foldl (fun w op => (w.run op).value.2) w

end RawWriter

end DashDim
