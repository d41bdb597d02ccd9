import DashDim.Codec.Writer

/-!
# Reading messages

`DataReader` reads back what a `DataWriter` lays out, value after value, as in
`base/byte_codec.cc`. An operation returns the value it read, or nothing when
it fails, with the reader after it: a failure may have moved the reader (a read
of bytes that are not there gives up the rest of the buffer, a variable-length
read stays where it is).
-/

namespace DashDim

/-- A message being read: the buffer, how much of it is the message, how much of
    that is read, and the byte order of its integers. -/
structure DataReader where
  data : Bytes
  len : ℕ
  pos : ℕ
  endianness : Endianness
  deriving Repr

/-- A read: the value read, if it succeeded, and the reader after it. -/
abbrev Read (α : Type) := DataReader → Option α × DataReader

/-- A read followed by one depending on its value, joined by `&&`. -/
def Read.andThen {α β : Type} (f : Read α) (g : α → Read β) : Read β := fun r =>
  match f r with
  | (some a, r') => g a r'
  | (none, r') => (none, r')

/-- A read whose value is converted. -/
def Read.map {α β : Type} (g : α → β) (f : Read α) : Read β := fun r =>
  ((f r).1.map g, (f r).2)

namespace DataReader

/-- A reader at the start of `data`. -/
def new (data : Bytes) (endianness : Endianness := .networkByteOrder) : DataReader :=
  ⟨data, data.length, 0, endianness⟩

variable (r : DataReader)

/-- `BytesRemaining`. -/
def bytesRemaining : ℕ := r.len - r.pos

/-- `IsDoneReading`. -/
def isDoneReading : Bool := r.len == r.pos

/-- `CanRead`. -/
def canRead (bytes : ℕ) : Bool := bytes ≤ r.len - r.pos

/-- Giving up the rest of the buffer. -/
def onFailure : DataReader := { r with pos := r.len }

/-- `AdvancePos`. -/
def advancePos (amount : ℕ) : DataReader := { r with pos := r.pos + amount }

/-- The byte `i` past the position of the reader. -/
def byteAt (i : ℕ) : UInt8 := r.data.getD (r.pos + i) 0

/-- `PeekByte`. -/
def peekByte : UInt8 := if r.pos ≥ r.len then 0 else r.byteAt 0

/-- `TruncateRemaining`. -/
def truncateRemaining (truncationLength : ℕ) : Bool × DataReader :=
  if truncationLength > r.bytesRemaining then (false, r)
  else (true, { r with len := r.pos + truncationLength })

/-- Reading `size` bytes; the size is a 32-bit integer. -/
def readBytes (size : ℕ) : Option Bytes × DataReader :=
  let size := size % 2 ^ 32
  if r.canRead size then (some ((r.data.drop r.pos).take size), r.advancePos size)
  else (none, r.onFailure)

/-- `Seek`. -/
def seek (size : ℕ) : Bool × DataReader :=
  if r.canRead size then (true, r.advancePos size) else (false, r.onFailure)

/-- Reading an `n`-byte integer in the byte order of the reader: what the reads
    of 16, 32 and 64 bits have in common. -/
def readUInt (n : ℕ) : Option ℕ × DataReader :=
  match r.readBytes n with
  | (none, r') => (none, r')
  | (some bs, r') =>
    let result := leValue bs
    (some (if r'.endianness = .networkByteOrder then netToHost n result else result), r')

/-- `ReadUInt8`. -/
def readUInt8 : Option UInt8 × DataReader := Read.map (fun bs => bs.headD 0) (readBytes · 1) r

/-- `ReadUInt16`. -/
def readUInt16 : Option UInt16 × DataReader := Read.map UInt16.ofNat (readUInt · 2) r

/-- `ReadUInt32`. -/
def readUInt32 : Option UInt32 × DataReader := Read.map UInt32.ofNat (readUInt · 4) r

/-- `ReadUInt64`. -/
def readUInt64 : Option UInt64 × DataReader := Read.map UInt64.ofNat (readUInt · 8) r

/-- Reading the low `numBytes` bytes of a 64-bit integer, the others being `0`. -/
def readBytesToUInt64 (numBytes : ℕ) : Option UInt64 × DataReader :=
  if numBytes > 8 then (none, r)
  else if r.endianness = .hostByteOrder then
    Read.map (fun bs => UInt64.ofNat (leValue (bs ++ List.replicate (8 - numBytes) 0)))
      (readBytes · numBytes) r
  else
    Read.map (fun bs =>
      UInt64.ofNat (netToHost 8 (leValue (List.replicate (8 - numBytes) 0 ++ bs))))
      (readBytes · numBytes) r

/-- `ReadVarInt62`, branch by branch on the first two bits. -/
def readVarInt62 : Option UInt64 × DataReader :=
  let remaining := r.bytesRemaining
  let next := r.byteAt
  if remaining ≠ 0 then
    if next 0 &&& 0xc0 = 0xc0 then
      if remaining ≥ 8 then
        (some ((((next 0).toUInt64 &&& 0x3f) <<< 56) + ((next 1).toUInt64 <<< 48)
          + ((next 2).toUInt64 <<< 40) + ((next 3).toUInt64 <<< 32)
          + ((next 4).toUInt64 <<< 24) + ((next 5).toUInt64 <<< 16)
          + ((next 6).toUInt64 <<< 8) + ((next 7).toUInt64 <<< 0)), r.advancePos 8)
      else (none, r)
    else if next 0 &&& 0xc0 = 0x80 then
      if remaining ≥ 4 then
        (some ((((next 0).toUInt64 &&& 0x3f) <<< 24) + ((next 1).toUInt64 <<< 16)
          + ((next 2).toUInt64 <<< 8) + ((next 3).toUInt64 <<< 0)), r.advancePos 4)
      else (none, r)
    else if next 0 &&& 0xc0 = 0x40 then
      if remaining ≥ 2 then
        (some ((((next 0).toUInt64 &&& 0x3f) <<< 8) + (next 1).toUInt64), r.advancePos 2)
      else (none, r)
    else (some ((next 0).toUInt64 &&& 0x3f), r.advancePos 1)
  else (none, r)

/-- The search of `readVarInt` for the last group, over the `remaining` bytes
    from `i` on: how many bytes it looked at, and whether it found it. -/
def varIntScan : ℕ → ℕ → ℕ → ℕ × Bool
  | 0, _, length => (length, false)
  | remaining + 1, i, length =>
    let length := length + 1
    if r.byteAt i &&& 128 = 0 then (length, true)
    else if length > 8 then (length, false)
    else varIntScan remaining (i + 1) length

/-- The value of the `count` groups from `i` on, the first having the weight
    `remainMulti`. -/
def varIntValue : ℕ → ℕ → UInt64 → UInt64 → UInt64
  | 0, _, remain, _ => remain
  | count + 1, i, remain, remainMulti =>
    varIntValue count (i + 1) (remain + (r.byteAt i &&& 127).toUInt64 * remainMulti)
      (remainMulti * 128)

/-- `ReadVarInt`. -/
def readVarInt : Option UInt64 × DataReader :=
  let (length, decodable) := r.varIntScan r.bytesRemaining 0 0
  if (length > 0 ∧ length ≤ 8) ∧ decodable then
    (some (r.varIntValue length 0 0 1), r.advancePos length)
  else (none, r)

end DataReader

end DashDim
