import DashDim.Lib.Bytes

/-!
# Writing messages

`DataWriter` lays out a message in a buffer of fixed capacity, value after
value. Its operations, as in `base/byte_codec.cc`:

* fixed-width integers, in network (big-endian) or host (little-endian) order;
* the low bytes of a 64-bit integer (`writeBytesToUInt64`);
* two variable-length encodings: `writeVarInt62`, of 1, 2, 4 or 8 bytes with
  the width in the top two bits of the first byte, and `writeVarInt`, of up to
  8 groups of 7 bits, lowest first;
* raw bytes.

An operation returns whether it succeeded, with the writer after it. A size is
a natural number: the sizes of the code are bounded by the buffers they are
about.
-/

namespace DashDim

/-- The byte orders of the codec: big endian, and that of the (little-endian)
    host. -/
inductive Endianness
  | networkByteOrder
  | hostByteOrder
  deriving DecidableEq, Repr

/-- A `w`-byte integer converted from host to network order. -/
def hostToNet (w n : ℕ) : ℕ := byteSwap w n

/-- A `w`-byte integer converted from network to host order. -/
def netToHost (w n : ℕ) : ℕ := hostToNet w n

/-- The bits a variable-length number of 62 bits has not. -/
def kVarInt62ErrorMask : UInt64 := 0xc000000000000000

/-- The bits only the form of eight bytes has. -/
def kVarInt62Mask8Bytes : UInt64 := 0x3fffffffc0000000

/-- The bits the form of four bytes has over that of two. -/
def kVarInt62Mask4Bytes : UInt64 := 0x000000003fffc000

/-- The bits the form of two bytes has over that of one. -/
def kVarInt62Mask2Bytes : UInt64 := 0x0000000000003fc0

/-- A message being written: the buffer, how much of it is written, and the
    byte order of its integers. -/
structure DataWriter where
  buffer : Bytes
  length : ℕ
  endianness : Endianness
  deriving Repr

namespace DataWriter

/-- A writer at the start of `buffer`. -/
def new (buffer : Bytes) (endianness : Endianness := .networkByteOrder) : DataWriter :=
  ⟨buffer, 0, endianness⟩

/-- The size of the encoding `writeVarInt62` gives `value`, `0` if it has none. -/
def getVarInt62Len (value : UInt64) : ℕ :=
  if value &&& kVarInt62ErrorMask ≠ 0 then 0
  else if value &&& kVarInt62Mask8Bytes ≠ 0 then 8
  else if value &&& kVarInt62Mask4Bytes ≠ 0 then 4
  else if value &&& kVarInt62Mask2Bytes ≠ 0 then 2
  else 1

/-- The size of the encoding `writeVarInt` gives `number`, `0` if it has none. -/
def getVarIntLen (number : UInt64) : ℕ :=
  if number ≤ 0x7f then 1
  else if number ≤ 0x3fff then 2
  else if number ≤ 0x1fffff then 3
  else if number ≤ 0xfffffff then 4
  else if number ≤ 0x7ffffffff then 5
  else if number ≤ 0x3ffffffffff then 6
  else if number ≤ 0x1ffffffffffff then 7
  else if number ≤ 0xffffffffffffff then 8
  else 0

variable (w : DataWriter)

/-- `capacity`. -/
def capacity : ℕ := w.buffer.length

/-- `remaining`. -/
def remaining : ℕ := w.capacity - w.length

/-- The bytes written so far. -/
def written : Bytes := w.buffer.take w.length

/-- Where a write of `length` bytes goes, if there is room for it. -/
def beginWrite (length : ℕ) : Option ℕ :=
  if w.length > w.capacity then none
  else if w.capacity - w.length < length then none
  else some w.length

/-- The writer after `bs` is stored at its position and counted in its length. -/
def put (bs : Bytes) : DataWriter :=
  { w with buffer := store w.buffer w.length bs, length := w.length + bs.length }

/-- `WriteBytes`. -/
def writeBytes (data : Bytes) : Bool × DataWriter :=
  match w.beginWrite data.length with
  | none => (false, w)
  | some dest =>
    (true, { w with buffer := store w.buffer dest data, length := w.length + data.length })

/-- Writing the `n`-byte integer `value` in the byte order of the writer: what
    the writes of 16, 32 and 64 bits have in common. -/
def writeUInt (n value : ℕ) : Bool × DataWriter :=
  let value := if w.endianness = .networkByteOrder then hostToNet n value else value
  w.writeBytes (leBytes n value)

/-- `WriteUInt8`. -/
def writeUInt8 (value : UInt8) : Bool × DataWriter := w.writeBytes [value]

/-- `WriteUInt16`. -/
def writeUInt16 (value : UInt16) : Bool × DataWriter := w.writeUInt 2 value.toNat

/-- `WriteUInt32`. -/
def writeUInt32 (value : UInt32) : Bool × DataWriter := w.writeUInt 4 value.toNat

/-- `WriteUInt64`. -/
def writeUInt64 (value : UInt64) : Bool × DataWriter := w.writeUInt 8 value.toNat

/-- Writing the low `numBytes` bytes of `value`: the first bytes of its image in
    host order, the last ones of its swapped image in network order. -/
def writeBytesToUInt64 (numBytes : ℕ) (value : UInt64) : Bool × DataWriter :=
  if numBytes > 8 then (false, w)
  else if w.endianness = .hostByteOrder then w.writeBytes ((leBytes 8 value.toNat).take numBytes)
  else
    let value := hostToNet 8 value.toNat
    w.writeBytes (((leBytes 8 value).drop (8 - numBytes)).take numBytes)

/-- `WriteVarInt62`, branch by branch on the masks. -/
def writeVarInt62 (value : UInt64) : Bool × DataWriter :=
  let remainingBytes := w.remaining
  if value &&& kVarInt62ErrorMask = 0 then
    if value &&& kVarInt62Mask8Bytes ≠ 0 then
      if remainingBytes ≥ 8 then
        (true, w.put [(((value >>> 56) &&& 0x3f) + 0xc0).toUInt8,
          ((value >>> 48) &&& 0xff).toUInt8, ((value >>> 40) &&& 0xff).toUInt8,
          ((value >>> 32) &&& 0xff).toUInt8, ((value >>> 24) &&& 0xff).toUInt8,
          ((value >>> 16) &&& 0xff).toUInt8, ((value >>> 8) &&& 0xff).toUInt8,
          (value &&& 0xff).toUInt8])
      else (false, w)
    else if value &&& kVarInt62Mask4Bytes ≠ 0 then
      if remainingBytes ≥ 4 then
        (true, w.put [(((value >>> 24) &&& 0x3f) + 0x80).toUInt8,
          ((value >>> 16) &&& 0xff).toUInt8, ((value >>> 8) &&& 0xff).toUInt8,
          (value &&& 0xff).toUInt8])
      else (false, w)
    else if value &&& kVarInt62Mask2Bytes ≠ 0 then
      if remainingBytes ≥ 2 then
        (true, w.put [(((value >>> 8) &&& 0x3f) + 0x40).toUInt8, (value &&& 0xff).toUInt8])
      else (false, w)
    else if remainingBytes ≥ 1 then (true, w.put [(value &&& 0x3f).toUInt8])
    else (false, w)
  else (false, w)

/-- The loop of `writeVarInt`, for a number of rounds: a group of 7 bits a byte,
    marked when more follow. It does not look at the results of the writes. -/
def writeVarIntLoop : ℕ → DataWriter → UInt64 → DataWriter
  | 0, w, _ => w
  | rounds + 1, w, next =>
    let first := (next % 128).toUInt8
    let next := next / 128
    let byte := if next > 0 then first ||| 128 else first
    let w := (w.writeUInt8 byte).2
    if next > 0 then writeVarIntLoop rounds w next else w

-- 64 bits are at most ten groups: the loop ends by itself

/-- `WriteVarInt`. -/
def writeVarInt (value : UInt64) : Bool × DataWriter :=
  let need := getVarIntLen value
  if 0 = need ∨ need > w.remaining then (false, w)
  else (true, writeVarIntLoop 10 w value)

/-- Skipping `length` bytes of the buffer. -/
def seek (length : ℕ) : Bool × DataWriter :=
  match w.beginWrite length with
  | none => (false, w)
  | some _ => (true, { w with length := w.length + length })

end DataWriter

/-- Writes joined by `&&`: the first that fails ends the chain. -/
def writeAll : List (DataWriter → Bool × DataWriter) → DataWriter → Bool × DataWriter
  | [], w => (true, w)
  | f :: fs, w =>
    match f w with
    | (true, w') => writeAll fs w'
    | (false, w') => (false, w')

end DashDim
