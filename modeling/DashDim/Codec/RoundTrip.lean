import DashDim.Codec.VarInt

/-!
# Messages round trip

A message is a sequence of writes (`Write`), each with a read that corresponds to
it (`Write.readBack`). In any byte order:

* `Write.run_eq`: a write puts an image of its value in the buffer, if there is
  room for it, and otherwise changes nothing;
* `Write.readBack_eq`: the read that corresponds to a write takes the image off
  what is unread, and returns the value;
* `codec_round_trip`: what a sequence of writes wrote is read back by the reads
  that correspond, whatever follows it;
* `Read.Takes.andThen`, `Read.Advances.andThen`: what reads that are chained take.
-/

namespace DashDim

/-- The writes of a `DataWriter`, with the values they write. -/
inductive Write
  | uInt8 (value : UInt8)
  | uInt16 (value : UInt16)
  | uInt32 (value : UInt32)
  | uInt64 (value : UInt64)
  | bytesToUInt64 (numBytes : ℕ) (value : UInt64)
  | varInt62 (value : UInt64)
  | varInt (value : UInt64)
  | bytes (data : Bytes)
  deriving DecidableEq, Repr

/-- Reads one after the other, up to the first that fails. -/
def readAll {α : Type} : List (Read α) → Read (List α)
  | [] => fun r => (some [], r)
  | f :: fs => Read.andThen f fun a => Read.map (a :: ·) (readAll fs)

/-- The bytes of an `n`-byte integer in a byte order. -/
def uIntImage (e : Endianness) (n value : ℕ) : Bytes :=
  if e = .networkByteOrder then (leBytes n value).reverse else leBytes n value

@[simp] theorem uIntImage_length (e : Endianness) (n value : ℕ) :
    (uIntImage e n value).length = n := by
  rw [uIntImage]
  split_ifs <;> simp

namespace Write

/-- The operation of the writer. -/
def run : Write → DataWriter → Bool × DataWriter
  | uInt8 v => (DataWriter.writeUInt8 · v)
  | uInt16 v => (DataWriter.writeUInt16 · v)
  | uInt32 v => (DataWriter.writeUInt32 · v)
  | uInt64 v => (DataWriter.writeUInt64 · v)
  | bytesToUInt64 n v => (DataWriter.writeBytesToUInt64 · n v)
  | varInt62 v => (DataWriter.writeVarInt62 · v)
  | varInt v => (DataWriter.writeVarInt · v)
  | bytes data => (DataWriter.writeBytes · data)

/-- The operation of the reader that corresponds. It gives the write of the value
    it read. -/
def readBack : Write → Read Write
  | uInt8 _ => Read.map uInt8 DataReader.readUInt8
  | uInt16 _ => Read.map uInt16 DataReader.readUInt16
  | uInt32 _ => Read.map uInt32 DataReader.readUInt32
  | uInt64 _ => Read.map uInt64 DataReader.readUInt64
  | bytesToUInt64 n _ => Read.map (bytesToUInt64 n) (DataReader.readBytesToUInt64 · n)
  | varInt62 _ => Read.map varInt62 DataReader.readVarInt62
  | varInt _ => Read.map varInt DataReader.readVarInt
  | bytes data => Read.map bytes (DataReader.readBytes · data.length)

/-- What callers keep to: a 62-bit integer is only written in network order, a
    value written in some bytes fits in them, and a size is a 32-bit integer. -/
def Admissible (e : Endianness) : Write → Prop
  | bytesToUInt64 n v => n ≤ 8 ∧ v.toNat < 2 ^ (8 * n)
  | varInt62 _ => e = .networkByteOrder
  | bytes data => data.length < 2 ^ 32
  | _ => True

instance (e : Endianness) : DecidablePred (Admissible e)
  | uInt8 _ => isTrue trivial
  | uInt16 _ => isTrue trivial
  | uInt32 _ => isTrue trivial
  | uInt64 _ => isTrue trivial
  | bytesToUInt64 n v => inferInstanceAs (Decidable (n ≤ 8 ∧ v.toNat < 2 ^ (8 * n)))
  | varInt62 _ => inferInstanceAs (Decidable (e = .networkByteOrder))
  | varInt _ => isTrue trivial
  | bytes data => inferInstanceAs (Decidable (data.length < 2 ^ 32))

/-- The values that have an encoding. -/
def Encodable : Write → Prop
  | bytesToUInt64 n _ => n ≤ 8
  | varInt62 v => v.toNat < 2 ^ 62
  | varInt v => v.toNat < 2 ^ 56
  | _ => True

/-- The bytes a write puts in the buffer. -/
def image (e : Endianness) : Write → Bytes
  | uInt8 v => [v]
  | uInt16 v => uIntImage e 2 v.toNat
  | uInt32 v => uIntImage e 4 v.toNat
  | uInt64 v => uIntImage e 8 v.toNat
  | bytesToUInt64 n v => uIntImage e n v.toNat
  | varInt62 v => varInt62Bytes v.toNat
  | varInt v => varIntBytes 10 v.toNat
  | bytes data => data

end Write

/-! ## Writing -/

namespace DataWriter

theorem writeUInt_eq {w : DataWriter} (h : w.length ≤ w.capacity) (n value : ℕ) :
    w.writeUInt n value =
      if n ≤ w.remaining then (true, w.put (uIntImage w.endianness n value)) else (false, w) := by
  rw [writeUInt]
  by_cases he : w.endianness = .networkByteOrder
  · simp only [he, if_true, hostToNet, leBytes_byteSwap]
    rw [writeBytes_eq h, List.length_reverse, leBytes_length, uIntImage, if_pos rfl]
  · simp only [he, if_false]
    rw [writeBytes_eq h, leBytes_length, uIntImage, if_neg he]

/-- The first bytes of an image are the image in fewer bytes. -/
theorem take_leBytes {k n : ℕ} (h : k ≤ n) (value : ℕ) :
    (leBytes n value).take k = leBytes k value := by
  induction k generalizing n value with
  | zero => rw [List.take_zero, leBytes]
  | succ k ih =>
    obtain ⟨m, rfl⟩ : ∃ m, n = m + 1 := ⟨n - 1, by omega⟩
    rw [leBytes, List.take_succ_cons, leBytes, ih (by omega)]

theorem writeBytesToUInt64_eq {w : DataWriter} (h : w.length ≤ w.capacity) (n : ℕ) (v : UInt64) :
    w.writeBytesToUInt64 n v = if n ≤ 8 ∧ n ≤ w.remaining then
      (true, w.put (uIntImage w.endianness n v.toNat)) else (false, w) := by
  rw [writeBytesToUInt64]
  by_cases hn : n ≤ 8
  swap
  · rw [if_pos (by omega), if_neg (by tauto)]
  rw [if_neg (by omega)]
  cases he : w.endianness with
  | hostByteOrder =>
    rw [if_pos rfl, take_leBytes hn, writeBytes_eq h, leBytes_length]
    simp only [hn, true_and]
    rfl
  | networkByteOrder =>
    have himage : (((leBytes 8 (hostToNet 8 v.toNat)).drop (8 - n)).take n) =
        (leBytes n v.toNat).reverse := by
      rw [hostToNet, leBytes_byteSwap, List.drop_reverse, leBytes_length,
        show 8 - (8 - n) = n by omega, take_leBytes hn, List.take_of_length_le (by simp)]
    rw [if_neg (by decide)]
    simp only [himage, hn, true_and]
    rw [writeBytes_eq h, List.length_reverse, leBytes_length]
    rfl

end DataWriter

/-- A write puts the image of its value, if it has one and there is room for it,
    and otherwise does nothing. -/
theorem Write.run_eq (op : Write) {w : DataWriter} (h : w.length ≤ w.capacity) :
    (op.Encodable ∧ (op.image w.endianness).length ≤ w.remaining ∧
      op.run w = (true, w.put (op.image w.endianness))) ∨ op.run w = (false, w) := by
  have key : ∀ (p : Prop) [Decidable p] (bs : Bytes), (p → op.Encodable ∧
      (op.image w.endianness).length ≤ w.remaining) → bs = op.image w.endianness →
      op.run w = (if p then (true, w.put bs) else (false, w)) →
      (op.Encodable ∧ (op.image w.endianness).length ≤ w.remaining ∧
        op.run w = (true, w.put (op.image w.endianness))) ∨ op.run w = (false, w) := by
    intro p _ bs hp hbs hrun
    by_cases hc : p
    · rw [if_pos hc, hbs] at hrun
      exact .inl ⟨(hp hc).1, (hp hc).2, hrun⟩
    · rw [if_neg hc] at hrun
      exact .inr hrun
  cases op with
  | uInt8 v => exact key _ _ (⟨trivial, ·⟩) rfl (DataWriter.writeBytes_eq h _)
  | uInt16 v =>
    exact key _ _ (⟨trivial, by simpa [image] using ·⟩) rfl (DataWriter.writeUInt_eq h _ _)
  | uInt32 v =>
    exact key _ _ (⟨trivial, by simpa [image] using ·⟩) rfl (DataWriter.writeUInt_eq h _ _)
  | uInt64 v =>
    exact key _ _ (⟨trivial, by simpa [image] using ·⟩) rfl (DataWriter.writeUInt_eq h _ _)
  | bytesToUInt64 n v =>
    exact key _ _ (fun hp => ⟨hp.1, by simpa [image] using hp.2⟩) rfl
      (DataWriter.writeBytesToUInt64_eq h _ _)
  | varInt62 v =>
    exact key _ _ (fun hp => ⟨hp.1, by simpa [image] using hp.2⟩) rfl
      (DataWriter.writeVarInt62_eq w v)
  | varInt v =>
    exact key _ _ (fun hp => ⟨hp.1, hp.2⟩) rfl (DataWriter.writeVarInt_eq w v)
  | bytes data => exact key _ _ (⟨trivial, ·⟩) rfl (DataWriter.writeBytes_eq h _)

/-- What a writer has written after more bytes are put. -/
theorem DataWriter.written_put {w : DataWriter} (h : w.length ≤ w.capacity) (bs : Bytes) :
    (w.put bs).written = w.written ++ bs := take_store h

/-- Writes that all succeed append their images to what is written, within the
    capacity. -/
theorem writeAll_eq {ops : List Write} {w w' : DataWriter} (h : w.length ≤ w.capacity)
    (hw : writeAll (ops.map Write.run) w = (true, w')) :
    w'.written = w.written ++ ops.flatMap (Write.image w.endianness) ∧
      w'.length = w.length + (ops.flatMap (Write.image w.endianness)).length ∧
      w'.length ≤ w.capacity ∧ w'.capacity = w.capacity ∧ ∀ op ∈ ops, op.Encodable := by
  induction ops generalizing w with
  | nil =>
    cases hw
    simp [h]
  | cons op ops ih =>
    rw [List.map_cons, writeAll] at hw
    rcases op.run_eq h with ⟨henc, hroom, hrun⟩ | hrun
    · have hroom' : w.length + (op.image w.endianness).length ≤ w.capacity := by
        rw [DataWriter.remaining] at hroom
        omega
      rw [hrun] at hw
      obtain ⟨hwr, hlen, hle, hcap, hall⟩ :=
        ih (by rw [DataWriter.put_capacity hroom', DataWriter.put_length]; exact hroom') hw
      rw [DataWriter.put_endianness] at hwr hlen
      rw [DataWriter.put_capacity hroom'] at hle hcap
      rw [DataWriter.written_put h] at hwr
      rw [DataWriter.put_length] at hlen
      refine ⟨?_, ?_, hle, hcap, ?_⟩
      · rw [hwr, List.flatMap_cons, List.append_assoc]
      · rw [hlen, List.flatMap_cons, List.length_append, Nat.add_assoc]
      · exact List.forall_mem_cons.2 ⟨henc, hall⟩
    · rw [hrun] at hw
      cases hw

/-- Writes that all succeed, followed by others. -/
theorem writeAll_append {fs : List (DataWriter → Bool × DataWriter)}
    (gs : List (DataWriter → Bool × DataWriter)) {w w' : DataWriter}
    (h : writeAll fs w = (true, w')) : writeAll (fs ++ gs) w = writeAll gs w' := by
  induction fs generalizing w with
  | nil =>
    cases h
    rfl
  | cons f fs ih =>
    rw [writeAll] at h
    rw [List.cons_append, writeAll]
    generalize f w = res at h ⊢
    obtain ⟨ok, w₁⟩ := res
    cases ok with
    | true => exact ih h
    | false => cases h

/-- Writes into a buffer that all succeed write their images, and no more. -/
theorem writeAll_new {e : Endianness} {buffer : Bytes} {ops : List Write} {w : DataWriter}
    (h : writeAll (ops.map Write.run) (DataWriter.new buffer e) = (true, w)) :
    w.written = ops.flatMap (Write.image e) ∧
      w.length = (ops.flatMap (Write.image e)).length ∧ w.length ≤ buffer.length ∧
      ∀ op ∈ ops, op.Encodable := by
  obtain ⟨hwr, hlen, hle, -, henc⟩ := writeAll_eq (Nat.zero_le _) h
  refine ⟨?_, ?_, hle, henc⟩
  · rw [hwr, DataWriter.written, DataWriter.new, List.take_zero, List.nil_append]
  · rw [hlen, DataWriter.new, Nat.zero_add]

/-- Writes that have an encoding, and room for it, all succeed, and keep the
    capacity. -/
theorem writeAll_of_room (ops : List Write) {w : DataWriter} (h : w.length ≤ w.capacity)
    (hrun : ∀ op ∈ ops, ∀ w' : DataWriter, w'.length ≤ w'.capacity →
      w'.endianness = w.endianness → (op.image w.endianness).length ≤ w'.remaining →
      op.run w' = (true, w'.put (op.image w.endianness)))
    (hroom : (ops.flatMap (Write.image w.endianness)).length ≤ w.remaining) :
    ∃ w', writeAll (ops.map Write.run) w = (true, w') ∧ w'.capacity = w.capacity := by
  induction ops generalizing w with
  | nil => exact ⟨w, rfl, rfl⟩
  | cons op ops ih =>
    rw [List.flatMap_cons, List.length_append, DataWriter.remaining] at hroom
    have hput := hrun op (by simp) w h rfl (by rw [DataWriter.remaining]; omega)
    have hcap : (w.put (op.image w.endianness)).capacity = w.capacity :=
      DataWriter.put_capacity (by omega)
    obtain ⟨w', hw', hcap'⟩ := ih (w := w.put (op.image w.endianness))
      (by rw [hcap, DataWriter.put_length]; omega)
      (fun o ho => hrun o (by simp [ho]))
      (by rw [DataWriter.remaining, hcap, DataWriter.put_length, DataWriter.put_endianness]; omega)
    refine ⟨w', ?_, hcap'.trans hcap⟩
    rw [List.map_cons, writeAll, hput]
    exact hw'

/-- The writes of a fixed layout: integers and bytes. -/
def Write.Fixed : Write → Prop
  | uInt8 _ | uInt16 _ | uInt32 _ | uInt64 _ | bytes _ => True
  | _ => False

theorem Write.Fixed.run_eq {op : Write} (hop : op.Fixed) {w : DataWriter}
    (h : w.length ≤ w.capacity) (hroom : (op.image w.endianness).length ≤ w.remaining) :
    op.run w = (true, w.put (op.image w.endianness)) := by
  cases op with
  | uInt8 v => exact (DataWriter.writeBytes_eq h _).trans (if_pos hroom)
  | uInt16 v =>
    exact (DataWriter.writeUInt_eq h _ _).trans (if_pos (by simpa [image] using hroom))
  | uInt32 v =>
    exact (DataWriter.writeUInt_eq h _ _).trans (if_pos (by simpa [image] using hroom))
  | uInt64 v =>
    exact (DataWriter.writeUInt_eq h _ _).trans (if_pos (by simpa [image] using hroom))
  | bytes data => exact (DataWriter.writeBytes_eq h _).trans (if_pos hroom)
  | bytesToUInt64 n v => exact hop.elim
  | varInt62 v => exact hop.elim
  | varInt v => exact hop.elim

/-- A message of a fixed layout is written, if there is room for it. -/
theorem written_of_fixed {e : Endianness} {buffer : Bytes} {ops : List Write}
    (hops : ∀ op ∈ ops, op.Fixed)
    (hroom : (ops.flatMap (Write.image e)).length ≤ buffer.length) :
    ∃ w, writeAll (ops.map Write.run) (DataWriter.new buffer e) = (true, w) ∧
      w.written = ops.flatMap (Write.image e) ∧
      w.length = (ops.flatMap (Write.image e)).length := by
  obtain ⟨w, hw, -⟩ := writeAll_of_room ops (w := DataWriter.new buffer e) (Nat.zero_le _)
    (fun op hop w' hw' he hle => by
      rw [← he] at hle ⊢
      exact (hops op hop).run_eq hw' hle) hroom
  obtain ⟨hwritten, hlength, -⟩ := writeAll_new hw
  exact ⟨w, hw, hwritten, hlength⟩

/-! ## Reading -/

namespace DataReader

/-- A reader whose message is within its buffer. -/
abbrev WellFormed (r : DataReader) : Prop := r.len ≤ r.data.length

theorem wellFormed_new (data : Bytes) (e : Endianness) : (DataReader.new data e).WellFormed :=
  le_rfl

/-- Nothing of a buffer is read yet. -/
theorem unread_new (data : Bytes) (e : Endianness) : (DataReader.new data e).unread = data := by
  rw [unread, new, List.take_length, List.drop_zero]

@[simp] theorem advancePos_advancePos (r : DataReader) (a b : ℕ) :
    (r.advancePos a).advancePos b = r.advancePos (a + b) := by
  simp [advancePos, Nat.add_assoc]

theorem unread_advancePos (r : DataReader) (k : ℕ) :
    (r.advancePos k).unread = r.unread.drop k := by
  rw [unread, unread, advancePos, List.drop_drop]

/-- Reading the bytes at the start of what is unread. -/
theorem readBytes_of_unread {r : DataReader} (h : r.WellFormed) {bs rest : Bytes}
    (hu : r.unread = bs ++ rest) {n : ℕ} (hn : bs.length = n) (hlt : n < 2 ^ 32) :
    r.readBytes n = (some bs, r.advancePos n) := by
  have hrem : n ≤ r.len - r.pos := by
    have hlen := unread_length h
    rw [hu, List.length_append, bytesRemaining] at hlen
    omega
  have htake : (r.data.drop r.pos).take n = bs := by
    have hu' : (r.unread).take n = bs := by rw [hu, ← hn, List.take_left]
    rw [← hu', unread, List.drop_take, List.take_take, Nat.min_eq_left hrem]
  simp only [readBytes, Nat.mod_eq_of_lt hlt, canRead, decide_eq_true hrem, if_true, htake]

/-- Reading an integer at the start of what is unread. -/
theorem readUInt_of_unread {r : DataReader} (h : r.WellFormed) {n value : ℕ}
    (hv : value < 256 ^ n) (hlt : n < 2 ^ 32) {rest : Bytes}
    (hu : r.unread = uIntImage r.endianness n value ++ rest) :
    r.readUInt n = (some value, r.advancePos n) := by
  rw [readUInt, readBytes_of_unread h hu (uIntImage_length ..) hlt]
  have he : (r.advancePos n).endianness = r.endianness := rfl
  simp only [he]
  congr 2
  by_cases hnet : r.endianness = .networkByteOrder
  · rw [if_pos hnet, uIntImage, if_pos hnet]
    exact byteSwap_byteSwap hv
  · rw [if_neg hnet, uIntImage, if_neg hnet]
    exact leValue_leBytes_of_lt hv

/-- Reading the low bytes of an integer at the start of what is unread. -/
theorem readBytesToUInt64_of_unread {r : DataReader} (h : r.WellFormed) {n : ℕ} {v : UInt64}
    (hn : n ≤ 8) (hv : v.toNat < 256 ^ n) {rest : Bytes}
    (hu : r.unread = uIntImage r.endianness n v.toNat ++ rest) :
    r.readBytesToUInt64 n = (some v, r.advancePos n) := by
  have hread := readBytes_of_unread h hu (uIntImage_length ..)
    (show n < 2 ^ 32 by omega)
  rw [readBytesToUInt64, if_neg (by omega)]
  by_cases hhost : r.endianness = .hostByteOrder
  · rw [if_pos hhost, Read.map, hread, uIntImage, hhost, if_neg (by decide)]
    simp only [Option.map_some, leValue_append_zeros, leValue_leBytes_of_lt hv,
      UInt64.ofNat_toNat]
  · have hnet : r.endianness = .networkByteOrder := by
      cases he : r.endianness with
      | networkByteOrder => rfl
      | hostByteOrder => exact absurd he hhost
    -- swapping all 8 bytes moves the zeros to the top
    have hswap : netToHost 8 (leValue (List.replicate (8 - n) 0 ++ (leBytes n v.toNat).reverse)) =
        v.toNat := by
      have hlen : (List.replicate (8 - n) 0 ++ (leBytes n v.toNat).reverse).length = 8 := by
        simp
        omega
      have himage := leBytes_leValue (List.replicate (8 - n) 0 ++ (leBytes n v.toNat).reverse)
      rw [hlen] at himage
      rw [netToHost, hostToNet, byteSwap, himage, List.reverse_append, List.reverse_reverse,
        List.reverse_replicate, leValue_append_zeros, leValue_leBytes_of_lt hv]
    rw [if_neg hhost, Read.map, hread, uIntImage, if_pos hnet]
    simp only [Option.map_some, hswap, UInt64.ofNat_toNat]

theorem readVarInt62_of_unread {r : DataReader} (h : r.WellFormed) {v : UInt64}
    (hv : v.toNat < 2 ^ 62) {rest : Bytes} (hu : r.unread = varInt62Bytes v.toNat ++ rest) :
    r.readVarInt62 = (some v, r.advancePos (varInt62Bytes v.toNat).length) := by
  rw [readVarInt62_eq h, hu, varInt62Of_bytes hv]
  simp

end DataReader

/-- The read that corresponds to a write returns its value, and takes its image
    off what is unread. -/
theorem Write.readBack_eq {op : Write} {r : DataReader} (h : r.WellFormed)
    (henc : op.Encodable) (hadm : op.Admissible r.endianness) {rest : Bytes}
    (hu : r.unread = op.image r.endianness ++ rest) :
    op.readBack r = (some op, r.advancePos (op.image r.endianness).length) := by
  cases op with
  | uInt8 v =>
    rw [readBack, Read.map, DataReader.readUInt8, Read.map,
      DataReader.readBytes_of_unread (n := 1) h hu rfl (by decide)]
    rfl
  | uInt16 v =>
    rw [readBack, Read.map, DataReader.readUInt16, Read.map,
      DataReader.readUInt_of_unread h v.toNat_lt (by decide) hu]
    simp [image]
  | uInt32 v =>
    rw [readBack, Read.map, DataReader.readUInt32, Read.map,
      DataReader.readUInt_of_unread h v.toNat_lt (by decide) hu]
    simp [image]
  | uInt64 v =>
    rw [readBack, Read.map, DataReader.readUInt64, Read.map,
      DataReader.readUInt_of_unread h v.toNat_lt (by decide) hu]
    simp [image]
  | bytesToUInt64 n v =>
    have hv : v.toNat < 256 ^ n := by
      have hpow : (2 : ℕ) ^ (8 * n) = 256 ^ n := by rw [pow_mul]; norm_num
      rw [← hpow]
      exact hadm.2
    rw [readBack, Read.map, DataReader.readBytesToUInt64_of_unread h hadm.1 hv hu]
    simp [image]
  | varInt62 v =>
    rw [readBack, Read.map, DataReader.readVarInt62_of_unread h henc hu]
    rfl
  | varInt v =>
    rw [readBack, Read.map, DataReader.readVarInt_of_unread h henc hu]
    simp [image]
  | bytes data =>
    have hdata : r.unread = data ++ rest := hu
    rw [readBack, Read.map, DataReader.readBytes_of_unread h hdata rfl hadm]
    rfl

/-- The reads that correspond to writes return their values, and take their images
    off what is unread. -/
theorem readAll_eq {ops : List Write} {r : DataReader} (h : r.WellFormed)
    (henc : ∀ op ∈ ops, op.Encodable) (hadm : ∀ op ∈ ops, op.Admissible r.endianness)
    {rest : Bytes} (hu : r.unread = ops.flatMap (Write.image r.endianness) ++ rest) :
    readAll (ops.map Write.readBack) r =
      (some ops, r.advancePos (ops.flatMap (Write.image r.endianness)).length) := by
  induction ops generalizing r with
  | nil => rfl
  | cons op ops ih =>
    rw [List.flatMap_cons, List.append_assoc] at hu
    have hop := Write.readBack_eq h (henc op (by simp)) (hadm op (by simp)) hu
    have hrest := ih (r := r.advancePos (op.image r.endianness).length) h
      (fun o ho => henc o (by simp [ho])) (fun o ho => hadm o (by simp [ho]))
      (by rw [DataReader.unread_advancePos, hu, List.drop_left]; rfl)
    have he : (r.advancePos (op.image r.endianness).length).endianness = r.endianness := rfl
    simp only [List.map_cons, readAll, Read.andThen, hop, Read.map, hrest, he, Option.map_some,
      List.flatMap_cons, List.length_append, DataReader.advancePos_advancePos]

/-! ## Reads by their size -/

namespace Read

variable {α β : Type}

/-- The read returns `a`, and takes `bs` off what is unread, in network order. -/
def Takes (f : Read α) (bs : Bytes) (a : α) : Prop :=
  ∀ (r : DataReader) (rest : Bytes), r.WellFormed → r.endianness = .networkByteOrder →
    r.unread = bs ++ rest → f r = (some a, r.advancePos bs.length)

/-- The read takes so many bytes, if it succeeds. -/
def Advances (f : Read α) (n : ℕ) : Prop :=
  ∀ (r : DataReader) (a : α) (r' : DataReader), f r = (some a, r') →
    r' = r.advancePos n ∧ n ≤ r.bytesRemaining

/-- A reader that is new reads what its buffer starts with. -/
theorem Takes.new {f : Read α} {bs : Bytes} {a : α} (hf : f.Takes bs a) {data rest : Bytes}
    (h : data = bs ++ rest) :
    f (DataReader.new data) = (some a, (DataReader.new data).advancePos bs.length) :=
  hf _ rest (DataReader.wellFormed_new _ _) rfl ((DataReader.unread_new data _).trans h)

theorem Takes.andThen {f : Read α} {g : α → Read β} {bs cs : Bytes} {a : α} {b : β}
    (hf : f.Takes bs a) (hg : (g a).Takes cs b) : (Read.andThen f g).Takes (bs ++ cs) b := by
  intro r rest h he hu
  rw [List.append_assoc] at hu
  have hunread : (r.advancePos bs.length).unread = cs ++ rest := by
    rw [DataReader.unread_advancePos, hu, List.drop_left]
  rw [Read.andThen, hf r _ h he hu]
  dsimp only
  rw [hg (r.advancePos bs.length) rest h he hunread, DataReader.advancePos_advancePos,
    List.length_append]

theorem Takes.map {f : Read α} {bs : Bytes} {a : α} (hf : f.Takes bs a) (g : α → β) :
    (Read.map g f).Takes bs (g a) := by
  intro r rest h he hu
  rw [Read.map, hf r rest h he hu]
  rfl

theorem Advances.andThen {f : Read α} {g : α → Read β} {n m : ℕ} (hf : f.Advances n)
    (hg : ∀ a, (g a).Advances m) : (Read.andThen f g).Advances (n + m) := by
  intro r b r' hread
  rw [Read.andThen] at hread
  split at hread
  · next a r₁ hfirst =>
    obtain ⟨rfl, hn⟩ := hf r a r₁ hfirst
    obtain ⟨rfl, hm⟩ := hg a _ b r' hread
    refine ⟨DataReader.advancePos_advancePos .., ?_⟩
    rw [DataReader.bytesRemaining, DataReader.advancePos] at hm
    rw [DataReader.bytesRemaining] at hn ⊢
    dsimp only at hm
    omega
  · cases hread

theorem Advances.map {f : Read α} {n : ℕ} (hf : f.Advances n) (g : α → β) :
    (Read.map g f).Advances n := by
  intro r b r' hread
  cases hfirst : f r with
  | mk value r₁ =>
    rw [Read.map, hfirst] at hread
    cases value with
    | none => cases hread
    | some a =>
      cases hread
      exact hf r a r₁ hfirst

end Read

namespace DataReader

theorem readUInt8_takes (v : UInt8) : Read.Takes readUInt8 [v] v := by
  intro r rest h _ hu
  rw [readUInt8, Read.map, readBytes_of_unread (n := 1) h hu rfl (by decide)]
  rfl

theorem readUInt16_takes (v : UInt16) :
    Read.Takes readUInt16 (uIntImage .networkByteOrder 2 v.toNat) v := by
  intro r rest h he hu
  rw [← he] at hu ⊢
  rw [readUInt16, Read.map, readUInt_of_unread h v.toNat_lt (by decide) hu]
  simp

theorem readUInt32_takes (v : UInt32) :
    Read.Takes readUInt32 (uIntImage .networkByteOrder 4 v.toNat) v := by
  intro r rest h he hu
  rw [← he] at hu ⊢
  rw [readUInt32, Read.map, readUInt_of_unread h v.toNat_lt (by decide) hu]
  simp

theorem readBytes_advances {n : ℕ} (hn : n < 2 ^ 32) : Read.Advances (readBytes · n) n := by
  intro r a r' hread
  simp only [readBytes, Nat.mod_eq_of_lt hn, canRead, decide_eq_true_eq] at hread
  split_ifs at hread with hroom
  · cases hread
    exact ⟨rfl, hroom⟩
  · cases hread

theorem readUInt_advances {n : ℕ} (hn : n < 2 ^ 32) : Read.Advances (readUInt · n) n := by
  intro r a r' hread
  simp only [readUInt] at hread
  split at hread
  · cases hread
  · next bs r₁ hbytes =>
    cases hread
    exact readBytes_advances hn r bs _ hbytes

end DataReader

/-! ## The round trip -/

/-- What a sequence of writes wrote is read back by the reads that correspond, up
    to the length of the message and whatever follows it. Of the variable-length
    writes, the one takes the numbers below `2 ^ 62` and the other those below
    `2 ^ 56`, both for as many bytes as the length calculators tell, and a write
    that fails leaves the length as it was. -/
theorem codec_round_trip (e : Endianness) :
    (∀ (buffer tail : Bytes) (ops : List Write) (w : DataWriter),
      (∀ op ∈ ops, op.Admissible e) →
      writeAll (ops.map Write.run) (DataWriter.new buffer e) = (true, w) →
      readAll (ops.map Write.readBack) (DataReader.new (w.written ++ tail) e) =
        (some ops, { DataReader.new (w.written ++ tail) e with pos := w.length })) ∧
    ∀ w : DataWriter, w.length ≤ w.capacity → w.endianness = e →
      (∀ v, ((w.writeVarInt62 v).1 = true ↔
          v.toNat < 2 ^ 62 ∧ DataWriter.getVarInt62Len v ≤ w.remaining) ∧
        ((w.writeVarInt62 v).1 = true →
          (w.writeVarInt62 v).2.length = w.length + DataWriter.getVarInt62Len v)) ∧
      (∀ v, ((w.writeVarInt v).1 = true ↔
          v.toNat < 2 ^ 56 ∧ DataWriter.getVarIntLen v ≤ w.remaining) ∧
        ((w.writeVarInt v).1 = true →
          (w.writeVarInt v).2.length = w.length + DataWriter.getVarIntLen v)) ∧
      ∀ op : Write, (op.run w).1 = false → (op.run w).2.length = w.length := by
  refine ⟨?_, fun w h _ => ⟨fun v => ?_, fun v => ?_, fun op hop => ?_⟩⟩
  · intro buffer tail ops w hadm hw
    obtain ⟨hwr, hlen, _, _, henc⟩ := writeAll_eq (Nat.zero_le _) hw
    have hu : (DataReader.new (w.written ++ tail) e).unread =
        ops.flatMap (Write.image e) ++ tail := by
      rw [DataReader.unread_new, hwr]
      rfl
    have hread := readAll_eq (r := DataReader.new (w.written ++ tail) e) le_rfl henc hadm hu
    rw [hread, hlen]
    rfl
  · rw [DataWriter.writeVarInt62_eq]
    by_cases hv : v.toNat < 2 ^ 62
    · rw [DataWriter.getVarInt62Len_eq hv]
      split_ifs with hc
      · exact ⟨⟨fun _ => hc, fun _ => rfl⟩, fun _ => by
          rw [DataWriter.put_length, varInt62Bytes_length]⟩
      · exact ⟨⟨False.elim, fun h => absurd h hc⟩, False.elim⟩
    · -- a value out of range is refused, whatever room there is
      rw [if_neg (by tauto)]
      exact ⟨⟨fun h => absurd h Bool.false_ne_true, fun h => absurd h.1 hv⟩,
        fun h => absurd h Bool.false_ne_true⟩
  · rw [DataWriter.writeVarInt_eq, DataWriter.getVarIntLen_eq]
    by_cases hv : v.toNat < 2 ^ 56
    · rw [if_pos hv]
      split_ifs with hc
      · exact ⟨⟨fun _ => hc, fun _ => rfl⟩, fun _ => DataWriter.put_length ..⟩
      · exact ⟨⟨False.elim, fun h => absurd h hc⟩, False.elim⟩
    · rw [if_neg (by tauto), if_neg hv]
      exact ⟨⟨fun h => absurd h Bool.false_ne_true, fun h => absurd h.1 hv⟩,
        fun h => absurd h Bool.false_ne_true⟩
  · -- a write has put its whole image or nothing
    rcases op.run_eq h with ⟨_, _, hrun⟩ | hrun
    · rw [hrun] at hop
      cases hop
    · rw [hrun]

/-- A message of every kind of value, in network order. -/
theorem codec_round_trip_message :
    readAll ([Write.uInt8 7, .uInt16 0x1234, .bytesToUInt64 3 0xabcdef, .varInt62 0x4321,
        .varInt 300, .bytes [1, 2, 3]].map Write.readBack)
      (DataReader.new ([7, 0x12, 0x34, 0xab, 0xcd, 0xef, 0x80, 0, 0x43, 0x21, 0xac, 2, 1, 2, 3] ++
        [9, 9])) =
      (some [.uInt8 7, .uInt16 0x1234, .bytesToUInt64 3 0xabcdef, .varInt62 0x4321,
        .varInt 300, .bytes [1, 2, 3]],
        { DataReader.new
            ([7, 0x12, 0x34, 0xab, 0xcd, 0xef, 0x80, 0, 0x43, 0x21, 0xac, 2, 1, 2, 3] ++
              [9, 9]) with pos := 15 }) :=
  (codec_round_trip .networkByteOrder).1 (List.replicate 16 0) [9, 9]
    [.uInt8 7, .uInt16 0x1234, .bytesToUInt64 3 0xabcdef, .varInt62 0x4321, .varInt 300,
      .bytes [1, 2, 3]]
    ⟨[7, 0x12, 0x34, 0xab, 0xcd, 0xef, 0x80, 0, 0x43, 0x21, 0xac, 2, 1, 2, 3, 0], 15,
      .networkByteOrder⟩ (by decide) (by rfl)

end DashDim
