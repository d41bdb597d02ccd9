import DashDim.Codec.Bounds

/-!
# The codec without memory

As no cursor wraps around, a reader on memory does what the `DataReader` over natural numbers
does that has the bytes of the buffer, and a writer what the `DataWriter` does. What is known of
these holds of the code as it runs.

* `RawReader.run_exact`, `RawWriter.run_exact`: one operation;
* `RawReader.runAll_exact`, `RawWriter.runAll_exact`: the state after any operations.
-/

namespace DashDim

/-! ## Memory -/

namespace Memory

theorem load_value (data : Memory) (pos : UInt64) (n : ℕ) :
    (data.load pos n).value = data.bytes pos n := by
  induction n generalizing pos with
  | zero => rfl
  | succ n ih => rw [load, Traced.value_bind, Traced.value_bind, ih]; rfl

theorem add_one_add_ofNat (pos : UInt64) (k : ℕ) : pos + 1 + .ofNat k = pos + .ofNat (k + 1) := by
  rw [UInt64.add_assoc, UInt64.ofNat_add, UInt64.add_comm 1]
  rfl

theorem bytes_drop (data : Memory) (pos : UInt64) (n k : ℕ) :
    (data.bytes pos n).drop k = data.bytes (pos + .ofNat k) (n - k) := by
  induction k generalizing pos n with
  | zero => exact congrArg (data.bytes · n) (UInt64.add_zero pos).symm
  | succ k ih =>
    cases n with
    | zero => rw [bytes, List.drop_nil, Nat.zero_sub, bytes]
    | succ n => rw [bytes, List.drop_succ_cons, ih, add_one_add_ofNat, Nat.succ_sub_succ]

theorem bytes_take (data : Memory) (pos : UInt64) {n k : ℕ} (h : k ≤ n) :
    (data.bytes pos n).take k = data.bytes pos k := by
  induction k generalizing pos n with
  | zero => rfl
  | succ k ih =>
    obtain ⟨n, rfl⟩ : ∃ m, n = m + 1 := ⟨n - 1, by omega⟩
    rw [bytes, List.take_succ_cons, ih _ (by omega), bytes]

theorem bytes_getElem (data : Memory) (pos : UInt64) {n i : ℕ} (h : i < (data.bytes pos n).length) :
    (data.bytes pos n)[i] = data (pos + .ofNat i) := by
  have hdrop := bytes_drop data pos n i
  rw [List.drop_eq_getElem_cons h] at hdrop
  obtain ⟨k, hk⟩ : ∃ k, n - i = k + 1 := ⟨n - i - 1, by rw [bytes_length] at h; omega⟩
  rw [hk, bytes] at hdrop
  exact (List.cons.inj hdrop).1

/-- The bytes of the memory behind another pointer. -/
theorem bytes_shift (data : Memory) (k pos : UInt64) (n : ℕ) :
    Memory.bytes (fun i => data (k + i)) pos n = data.bytes (k + pos) n := by
  induction n generalizing pos with
  | zero => rfl
  | succ n ih => rw [bytes, bytes, ih, UInt64.add_assoc]

/-- The bytes of a variable, up to the last one. -/
theorem bytes_ofBytes {bs : Bytes} {n : ℕ} (hn : n ≤ bs.length) (hlen : bs.length < 2 ^ 64) :
    (ofBytes bs).bytes 0 n = bs.take n := by
  refine List.ext_getElem (by rw [bytes_length, List.length_take, Nat.min_eq_left hn]) ?_
  intro i hi hi'
  rw [bytes_length] at hi
  rw [bytes_getElem, List.getElem_take, UInt64.zero_add, ofBytes, UInt64.toNat_ofNat',
    Nat.mod_eq_of_lt (by omega), List.getD_eq_getElem _ _ (by omega)]

theorem bytes_update (data : Memory) {i : UInt64} {n : ℕ} (hn : n ≤ 2 ^ 64) (b : UInt8) :
    Memory.bytes (Function.update data i b) 0 n = (data.bytes 0 n).set i.toNat b := by
  refine List.ext_getElem (by rw [List.length_set, bytes_length, bytes_length]) fun j hj hj' => ?_
  rw [bytes_length] at hj
  rw [bytes_getElem, List.getElem_set, bytes_getElem, UInt64.zero_add]
  have heq : i.toNat = j ↔ UInt64.ofNat j = i := by
    rw [← UInt64.toNat_inj, UInt64.toNat_ofNat', Nat.mod_eq_of_lt (by omega)]
    exact eq_comm
  by_cases hj : i.toNat = j
  · rw [if_pos hj, heq.1 hj, Function.update_self]
  · rw [if_neg hj, Function.update_of_ne (mt heq.2 hj)]

/-- A copy into the buffer stores the bytes one after the other. -/
theorem bytes_store {data : Memory} {pos : UInt64} {bs : Bytes} {n : ℕ}
    (h : pos.toNat + bs.length ≤ n) (hn : n < 2 ^ 64) :
    (Memory.store data pos bs).value.bytes 0 n =
      DashDim.store (data.bytes 0 n) pos.toNat bs := by
  induction bs generalizing data pos with
  | nil => exact (store_nil _ _).symm
  | cons b bs ih =>
    rw [List.length_cons] at h
    have hsucc : (pos + 1).toNat = pos.toNat + 1 := by
      rw [UInt64.toNat_add, Nat.mod_eq_of_lt]
      · rfl
      · exact (show pos.toNat + 1 ≤ n by omega).trans_lt hn
    rw [store, Traced.value_bind, ih (by omega), hsucc, store_cons (by rw [bytes_length]; omega)]
    rw [storeByte, Traced.value_note, bytes_update _ hn.le]

theorem zero_add_ofNat_toNat (pos : UInt64) : 0 + UInt64.ofNat pos.toNat = pos := by
  rw [UInt64.zero_add, UInt64.ofNat_toNat]

end Memory

/-! ## Reading -/

namespace RawReader

variable {r : RawReader} {n : ℕ} {α β : Type}

/-- The reader over natural numbers with the first `n` bytes of the buffer. -/
def toDataReader (n : ℕ) (r : RawReader) : DataReader :=
  ⟨r.data.bytes 0 n, r.len.toNat, r.pos.toNat, r.endianness⟩

theorem bytesRemaining_toDataReader (h : r.pos ≤ r.len) :
    (r.toDataReader n).bytesRemaining = (r.len - r.pos).toNat :=
  (UInt64.toNat_sub_of_le _ _ h).symm

theorem byteAt_toDataReader (h : r.pos ≤ r.len) (hn : r.len.toNat ≤ n) {i : UInt64}
    (hi : i < r.len - r.pos) : (r.toDataReader n).byteAt i.toNat = r.data (r.pos + i) := by
  have hlt := UInt64.lt_iff_toNat_lt.1 hi
  rw [UInt64.toNat_sub_of_le _ _ h] at hlt
  have hin : r.pos.toNat + i.toNat < (r.data.bytes 0 n).length := by
    rw [Memory.bytes_length]
    omega
  have hbyte := Memory.bytes_getElem r.data 0 hin
  rw [UInt64.ofNat_add, UInt64.ofNat_toNat, UInt64.ofNat_toNat, UInt64.zero_add] at hbyte
  exact (List.getD_eq_getElem _ _ hin).trans hbyte

/-- The unread bytes are those in memory. -/
theorem take_drop_toDataReader (h : r.pos ≤ r.len) (hn : r.len.toNat ≤ n) {size : ℕ}
    (hle : size ≤ (r.len - r.pos).toNat) :
    ((r.toDataReader n).data.drop (r.toDataReader n).pos).take size = r.data.bytes r.pos size := by
  rw [UInt64.toNat_sub_of_le _ _ h] at hle
  have hle' := UInt64.le_iff_toNat_le.1 h
  have hfit : size ≤ n - r.pos.toNat := by omega
  have hdrop := Memory.bytes_drop r.data 0 n r.pos.toNat
  rw [Memory.zero_add_ofNat_toNat] at hdrop
  exact (congrArg (List.take size) hdrop).trans (Memory.bytes_take _ _ hfit)

theorem advancePos_toDataReader (h : r.pos ≤ r.len) {amount : UInt64}
    (hle : amount ≤ r.len - r.pos) :
    (r.advancePos amount).toDataReader n = (r.toDataReader n).advancePos amount.toNat := by
  have hadd := toNat_add_of_le (add_le_of_le_sub h hle)
  rw [toDataReader, advancePos]
  dsimp only
  rw [hadd]
  rfl

theorem map_exact {g : α → β} {f : RawRead α} (f' : Read α)
    (h : (f r).Refines (toDataReader n) (f' (r.toDataReader n))) :
    (RawRead.map g f r).Refines (toDataReader n) (Read.map g f' (r.toDataReader n)) := h.map _

theorem succeeds_exact {x : Traced Access (Option α × RawReader)} {y : Option α × DataReader}
    (h : x.Refines (toDataReader n) y) :
    (succeeds x).Refines (toDataReader n) (ReaderOp.succeeds y) := h.map _

theorem canRead_value (h : r.pos ≤ r.len) (bytes : UInt64) :
    (r.canRead bytes).value = (r.toDataReader n).canRead bytes.toNat := by
  have hremaining := bytesRemaining_toDataReader (n := n) h
  refine decide_eq_decide.2 (UInt64.le_iff_toNat_le.trans ?_)
  exact (congrArg (bytes.toNat ≤ ·) hremaining).symm.to_iff

theorem readBytes_exact (h : r.pos ≤ r.len) (hn : r.len.toNat ≤ n) (size : UInt32) :
    (r.readBytes size).Refines (toDataReader n) ((r.toDataReader n).readBytes size.toNat) := by
  rw [readBytes, DataReader.readBytes, Nat.mod_eq_of_lt size.toNat_lt]
  refine .bind ?_
  rw [canRead_value (n := n) h, UInt32.toNat_toUInt64]
  refine .ite .rfl (fun hfits => ?_) fun _ => rfl
  have hle : size.toUInt64 ≤ r.len - r.pos := by
    refine of_decide_eq_true ((canRead_value (n := n) h _).trans ?_)
    rw [UInt32.toNat_toUInt64]
    exact hfits
  have hle' := UInt64.le_iff_toNat_le.1 hle
  have hadvance := advancePos_toDataReader (n := n) h hle
  rw [UInt32.toNat_toUInt64] at hle' hadvance
  rw [take_drop_toDataReader h hn hle', ← hadvance]
  refine .bind ?_
  rw [Memory.load_value]
  rfl

theorem readUInt_exact (h : r.pos ≤ r.len) (hn : r.len.toNat ≤ n) (size : UInt32) :
    (r.readUInt size).Refines (toDataReader n) ((r.toDataReader n).readUInt size.toNat) := by
  have hread := (readBytes_exact h hn size).map fun bs => bs.map fun bs =>
    if r.endianness = .networkByteOrder then netToHost size.toNat (leValue bs) else leValue bs
  rw [DataReader.readBytes_eq size.toNat_lt] at hread
  rw [DataReader.readUInt, DataReader.readBytes_eq size.toNat_lt]
  by_cases hle : size.toNat ≤ (r.toDataReader n).bytesRemaining
  · rw [if_pos hle] at hread ⊢
    exact hread
  · rw [if_neg hle] at hread ⊢
    exact hread

theorem seek_exact (h : r.pos ≤ r.len) (size : UInt64) :
    (r.seek size).Refines (toDataReader n) ((r.toDataReader n).seek size.toNat) := by
  rw [seek, DataReader.seek]
  refine .bind ?_
  rw [canRead_value (n := n) h]
  refine .ite .rfl (fun hfits => ?_) fun _ => rfl
  have hle : size ≤ r.len - r.pos := of_decide_eq_true ((canRead_value h size).trans hfits)
  exact congrArg (Prod.mk true) (advancePos_toDataReader h hle)

theorem truncateRemaining_exact (h : r.pos ≤ r.len) (truncationLength : UInt64) :
    (r.truncateRemaining truncationLength).Refines (toDataReader n)       ((r.toDataReader n).truncateRemaining truncationLength.toNat) := by
  have hgt : truncationLength > r.len - r.pos ↔
      truncationLength.toNat > (r.toDataReader n).bytesRemaining := by
    rw [bytesRemaining_toDataReader h]
    exact UInt64.lt_iff_toNat_lt
  rw [truncateRemaining, DataReader.truncateRemaining]
  refine .bind (.ite hgt (fun _ => rfl) fun hle => ?_)
  have hadd := toNat_add_of_le (add_le_of_le_sub h (UInt64.not_lt.1 hle))
  rw [Traced.Refines, Traced.value_pure, toDataReader, hadd]
  rfl

theorem readBytesToUInt64_exact (h : r.pos ≤ r.len) (hn : r.len.toNat ≤ n) (numBytes : UInt64) :
    (r.readBytesToUInt64 numBytes).Refines (toDataReader n)       ((r.toDataReader n).readBytesToUInt64 numBytes.toNat) := by
  have hgt : numBytes > 8 ↔ numBytes.toNat > 8 := UInt64.lt_iff_toNat_lt
  rw [readBytesToUInt64, DataReader.readBytesToUInt64]
  by_cases hwide : numBytes > 8
  · rw [if_pos hwide, if_pos (hgt.1 hwide)]
    rfl
  · -- the size is not changed by narrowing it
    have hsize : numBytes.toUInt32.toNat = numBytes.toNat := by
      rw [UInt64.toNat_toUInt32, Nat.mod_eq_of_lt]
      have hle := (not_congr hgt).1 hwide
      omega
    have hread := readBytes_exact h hn numBytes.toUInt32
    rw [hsize] at hread
    rw [if_neg hwide, if_neg ((not_congr hgt).1 hwide)]
    by_cases hhost : r.endianness = .hostByteOrder
    · rw [if_pos hhost, if_pos (show (r.toDataReader n).endianness = _ from hhost)]
      exact map_exact (DataReader.readBytes · numBytes.toNat) hread
    · rw [if_neg hhost, if_neg (show ¬(r.toDataReader n).endianness = _ from hhost)]
      exact map_exact (DataReader.readBytes · numBytes.toNat) hread

theorem readVarInt62_exact (h : r.pos ≤ r.len) (hn : r.len.toNat ≤ n) :
    r.readVarInt62.Refines (toDataReader n) (r.toDataReader n).readVarInt62 := by
  have hremaining := bytesRemaining_toDataReader (n := n) h
  have hge : ∀ {k : UInt64}, r.len - r.pos ≥ k ↔ (r.toDataReader n).bytesRemaining ≥ k.toNat := by
    intro k
    rw [hremaining, ge_iff_le, UInt64.le_iff_toNat_le]
  have hbyte : ∀ {k : UInt64}, r.len - r.pos ≥ k → ∀ i < k,
      (r.next i).value = (r.toDataReader n).byteAt i.toNat :=
    fun hle i hi => (byteAt_toDataReader h hn (UInt64.lt_of_lt_of_le hi hle)).symm
  have hpos : r.len - r.pos ≠ 0 ↔ r.len - r.pos ≥ 1 := by
    rw [← UInt64.pos_iff_ne_zero, ge_iff_le, UInt64.lt_iff_toNat_lt, UInt64.le_iff_toNat_le]
    rfl
  rw [readVarInt62, DataReader.readVarInt62]
  refine .bind (.ite (hpos.trans (hge.trans Nat.one_le_iff_ne_zero)) (fun hne => ?_) fun _ => rfl)
  have hfirst : (r.next 0).value = (r.toDataReader n).byteAt 0 := hbyte (hpos.1 hne) 0 (by decide)
  refine .bind ?_
  rw [hfirst]
  refine .ite .rfl (fun _ => .ite hge (fun hle => ?_) fun _ => rfl) fun _ =>
    .ite .rfl (fun _ => .ite hge (fun hle => ?_) fun _ => rfl) fun _ =>
    .ite .rfl (fun _ => .ite hge (fun hle => ?_) fun _ => rfl) fun _ => ?_
  · have hb := hbyte hle
    rw [Traced.Refines]
    simp only [Traced.value_bind, Traced.value_pure, hb 0 (by decide), hb 1 (by decide),
      hb 2 (by decide), hb 3 (by decide), hb 4 (by decide), hb 5 (by decide), hb 6 (by decide),
      hb 7 (by decide), advancePos_toDataReader h hle]
    rfl
  · have hb := hbyte hle
    rw [Traced.Refines]
    simp only [Traced.value_bind, Traced.value_pure, hb 0 (by decide), hb 1 (by decide),
      hb 2 (by decide), hb 3 (by decide), advancePos_toDataReader h hle]
    rfl
  · have hb := hbyte hle
    rw [Traced.Refines]
    simp only [Traced.value_bind, Traced.value_pure, hb 0 (by decide), hb 1 (by decide),
      advancePos_toDataReader h hle]
    rfl
  · rw [Traced.Refines, Traced.value_bind, Traced.value_pure, hfirst,
      advancePos_toDataReader h (hpos.1 hne)]
    rfl

theorem varIntScan_exact (h : r.pos ≤ r.len) (hn : r.len.toNat ≤ n) {remaining : ℕ} {i : UInt64}
    (hi : i.toNat + remaining ≤ (r.len - r.pos).toNat) :
    (r.varIntScan remaining i i).value.map UInt64.toNat id =
      (r.toDataReader n).varIntScan remaining i.toNat i.toNat := by
  induction remaining generalizing i with
  | zero => rfl
  | succ remaining ih =>
    have hlt : i < r.len - r.pos := UInt64.lt_iff_toNat_lt.2 (by omega)
    have hsucc := toNat_succ_of_lt (UInt64.lt_iff_toNat_lt.1 hlt)
    have hbyte : (r.next i).value = (r.toDataReader n).byteAt i.toNat :=
      (byteAt_toDataReader h hn hlt).symm
    have hlong : i + 1 > 8 ↔ i.toNat + 1 > 8 := by
      rw [gt_iff_lt, UInt64.lt_iff_toNat_lt, hsucc]
      rfl
    have hrest := ih (i := i + 1) (by omega)
    rw [hsucc] at hrest
    rw [varIntScan, DataReader.varIntScan, Traced.value_bind, hbyte, Traced.value_ite,
      Traced.value_ite]
    by_cases hlast : (r.toDataReader n).byteAt i.toNat &&& 128 = 0
    · rw [if_pos hlast, if_pos hlast, Traced.value_pure, Prod.map_apply, hsucc]
      rfl
    · rw [if_neg hlast, if_neg hlast]
      by_cases height : i + 1 > 8
      · rw [if_pos height, if_pos (hlong.1 height), Traced.value_pure, Prod.map_apply, hsucc]
        rfl
      · rw [if_neg height, if_neg (mt hlong.2 height)]
        exact hrest

theorem varIntValue_exact (h : r.pos ≤ r.len) (hn : r.len.toNat ≤ n) {count : ℕ} {i : UInt64}
    (remain remainMulti : UInt64) (hi : i.toNat + count ≤ (r.len - r.pos).toNat) :
    (r.varIntValue count i remain remainMulti).value =
      (r.toDataReader n).varIntValue count i.toNat remain remainMulti := by
  induction count generalizing i remain remainMulti with
  | zero => rfl
  | succ count ih =>
    have hlt : i < r.len - r.pos := UInt64.lt_iff_toNat_lt.2 (by omega)
    have hsucc := toNat_succ_of_lt (UInt64.lt_iff_toNat_lt.1 hlt)
    have hbyte : (r.next i).value = (r.toDataReader n).byteAt i.toNat :=
      (byteAt_toDataReader h hn hlt).symm
    rw [varIntValue, DataReader.varIntValue, Traced.value_bind, hbyte, ih _ _ (by omega), hsucc]

theorem readVarInt_exact (h : r.pos ≤ r.len) (hn : r.len.toNat ≤ n) :
    r.readVarInt.Refines (toDataReader n) (r.toDataReader n).readVarInt := by
  have hzero : ∀ k, (0 : UInt64).toNat + k = k := Nat.zero_add
  have hscan := varIntScan_exact h hn (hzero (r.len - r.pos).toNat).le
  obtain ⟨-, hcount⟩ := varIntScan_spec h (hzero (r.len - r.pos).toNat).le
  rw [readVarInt, DataReader.readVarInt, bytesRemaining_toDataReader h]
  refine .bind ?_
  rw [show r.bytesRemaining.value = r.len - r.pos from rfl]
  generalize r.varIntScan (r.len - r.pos).toNat 0 0 = scan at hscan hcount ⊢
  obtain ⟨⟨length, decodable⟩, notes⟩ := scan
  rw [← show _ = (r.toDataReader n).varIntScan (r.len - r.pos).toNat 0 0 from hscan]
  have hle := UInt64.le_iff_toNat_le.1 hcount
  refine .bind (.ite ?_ (fun _ => .bind ?_) fun _ => rfl)
  · rw [gt_iff_lt, UInt64.lt_iff_toNat_lt, UInt64.le_iff_toNat_le]
    rfl
  · rw [varIntValue_exact h hn 0 1 ((hzero _).le.trans hle)]
    exact congrArg (Prod.mk _) (advancePos_toDataReader h hcount)

theorem run_exact (h : r.pos ≤ r.len) (hn : r.len.toNat ≤ n) (op : ReaderOp) :
    (r.run op).Refines (toDataReader n) (ReaderOp.run (r.toDataReader n) op) := by
  cases op with
  | uInt8 => exact succeeds_exact (map_exact (DataReader.readBytes · 1) (readBytes_exact h hn 1))
  | uInt16 => exact succeeds_exact (map_exact (DataReader.readUInt · 2) (readUInt_exact h hn 2))
  | uInt32 => exact succeeds_exact (map_exact (DataReader.readUInt · 4) (readUInt_exact h hn 4))
  | uInt64 => exact succeeds_exact (map_exact (DataReader.readUInt · 8) (readUInt_exact h hn 8))
  | bytesToUInt64 numBytes => exact succeeds_exact (readBytesToUInt64_exact h hn numBytes)
  | varInt62 => exact succeeds_exact (readVarInt62_exact h hn)
  | varInt => exact succeeds_exact (readVarInt_exact h hn)
  | bytes size => exact succeeds_exact (readBytes_exact h hn size)
  | seek size => exact seek_exact h size
  | truncateRemaining truncationLength => exact truncateRemaining_exact h truncationLength
  | peekByte => rfl

/-- The reader after any operations is the one over natural numbers. -/
theorem runAll_exact (h : r.pos ≤ r.len) (hn : r.len.toNat ≤ n) (ops : List ReaderOp) :
    (r.runAll ops).toDataReader n = ReaderOp.runAll (r.toDataReader n) ops := by
  induction ops generalizing r with
  | nil => rfl
  | cons op ops ih =>
    have hop := run_inBounds h op
    have hexact := congrArg Prod.snd (run_exact h hn op)
    have hrest := ih hop.value.pos_le ((UInt64.le_iff_toNat_le.1 hop.value.len_le).trans hn)
    rw [show (r.run op).value.2.toDataReader n = _ from hexact] at hrest
    exact hrest

/-- So is a new one. -/
theorem new_exact (data : Memory) (len : UInt64) (e : Endianness) :
    (RawReader.new data len e).toDataReader len.toNat =
      DataReader.new (data.bytes 0 len.toNat) e := by
  rw [DataReader.new, Memory.bytes_length]
  rfl

end RawReader

/-! ## Writing -/

namespace WriterOp

/-- Whether the operation succeeds, and the writer after it, over natural numbers. -/
def run (w : DataWriter) : WriterOp → Bool × DataWriter
  | uInt8 value => w.writeUInt8 value
  | uInt16 value => w.writeUInt16 value
  | uInt32 value => w.writeUInt32 value
  | uInt64 value => w.writeUInt64 value
  | bytesToUInt64 numBytes value => w.writeBytesToUInt64 numBytes.toNat value
  | varInt62 value => w.writeVarInt62 value
  | varInt value => w.writeVarInt value
  | bytes data dataLen => w.writeBytes (data.bytes 0 dataLen.toNat)
  | seek length => w.seek length.toNat

/-- The writer after a sequence of operations. -/
def runAll (w : DataWriter) (ops : List WriterOp) : DataWriter :=
  ops.foldl (fun w op => (run w op).2) w

end WriterOp

namespace RawWriter

variable {w : RawWriter}

/-- The writer over natural numbers with the bytes of the buffer. -/
def toDataWriter (w : RawWriter) : DataWriter :=
  ⟨w.buffer.bytes 0 w.capacity.toNat, w.length.toNat, w.endianness⟩

theorem capacity_toDataWriter (w : RawWriter) : w.toDataWriter.capacity = w.capacity.toNat :=
  Memory.bytes_length _ _ _

theorem remaining_toDataWriter (h : w.length ≤ w.capacity) :
    w.toDataWriter.remaining = (w.capacity - w.length).toNat := by
  rw [DataWriter.remaining, capacity_toDataWriter, UInt64.toNat_sub_of_le _ _ h]
  rfl

theorem length_le_toDataWriter (h : w.length ≤ w.capacity) :
    w.toDataWriter.length ≤ w.toDataWriter.capacity := by
  rw [capacity_toDataWriter]
  exact UInt64.le_iff_toNat_le.1 h

/-- Stored bytes that are counted. -/
theorem put_toDataWriter (h : w.length ≤ w.capacity) {bs : Bytes} {n : UInt64}
    (hn : n.toNat = bs.length) (hle : n ≤ w.capacity - w.length) :
    toDataWriter { w with
      buffer := (w.buffer.store w.length bs).value
      length := w.length + n } = w.toDataWriter.put bs := by
  have hsum := add_le_of_le_sub h hle
  have hadd := toNat_add_of_le hsum
  rw [hn] at hsum hadd
  rw [toDataWriter, Memory.bytes_store hsum w.capacity.toNat_lt, hadd]
  rfl

theorem writeBytes_exact (h : w.length ≤ w.capacity) (data : Memory) (dataLen : UInt64) :
    (w.writeBytes data dataLen).Refines toDataWriter
      (w.toDataWriter.writeBytes (data.bytes 0 dataLen.toNat)) := by
  rw [DataWriter.writeBytes_eq (length_le_toDataWriter h), Memory.bytes_length,
    remaining_toDataWriter h, writeBytes]
  refine .bind ?_
  rw [beginWrite_value h]
  by_cases hle : dataLen ≤ w.capacity - w.length
  · rw [if_pos hle, if_pos (UInt64.le_iff_toNat_le.1 hle)]
    refine .bind (congrArg (Prod.mk true) (put_toDataWriter h ?_ hle))
    exact (Memory.bytes_length _ _ _).symm
  · rw [if_neg hle, if_neg (mt UInt64.le_iff_toNat_le.2 hle)]
    rfl

/-- A write of a variable. -/
theorem writeBytes_ofBytes (h : w.length ≤ w.capacity) {bs : Bytes} {n : UInt64}
    (hn : n.toNat = bs.length) :
    (w.writeBytes (.ofBytes bs) n).Refines toDataWriter (w.toDataWriter.writeBytes bs) := by
  have hwrite := writeBytes_exact h (.ofBytes bs) n
  rwa [Memory.bytes_ofBytes hn.le (hn ▸ n.toNat_lt), hn, List.take_length] at hwrite

theorem writeUInt8_exact (h : w.length ≤ w.capacity) (value : UInt8) :
    (w.writeUInt8 value).Refines toDataWriter (w.toDataWriter.writeUInt8 value) :=
  writeBytes_ofBytes h rfl

theorem writeUInt_exact (h : w.length ≤ w.capacity) (n : UInt64) (value : ℕ) :
    (w.writeUInt n value).Refines toDataWriter (w.toDataWriter.writeUInt n.toNat value) :=
  writeBytes_ofBytes h (leBytes_length _ _).symm

theorem writeBytesToUInt64_exact (h : w.length ≤ w.capacity) (numBytes value : UInt64) :
    (w.writeBytesToUInt64 numBytes value).Refines toDataWriter
      (w.toDataWriter.writeBytesToUInt64 numBytes.toNat value) := by
  rw [writeBytesToUInt64, DataWriter.writeBytesToUInt64]
  refine .ite UInt64.lt_iff_toNat_lt (fun _ => rfl) fun hnarrow => ?_
  have hle : numBytes.toNat ≤ 8 := UInt64.le_iff_toNat_le.1 (UInt64.not_lt.1 hnarrow)
  have himage : ∀ value, (Memory.ofBytes (leBytes 8 value)).bytes 0 8 = leBytes 8 value := by
    intro value
    have hlen := leBytes_length 8 value
    rw [Memory.bytes_ofBytes hlen.ge (by omega), List.take_of_length_le hlen.le]
  refine .ite .rfl (fun _ => ?_) fun _ => ?_
  · rw [← himage value.toNat, Memory.bytes_take _ _ hle]
    exact writeBytes_exact h _ _
  · -- the last bytes of the variable are those behind a pointer into it
    have hsub : (8 - numBytes).toNat = 8 - numBytes.toNat :=
      UInt64.toNat_sub_of_le _ _ (UInt64.not_lt.1 hnarrow)
    have hwrite := writeBytes_exact h
      (fun i => Memory.ofBytes (leBytes 8 (hostToNet 8 value.toNat)) (8 - numBytes + i)) numBytes
    have hdrop := Memory.bytes_drop (.ofBytes (leBytes 8 (hostToNet 8 value.toNat))) 0 8
      (8 - numBytes).toNat
    rw [himage, Memory.zero_add_ofNat_toNat, hsub, Nat.sub_sub_self hle] at hdrop
    have htake : ∀ bs : Bytes, bs.length = 8 →
        (bs.drop (8 - numBytes.toNat)).take numBytes.toNat = bs.drop (8 - numBytes.toNat) := by
      intro bs hbs
      refine List.take_of_length_le ?_
      rw [List.length_drop]
      omega
    rw [Memory.bytes_shift, UInt64.add_zero, ← hdrop, ← htake _ (leBytes_length _ _)] at hwrite
    exact hwrite

theorem put_exact (h : w.length ≤ w.capacity) {bs : Bytes} {n : UInt64} (hn : n.toNat = bs.length)
    (hle : n ≤ w.capacity - w.length) :
    (w.put bs).Refines toDataWriter (true, w.toDataWriter.put bs) := by
  rw [put, ← hn, UInt64.ofNat_toNat]
  exact .bind (congrArg (Prod.mk true) (put_toDataWriter h hn hle))

theorem writeVarInt62_exact (h : w.length ≤ w.capacity) (value : UInt64) :
    (w.writeVarInt62 value).Refines toDataWriter (w.toDataWriter.writeVarInt62 value) := by
  have hput : ∀ {n : UInt64} {bs : Bytes}, n.toNat = bs.length →
      (if w.capacity - w.length ≥ n then w.put bs else Pure.pure (false, w)).Refines toDataWriter
        (if w.toDataWriter.remaining ≥ n.toNat then (true, w.toDataWriter.put bs)
          else (false, w.toDataWriter)) := by
    intro n bs hn
    refine .ite ?_ (put_exact h hn) fun _ => rfl
    rw [remaining_toDataWriter h]
    exact UInt64.le_iff_toNat_le
  rw [writeVarInt62, DataWriter.writeVarInt62]
  refine .bind (.ite .rfl (fun _ => ?_) fun _ => rfl)
  exact .ite .rfl (fun _ => hput rfl) fun _ => .ite .rfl (fun _ => hput rfl) fun _ =>
    .ite .rfl (fun _ => hput rfl) fun _ => hput rfl

/-- One round of the loop. -/
theorem writeVarIntLoop_value (w : RawWriter) (next : UInt64) :
    (w.writeVarIntLoop next).value =
      let byte := if next / 128 > 0 then (next % 128).toUInt8 ||| 128 else (next % 128).toUInt8
      let w := (w.writeUInt8 byte).value.2
      if next / 128 > 0 then (w.writeVarIntLoop (next / 128)).value else w := by
  rw [writeVarIntLoop]
  exact Traced.value_ite _ _

/-- The loop ends within the rounds that the groups of its number need. -/
theorem writeVarIntLoop_exact (h : w.length ≤ w.capacity) {rounds : ℕ} {next : UInt64}
    (hrounds : 0 < rounds) (hnext : next.toNat < 128 ^ rounds) :
    (w.writeVarIntLoop next).value.toDataWriter =
      DataWriter.writeVarIntLoop rounds w.toDataWriter next := by
  induction rounds generalizing w next with
  | zero => exact absurd hrounds (lt_irrefl 0)
  | succ rounds ih =>
    have hwrite : ∀ byte, (w.writeUInt8 byte).value.2.toDataWriter =
        (w.toDataWriter.writeUInt8 byte).2 := fun byte => congrArg Prod.snd (writeUInt8_exact h byte)
    have hroom : ∀ byte, (w.writeUInt8 byte).value.2.length ≤ (w.writeUInt8 byte).value.2.capacity :=
      fun byte => (writeBytes_inBounds h _ _).value.le_capacity
    rw [writeVarIntLoop_value, DataWriter.writeVarIntLoop]
    dsimp only
    by_cases hmore : next / 128 > 0
    · -- the rest of the number has groups left, and one less than the number
      have hdiv : (next / 128).toNat = next.toNat / 128 := UInt64.toNat_div next 128
      have hpos : 0 < next.toNat / 128 := hdiv ▸ UInt64.lt_iff_toNat_lt.1 hmore
      have hrest : (next / 128).toNat < 128 ^ rounds := by
        rw [hdiv]
        rw [pow_succ] at hnext
        exact (Nat.div_lt_iff_lt_mul (by decide)).2 hnext
      have hrounds' : 0 < rounds := by
        rcases Nat.eq_zero_or_pos rounds with rfl | hlt
        · rw [pow_zero, hdiv] at hrest
          omega
        · exact hlt
      simp only [if_pos hmore]
      rw [ih (hroom _) hrounds' hrest, hwrite]
    · simp only [if_neg hmore]
      exact hwrite _

theorem writeVarInt_exact (h : w.length ≤ w.capacity) (value : UInt64) :
    (w.writeVarInt value).Refines toDataWriter (w.toDataWriter.writeVarInt value) := by
  have hneed : DataWriter.getVarIntLen value ≤ 8 := by
    rw [DataWriter.getVarIntLen]
    split_ifs <;> decide
  rw [writeVarInt, DataWriter.writeVarInt]
  refine .bind (.ite (or_congr .rfl ?_) (fun _ => rfl) fun _ => .bind ?_)
  · rw [remaining_toDataWriter h, gt_iff_lt, UInt64.lt_iff_toNat_lt,
      UInt64.toNat_ofNat_of_lt' (hneed.trans_lt (by decide))]
    rfl
  · have hlt : value.toNat < 128 ^ 10 := value.toNat_lt.trans (by decide)
    exact congrArg (Prod.mk true) (writeVarIntLoop_exact h (by decide) hlt)

theorem seek_exact (h : w.length ≤ w.capacity) (length : UInt64) :
    (w.seek length).Refines toDataWriter (w.toDataWriter.seek length.toNat) := by
  have hle := length_le_toDataWriter h
  have hremaining := remaining_toDataWriter h
  rw [DataWriter.remaining] at hremaining
  rw [seek, DataWriter.seek, DataWriter.beginWrite, if_neg (not_lt.2 hle), hremaining]
  refine .bind ?_
  rw [beginWrite_value h]
  by_cases hfits : length ≤ w.capacity - w.length
  · rw [if_pos hfits, if_neg (not_lt.2 (UInt64.le_iff_toNat_le.1 hfits))]
    have hadd := toNat_add_of_le (add_le_of_le_sub h hfits)
    rw [Traced.Refines, Traced.value_pure, toDataWriter, hadd]
    rfl
  · rw [if_neg hfits, if_pos (UInt64.lt_iff_toNat_lt.1 (UInt64.not_le.1 hfits))]
    rfl

theorem run_exact (h : w.length ≤ w.capacity) (op : WriterOp) :
    (w.run op).Refines toDataWriter (op.run w.toDataWriter) := by
  cases op with
  | uInt8 value => exact writeUInt8_exact h value
  | uInt16 value => exact writeUInt_exact h 2 value.toNat
  | uInt32 value => exact writeUInt_exact h 4 value.toNat
  | uInt64 value => exact writeUInt_exact h 8 value.toNat
  | bytesToUInt64 numBytes value => exact writeBytesToUInt64_exact h numBytes value
  | varInt62 value => exact writeVarInt62_exact h value
  | varInt value => exact writeVarInt_exact h value
  | bytes data dataLen => exact writeBytes_exact h data dataLen
  | seek length => exact seek_exact h length

/-- The writer after any operations is the one over natural numbers. -/
theorem runAll_exact (h : w.length ≤ w.capacity) (ops : List WriterOp) :
    (w.runAll ops).toDataWriter = WriterOp.runAll w.toDataWriter ops := by
  induction ops generalizing w with
  | nil => rfl
  | cons op ops ih =>
    have hrest := ih (run_inBounds h op).value.le_capacity
    rw [show (w.run op).value.2.toDataWriter = _ from congrArg Prod.snd (run_exact h op)] at hrest
    exact hrest

end RawWriter

end DashDim
