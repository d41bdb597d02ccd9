import DashDim.Codec.Raw
import Mathlib.Tactic

/-!
# Cursors stay in bounds

An operation of a reader only looks at what is unread, and one of a writer only stores in what
is not written, whatever its arguments and the contents of the buffer are; the cursors stay
where they belong, so that no difference wraps around.

* `RawReader.run_inBounds`, `RawWriter.run_inBounds`: one operation;
* `cursors_in_bounds`: any operations, one after the other.
-/

namespace DashDim

/-! ## Memory -/

/-- A sum that is at most a 64-bit number does not wrap around. -/
theorem toNat_add_of_le {a b c : UInt64} (h : a.toNat + b.toNat ≤ c.toNat) :
    (a + b).toNat = a.toNat + b.toNat := by
  rw [UInt64.toNat_add, Nat.mod_eq_of_lt (h.trans_lt c.toNat_lt)]

theorem toNat_succ_of_lt {a b : UInt64} (h : a.toNat < b.toNat) : (a + 1).toNat = a.toNat + 1 :=
  toNat_add_of_le (b := 1) h

/-- What fits in what is left can be added. -/
theorem add_le_of_le_sub {a b c : UInt64} (hab : a ≤ b) (h : c ≤ b - a) :
    a.toNat + c.toNat ≤ b.toNat := by
  rw [UInt64.le_iff_toNat_le, UInt64.toNat_sub_of_le _ _ hab] at h
  have hle := UInt64.le_iff_toNat_le.1 hab
  omega

theorem sizeDiff_all {a b lo hi : UInt64} (h : b ≤ a) :
    (sizeDiff a b).All (Access.Within lo hi) :=
  Traced.All.note (P := Access.Within lo hi) (e := Access.sub a b) h _

namespace Memory

variable {data : Memory} {pos lo hi : UInt64}

theorem load_all {n : ℕ} (hlo : lo ≤ pos) (h : pos.toNat + n ≤ hi.toNat) :
    (data.load pos n).All (Access.Within lo hi) := by
  induction n generalizing pos with
  | zero => exact .pure _
  | succ n ih =>
    have hlt : pos < hi := UInt64.lt_iff_toNat_lt.2 (by omega)
    have hsucc := toNat_succ_of_lt (UInt64.lt_iff_toNat_lt.1 hlt)
    refine .bind (.note ⟨hlo, hlt⟩ _) (.bind (ih ?_ (by omega)) (.pure _))
    rw [UInt64.le_iff_toNat_le] at hlo ⊢
    omega

theorem store_all {bs : Bytes} (hlo : lo ≤ pos) (h : pos.toNat + bs.length ≤ hi.toNat) :
    (data.store pos bs).All (Access.Within lo hi) := by
  induction bs generalizing data pos with
  | nil => exact .pure _
  | cons b bs ih =>
    rw [List.length_cons] at h
    have hlt : pos < hi := UInt64.lt_iff_toNat_lt.2 (by omega)
    have hsucc := toNat_succ_of_lt (UInt64.lt_iff_toNat_lt.1 hlt)
    refine .bind (.note ⟨hlo, hlt⟩ _) (ih ?_ (by omega))
    rw [UInt64.le_iff_toNat_le] at hlo ⊢
    omega

@[simp] theorem bytes_length (data : Memory) (pos : UInt64) (n : ℕ) :
    (data.bytes pos n).length = n := by
  induction n generalizing pos with
  | zero => rfl
  | succ n ih => rw [bytes, List.length_cons, ih]

end Memory

/-! ## Reading -/

namespace RawReader

variable {r : RawReader} {α β : Type}

/-- A reader that an operation on `r` may leave. -/
structure Keeps (r r' : RawReader) : Prop where
  pos_le : r'.pos ≤ r'.len
  len_le : r'.len ≤ r.len

theorem Keeps.refl (h : r.pos ≤ r.len) : Keeps r r := ⟨h, UInt64.le_refl _⟩

theorem keeps_onFailure (r : RawReader) : Keeps r r.onFailure :=
  ⟨UInt64.le_refl _, UInt64.le_refl _⟩

theorem keeps_advancePos (h : r.pos ≤ r.len) {amount : UInt64} (hle : amount ≤ r.len - r.pos) :
    Keeps r (r.advancePos amount) := by
  have hsum := add_le_of_le_sub h hle
  refine ⟨?_, UInt64.le_refl _⟩
  change r.pos + amount ≤ r.len
  rw [UInt64.le_iff_toNat_le, toNat_add_of_le hsum]
  exact hsum

/-- A computation only looks at what is unread, and leaves a reader that is in bounds. -/
abbrev InBounds (r : RawReader) (x : Traced Access (β × RawReader)) : Prop :=
  x.Meets (Access.Within r.pos r.len) fun p => Keeps r p.2

/-- What is done with the value read. -/
theorem InBounds.map_value {x : Traced Access (α × RawReader)} (hx : InBounds r x) (g : α → β) :
    InBounds r (x >>= fun p => pure (g p.1, p.2)) :=
  .bind hx.notes (.pure hx.value)

theorem InBounds.map {g : α → β} {f : RawRead α} (h : InBounds r (f r)) :
    InBounds r (RawRead.map g f r) := h.map_value _

theorem InBounds.succeeds {x : Traced Access (Option α × RawReader)} (h : InBounds r x) :
    InBounds r (succeeds x) := h.map_value _

/-- What remains is unread. -/
theorem next_all (h : r.pos ≤ r.len) {i : UInt64} (hi : i < r.len - r.pos) :
    (r.next i).All (Access.Within r.pos r.len) := by
  have hsum := add_le_of_le_sub h (UInt64.le_of_lt hi)
  have hadd := toNat_add_of_le hsum
  rw [UInt64.lt_iff_toNat_lt, UInt64.toNat_sub_of_le _ _ h] at hi
  refine .note ⟨?_, ?_⟩ _
  · rw [UInt64.le_iff_toNat_le, hadd]
    exact Nat.le_add_right _ _
  · rw [UInt64.lt_iff_toNat_lt, hadd]
    omega

theorem bytesRemaining_all (h : r.pos ≤ r.len) :
    r.bytesRemaining.All (Access.Within r.pos r.len) := sizeDiff_all h

theorem canRead_all (h : r.pos ≤ r.len) (bytes : UInt64) :
    (r.canRead bytes).All (Access.Within r.pos r.len) := (bytesRemaining_all h).bind (.pure _)

theorem readBytes_inBounds (h : r.pos ≤ r.len) (size : UInt32) : InBounds r (r.readBytes size) := by
  refine .bind (canRead_all h _) (.ite (fun hfits => ?_) fun _ => .pure (keeps_onFailure r))
  have hle : size.toUInt64 ≤ r.len - r.pos := of_decide_eq_true hfits
  have hsum := add_le_of_le_sub h hle
  rw [UInt32.toNat_toUInt64] at hsum
  exact .bind (Memory.load_all (UInt64.le_refl _) hsum) (.pure (keeps_advancePos h hle))

theorem seek_inBounds (h : r.pos ≤ r.len) (size : UInt64) : InBounds r (r.seek size) := by
  refine .bind (canRead_all h _) (.ite (fun hfits => ?_) fun _ => .pure (keeps_onFailure r))
  exact .pure (keeps_advancePos h (of_decide_eq_true hfits))

theorem truncateRemaining_inBounds (h : r.pos ≤ r.len) (truncationLength : UInt64) :
    InBounds r (r.truncateRemaining truncationLength) := by
  refine .bind (bytesRemaining_all h) (.ite (fun _ => .pure (.refl h)) fun hle => ?_)
  have hsum := add_le_of_le_sub h (UInt64.not_lt.1 hle)
  refine .pure ⟨?_, ?_⟩
  · change r.pos ≤ r.pos + truncationLength
    rw [UInt64.le_iff_toNat_le, toNat_add_of_le hsum]
    exact Nat.le_add_right _ _
  · change r.pos + truncationLength ≤ r.len
    rw [UInt64.le_iff_toNat_le, toNat_add_of_le hsum]
    exact hsum

theorem peekByte_all (r : RawReader) : r.peekByte.All (Access.Within r.pos r.len) :=
  .ite (fun _ => .pure 0) fun hlt => .note ⟨UInt64.le_refl _, UInt64.not_le.1 hlt⟩ _

theorem readUInt_inBounds (h : r.pos ≤ r.len) (n : UInt32) : InBounds r (r.readUInt n) :=
  (readBytes_inBounds h n).map_value _

theorem readBytesToUInt64_inBounds (h : r.pos ≤ r.len) (numBytes : UInt64) :
    InBounds r (r.readBytesToUInt64 numBytes) :=
  .ite (fun _ => .pure (.refl h)) fun _ =>
    .ite (fun _ => (readBytes_inBounds h _).map) fun _ => (readBytes_inBounds h _).map

theorem readVarInt62_inBounds (h : r.pos ≤ r.len) : InBounds r r.readVarInt62 := by
  refine .bind (bytesRemaining_all h) (.ite (fun hne => ?_) fun _ => .pure (.refl h))
  have hpos : 0 < r.len - r.pos := UInt64.pos_iff_ne_zero.2 hne
  have hnext : ∀ {n : UInt64}, n ≤ r.len - r.pos → ∀ i < n,
      (r.next i).All (Access.Within r.pos r.len) :=
    fun hle i hi => next_all h (UInt64.lt_of_lt_of_le hi hle)
  refine .bind (next_all h hpos) (.ite (fun _ => .ite (fun hle => ?_) fun _ => .pure (.refl h))
    fun _ => .ite (fun _ => .ite (fun hle => ?_) fun _ => .pure (.refl h))
      fun _ => .ite (fun _ => .ite (fun hle => ?_) fun _ => .pure (.refl h)) fun _ => ?_)
  · have hb := hnext hle
    exact .bind (hb 0 (by decide)) <| .bind (hb 1 (by decide)) <| .bind (hb 2 (by decide)) <|
      .bind (hb 3 (by decide)) <| .bind (hb 4 (by decide)) <| .bind (hb 5 (by decide)) <|
      .bind (hb 6 (by decide)) <| .bind (hb 7 (by decide)) <| .pure (keeps_advancePos h hle)
  · have hb := hnext hle
    exact .bind (hb 0 (by decide)) <| .bind (hb 1 (by decide)) <| .bind (hb 2 (by decide)) <|
      .bind (hb 3 (by decide)) <| .pure (keeps_advancePos h hle)
  · have hb := hnext hle
    exact .bind (hb 0 (by decide)) <| .bind (hb 1 (by decide)) <| .pure (keeps_advancePos h hle)
  · refine .bind (next_all h hpos) (.pure (keeps_advancePos h ?_))
    rw [UInt64.le_iff_toNat_le]
    exact UInt64.lt_iff_toNat_lt.1 hpos

/-- The search looks at what remains, and counts what it looks at. -/
theorem varIntScan_spec (h : r.pos ≤ r.len) {remaining : ℕ} {i : UInt64}
    (hi : i.toNat + remaining ≤ (r.len - r.pos).toNat) :
    (r.varIntScan remaining i i).All (Access.Within r.pos r.len) ∧
      (r.varIntScan remaining i i).value.1 ≤ r.len - r.pos := by
  induction remaining generalizing i with
  | zero => exact ⟨.pure _, UInt64.le_iff_toNat_le.2 hi⟩
  | succ remaining ih =>
    have hlt : i < r.len - r.pos := UInt64.lt_iff_toNat_lt.2 (by omega)
    have hsucc := toNat_succ_of_lt (UInt64.lt_iff_toNat_lt.1 hlt)
    have hle : i + 1 ≤ r.len - r.pos := UInt64.le_iff_toNat_le.2 (by omega)
    obtain ⟨hall, hcount⟩ := ih (i := i + 1) (by omega)
    constructor
    · exact .bind (next_all h hlt) (.ite (fun _ => .pure _) fun _ => .ite (fun _ => .pure _)
        fun _ => hall)
    · rw [varIntScan, Traced.value_bind, Traced.value_ite, Traced.value_ite]
      split_ifs
      · exact hle
      · exact hle
      · exact hcount

theorem varIntValue_all (h : r.pos ≤ r.len) {count : ℕ} {i : UInt64} (remain remainMulti : UInt64)
    (hi : i.toNat + count ≤ (r.len - r.pos).toNat) :
    (r.varIntValue count i remain remainMulti).All (Access.Within r.pos r.len) := by
  induction count generalizing i remain remainMulti with
  | zero => exact .pure _
  | succ count ih =>
    have hlt : i < r.len - r.pos := UInt64.lt_iff_toNat_lt.2 (by omega)
    have hsucc := toNat_succ_of_lt (UInt64.lt_iff_toNat_lt.1 hlt)
    exact .bind (next_all h hlt) (ih _ _ (by omega))

theorem readVarInt_inBounds (h : r.pos ≤ r.len) : InBounds r r.readVarInt := by
  have hzero : ∀ n, (0 : UInt64).toNat + n = n := Nat.zero_add
  obtain ⟨hall, hcount⟩ := varIntScan_spec h (hzero (r.len - r.pos).toNat).le
  refine .bind (bytesRemaining_all h) (.bind hall (.ite (fun _ => ?_) fun _ => .pure (.refl h)))
  refine .bind (varIntValue_all h 0 1 ?_) (.pure (keeps_advancePos h hcount))
  exact (hzero _).le.trans (UInt64.le_iff_toNat_le.1 hcount)

theorem run_inBounds (h : r.pos ≤ r.len) (op : ReaderOp) : InBounds r (r.run op) := by
  cases op with
  | uInt8 => exact (readBytes_inBounds h 1).map.succeeds
  | uInt16 => exact (readUInt_inBounds h 2).map.succeeds
  | uInt32 => exact (readUInt_inBounds h 4).map.succeeds
  | uInt64 => exact (readUInt_inBounds h 8).map.succeeds
  | bytesToUInt64 numBytes => exact (readBytesToUInt64_inBounds h numBytes).succeeds
  | varInt62 => exact (readVarInt62_inBounds h).succeeds
  | varInt => exact (readVarInt_inBounds h).succeeds
  | bytes size => exact (readBytes_inBounds h size).succeeds
  | seek size => exact seek_inBounds h size
  | truncateRemaining truncationLength => exact truncateRemaining_inBounds h truncationLength
  | peekByte => exact .bind r.peekByte_all (.pure (.refl h))

/-- After any operations the position is in what is left of the message. -/
theorem runAll_le (h : r.pos ≤ r.len) (ops : List ReaderOp) :
    (r.runAll ops).pos ≤ (r.runAll ops).len ∧ (r.runAll ops).len ≤ r.len := by
  induction ops generalizing r with
  | nil => exact ⟨h, UInt64.le_refl _⟩
  | cons op ops ih =>
    have hop := run_inBounds h op
    obtain ⟨hpos, hlen⟩ := ih hop.value.pos_le
    exact ⟨hpos, UInt64.le_trans hlen hop.value.len_le⟩

end RawReader

/-! ## Writing -/

namespace RawWriter

variable {w : RawWriter}

/-- A writer that an operation on `w` may leave: with no less written, in the same buffer. -/
structure Keeps (w w' : RawWriter) : Prop where
  length_le : w.length ≤ w'.length
  le_capacity : w'.length ≤ w'.capacity
  capacity_eq : w'.capacity = w.capacity

theorem Keeps.refl (h : w.length ≤ w.capacity) : Keeps w w := ⟨UInt64.le_refl _, h, rfl⟩

theorem Keeps.trans {w' w'' : RawWriter} (h : Keeps w w') (h' : Keeps w' w'') : Keeps w w'' :=
  ⟨UInt64.le_trans h.length_le h'.length_le, h'.le_capacity, h'.capacity_eq.trans h.capacity_eq⟩

/-- A writer that is moved over what fits. -/
theorem keeps_advance (h : w.length ≤ w.capacity) {length : UInt64}
    (hle : length ≤ w.capacity - w.length) (buffer : Memory) :
    Keeps w { w with buffer := buffer, length := w.length + length } := by
  have hsum := add_le_of_le_sub h hle
  refine ⟨?_, ?_, rfl⟩
  · change w.length ≤ w.length + length
    rw [UInt64.le_iff_toNat_le, toNat_add_of_le hsum]
    exact Nat.le_add_right _ _
  · change w.length + length ≤ w.capacity
    rw [UInt64.le_iff_toNat_le, toNat_add_of_le hsum]
    exact hsum

/-- A computation only stores in what is not written, and leaves a writer that is in bounds. -/
abbrev InBounds (w : RawWriter) (x : Traced Access (Bool × RawWriter)) : Prop :=
  x.Meets (Access.Within w.length w.capacity) fun p => Keeps w p.2

/-- What is not written after an operation was not written before. -/
theorem Keeps.within {w' : RawWriter} (h : Keeps w w') (a : Access)
    (ha : a.Within w'.length w'.capacity) : a.Within w.length w.capacity := by
  rw [h.capacity_eq] at ha
  cases a with
  | sub a b => exact ha
  | load i => exact ⟨UInt64.le_trans h.length_le ha.1, ha.2⟩
  | store i => exact ⟨UInt64.le_trans h.length_le ha.1, ha.2⟩

/-- What comes after an operation goes behind what it has written. -/
theorem InBounds.andThen {x : Traced Access (Bool × RawWriter)}
    {f : Bool × RawWriter → Traced Access RawWriter} (hx : InBounds w x)
    (hf : (f x.value).Meets (Access.Within x.value.2.length x.value.2.capacity)
      (Keeps x.value.2)) :
    (x >>= f).Meets (Access.Within w.length w.capacity) (Keeps w) :=
  .bind hx.notes ⟨hf.notes.mono hx.value.within, hx.value.trans hf.value⟩

theorem remaining_all (h : w.length ≤ w.capacity) :
    w.remaining.All (Access.Within w.length w.capacity) := sizeDiff_all h

theorem beginWrite_all (h : w.length ≤ w.capacity) (length : UInt64) :
    (w.beginWrite length).All (Access.Within w.length w.capacity) :=
  .ite (fun _ => .pure _) fun _ => .bind (sizeDiff_all h) (.ite (fun _ => .pure _) fun _ => .pure _)

/-- A write goes where the writer is, if it fits. -/
theorem beginWrite_value (h : w.length ≤ w.capacity) (length : UInt64) :
    (w.beginWrite length).value =
      if length ≤ w.capacity - w.length then some w.length else none := by
  rw [beginWrite, if_neg (UInt64.not_lt.2 h), Traced.value_bind, sizeDiff, Traced.value_note,
    Traced.value_ite]
  by_cases hle : length ≤ w.capacity - w.length
  · rw [if_neg (UInt64.not_lt.2 hle), if_pos hle, Traced.value_pure]
  · rw [if_pos (UInt64.not_le.1 hle), if_neg hle, Traced.value_pure]

theorem writeBytes_inBounds (h : w.length ≤ w.capacity) (data : Memory) (dataLen : UInt64) :
    InBounds w (w.writeBytes data dataLen) := by
  refine .bind (beginWrite_all h dataLen) ?_
  rw [beginWrite_value h]
  split_ifs with hle
  · refine .bind (Memory.store_all (UInt64.le_refl _) ?_) (.pure (keeps_advance h hle _))
    rw [Memory.bytes_length]
    exact add_le_of_le_sub h hle
  · exact .pure (.refl h)

theorem seek_inBounds (h : w.length ≤ w.capacity) (length : UInt64) :
    InBounds w (w.seek length) := by
  refine .bind (beginWrite_all h length) ?_
  rw [beginWrite_value h]
  split_ifs with hle
  · exact .pure (keeps_advance h hle w.buffer)
  · exact .pure (.refl h)

theorem writeBytesToUInt64_inBounds (h : w.length ≤ w.capacity) (numBytes value : UInt64) :
    InBounds w (w.writeBytesToUInt64 numBytes value) :=
  .ite (fun _ => .pure (.refl h)) fun _ =>
    .ite (fun _ => writeBytes_inBounds h _ _) fun _ => writeBytes_inBounds h _ _

theorem put_inBounds (h : w.length ≤ w.capacity) {bs : Bytes} {n : UInt64}
    (hn : n.toNat = bs.length) (hle : n ≤ w.capacity - w.length) :
    InBounds w (w.put bs) := by
  have hsum := add_le_of_le_sub h hle
  rw [hn] at hsum
  rw [put, ← hn, UInt64.ofNat_toNat]
  exact .bind (Memory.store_all (UInt64.le_refl _) hsum) (.pure (keeps_advance h hle _))

theorem writeVarInt62_inBounds (h : w.length ≤ w.capacity) (value : UInt64) :
    InBounds w (w.writeVarInt62 value) := by
  have hput : ∀ {n : UInt64} {bs : Bytes}, n.toNat = bs.length → InBounds w
      (if w.capacity - w.length ≥ n then w.put bs else Pure.pure (false, w)) :=
    fun hn => .ite (put_inBounds h hn) fun _ => .pure (.refl h)
  refine .bind (remaining_all h) (.ite (fun _ => ?_) fun _ => .pure (.refl h))
  exact .ite (fun _ => hput rfl) fun _ => .ite (fun _ => hput rfl) fun _ =>
    .ite (fun _ => hput rfl) fun _ => hput rfl

/-- The groups are stored one after the other. -/
theorem writeVarIntLoop_inBounds (h : w.length ≤ w.capacity) (next : UInt64) :
    (w.writeVarIntLoop next).Meets (Access.Within w.length w.capacity) (Keeps w) := by
  induction w, next using writeVarIntLoop.induct with
  | case1 w next rest ih =>
    rw [writeVarIntLoop]
    have hbyte : ∀ byte, InBounds w (w.writeUInt8 byte) := fun byte => writeBytes_inBounds h _ _
    refine (hbyte _).andThen (.ite (fun hmore => ?_) fun _ => .pure (.refl ?_))
    · exact ih _ hmore (hbyte _).value.le_capacity
    · exact (hbyte _).value.le_capacity

theorem writeVarInt_inBounds (h : w.length ≤ w.capacity) (value : UInt64) :
    InBounds w (w.writeVarInt value) := by
  have hloop := writeVarIntLoop_inBounds h value
  refine .bind (remaining_all h) (.ite (fun _ => .pure (.refl h)) fun _ => ?_)
  exact .bind hloop.notes (.pure hloop.value)

theorem run_inBounds (h : w.length ≤ w.capacity) (op : WriterOp) :
    InBounds w (w.run op) := by
  cases op with
  | uInt8 value => exact writeBytes_inBounds h _ _
  | uInt16 value => exact writeBytes_inBounds h _ _
  | uInt32 value => exact writeBytes_inBounds h _ _
  | uInt64 value => exact writeBytes_inBounds h _ _
  | bytesToUInt64 numBytes value => exact writeBytesToUInt64_inBounds h numBytes value
  | varInt62 value => exact writeVarInt62_inBounds h value
  | varInt value => exact writeVarInt_inBounds h value
  | bytes data dataLen => exact writeBytes_inBounds h data dataLen
  | seek length => exact seek_inBounds h length

/-- After any operations what is written is in the buffer. -/
theorem runAll_le (h : w.length ≤ w.capacity) (ops : List WriterOp) :
    (w.runAll ops).length ≤ (w.runAll ops).capacity ∧
      (w.runAll ops).capacity = w.capacity := by
  induction ops generalizing w with
  | nil => exact ⟨h, rfl⟩
  | cons op ops ih =>
    have hop := run_inBounds h op
    obtain ⟨hlength, hcapacity⟩ := ih hop.value.le_capacity
    exact ⟨hlength, hcapacity.trans hop.value.capacity_eq⟩

end RawWriter

/-- Whatever operations are carried out on a reader or a writer, the cursors stay in the buffer,
    and the next operation only looks at what is unread, or stores in what is not written, with
    no difference that wraps around. -/
theorem cursors_in_bounds :
    (∀ (data : Memory) (len : UInt64) (e : Endianness) (ops : List ReaderOp),
      let r := (RawReader.new data len e).runAll ops
      r.pos ≤ r.len ∧ r.len ≤ len ∧ ∀ op, (r.run op).All (Access.Within r.pos r.len)) ∧
    ∀ (buffer : Memory) (size : UInt64) (e : Endianness) (ops : List WriterOp),
      let w := (RawWriter.new buffer size e).runAll ops
      w.length ≤ w.capacity ∧ w.capacity = size ∧
        ∀ op, (w.run op).All (Access.Within w.length w.capacity) := by
  refine ⟨fun data len e ops => ?_, fun buffer size e ops => ?_⟩
  · obtain ⟨hpos, hlen⟩ := RawReader.runAll_le (r := .new data len e) UInt64.zero_le ops
    exact ⟨hpos, hlen, fun op => (RawReader.run_inBounds hpos op).notes⟩
  · obtain ⟨hlength, hcapacity⟩ := RawWriter.runAll_le (w := .new buffer size e) UInt64.zero_le ops
    exact ⟨hlength, hcapacity, fun op => (RawWriter.run_inBounds hlength op).notes⟩

/-- An integer of two bytes, the first of which is looked at twice. -/
example : ((RawReader.new (.ofBytes [0x40, 0x19]) 2 .networkByteOrder).run .varInt62).notes =
    [.sub 2 0, .load 0, .load 0, .load 1] := by decide

end DashDim
