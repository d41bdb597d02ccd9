import DashDim.Codec.RoundTrip

/-!
# Reads that fail

A read that fails is to make all further ones fail: `onFailure` gives up what is unread. The
reads that ask for a number of bytes do so. Those of a variable length, and that of an integer
that is too wide, fail on their own and leave the reader where it is: after one of them there
is something to read unless there was nothing before it (`poisoned_iff`).
-/

namespace DashDim

/-- The operations of a `DataReader`, with their arguments. -/
inductive ReaderOp
  | uInt8
  | uInt16
  | uInt32
  | uInt64
  | bytesToUInt64 (numBytes : UInt64)
  | varInt62
  | varInt
  | bytes (size : UInt32)
  | seek (size : UInt64)
  | truncateRemaining (truncationLength : UInt64)
  | peekByte
  deriving DecidableEq, Repr

namespace ReaderOp

/-- Whether a read succeeds, and the reader after it. -/
def succeeds {α : Type} (p : Option α × DataReader) : Bool × DataReader := (p.1.isSome, p.2)

/-- Whether the operation succeeds, and the reader after it. -/
def run (r : DataReader) : ReaderOp → Bool × DataReader
  | uInt8 => succeeds r.readUInt8
  | uInt16 => succeeds r.readUInt16
  | uInt32 => succeeds r.readUInt32
  | uInt64 => succeeds r.readUInt64
  | bytesToUInt64 numBytes => succeeds (r.readBytesToUInt64 numBytes.toNat)
  | varInt62 => succeeds r.readVarInt62
  | varInt => succeeds r.readVarInt
  | bytes size => succeeds (r.readBytes size.toNat)
  | seek size => r.seek size.toNat
  | truncateRemaining truncationLength => r.truncateRemaining truncationLength.toNat
  | peekByte => (true, r)

/-- The reader after a sequence of operations. -/
def runAll (r : DataReader) (ops : List ReaderOp) : DataReader :=
  ops.foldl (fun r op => (run r op).2) r

/-- The operations that take bytes off the reader. -/
def IsRead : ReaderOp → Prop
  | truncateRemaining _ | peekByte => False
  | _ => True

/-- The reads of at least one byte. -/
def ReadsByte : ReaderOp → Prop
  | bytesToUInt64 numBytes => 0 < numBytes.toNat
  | bytes size => 0 < size.toNat
  | seek size => 0 < size.toNat
  | truncateRemaining _ | peekByte => False
  | _ => True

/-- The reads whose check does not end in `onFailure`: of a variable length, and of an integer
    of more than 8 bytes. -/
def OwnCheck : ReaderOp → Prop
  | varInt62 | varInt => True
  | bytesToUInt64 numBytes => 8 < numBytes.toNat
  | _ => False

/-- How many bytes the reads ask for that have no check of their own. -/
def asked : ReaderOp → ℕ
  | uInt8 => 1
  | uInt16 => 2
  | uInt32 => 4
  | uInt64 => 8
  | bytesToUInt64 numBytes => numBytes.toNat
  | bytes size => size.toNat
  | seek size => size.toNat
  | varInt62 | varInt | truncateRemaining _ | peekByte => 0

end ReaderOp

/-- Every read of at least one byte fails, after any operations. -/
def DataReader.Poisoned (r : DataReader) : Prop :=
  ∀ ops (op : ReaderOp), op.ReadsByte → (ReaderOp.run (ReaderOp.runAll r ops) op).1 = false

namespace DataReader

variable {r : DataReader}

theorem readBytes_eq {n : ℕ} (hn : n < 2 ^ 32) : r.readBytes n =
    if n ≤ r.bytesRemaining then (some ((r.data.drop r.pos).take n), r.advancePos n)
    else (none, r.onFailure) := by
  rw [readBytes, Nat.mod_eq_of_lt hn, canRead, bytesRemaining]
  simp only [decide_eq_true_eq]

theorem readUInt_eq {n : ℕ} (hn : n < 2 ^ 32) :
    (r.readUInt n).1.isSome = decide (n ≤ r.bytesRemaining) ∧
      (r.readUInt n).2 = if n ≤ r.bytesRemaining then r.advancePos n else r.onFailure := by
  rw [readUInt, readBytes_eq hn]
  split_ifs with h
  · exact ⟨(decide_eq_true h).symm, rfl⟩
  · exact ⟨(decide_eq_false h).symm, rfl⟩

theorem readVarInt62_none (h : r.readVarInt62.1 = none) : r.readVarInt62.2 = r := by
  rw [readVarInt62] at h ⊢
  split_ifs at h ⊢ <;> rfl

theorem readVarInt_none (h : r.readVarInt.1 = none) : r.readVarInt.2 = r := by
  rw [readVarInt] at h ⊢
  generalize r.varIntScan r.bytesRemaining 0 0 = scan at h ⊢
  obtain ⟨length, decodable⟩ := scan
  dsimp only at h ⊢
  split_ifs at h ⊢
  rfl

theorem readVarInt62_exhausted (h : r.bytesRemaining = 0) : r.readVarInt62 = (none, r) := by
  rw [readVarInt62, h]
  rfl

theorem readVarInt_exhausted (h : r.bytesRemaining = 0) : r.readVarInt = (none, r) := by
  rw [readVarInt, h]
  rfl

end DataReader

namespace ReaderOp

open DataReader

variable {r : DataReader}

/-- A read with no check of its own takes what it asks for, or gives up what is unread. -/
theorem run_eq {op : ReaderOp} (hread : op.IsRead) (hown : ¬op.OwnCheck) : run r op =
    (decide (op.asked ≤ r.bytesRemaining),
      if op.asked ≤ r.bytesRemaining then r.advancePos op.asked else r.onFailure) := by
  have hbytes : ∀ {α : Type} {n : ℕ} (g : Bytes → α), n < 2 ^ 32 →
      succeeds (Read.map g (readBytes · n) r) = (decide (n ≤ r.bytesRemaining),
        if n ≤ r.bytesRemaining then r.advancePos n else r.onFailure) := by
    intro α n g hn
    rw [Read.map, readBytes_eq hn, succeeds]
    split_ifs with h
    · rw [decide_eq_true h]
      rfl
    · rw [decide_eq_false h]
      rfl
  have huint : ∀ {α : Type} {n : ℕ} (g : ℕ → α), n < 2 ^ 32 →
      succeeds (Read.map g (readUInt · n) r) = (decide (n ≤ r.bytesRemaining),
        if n ≤ r.bytesRemaining then r.advancePos n else r.onFailure) := by
    intro α n g hn
    obtain ⟨hsome, hafter⟩ := readUInt_eq (r := r) hn
    rw [Read.map, succeeds, Option.isSome_map, hsome, hafter]
  cases op with
  | uInt8 => exact hbytes _ (by decide)
  | uInt16 => exact huint _ (by decide)
  | uInt32 => exact huint _ (by decide)
  | uInt64 => exact huint _ (by decide)
  | bytesToUInt64 numBytes =>
    -- the two byte orders store it in different places, and ask for the same bytes
    have hle : ¬numBytes.toNat > 8 := hown
    rw [run, readBytesToUInt64, if_neg hle, asked]
    split_ifs with hhost h h
    · rw [hbytes _ (by omega), if_pos h]
    · rw [hbytes _ (by omega), if_neg h]
    · rw [hbytes _ (by omega), if_pos h]
    · rw [hbytes _ (by omega), if_neg h]
  | varInt62 => exact absurd trivial hown
  | varInt => exact absurd trivial hown
  | bytes size =>
    have hid := hbytes id size.toNat_lt
    rw [Read.map, Option.map_id] at hid
    exact hid
  | seek size =>
    rw [run, asked, DataReader.seek, canRead, ← bytesRemaining]
    simp only [decide_eq_true_eq]
    split_ifs with h
    · rw [decide_eq_true h]
    · rw [decide_eq_false h]
  | truncateRemaining truncationLength => exact absurd hread id
  | peekByte => exact absurd hread id

/-- A check of its own fails where the reader is. -/
theorem run_ownCheck {op : ReaderOp} (hown : op.OwnCheck) (hfail : (run r op).1 = false) :
    (run r op).2 = r := by
  cases op with
  | varInt62 =>
    exact readVarInt62_none (Option.not_isSome_iff_eq_none.1 (Bool.eq_false_iff.1 hfail))
  | varInt => exact readVarInt_none (Option.not_isSome_iff_eq_none.1 (Bool.eq_false_iff.1 hfail))
  | bytesToUInt64 numBytes =>
    have hwide : numBytes.toNat > 8 := hown
    rw [run, readBytesToUInt64, if_pos hwide, succeeds]
  | _ => exact absurd hown id

/-! ## An exhausted reader -/

theorem ReadsByte.isRead {op : ReaderOp} (h : op.ReadsByte) : op.IsRead := by
  cases op <;> trivial

theorem ReadsByte.asked_pos {op : ReaderOp} (h : op.ReadsByte) (hown : ¬op.OwnCheck) :
    0 < op.asked := by
  cases op with
  | bytesToUInt64 | bytes | seek => exact h
  | uInt8 | uInt16 | uInt32 | uInt64 => exact Nat.succ_pos _
  | varInt62 | varInt => exact absurd trivial hown
  | truncateRemaining | peekByte => exact absurd h id

theorem ownCheck_exhausted {op : ReaderOp} (hown : op.OwnCheck) (h : r.bytesRemaining = 0) :
    (run r op).1 = false := by
  cases op with
  | varInt62 => rw [run, readVarInt62_exhausted h]; rfl
  | varInt => rw [run, readVarInt_exhausted h]; rfl
  | bytesToUInt64 numBytes =>
    have hwide : numBytes.toNat > 8 := hown
    rw [run, readBytesToUInt64, if_pos hwide]
    rfl
  | _ => exact absurd hown id

/-- With nothing unread every read of a byte fails. -/
theorem readsByte_exhausted {op : ReaderOp} (hop : op.ReadsByte) (h : r.bytesRemaining = 0) :
    (run r op).1 = false := by
  by_cases hown : op.OwnCheck
  · exact ownCheck_exhausted hown h
  · have hpos := hop.asked_pos hown
    rw [run_eq hop.isRead hown, h]
    exact decide_eq_false (by omega)

/-- And no operation brings anything back. -/
theorem run_exhausted {op : ReaderOp} (h : r.bytesRemaining = 0) :
    (run r op).2.bytesRemaining = 0 := by
  by_cases hread : op.IsRead
  · by_cases hown : op.OwnCheck
    · rw [run_ownCheck hown (ownCheck_exhausted hown h)]
      exact h
    · rw [run_eq hread hown]
      rw [bytesRemaining] at h
      dsimp only
      split_ifs
      · exact Nat.sub_eq_zero_of_le ((Nat.sub_eq_zero_iff_le.1 h).trans (Nat.le_add_right _ _))
      · exact Nat.sub_self r.len
  · cases op with
    | truncateRemaining truncationLength =>
      rw [run, DataReader.truncateRemaining, h]
      split_ifs with hle
      · exact h
      · rw [Nat.le_zero.1 (not_lt.1 hle)]
        exact Nat.sub_self r.pos
    | peekByte => exact h
    | _ => exact absurd trivial hread

theorem poisoned_exhausted (h : r.bytesRemaining = 0) : r.Poisoned := by
  intro ops op hop
  refine readsByte_exhausted hop ?_
  induction ops generalizing r with
  | nil => exact h
  | cons op ops ih => exact ih (run_exhausted h)

/-- Where a byte is unread it can be read. -/
theorem bytesRemaining_of_poisoned (h : r.Poisoned) : r.bytesRemaining = 0 := by
  have hnext := h [] uInt8 trivial
  rw [runAll, List.foldl_nil, run_eq (show uInt8.IsRead from trivial) id] at hnext
  have hnone : ¬1 ≤ r.bytesRemaining := of_decide_eq_false hnext
  omega

/-- After a read that fails all further ones fail, unless there was something to read and the
    check was one of its own. -/
theorem poisoned_iff (data : Bytes) (e : Endianness) (ops : List ReaderOp) (op : ReaderOp)
    (hread : op.IsRead) (hfail : (run (runAll (DataReader.new data e) ops) op).1 = false) :
    (run (runAll (DataReader.new data e) ops) op).2.Poisoned ↔
      (runAll (DataReader.new data e) ops).bytesRemaining = 0 ∨ ¬op.OwnCheck := by
  generalize runAll (DataReader.new data e) ops = r at hfail ⊢
  constructor
  · intro hpoisoned
    by_cases hown : op.OwnCheck
    · rw [run_ownCheck hown hfail] at hpoisoned
      exact .inl (bytesRemaining_of_poisoned hpoisoned)
    · exact .inr hown
  · rintro (h | hown)
    · exact poisoned_exhausted (run_exhausted h)
    · rw [run_eq hread hown] at hfail ⊢
      refine poisoned_exhausted ?_
      dsimp only at hfail ⊢
      rw [if_neg (of_decide_eq_false hfail)]
      exact Nat.sub_self r.len

/-- The first of two bytes of an integer, and not the second. -/
theorem poisoned_iff_truncated :
    (run (DataReader.new [0x40]) varInt62).2.Poisoned ↔
      (DataReader.new [0x40]).bytesRemaining = 0 ∨ ¬varInt62.OwnCheck :=
  poisoned_iff [0x40] .networkByteOrder [] varInt62 trivial (by decide)

/-- It fails, and the byte is read as another integer. -/
theorem not_poisoned_truncated : (run (DataReader.new [0x40]) varInt62).1 = false ∧
    (run (run (DataReader.new [0x40]) varInt62).2 uInt8).1 = true ∧
    ¬(run (DataReader.new [0x40]) varInt62).2.Poisoned := by
  refine ⟨by decide, by decide, fun hpoisoned => ?_⟩
  have hfails := hpoisoned [] uInt8 trivial
  revert hfails
  decide

end ReaderOp

end DashDim
