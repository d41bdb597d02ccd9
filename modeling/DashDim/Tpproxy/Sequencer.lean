import DashDim.Lib.Bytes
import DashDim.Lib.IntervalSet
import DashDim.Lib.Reassembly

/-!
# The stream sequencer

The vendored `QuicStreamSequencer` puts the segments of a stream in order
(`sequencer/quic_stream_sequencer.cc` and `quic_stream_sequencer_buffer.cc`), as
far as the proxy uses it: no final offset, never blocked, edge-triggered. It keeps
the offsets it has received as a set of intervals, and the bytes in a circular
buffer; the blocks this buffer is allocated in are one array here. Offsets are
natural numbers: those of the proxy are below `2 ^ 62`.

* `onStreamData_eq`: a segment of new offsets, within the limits, is received;
* `Holds.receive`, `Holds.read`: the buffer holds the bytes of the stream it has
  received and not read, and reading gives those up to the first one missing.
-/

namespace DashDim

/-- The largest number of packets in between. -/
def kMaxPacketGap : ℕ := 5000

/-- The size of the circular buffer. -/
def kStreamReceiveWindowLimit : ℕ := 64 * 1024 * 1024

/-- The number of intervals that is too many. -/
def kMaxNumDataIntervalsAllowed : ℕ := 2 * kMaxPacketGap

/-- The results of `onStreamData`. -/
inductive QuicErrorCode
  | noError
  | emptyStreamFrameNoFin
  | internalError
  | tooManyStreamDataIntervals
  deriving DecidableEq, Repr

/-- The offsets received, the number of bytes read, and the circular buffer. -/
structure SequencerBuffer where
  bytesReceived : IntervalSet ℕ
  totalBytesRead : ℕ
  memory : ℕ → UInt8

namespace SequencerBuffer

/-- A buffer in which nothing has been received. -/
def new : SequencerBuffer := ⟨∅, 0, fun _ => 0⟩

/-- The place of an offset in the circular buffer. -/
def slot (offset : ℕ) : ℕ := offset % kStreamReceiveWindowLimit

/-- Copying `data` to the places from that of `offset` on. -/
def copyStreamData : ℕ → Bytes → (ℕ → UInt8) → ℕ → UInt8
  | _, [], memory => memory
  | offset, b :: data, memory =>
    copyStreamData (offset + 1) data (Function.update memory (slot offset) b)

/-- Receiving `data` at `startingOffset`: the result, and how many bytes are new. -/
def onStreamData (startingOffset : ℕ) (data : Bytes) (b : SequencerBuffer) :
    (QuicErrorCode × ℕ) × SequencerBuffer :=
  let size := data.length
  if size = 0 then ((.emptyStreamFrameNoFin, 0), b)
  else if startingOffset + size > b.totalBytesRead + kStreamReceiveWindowLimit ∨
      startingOffset + size ≥ 2 ^ 64 then ((.internalError, 0), b)
  else
    let received := b.bytesReceived.add startingOffset (startingOffset + size)
    if b.bytesReceived.isDisjoint startingOffset (startingOffset + size) then
      if received.size ≥ kMaxNumDataIntervalsAllowed then
        ((.tooManyStreamDataIntervals, 0), { b with bytesReceived := received })
      else
        ((.noError, size), { b with
          bytesReceived := received, memory := copyStreamData startingOffset data b.memory })
    else
      -- some of it has been received: only the rest is copied
      let newlyReceived := (List.range size).filter (startingOffset + · ∉ b.bytesReceived)
      if newlyReceived = [] then ((.noError, 0), b)
      else if received.size ≥ kMaxNumDataIntervalsAllowed then
        ((.tooManyStreamDataIntervals, 0), { b with bytesReceived := received })
      else
        ((.noError, newlyReceived.length), { b with
          bytesReceived := received
          memory := newlyReceived.foldl
            (fun m i => copyStreamData (startingOffset + i) [data.getD i 0] m) b.memory })

variable (b : SequencerBuffer)

/-- The first offset that is not received. -/
def firstMissingByte : ℕ := b.bytesReceived.firstGap

/-- Where the data received ends. -/
def nextExpectedByte : ℕ := (b.bytesReceived.intervals.getLast?.map Prod.snd).getD 0

/-- `ReadableBytes`. -/
def readableBytes : ℕ := b.firstMissingByte - b.totalBytesRead

/-- What is received is before the end of the last interval. -/
theorem lt_nextExpectedByte {x : ℕ} (hx : x ∈ b.bytesReceived) : x < b.nextExpectedByte := by
  obtain ⟨i, hi, -, hlt⟩ := hx
  have hgaps := b.bytesReceived.gaps
  have hnonempty := b.bytesReceived.nonempty
  rw [nextExpectedByte]
  generalize b.bytesReceived.intervals = l at hi hgaps hnonempty ⊢
  rcases List.eq_nil_or_concat l with rfl | ⟨before, last, rfl⟩
  · exact absurd hi List.not_mem_nil
  · rw [List.concat_eq_append] at hi hgaps hnonempty ⊢
    rw [List.getLast?_concat, Option.map_some, Option.getD_some]
    rcases List.mem_append.1 hi with hi | hi
    · have hmem : last ∈ before ++ [last] := List.mem_append_right _ (List.mem_singleton_self last)
      have hgap := (List.pairwise_append.1 hgaps).2.2 i hi last (List.mem_singleton_self last)
      exact hlt.trans (hgap.trans (hnonempty last hmem))
    · obtain rfl := List.mem_singleton.1 hi
      exact hlt

/-- Reading all that is readable. -/
def read : Bytes × SequencerBuffer :=
  ((List.range b.readableBytes).map fun i => b.memory (slot (b.totalBytesRead + i)),
    { b with totalBytesRead := b.totalBytesRead + b.readableBytes })

/-! ## The circular buffer -/

/-- In a window no longer than the buffer, offsets have places of their own. -/
theorem slot_inj {base x y : ℕ} (hx : base ≤ x) (hx' : x < base + kStreamReceiveWindowLimit)
    (hy : base ≤ y) (hy' : y < base + kStreamReceiveWindowLimit) (h : slot x = slot y) :
    x = y := by
  have hdiv : ∀ n, n = kStreamReceiveWindowLimit * (n / kStreamReceiveWindowLimit) + slot n :=
    fun n => (Nat.div_add_mod n _).symm
  have hpos : 0 < kStreamReceiveWindowLimit := by decide
  have hdx := hdiv x
  have hdy := hdiv y
  rw [h] at hdx
  generalize x / kStreamReceiveWindowLimit = p at hdx
  generalize y / kStreamReceiveWindowLimit = q at hdy
  rcases lt_trichotomy p q with hpq | rfl | hqp
  · have hle := Nat.mul_le_mul_left kStreamReceiveWindowLimit (Nat.succ_le_of_lt hpq)
    rw [Nat.succ_eq_add_one, Nat.mul_add, Nat.mul_one] at hle
    omega
  · exact hdx.trans hdy.symm
  · have hle := Nat.mul_le_mul_left kStreamReceiveWindowLimit (Nat.succ_le_of_lt hqp)
    rw [Nat.succ_eq_add_one, Nat.mul_add, Nat.mul_one] at hle
    omega

/-- Copying within a window changes the places of what is copied, and no others. -/
theorem copyStreamData_eq {base offset : ℕ} {data : Bytes} {memory : ℕ → UInt8}
    (hbase : base ≤ offset) (hend : offset + data.length ≤ base + kStreamReceiveWindowLimit)
    {x : ℕ} (hx : base ≤ x) (hx' : x < base + kStreamReceiveWindowLimit) :
    copyStreamData offset data memory (slot x) =
      if offset ≤ x ∧ x < offset + data.length then data.getD (x - offset) 0
      else memory (slot x) := by
  induction data generalizing offset memory with
  | nil => rw [copyStreamData, if_neg (by rw [List.length_nil]; omega)]
  | cons b data ih =>
    rw [List.length_cons] at hend ⊢
    rw [copyStreamData, ih (by omega) (by omega)]
    by_cases heq : x = offset
    · rw [if_neg (by omega), if_pos (by omega), heq, Function.update_self, Nat.sub_self,
        List.getD_cons_zero]
    · have hslot : slot x ≠ slot offset := fun h =>
        heq (slot_inj hx hx' hbase (by omega) h)
      rw [Function.update_of_ne hslot]
      by_cases hin : offset + 1 ≤ x ∧ x < offset + 1 + data.length
      · rw [if_pos hin, if_pos (by omega), show x - offset = x - (offset + 1) + 1 by omega,
          List.getD_cons_succ]
      · rw [if_neg hin, if_neg (by omega)]

/-! ## What the buffer holds -/

/-- The limits of the sequencer for a segment. -/
def WithinLimits (startingOffset size : ℕ) : Prop :=
  startingOffset + size ≤ b.totalBytesRead + kStreamReceiveWindowLimit ∧
    (b.bytesReceived.add startingOffset (startingOffset + size)).size <
      kMaxNumDataIntervalsAllowed

instance (startingOffset size : ℕ) : Decidable (b.WithinLimits startingOffset size) :=
  instDecidableAnd

/-- The buffer holds the bytes of the stream it has received and not read. -/
def Holds (sent : Bytes) : Prop :=
  ∀ x ∈ b.bytesReceived, b.totalBytesRead ≤ x →
    x < b.totalBytesRead + kStreamReceiveWindowLimit ∧ sent[x]? = some (b.memory (slot x))

variable {b}

/-- New bytes within the limits are received and copied. -/
theorem onStreamData_eq {s : Segment UInt8} (hne : s.data ≠ [])
    (hnew : ∀ x, s.Covers x → x ∉ b.bytesReceived) (hlim : b.WithinLimits s.offset s.data.length)
    (hlt : s.offset + s.data.length < 2 ^ 64) :
    b.onStreamData s.offset s.data = ((.noError, s.data.length), { b with
      bytesReceived := b.bytesReceived.add s.offset (s.offset + s.data.length)
      memory := copyStreamData s.offset s.data b.memory }) := by
  have hpos := List.length_pos_iff.2 hne
  have hdisj : b.bytesReceived.isDisjoint s.offset (s.offset + s.data.length) = true :=
    (IntervalSet.isDisjoint_iff (by omega)).2 fun x hx hcov => hnew x hcov hx
  obtain ⟨hrange, hsize⟩ := hlim
  rw [onStreamData]
  dsimp only
  rw [if_neg (by omega), if_neg (by omega), if_pos hdisj, if_neg (by omega)]

/-- Receiving a segment of the stream. -/
theorem Holds.receive {sent : Bytes} {s : Segment UInt8} (h : b.Holds sent)
    (hpart : s.PartOf sent) (hlim : b.WithinLimits s.offset s.data.length)
    (hnew : ∀ x, s.Covers x → b.totalBytesRead ≤ x) :
    SequencerBuffer.Holds ({ b with
      bytesReceived := b.bytesReceived.add s.offset (s.offset + s.data.length)
      memory := copyStreamData s.offset s.data b.memory }) sent := by
  have hpos := List.length_pos_iff.2 hpart.1
  have hbase : b.totalBytesRead ≤ s.offset := hnew s.offset ⟨le_rfl, by omega⟩
  intro x hx hread
  dsimp only at hread ⊢
  rcases IntervalSet.mem_add.1 hx with hcov | hx
  · have hlt := hlim.1
    refine ⟨by omega, ?_⟩
    rw [copyStreamData_eq hbase hlim.1 hread (by omega), if_pos hcov, hpart.getElem? hcov,
      List.getD_eq_getElem?_getD, List.getElem?_eq_getElem (by omega)]
    rfl
  · obtain ⟨hlt, hget⟩ := h x hx hread
    refine ⟨hlt, ?_⟩
    rw [copyStreamData_eq hbase hlim.1 hread hlt]
    by_cases hcov : s.offset ≤ x ∧ x < s.offset + s.data.length
    · rw [if_pos hcov, hpart.getElem? hcov, List.getD_eq_getElem?_getD,
        List.getElem?_eq_getElem (by omega)]
      rfl
    · rw [if_neg hcov, hget]

/-- The stream goes on. -/
theorem Holds.append {sent : Bytes} (h : b.Holds sent) (data : Bytes) :
    b.Holds (sent ++ data) := by
  intro x hx hread
  obtain ⟨hlt, hget⟩ := h x hx hread
  refine ⟨hlt, ?_⟩
  have hlen : x < sent.length := (List.getElem?_eq_some_iff.1 hget).1
  rw [List.getElem?_append_left hlen, hget]

/-- Reading gives the bytes of the stream up to the first one missing. -/
theorem Holds.read_eq {sent : Bytes} (h : b.Holds sent) :
    b.read.1 = (sent.drop b.totalBytesRead).take b.readableBytes := by
  apply List.ext_getElem?
  intro i
  rw [read, List.getElem?_map, List.getElem?_take, List.getElem?_drop]
  by_cases hi : i < b.readableBytes
  · have hmem : b.totalBytesRead + i ∈ b.bytesReceived := by
      apply IntervalSet.mem_of_lt_firstGap
      rw [readableBytes, firstMissingByte] at hi
      omega
    rw [if_pos hi, (h _ hmem (Nat.le_add_right _ _)).2, List.getElem?_range hi]
    rfl
  · rw [if_neg hi, List.getElem?_eq_none (by rw [List.length_range]; omega)]
    rfl

/-- What is read is not held any more. -/
theorem Holds.read {sent : Bytes} (h : b.Holds sent) : b.read.2.Holds sent := by
  intro x hx hread
  have hle : b.totalBytesRead ≤ x := (Nat.le_add_right _ _).trans hread
  obtain ⟨hlt, hget⟩ := h x hx hle
  refine ⟨?_, hget⟩
  rw [SequencerBuffer.read]
  dsimp only
  omega

end SequencerBuffer

end DashDim
