import DashDim.Tpproxy.Multipath

/-!
# Overrunning the sequencer

The near end stops giving data to a path that has much to write, and knows nothing
of how far behind the far end is: the sequencer has nobody to tell what it has
consumed (`AddBytesConsumed` of `TpServerBase` does nothing). The limits of the
sequencer hold as far as the paths keep together.

* `overrun_two_paths`: one path stalls with its first frame, another goes on for
  64 MiB, and the sequencer refuses its next frame;
* `accepts_of_together`: in runs in which no data frame is handed on that ends more
  than the window after the oldest data in flight, or with too many in flight that
  start before the end of what is handed on, each frame is accepted, and no byte of the
  stream is lost;
* `together_of_one_path`: a run over a single path is always one of these.
-/

namespace DashDim

/-! ## What the sequencer accepts -/

/-- The sequencer takes the data of a frame, if it is one of data, without an error. -/
def FarEnd.Accepts (f : Frame) (far : FarEnd) : Prop :=
  f.offset ≥ kReserveOffset →
    (far.sequencer.onStreamData (f.offset - kReserveOffset).toNat
      (f.payload.take (f.payload.length % 2 ^ 16))).1.1 = .noError

/-- It takes frames handed on one after the other. -/
def FarEnd.AcceptsAll : List Frame → FarEnd → Prop
  | [], _ => True
  | f :: fs, far => far.Accepts f ∧
    ∀ far', FarEnd.receiver.handOn f.offset f.payload far = some far' → AcceptsAll fs far'

/-- Nothing has arrived that is beyond what is missing. -/
def FarEnd.InOrder (far : FarEnd) : Prop :=
  ∀ x ∈ far.sequencer.bytesReceived, x < far.sequencer.firstMissingByte

/-- The data received ends no later than any bound of it. -/
theorem SequencerBuffer.nextExpectedByte_le {b : SequencerBuffer} {m : ℕ}
    (h : ∀ x ∈ b.bytesReceived, x < m) : b.nextExpectedByte ≤ m := by
  rw [nextExpectedByte]
  rcases hlast : b.bytesReceived.intervals.getLast? with _ | last
  · exact Nat.zero_le m
  · have hmem := List.mem_of_getLast? hlast
    have hnonempty := b.bytesReceived.nonempty last hmem
    have hlt := h (last.2 - 1) ⟨last, hmem, by omega, by omega⟩
    rw [Option.map_some, Option.getD_some]
    omega

/-- A set of offsets that have arrived has no more intervals than there are segments in
    flight that start before its end, and one. -/
theorem Tiles.size_le {α : Type*} {sent : List α} {flight : Multiset (Segment α)}
    {received : IntervalSet ℕ} {reached : ℕ} (h : Tiles sent flight (· ∈ received))
    (hreached : ∀ x ∈ received, x < reached) :
    received.size ≤ Multiset.card (flight.filter fun s => s.offset < reached) + 1 := by
  rw [IntervalSet.size]
  rcases List.eq_nil_or_concat received.intervals with hnil | ⟨before, last, hlast⟩
  · rw [hnil]
    exact Nat.zero_le _
  have hgaps := received.gaps
  rw [hlast, List.concat_eq_append] at hgaps
  obtain ⟨hbefore, -, hend⟩ := List.pairwise_append.1 hgaps
  have hmem : ∀ i ∈ before ++ [last], i ∈ received.intervals := by
    rw [hlast, List.concat_eq_append]
    exact fun i hi => hi
  -- the intervals but the last one end with an offset that is missing
  have hle : (before.map Prod.snd).length ≤
      Multiset.card (flight.filter fun s => s.offset < reached) := by
    refine h.length_le_card (fun x hx => ?_) ?_
    · obtain ⟨i, hi, rfl⟩ := List.mem_map.1 hx
      have hlt := hend i hi last (List.mem_singleton_self last)
      have hin : last.1 ∈ received :=
        ⟨last, hmem last (by simp), le_rfl, received.nonempty _ (hmem last (by simp))⟩
      exact ⟨hlt.trans (hreached _ hin), hlt.trans (h.arrived_lt _ hin),
        IntervalSet.snd_not_mem (hmem i (List.mem_append_left _ hi))⟩
    · refine List.pairwise_map.2 (List.Pairwise.imp_of_mem (fun {i j} _ hj hij => ?_) hbefore)
      have hj := hmem j (List.mem_append_left _ hj)
      exact ⟨j.1, hij, received.nonempty j hj, ⟨j, hj, le_rfl, received.nonempty j hj⟩⟩
  rw [hlast, List.length_concat]
  rw [List.length_map] at hle
  exact Nat.succ_le_succ hle

namespace FarEnd.Reassembles

variable {sent : Bytes} {flight : Multiset (Segment UInt8)} {far : FarEnd}

/-- What is in flight starts where data is missing, or beyond it. -/
theorem firstMissingByte_le (h : far.Reassembles sent flight) {s : Segment UInt8}
    (hs : s ∈ flight) : far.sequencer.firstMissingByte ≤ s.offset := by
  obtain ⟨rest, rfl⟩ := Multiset.exists_cons_of_mem hs
  have hpos := List.length_pos_iff.2 (h.tiles.partOf s hs).1
  have hcov : s.Covers s.offset := ⟨le_rfl, by omega⟩
  by_contra hlt
  exact h.tiles.not_arrived hcov (IntervalSet.mem_of_lt_firstGap (not_le.1 hlt))

/-- What is consumed is where the oldest data in flight starts, or is beyond it. -/
theorem exists_offset_le (h : far.Reassembles sent flight) {s : Segment UInt8} (hs : s ∈ flight) :
    ∃ a ∈ flight, a.offset ≤ far.sequencer.totalBytesRead := by
  have hpart := h.tiles.partOf s hs
  have hpos := List.length_pos_iff.2 hpart.1
  have hlt : far.sequencer.firstMissingByte < sent.length :=
    (h.firstMissingByte_le hs).trans_lt (hpart.covers_lt ⟨le_rfl, by omega⟩)
  obtain ⟨a, ha, hcova⟩ := h.tiles.exists_covers hlt (IntervalSet.firstGap_not_mem _)
  refine ⟨a, ha, ?_⟩
  rw [h.allRead]
  exact hcova.1

/-- Data in flight that ends no more than the window after all that is in flight, with few
    enough segments that start before the end of what is received, is within the limits. -/
theorem withinLimits (h : far.Reassembles sent flight) {s : Segment UInt8} (hs : s ∈ flight)
    {reached : ℕ} (hreached : ∀ x ∈ far.sequencer.bytesReceived, x < reached)
    (hwindow : ∀ a ∈ flight, s.offset + s.data.length ≤ a.offset + kStreamReceiveWindowLimit)
    (hcard : Multiset.card (flight.filter fun a =>
      a.offset < max reached (s.offset + s.data.length)) < kMaxNumDataIntervalsAllowed) :
    far.sequencer.WithinLimits s.offset s.data.length := by
  obtain ⟨a, ha, hle⟩ := h.exists_offset_le hs
  refine ⟨(hwindow a ha).trans (Nat.add_le_add_right hle _), ?_⟩
  have hpos := List.length_pos_iff.2 (h.tiles.partOf s hs).1
  obtain ⟨rest, rfl⟩ := Multiset.exists_cons_of_mem hs
  rw [Multiset.filter_cons_of_pos _ (by omega), Multiset.card_cons] at hcard
  have htiles : Tiles sent rest (· ∈ far.sequencer.bytesReceived.add s.offset
      (s.offset + s.data.length)) :=
    h.tiles.arrive.congr fun x => IntervalSet.mem_add
  refine (htiles.size_le fun x hx => ?_).trans_lt hcard
  rcases IntervalSet.mem_add.1 hx with hx | hx
  · exact hx.2.trans_le (le_max_right _ _)
  · exact (hreached x hx).trans_le (le_max_left _ _)

/-- What is received with a frame of data ends where it did, or with the frame. -/
theorem lt_of_recvData {f : Frame} (h : far.Reassembles sent (f.segment ::ₘ flight))
    (h' : (far.recvData f.offset f.payload).Reassembles sent flight) {reached : ℕ}
    (hreached : ∀ x ∈ far.sequencer.bytesReceived, x < reached) {x : ℕ}
    (hx : x ∈ (far.recvData f.offset f.payload).sequencer.bytesReceived) :
    x < max reached (f.segment.offset + f.segment.data.length) := by
  by_cases hold : x ∈ far.sequencer.bytesReceived
  · exact (hreached x hold).trans_le (le_max_left _ _)
  · -- what was in flight and is not any more is the frame
    obtain ⟨s, hs, hcov⟩ := h.tiles.exists_covers (h'.tiles.arrived_lt x hx) hold
    rcases Multiset.mem_cons.1 hs with rfl | hs
    · exact hcov.2.trans_le (le_max_right _ _)
    · obtain ⟨rest, rfl⟩ := Multiset.exists_cons_of_mem hs
      exact absurd hx (h'.tiles.not_arrived hcov)

/-- A frame of data that ends before all else in flight starts leaves what has arrived in
    order. -/
theorem inOrder_recvData {f : Frame} (h : far.Reassembles sent (f.segment ::ₘ flight))
    (h' : (far.recvData f.offset f.payload).Reassembles sent flight)
    (hfirst : ∀ a ∈ flight, f.segment.offset + f.segment.data.length ≤ a.offset)
    (hord : far.InOrder) : (far.recvData f.offset f.payload).InOrder := by
  intro x hx
  have hlt := h.lt_of_recvData h' hord hx
  have hle := h.firstMissingByte_le (Multiset.mem_cons_self _ _)
  by_contra hge
  -- the first byte that is missing then is of a later segment
  obtain ⟨s, hs, hcov⟩ := h'.tiles.exists_covers
    ((not_lt.1 hge).trans_lt (h'.tiles.arrived_lt x hx)) (IntervalSet.firstGap_not_mem _)
  have hmax : max far.sequencer.firstMissingByte (f.segment.offset + f.segment.data.length) =
      f.segment.offset + f.segment.data.length := max_eq_right (hle.trans (Nat.le_add_right _ _))
  rw [hmax] at hlt
  exact hge (hlt.trans_le ((hfirst s hs).trans hcov.1))

end FarEnd.Reassembles

namespace Multipath

variable {n : ℕ}

/-! ## Paths that keep together -/

/-- Frames are handed on one after the other, with `flight` in flight and what is received
    ending at `reached`: each of data ends no more than the window after any data in
    flight, and of that there start fewer segments before the end of all that is handed on
    then than the sequencer allows intervals. -/
def Together : List Frame → Multiset (Segment UInt8) → ℕ → Prop
  | [], _, _ => True
  | f :: fs, flight, reached =>
    if f.offset ≥ kReserveOffset then
      let frameEnd := f.segment.offset + f.segment.data.length
      (∀ a ∈ flight, frameEnd ≤ a.offset + kStreamReceiveWindowLimit) ∧
      Multiset.card (flight.filter fun a => a.offset < max reached frameEnd) <
        kMaxNumDataIntervalsAllowed ∧
      Together fs (flight.erase f.segment) (max reached frameEnd)
    else Together fs flight reached

/-- Frames in flight that are handed on while the paths keep together are accepted. -/
theorem accepts_handOnAll {fs : List Frame} {far : FarEnd} {sent : Bytes}
    {flight : Multiset (Segment UInt8)} {reached : ℕ}
    (h : far.Reassembles sent (segments fs + flight))
    (hpackets : ∀ f ∈ fs, f.offset ≥ kReserveOffset → f.payload.length ≤ kMaxPacketLength)
    (hreached : ∀ x ∈ far.sequencer.bytesReceived, x < reached)
    (htogether : Together fs (segments fs + flight) reached) :
    far.AcceptsAll fs ∧ ∀ far', FarEnd.receiver.handOnAll fs far = some far' →
      far.withinLimits = true → far'.withinLimits = true := by
  induction fs generalizing far reached with
  | nil =>
    refine ⟨trivial, fun far' hrun hlim => ?_⟩
    cases hrun
    exact hlim
  | cons f fs ih =>
    obtain ⟨hf, hrest⟩ := List.forall_mem_cons.1 hpackets
    rw [Together] at htogether
    rw [FarEnd.AcceptsAll, Receiver.handOnAll, Receiver.handOn]
    by_cases hoff : f.offset ≥ kReserveOffset
    · rw [segments_data hoff, Multiset.cons_add] at h htogether
      rw [if_pos hoff, Multiset.erase_cons_head] at htogether
      obtain ⟨hwindow, hcard, htogether⟩ := htogether
      have hlim := h.withinLimits (Multiset.mem_cons_self _ _) hreached hwindow hcard
      have h' := h.recvData hoff (hf hoff) hlim
      obtain ⟨haccepts, hrun⟩ := ih h' hrest (fun x => h.lt_of_recvData h' hreached) htogether
      rw [if_pos hoff, if_pos (show FarEnd.receiver.attached far = true from rfl)]
      refine ⟨⟨fun _ => ?_, fun far' hfar => ?_⟩, fun far' hfar hlim' => ?_⟩
      · rw [h.onStreamData_eq hoff (hf hoff) hlim]
      · obtain rfl := Option.some.inj hfar
        exact haccepts
      · exact hrun far' hfar (Bool.and_eq_true_iff.2 ⟨hlim', decide_eq_true hlim⟩)
    · -- a message carries nothing of the stream
      rw [segments_message hoff] at h htogether
      rw [if_neg hoff] at htogether
      obtain ⟨haccepts, hrun⟩ := ih h hrest hreached htogether
      have hsame : (if f.payload.length > 0 then
          some (FarEnd.receiver.parseMessage f.offset f.payload far) else some far) = some far :=
        ite_self _
      rw [if_neg hoff, hsame]
      refine ⟨⟨fun hge => absurd hge hoff, fun far' hfar => ?_⟩, hrun⟩
      obtain rfl := Option.some.inj hfar
      exact haccepts

/-- The frames that are complete with a chunk read from a path. -/
def handedOn (s : Multipath n) (i : Fin n) (chunk : Bytes) : List Frame :=
  (tpFraming.drain (s.readBuffers i ++ chunk)).1

/-- The frames on their way on a path. -/
def inFlight (s : Multipath n) (i : Fin n) : List Frame :=
  (tpFraming.drain (s.readBuffers i ++ s.near.wires i ++
    (s.near.connections i).fdWriteBuffer)).1

/-- The data on its way on any path. -/
def flight (s : Multipath n) : Multiset (Segment UInt8) := ∑ i, segments (s.inFlight i)

/-- The far end reads a chunk from a path, and handles the frames it completes. -/
def Receives (s : Multipath n) (i : Fin n) (chunk : Bytes) (s' : Multipath n) : Prop :=
  ∃ rest fdReadBuffer far, s.near.wires i = chunk ++ rest ∧
    FarEnd.receiver.receive chunk (s.readBuffers i) s.far = some (fdReadBuffer, far) ∧
    s' = { s with
      near := { s.near with wires := Function.update s.near.wires i rest }
      readBuffers := Function.update s.readBuffers i fdReadBuffer
      far := far }

/-- A step that, if it is one of receiving, finds the paths together. -/
def TogetherStep (s s' : Multipath n) : Prop :=
  Step s s' ∧ ((∃ i chunk, Receives s i chunk s') →
    ∃ i chunk, Receives s i chunk s' ∧
      Together (s.handedOn i chunk) s.flight s.far.sequencer.nextExpectedByte)

/-- Runs in which the paths keep together. -/
def togetherSystem (n : ℕ) : System (Multipath n) := ⟨Init, TogetherStep⟩

theorem reachable_of_together {s : Multipath n} (h : (togetherSystem n).Reachable s) :
    (system n).Reachable s := by
  induction h with
  | init h => exact .init h
  | step _ hstep ih => exact ih.step hstep.1

/-- What is in flight, split where a chunk that is read from a path ends. -/
theorem Relays.split {s : Multipath n} (h : s.Relays) (hlim : s.far.withinLimits = true)
    {i : Fin n} {chunk rest : Bytes} (hwire : s.near.wires i = chunk ++ rest) :
    ∃ sent pending todo, Carries s.readBuffers s.far sent pending s.near ∧
      pending i = s.handedOn i chunk ++ todo ∧
      s.flight = segments (s.handedOn i chunk) +
        ∑ j, segments (Function.update pending i todo j) := by
  obtain ⟨sent, pending, -, hc⟩ := h hlim
  have hinFlight : ∀ j, s.inFlight j = pending j := by
    intro j
    rw [inFlight, hc.inFlight j, Framing.drain_encodeAll]
  -- the chunk is a start of the frames in flight on the path
  have hpre : (s.readBuffers i ++ chunk) ++ (rest ++ (s.near.connections i).fdWriteBuffer) =
      tpFraming.encodeAll (pending i) := by
    rw [← hc.inFlight i, hwire]
    simp only [List.append_assoc]
  obtain ⟨todo, hpend, -, -⟩ := Framing.drain_prefix hpre
  refine ⟨sent, pending, todo, hc, hpend, ?_⟩
  exact (Finset.sum_congr rfl fun j _ => congrArg segments (hinFlight j)).trans
    (sum_segments_split hpend)

/-- What a chunk completes, while all frames were within the limits so far and the paths
    are together: it is accepted, and stays within the limits. -/
theorem Relays.receive {s : Multipath n} (h : s.Relays) (hlim : s.far.withinLimits = true)
    {i : Fin n} {chunk rest : Bytes} (hwire : s.near.wires i = chunk ++ rest)
    (htogether : Together (s.handedOn i chunk) s.flight s.far.sequencer.nextExpectedByte) :
    s.far.AcceptsAll (s.handedOn i chunk) ∧
      ∀ far', FarEnd.receiver.handOnAll (s.handedOn i chunk) s.far = some far' →
        far'.withinLimits = true := by
  obtain ⟨sent, pending, todo, hc, hpend, hflight⟩ := h.split hlim hwire
  have hreass := hc.reassembles
  rw [sum_segments_split hpend] at hreass
  rw [hflight] at htogether
  obtain ⟨haccepts, hrun⟩ := accepts_handOnAll hreass (fun f hf =>
    hc.packets i f (by rw [hpend]; exact List.mem_append_left _ hf))
    (fun x => s.far.sequencer.lt_nextExpectedByte) htogether
  exact ⟨haccepts, fun far' hfar => hrun far' hfar hlim⟩

/-- In runs in which the paths keep together, all frames are within the limits. -/
theorem withinLimits_of_together {s : Multipath n} (h : (togetherSystem n).Reachable s) :
    s.far.withinLimits = true := by
  refine h.invariant (P := fun s => s.far.withinLimits = true) ?_ ?_
  · intro s hinit
    rw [hinit.2.2.2.1]
    rfl
  · rintro s s' hs hlim ⟨hstep, htogether⟩
    have hrelays := relays_reachable (reachable_of_together hs)
    cases hstep with
    | onDataFromFd | schedule | writeMessage | connect | onWriteEvent => exact hlim
    | receive i chunk rest fdReadBuffer far hwire hrecv =>
      obtain ⟨j, chunk', ⟨rest', fdReadBuffer', far', hwire', hrecv', heq⟩, htog⟩ :=
        htogether ⟨i, chunk, rest, fdReadBuffer, far, hwire, hrecv, rfl⟩
      have hfar : far = far' := congrArg Multipath.far heq
      dsimp only
      rw [hfar]
      exact (hrelays.receive hlim hwire' htog).2 far' (handOnAll_of_receive hrecv').2

/-- In runs in which the paths keep together, the sequencer takes all frames that are
    handed on, and the far end passes on a start of what the near end has read, of which
    nothing is lost. -/
theorem accepts_of_together {s : Multipath n} (h : (togetherSystem n).Reachable s) :
    (∀ i chunk rest, s.near.wires i = chunk ++ rest →
      Together (s.handedOn i chunk) s.flight s.far.sequencer.nextExpectedByte →
      s.far.AcceptsAll (s.handedOn i chunk)) ∧
    s.far.delivered <+: s.input ∧
    (s.NothingInFlight → s.input = s.far.delivered ++ s.near.fdReadBuffer) := by
  have hlim := withinLimits_of_together h
  have hrelays := relays_reachable (reachable_of_together h)
  exact ⟨fun i chunk rest hwire htogether => (hrelays.receive hlim hwire htogether).1,
    hrelays.delivered hlim⟩

/-- A step by which data is read or scheduled is none of receiving. -/
theorem TogetherStep.of_ne {s s' : Multipath n} (h : Step s s')
    (hne : s.input ≠ s'.input ∨ s.near.fdReadBuffer ≠ s'.near.fdReadBuffer) :
    TogetherStep s s' := by
  refine ⟨h, ?_⟩
  rintro ⟨i, chunk, rest, fdReadBuffer, far, -, -, rfl⟩
  exact hne.elim (absurd rfl) (absurd rfl)

/-- The one frame of two bytes in flight is together with itself. -/
theorem together_two_bytes {s : Multipath 2} (hwire : s.near.wires = ![[], [1, 2, 7, 8]])
    (hbuffer : s.readBuffers = ![[], []])
    (hwrite : ∀ i, (s.near.connections i).fdWriteBuffer = []) :
    Together (s.handedOn 1 [1, 2, 7, 8]) s.flight s.far.sequencer.nextExpectedByte := by
  obtain ⟨f, hf⟩ : ∃ f : Frame, f = ⟨1, [7, 8], by decide, by decide⟩ := ⟨_, rfl⟩
  have hdrain : tpFraming.drain [1, 2, 7, 8] = ([f], []) := by
    rw [show [1, 2, 7, 8] = f.bytes by rw [hf]; decide, drain_frame]
  have hnil : tpFraming.drain [] = ([], []) := Framing.drain_of_none Framing.parse_nil
  have hflight : s.flight = {f.segment} := by
    rw [flight, Fin.sum_univ_two, inFlight, inFlight, hwire, hbuffer, hwrite, hwrite]
    simp only [Matrix.cons_val_zero, Matrix.cons_val_one, List.append_nil, List.nil_append,
      hdrain, hnil]
    rw [hf]
    rfl
  have hhanded : s.handedOn 1 [1, 2, 7, 8] = [f] := by
    rw [handedOn, hbuffer]
    exact congrArg Prod.fst hdrain
  rw [hhanded, hflight, hf]
  exact ⟨by decide, (Multiset.card_le_card (Multiset.filter_le _ _)).trans_lt (by decide), trivial⟩

/-- Two bytes are read, scheduled over the second of two paths, and received. -/
theorem accepts_of_together_two_bytes : ∃ s : Multipath 2, s.far.delivered = [7, 8] ∧
    (∀ i chunk rest, s.near.wires i = chunk ++ rest →
      Together (s.handedOn i chunk) s.flight s.far.sequencer.nextExpectedByte →
      s.far.AcceptsAll (s.handedOn i chunk)) ∧
    s.far.delivered <+: s.input ∧
    (s.NothingInFlight → s.input = s.far.delivered ++ s.near.fdReadBuffer) := by
  have hinit : (togetherSystem 2).Reachable
      ⟨⟨[], kReserveOffset, fun _ => ⟨3, true, false, []⟩, fun _ => []⟩, fun _ => [], .new, []⟩ :=
    .init ⟨rfl, rfl, fun _ => ⟨rfl, rfl, rfl⟩, rfl, rfl⟩
  have hread := hinit.step (.of_ne (.onDataFromFd _ [7, 8]) (.inl (by decide)))
  have hsched := hread.step (.of_ne (.schedule _ [1, 0] (fun _ _ => 0) (fun _ => [.sent 4]) _ rfl)
    (.inr (by decide)))
  have hrecv := hsched.step ⟨.receive _ 1 [1, 2, 7, 8] [] _ _ rfl rfl, fun _ =>
    ⟨1, [1, 2, 7, 8], ⟨[], [], _, rfl, rfl, rfl⟩,
      together_two_bytes (by decide) (by decide) (by decide)⟩⟩
  exact ⟨_, by decide +kernel, accepts_of_together hrecv⟩

/-! ## A single path -/

/-- Frames in order that start no earlier than what is received ends are together. -/
theorem together_of_ordered {fs gs : List Frame} {reached : ℕ}
    (hordered : (fs ++ gs).Pairwise Before)
    (hpackets : ∀ f ∈ fs, f.offset ≥ kReserveOffset → f.payload.length ≤ kMaxPacketLength)
    (hreached : ∀ a ∈ segments (fs ++ gs), reached ≤ a.offset) :
    Together fs (segments fs + segments gs) reached := by
  induction fs generalizing reached with
  | nil => trivial
  | cons f fs ih =>
    obtain ⟨hf, hrest⟩ := List.forall_mem_cons.1 hpackets
    rw [List.cons_append] at hordered hreached
    obtain ⟨hfirst, hordered⟩ := List.pairwise_cons.1 hordered
    rw [Together]
    by_cases hoff : f.offset ≥ kReserveOffset
    · rw [segments_data hoff] at hreached
      rw [if_pos hoff, segments_data hoff, Multiset.cons_add, Multiset.erase_cons_head,
        ← segments_append]
      have hle := hreached _ (Multiset.mem_cons_self _ _)
      have hend : ∀ a ∈ segments (fs ++ gs),
          f.segment.offset + f.segment.data.length ≤ a.offset := by
        rintro a ha
        obtain ⟨g, hg, hgoff, rfl⟩ := mem_segments.1 ha
        exact hfirst g hg hoff hgoff
      have hmax : max reached (f.segment.offset + f.segment.data.length) =
          f.segment.offset + f.segment.data.length := max_eq_right (by omega)
      dsimp only
      rw [hmax]
      refine ⟨Multiset.forall_mem_cons.2 ⟨?_, fun a ha => ?_⟩, ?_, ?_⟩
      · exact Nat.add_le_add_left ((hf hoff).trans (by decide)) _
      · exact (hend a ha).trans (Nat.le_add_right _ _)
      · -- nothing else in flight starts before the end of the frame
        rw [Multiset.filter_cons, Multiset.filter_eq_nil.2 fun a ha => not_lt.2 (hend a ha),
          add_zero]
        split_ifs
        · exact (Multiset.card_singleton _).trans_lt (by decide)
        · exact Multiset.card_zero.trans_lt (by decide)
      · rw [segments_append]
        exact ih hordered hrest hend
    · rw [segments_message hoff] at hreached
      rw [if_neg hoff, segments_message hoff]
      exact ih hordered hrest hreached

/-- Frames in order that arrive, within the limits, leave what has arrived in order. -/
theorem inOrder_handOnAll {fs gs : List Frame} {far far' : FarEnd} {sent : Bytes}
    (h : far.Reassembles sent (segments fs + segments gs))
    (hordered : (fs ++ gs).Pairwise Before)
    (hpackets : ∀ f ∈ fs, f.offset ≥ kReserveOffset → f.payload.length ≤ kMaxPacketLength)
    (hrun : FarEnd.receiver.handOnAll fs far = some far') (hlim : far'.withinLimits = true)
    (hord : far.InOrder) : far'.InOrder := by
  induction fs generalizing far with
  | nil =>
    cases hrun
    exact hord
  | cons f fs ih =>
    obtain ⟨hf, hrest⟩ := List.forall_mem_cons.1 hpackets
    obtain ⟨hfirst, hordered⟩ := List.pairwise_cons.1 hordered
    rw [Receiver.handOnAll, Receiver.handOn] at hrun
    split_ifs at hrun with hoff hatt hpos
    · rw [segments_data hoff, Multiset.cons_add] at h
      have hwithin := of_decide_eq_true
        (Bool.and_eq_true_iff.1 (withinLimits_of_handOnAll hrun hlim)).2
      have h' := h.recvData hoff (hf hoff) hwithin
      refine ih h' hordered hrest hrun (h.inOrder_recvData h' (fun a ha => ?_) hord)
      rw [← segments_append] at ha
      obtain ⟨g, hg, hgoff, rfl⟩ := mem_segments.1 ha
      exact hfirst g hg hoff hgoff
    · cases hrun
    · rw [segments_message hoff] at h
      exact ih h hordered hrest hrun hord
    · rw [segments_message hoff] at h
      exact ih h hordered hrest hrun hord

/-- A chunk read from the only path finds it together, and leaves what has arrived in
    order. -/
theorem Relays.receive_one_path {s : Multipath 1} (h : s.Relays)
    (hlim : s.far.withinLimits = true) (hord : s.far.InOrder) {i : Fin 1} {chunk rest : Bytes}
    (hwire : s.near.wires i = chunk ++ rest) :
    Together (s.handedOn i chunk) s.flight s.far.sequencer.nextExpectedByte ∧
      ∀ far', FarEnd.receiver.handOnAll (s.handedOn i chunk) s.far = some far' →
        far'.withinLimits = true → far'.InOrder := by
  obtain ⟨sent, pending, todo, hc, hpend, hflight⟩ := h.split hlim hwire
  have hreass := hc.reassembles
  have hordered := hc.ordered i
  have hpackets := hc.packets i
  rw [sum_segments_split hpend] at hreass
  rw [hpend] at hordered hpackets
  have htodo : ∑ j, segments (Function.update pending i todo j) = segments todo := by
    rw [Fin.sum_univ_one, Subsingleton.elim i 0, Function.update_self]
  rw [htodo] at hreass hflight
  refine ⟨?_, fun far' hrun hlim' => inOrder_handOnAll hreass hordered
    (fun f hf => hpackets f (List.mem_append_left _ hf)) hrun hlim' hord⟩
  rw [hflight]
  refine together_of_ordered hordered (fun f hf => hpackets f (List.mem_append_left _ hf)) ?_
  intro a ha
  rw [segments_append] at ha
  exact (SequencerBuffer.nextExpectedByte_le hord).trans (hreass.firstMissingByte_le ha)

/-- A single path always keeps together: each of its runs is one of those in which the
    sequencer takes all frames. -/
theorem together_of_one_path {s : Multipath 1} (h : (system 1).Reachable s) :
    (togetherSystem 1).Reachable s := by
  suffices hall : (togetherSystem 1).Reachable s ∧ s.far.InOrder from hall.1
  induction h with
  | init hinit =>
    refine ⟨.init hinit, ?_⟩
    rw [hinit.2.2.2.1]
    exact fun x hx => absurd hx (IntervalSet.not_mem_empty x)
  | @step s s' _ hstep ih =>
    obtain ⟨hs, hord⟩ := ih
    have hrelays := relays_reachable (reachable_of_together hs)
    have hlim := withinLimits_of_together hs
    have hs' : (togetherSystem 1).Reachable s' := by
      refine hs.step ⟨hstep, ?_⟩
      rintro ⟨i, chunk, rest, fdReadBuffer, far, hwire, hrecv, heq⟩
      exact ⟨i, chunk, ⟨rest, fdReadBuffer, far, hwire, hrecv, heq⟩,
        (hrelays.receive_one_path hlim hord hwire).1⟩
    refine ⟨hs', ?_⟩
    have hlim' := withinLimits_of_together hs'
    cases hstep with
    | onDataFromFd | schedule | writeMessage | connect | onWriteEvent => exact hord
    | receive i chunk rest fdReadBuffer far hwire hrecv =>
      exact (hrelays.receive_one_path hlim hord hwire).2 far (handOnAll_of_receive hrecv).2 hlim'

/-! ## Paths that do not -/

/-- The sequencer takes all frames that may be handed on. -/
def NeverOverrun (n : ℕ) : Prop :=
  ∀ s : Multipath n, (system n).Reachable s → ∀ i chunk rest,
    s.near.wires i = chunk ++ rest → s.far.AcceptsAll (s.handedOn i chunk)

/-- The first path has stalled with 16500 bytes to write, and the second one has
    brought the `k` times 1500 bytes after them, up to what is on its way. -/
structure Stalled (k : ℕ) (wire : Bytes) (written : ℕ) (s : Multipath 2) : Prop where
  reachable : (system 2).Reachable s
  stalled : (s.near.connections 0).isBufferAboveThreshold = true
  second : s.near.connections 1 = ⟨4, true, false, []⟩
  wire_eq : s.near.wires 1 = wire
  readBuffer : s.readBuffers 1 = []
  scheduled : s.near.fdReadBuffer = []
  offset : s.near.writeOffset.toNat = written + 1
  consumed : s.far.sequencer.totalBytesRead = 0
  intervals : s.far.sequencer.bytesReceived.intervals =
    if k = 0 then [] else [(16500, 16500 + 1500 * k)]

/-- The near end reads `k` times 1500 bytes. -/
theorem reachable_read {s : Multipath n} (h : (system n).Reachable s) (k : ℕ) :
    ∃ data : Bytes, data.length = k * 1500 ∧ (system n).Reachable { s with
      near := { s.near with fdReadBuffer := s.near.fdReadBuffer ++ data }
      input := s.input ++ data } := by
  induction k with
  | zero => exact ⟨[], (Nat.zero_mul _).symm, by simpa using h⟩
  | succ k ih =>
    obtain ⟨data, hlen, hreach⟩ := ih
    have hread := hreach.step (.onDataFromFd _ (List.replicate 1500 0))
    refine ⟨data ++ List.replicate 1500 0, ?_, ?_⟩
    · rw [List.length_append, hlen, List.length_replicate, Nat.succ_mul]
    · simpa only [NearEnd.onDataFromFd, List.append_assoc] using hread

/-- The first path stalls. -/
theorem exists_stalled : ∃ s, Stalled 0 [] 16500 s := by
  obtain ⟨s, hs⟩ : ∃ s : Multipath 2, s = ⟨⟨[], kReserveOffset,
      ![⟨3, true, false, []⟩, ⟨4, true, false, []⟩], fun _ => []⟩, fun _ => [], .new, []⟩ :=
    ⟨_, rfl⟩
  have hinit : (system 2).Reachable s := by
    refine .init ⟨by rw [hs], by rw [hs], fun i => ?_, by rw [hs], by rw [hs]⟩
    rw [hs]
    fin_cases i <;> exact ⟨rfl, rfl, rfl⟩
  obtain ⟨data, hlength, hread⟩ := reachable_read hinit 11
  have hbuffer : s.near.fdReadBuffer ++ data = data := by rw [hs]; rfl
  have hfirst : s.near.connections 0 = ⟨3, true, false, []⟩ := by rw [hs]; rfl
  have hsecond : s.near.connections 1 = ⟨4, true, false, []⟩ := by rw [hs]; rfl
  have hoffset : s.near.writeOffset.toNat = 1 := by rw [hs]; rfl
  have hfar : s.far = .new := by rw [hs]
  have hempty : s.near.wires 1 = [] ∧ s.readBuffers 1 = [] := by rw [hs]; exact ⟨rfl, rfl⟩
  clear hs
  have hlen : data.length ≤ kMaxPacketLength := by rw [hlength]; decide
  have hlt : s.near.writeOffset.toNat < 2 ^ 62 := by rw [hoffset]; decide
  -- the kernel takes nothing of the frame
  obtain ⟨frame, hframe⟩ : ∃ frame, frame = TcpConnection.dataFrame s.near.writeOffset data
    hlt hlen := ⟨_, rfl⟩
  have happend : TcpConnection.append [] frame.bytes (s.near.connections 0) =
      ([], ⟨3, true, false, frame.bytes⟩) := by
    rw [hfirst]
    rfl
  rw [hframe] at happend
  have hone := NearEnd.schedule_one (s := { s.near with fdReadBuffer := data }) [0]
    (by dsimp only; rw [List.filter_cons, hfirst]; rfl) (by dsimp only; rw [hlength]; decide)
    hlen (by dsimp only; rw [hfirst]; decide) hlt (fun _ _ => 0) (fun _ => []) happend
  rw [hbuffer] at hread
  have hsched := hread.step (.schedule _ _ _ _ _ hone)
  refine ⟨_, hsched, ?_, ?_, ?_, hempty.2, rfl, ?_, ?_, ?_⟩
  · dsimp only [NearEnd.put]
    rw [Function.update_self, ← hframe, TcpConnection.isBufferAboveThreshold,
      decide_eq_true_eq, Frame.bytes_length, hframe, TcpConnection.dataFrame, hlength,
      kWriteBufferThreshold]
    omega
  · dsimp only [NearEnd.put]
    rw [Function.update_of_ne one_ne_zero, hsecond]
  · dsimp only [NearEnd.put]
    rw [Function.update_of_ne one_ne_zero, hempty.1]
  · dsimp only [NearEnd.put]
    rw [UInt64.toNat_add, hoffset, hlength]
    rfl
  · rw [hfar]
    rfl
  · rw [hfar]
    rfl

/-- The data the second path brings. -/
def Brings (k : ℕ) (f : Frame) : Prop :=
  f.offset.toNat = 16500 + 1500 * k + 1 ∧ f.payload.length = 1500

/-- The second path, the only one that has room, is given what is read, and sends it. -/
theorem Stalled.send {k : ℕ} {s : Multipath 2} (h : Stalled k [] (16500 + 1500 * k) s)
    (hk : k ≤ 44728) : ∃ f s', Brings k f ∧ Stalled k f.bytes (16500 + 1500 * (k + 1)) s' := by
  obtain ⟨data, hlength, hread⟩ := reachable_read h.reachable 1
  rw [h.scheduled, List.nil_append] at hread
  have hlen : data.length ≤ kMaxPacketLength := by rw [hlength]; decide
  have hlt : s.near.writeOffset.toNat < 2 ^ 62 := by rw [h.offset]; omega
  obtain ⟨frame, hframe⟩ : ∃ frame, frame = TcpConnection.dataFrame s.near.writeOffset data
    hlt hlen := ⟨_, rfl⟩
  have happend : TcpConnection.append (List.replicate 2 (.sent kBufferSize)) frame.bytes
      (s.near.connections 1) = (frame.bytes, ⟨4, true, false, []⟩) := by
    rw [h.second]
    refine TcpConnection.append_all ?_ (by decide)
    have hwidth := varInt62Width_le frame.offset.toNat
    have hwidth' := varInt62Width_le frame.payload.length
    have hpayload : frame.payload.length = 1 * 1500 := by rw [hframe]; exact hlength
    rw [Frame.bytes_length, kBufferSize]
    omega
  rw [hframe] at happend
  have hone := NearEnd.schedule_one (s := { s.near with fdReadBuffer := data }) [0, 1]
    (by dsimp only; rw [List.filter_cons, List.filter_cons, h.stalled, h.second]; rfl)
    (by dsimp only; rw [hlength]; decide) hlen (by dsimp only; rw [h.second]; decide) hlt
    (fun _ _ => 0) (fun _ => List.replicate 2 (.sent kBufferSize)) happend
  have hsched := hread.step (.schedule _ _ _ _ _ hone)
  refine ⟨frame, _, ⟨?_, ?_⟩, hsched, ?_, ?_, ?_, h.readBuffer, rfl, ?_, h.consumed, h.intervals⟩
  · rw [hframe, TcpConnection.dataFrame, h.offset]
  · rw [hframe, TcpConnection.dataFrame, hlength]
  · dsimp only [NearEnd.put]
    rw [Function.update_of_ne zero_ne_one, h.stalled]
  · dsimp only [NearEnd.put]
    rw [Function.update_self]
  · dsimp only [NearEnd.put]
    rw [Function.update_self, h.wire_eq, ← hframe, List.nil_append]
  · dsimp only [NearEnd.put]
    rw [UInt64.toNat_add, h.offset, hlength,
      show (UInt64.ofNat (1 * 1500)).toNat = 1500 from rfl]
    omega

theorem Brings.offset_ge {k : ℕ} {f : Frame} (h : Brings k f) : f.offset ≥ kReserveOffset := by
  have hone : kReserveOffset.toNat = 1 := rfl
  rw [ge_iff_le, UInt64.le_iff_toNat_le, hone, h.1]
  omega

theorem Brings.segment_offset {k : ℕ} {f : Frame} (h : Brings k f) :
    f.segment.offset = 16500 + 1500 * k := by
  have hone : kReserveOffset.toNat = 1 := rfl
  rw [Frame.segment, UInt64.toNat_sub_of_le _ _ h.offset_ge, hone, h.1, Nat.add_sub_cancel]

/-- What is received while it is within the window: nothing can be read. -/
theorem Stalled.recvData {k written : ℕ} {wire : Bytes} {s : Multipath 2}
    (h : Stalled k wire written s) (hk : k < 44728) {f : Frame} (hf : Brings k f) :
    (s.far.recvData f.offset f.payload).sequencer.totalBytesRead = 0 ∧
    (s.far.recvData f.offset f.payload).sequencer.bytesReceived.intervals =
      [(16500, 16500 + 1500 * (k + 1))] := by
  have hpayload : f.segment.data.length = 1500 := hf.2
  have hoffset := hf.segment_offset
  have hadd : (s.far.sequencer.bytesReceived.add f.segment.offset
      (f.segment.offset + f.segment.data.length)).intervals =
      [(16500, 16500 + 1500 * (k + 1))] := by
    rw [IntervalSet.add_intervals (by omega), h.intervals, hpayload, hoffset]
    by_cases hzero : k = 0
    · rw [if_pos hzero, IntervalSet.insert]
      exact congrArg₂ (fun a b => [(a, b)]) (by omega) (by omega)
    · rw [if_neg hzero, IntervalSet.insert, if_neg (by omega), if_neg (by omega),
        IntervalSet.insert, min_eq_right (by omega), max_eq_left (by omega)]
      exact congrArg (fun b => [(16500, b)]) (by omega)
  have hnew : ∀ x, f.segment.Covers x → x ∉ s.far.sequencer.bytesReceived := by
    rintro x ⟨hx, -⟩ ⟨i, hi, hix, hxi⟩
    rw [hoffset] at hx
    rw [h.intervals] at hi
    split_ifs at hi
    · exact List.not_mem_nil hi
    · obtain rfl := List.mem_singleton.1 hi
      exact absurd hxi (not_lt.2 hx)
  have hwindow : kStreamReceiveWindowLimit = 67108864 := rfl
  have hlim : s.far.sequencer.WithinLimits f.segment.offset f.segment.data.length := by
    rw [SequencerBuffer.WithinLimits, h.consumed, IntervalSet.size, hadd]
    exact ⟨by omega, show 1 < kMaxNumDataIntervalsAllowed by decide⟩
  have hstream := SequencerBuffer.onStreamData_eq (List.length_pos_iff.1 (by omega)) hnew hlim
    (by omega)
  -- the first byte is still missing
  obtain ⟨b, hb⟩ : ∃ b : SequencerBuffer, b = { s.far.sequencer with
      bytesReceived := s.far.sequencer.bytesReceived.add f.segment.offset
        (f.segment.offset + f.segment.data.length)
      memory := SequencerBuffer.copyStreamData f.segment.offset f.segment.data
        s.far.sequencer.memory } := ⟨_, rfl⟩
  have hintervals : b.bytesReceived.intervals = [(16500, 16500 + 1500 * (k + 1))] := by
    rw [hb, hadd]
  have hreadable : b.readableBytes = 0 := by
    rw [SequencerBuffer.readableBytes, SequencerBuffer.firstMissingByte, IntervalSet.firstGap,
      hintervals]
    exact Nat.zero_sub _
  have htake : f.payload.take (f.payload.length % 2 ^ 16) = f.segment.data := by
    rw [Nat.mod_eq_of_lt (by rw [hf.2]; omega), List.take_length]
    rfl
  have hsequencer : (s.far.recvData f.offset f.payload).sequencer = b := by
    rw [FarEnd.recvData, DashDim.recvData, if_pos hf.offset_ge, htake, SequencerBuffer.onFrameData,
      show (f.offset - kReserveOffset).toNat = f.segment.offset from rfl, hstream, ← hb]
    dsimp only
    rw [if_neg (by omega), hreadable, if_neg (by omega)]
  rw [hsequencer]
  exact ⟨by rw [hb]; exact h.consumed, hintervals⟩

/-- The far end receives a frame of the second path. -/
theorem handOnAll_singleton (f : Frame) (hf : f.offset ≥ kReserveOffset) (far : FarEnd) :
    FarEnd.receiver.handOnAll [f] far = some (far.recvData f.offset f.payload) := by
  rw [Receiver.handOnAll, Receiver.handOn, if_pos hf]
  rfl

theorem Stalled.receive {k written : ℕ} {s : Multipath 2} {f : Frame}
    (h : Stalled k f.bytes written s) (hk : k < 44728) (hf : Brings k f) :
    ∃ s', Stalled (k + 1) [] written s' := by
  obtain ⟨hconsumed, hintervals⟩ := h.recvData hk hf
  have hrecv : FarEnd.receiver.receive f.bytes (s.readBuffers 1) s.far =
      some ([], s.far.recvData f.offset f.payload) := by
    rw [h.readBuffer, Receiver.receive, List.nil_append, Receiver.deliver_eq, drain_frame,
      handOnAll_singleton f hf.offset_ge]
    dsimp only [Option.map_some]
    rw [if_pos ⟨List.cons_ne_nil _ _, rfl⟩]
    rfl
  have hstep := h.reachable.step (.receive s 1 f.bytes [] [] _
    (by rw [h.wire_eq, List.append_nil]) hrecv)
  refine ⟨_, hstep, h.stalled, h.second, ?_, ?_, h.scheduled, h.offset, hconsumed, ?_⟩
  · dsimp only
    rw [Function.update_self]
  · dsimp only
    rw [Function.update_self]
  · rw [if_neg (Nat.succ_ne_zero k)]
    exact hintervals

/-- The second path goes on. -/
theorem stalled (k : ℕ) (hk : k ≤ 44728) : ∃ s, Stalled k [] (16500 + 1500 * k) s := by
  induction k with
  | zero => exact exists_stalled
  | succ k ih =>
    obtain ⟨s, hs⟩ := ih (by omega)
    obtain ⟨f, s₁, hf, hs₁⟩ := hs.send (by omega)
    exact hs₁.receive (by omega) hf

/-- One path stalls with its first frame, the other goes on for 64 MiB, and the
    sequencer refuses its next frame. -/
theorem overrun_two_paths : ¬ ∀ n, NeverOverrun n := by
  intro hnever
  obtain ⟨s, hs⟩ := stalled 44728 le_rfl
  obtain ⟨f, s', hf, hs'⟩ := hs.send le_rfl
  have haccepts := hnever 2 s' hs'.reachable 1 f.bytes [] (by rw [hs'.wire_eq, List.append_nil])
  rw [handedOn, hs'.readBuffer, List.nil_append, drain_frame, FarEnd.AcceptsAll] at haccepts
  have herror := haccepts.1 hf.offset_ge
  have hwindow : kStreamReceiveWindowLimit = 67108864 := rfl
  have hlen := hf.2
  have hoffset : (f.offset - kReserveOffset).toNat = 16500 + 1500 * 44728 := hf.segment_offset
  rw [hoffset, Nat.mod_eq_of_lt (by omega), List.take_length,
    SequencerBuffer.onStreamData] at herror
  dsimp only at herror
  rw [if_neg (by omega), if_pos (.inl (by rw [hs'.consumed]; omega))] at herror
  cases herror

end Multipath

end DashDim
