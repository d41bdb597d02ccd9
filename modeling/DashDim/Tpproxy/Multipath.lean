import DashDim.Lib.Run
import DashDim.Tpproxy.Server

/-!
# Multipath reassembly

A stream read at the near end goes over any number of paths to the far end. In any
order, the near end reads, schedules what it has read over paths that have room,
sends messages and writes; and the far end reads a chunk of what is on its way on a
path, and handles the frames this completes. Each path is first in, first out.

The invariant (`Multipath.Relays`) says that, as long as the far end keeps within
the limits of its sequencer, each byte scheduled has arrived or is in exactly one
frame in flight on some path. From it:

* `multipath_reassembly`: the far end passes on a start of what the near end has
  read, and all that was scheduled once nothing is in flight.
-/

namespace DashDim

/-- Both ends, what the far end has read from each path and not handed on, and all
    that the near end has read from the plain connection. -/
structure Multipath (n : ℕ) where
  near : NearEnd n
  readBuffers : Fin n → Bytes
  far : FarEnd
  input : Bytes

namespace Multipath

variable {n : ℕ}

/-- Nothing has been read or sent. -/
def Init (s : Multipath n) : Prop :=
  s.near.fdReadBuffer = [] ∧ s.near.writeOffset = kReserveOffset ∧
    (∀ i, (s.near.connections i).fdWriteBuffer = [] ∧ s.near.wires i = [] ∧
      s.readBuffers i = []) ∧
    s.far = FarEnd.new ∧ s.input = []

/-- What the two ends do. A step that fails a `CHECK` is none. -/
inductive Step : Multipath n → Multipath n → Prop
  /-- The near end reads from the plain connection. -/
  | onDataFromFd (s : Multipath n) (pv : Bytes) :
    Step s { s with near := s.near.onDataFromFd pv, input := s.input ++ pv }
  /-- The near end schedules what it has read. -/
  | schedule (s : Multipath n) (ready : List (Fin n)) (share : Fin n → ℕ → ℕ)
      (answers : UInt64 → List SendAnswer) (near : NearEnd n) :
    s.near.schedule ready share answers = some near → Step s { s with near := near }
  /-- A path sends a message. -/
  | writeMessage (s : Multipath n) (i : Fin n) (type : UInt8) (data : Bytes)
      (answers : List SendAnswer) (near : NearEnd n) :
    s.near.writeMessage answers i type data = some near → Step s { s with near := near }
  /-- A path gets connected. -/
  | connect (s : Multipath n) (i : Fin n) :
    Step s { s with near := s.near.put i [] { s.near.connections i with isConnected := true } }
  /-- A path can be written. -/
  | onWriteEvent (s : Multipath n) (i : Fin n) (answers : List SendAnswer) :
    Step s { s with near := s.near.onWriteEvent answers i }
  /-- The far end reads a chunk of what is on its way on a path. -/
  | receive (s : Multipath n) (i : Fin n) (chunk rest fdReadBuffer : Bytes) (far : FarEnd) :
    s.near.wires i = chunk ++ rest →
    FarEnd.receiver.receive chunk (s.readBuffers i) s.far = some (fdReadBuffer, far) →
    Step s { s with
      near := { s.near with wires := Function.update s.near.wires i rest }
      readBuffers := Function.update s.readBuffers i fdReadBuffer
      far := far }

/-- The two ends of a multipath connection. -/
def system (n : ℕ) : System (Multipath n) := ⟨Init, Step⟩

/-! ## Frames in flight -/

/-- The data in flight in frames. -/
def segments (fs : List Frame) : Multiset (Segment UInt8) :=
  (fs.filter (·.offset ≥ kReserveOffset)).map Frame.segment

theorem segments_append (fs gs : List Frame) : segments (fs ++ gs) = segments fs + segments gs := by
  rw [segments, List.filter_append, List.map_append]
  rfl

theorem segments_data {f : Frame} (h : f.offset ≥ kReserveOffset) (fs : List Frame) :
    segments (f :: fs) = f.segment ::ₘ segments fs := by
  rw [segments, List.filter_cons_of_pos (by simpa using h)]
  rfl

theorem segments_message {f : Frame} (h : ¬f.offset ≥ kReserveOffset) (fs : List Frame) :
    segments (f :: fs) = segments fs := by
  rw [segments, List.filter_cons_of_neg (by simpa using h)]
  rfl

/-- The data in flight is that of the frames of data. -/
theorem mem_segments {fs : List Frame} {a : Segment UInt8} :
    a ∈ segments fs ↔ ∃ f ∈ fs, f.offset ≥ kReserveOffset ∧ f.segment = a := by
  rw [segments, Multiset.mem_coe, List.mem_map]
  simp only [List.mem_filter, decide_eq_true_eq, and_assoc]

/-- If both frames are of data, the first ends before the second starts. -/
def Before (f g : Frame) : Prop :=
  f.offset ≥ kReserveOffset → g.offset ≥ kReserveOffset →
    f.segment.offset + f.segment.data.length ≤ g.segment.offset

/-- The near end has sent `sent`, frames are in flight on the paths, in order on each of
    them, and the far end reassembles their data. -/
structure Carries (readBuffers : Fin n → Bytes) (far : FarEnd) (sent : Bytes)
    (pending : Fin n → List Frame) (near : NearEnd n) : Prop where
  inFlight : ∀ i, readBuffers i ++ near.wires i ++ (near.connections i).fdWriteBuffer =
    tpFraming.encodeAll (pending i)
  packets : ∀ i, ∀ f ∈ pending i, f.offset ≥ kReserveOffset →
    f.payload.length ≤ kMaxPacketLength
  ordered : ∀ i, (pending i).Pairwise Before
  offset : near.writeOffset.toNat = sent.length + 1
  reassembles : far.Reassembles sent (∑ i, segments (pending i))

/-- The invariant: within the limits, what was read was either sent, and is carried
    to the far end, or is still to be scheduled. -/
def Relays (s : Multipath n) : Prop :=
  s.far.withinLimits = true → ∃ sent pending,
    s.input = sent ++ s.near.fdReadBuffer ∧ Carries s.readBuffers s.far sent pending s.near

/-- The frames of one path are exchanged. -/
theorem sum_segments_update (pending : Fin n → List Frame) (i : Fin n) (fs : List Frame) :
    ∑ j, segments (Function.update pending i fs j) + segments (pending i) =
      ∑ j, segments (pending j) + segments fs := by
  simp only [Function.apply_update fun _ => segments]
  exact sum_update (fun j => segments (pending j)) i (segments fs)

/-- Frames added to a path add their data to what is in flight. -/
theorem sum_segments_append (pending : Fin n → List Frame) (i : Fin n) (fs : List Frame) :
    ∑ j, segments (Function.update pending i (pending i ++ fs) j) =
      segments fs + ∑ j, segments (pending j) := by
  have hsum := sum_segments_update pending i (pending i ++ fs)
  rw [segments_append, add_comm (segments (pending i)), ← add_assoc] at hsum
  rw [add_comm (segments fs)]
  exact add_right_cancel hsum

/-- The data of the first frames of a path is part of what is in flight. -/
theorem sum_segments_split {pending : Fin n → List Frame} {i : Fin n} {fs gs : List Frame}
    (h : pending i = fs ++ gs) :
    ∑ j, segments (pending j) =
      segments fs + ∑ j, segments (Function.update pending i gs j) := by
  have hsum := sum_segments_update pending i gs
  rw [h, segments_append, ← add_assoc] at hsum
  rw [add_comm (segments fs)]
  exact (add_right_cancel hsum).symm

/-! ## The near end sends -/

namespace Carries

variable {readBuffers : Fin n → Bytes} {far : FarEnd} {sent : Bytes}
  {pending : Fin n → List Frame} {near : NearEnd n}

/-- A connection that appends frames adds them to those on its path. -/
theorem inFlight_put (h : Carries readBuffers far sent pending near) {i : Fin n} {out : Bytes}
    {c : TcpConnection} {fs : List Frame}
    (hbytes : out ++ c.fdWriteBuffer =
      (near.connections i).fdWriteBuffer ++ tpFraming.encodeAll fs) (j : Fin n) :
    readBuffers j ++ (near.put i out c).wires j ++
      ((near.put i out c).connections j).fdWriteBuffer =
      tpFraming.encodeAll (Function.update pending i (pending i ++ fs) j) := by
  by_cases hj : j = i
  · subst hj
    rw [NearEnd.put_wires, NearEnd.put_connections, Function.update_self, Function.update_self,
      Function.update_self, Framing.encodeAll_append, ← h.inFlight j, List.append_assoc,
      List.append_assoc, List.append_assoc, List.append_assoc, hbytes]
  · rw [NearEnd.put_wires, NearEnd.put_connections, Function.update_of_ne hj,
      Function.update_of_ne hj, Function.update_of_ne hj]
    exact h.inFlight j

/-- A frame of data in flight is part of the stream. -/
theorem partOf (h : Carries readBuffers far sent pending near) {i : Fin n} {f : Frame}
    (hf : f ∈ pending i) (hoff : f.offset ≥ kReserveOffset) : f.segment.PartOf sent :=
  h.reassembles.tiles.partOf _ (Multiset.mem_sum.2
    ⟨i, Finset.mem_univ i, mem_segments.2 ⟨f, hf, hoff, rfl⟩⟩)

/-- A connection that appends no data changes nothing for the far end. -/
theorem put (h : Carries readBuffers far sent pending near) {i : Fin n} {out : Bytes}
    {c : TcpConnection} (fs : List Frame) (hmsg : ∀ f ∈ fs, ¬f.offset ≥ kReserveOffset)
    (hbytes : out ++ c.fdWriteBuffer =
      (near.connections i).fdWriteBuffer ++ tpFraming.encodeAll fs) :
    Carries readBuffers far sent (Function.update pending i (pending i ++ fs))
      (near.put i out c) where
  inFlight := h.inFlight_put hbytes
  packets j f hf hoff := by
    by_cases hj : j = i
    · subst hj
      rw [Function.update_self] at hf
      rcases List.mem_append.1 hf with hf | hf
      · exact h.packets j f hf hoff
      · exact absurd hoff (hmsg f hf)
    · rw [Function.update_of_ne hj] at hf
      exact h.packets j f hf hoff
  ordered := by
    refine (Function.forall_update_iff pending fun _ fs => fs.Pairwise Before).2
      ⟨List.pairwise_append.2 ⟨h.ordered i, ?_, ?_⟩, fun j _ => h.ordered j⟩
    · exact List.pairwise_of_forall_mem_list fun f hf _ _ hoff => absurd hoff (hmsg f hf)
    · exact fun f _ g hg _ hoff => absurd hoff (hmsg g hg)
  offset := h.offset
  reassembles := by
    have hnil : fs.filter (·.offset ≥ kReserveOffset) = [] :=
      List.filter_eq_nil_iff.2 fun f hf => by simpa using hmsg f hf
    have hseg : segments fs = 0 := by
      rw [segments, hnil]
      rfl
    rw [sum_segments_append, hseg, zero_add]
    exact h.reassembles

/-- Sending data at the write offset makes the stream go on with it. -/
theorem sendData (h : Carries readBuffers far sent pending near)
    {answers : UInt64 → List SendAnswer} {i : Fin n} {pv : Bytes} (hne : pv ≠ [])
    {near' : NearEnd n} (hsend : near.sendData answers i pv = some near') :
    ∃ pending', Carries readBuffers far (sent ++ pv) pending'
      { near' with writeOffset := near'.writeOffset + UInt64.ofNat pv.length } := by
  obtain ⟨⟨out, c⟩, hconn, rfl⟩ := Option.map_eq_some_iff.1 hsend
  obtain ⟨hfd, hoff, hpv⟩ := TcpConnection.sendData_isSome hconn
  rw [TcpConnection.sendData_eq hfd hoff hpv] at hconn
  obtain ⟨f, hf⟩ : ∃ f, f = TcpConnection.dataFrame near.writeOffset pv hoff hpv := ⟨_, rfl⟩
  have hbytes : out ++ c.fdWriteBuffer =
      (near.connections i).fdWriteBuffer ++ tpFraming.encodeAll [f] := by
    have happend := TcpConnection.append_eq (answers near.writeOffset) f.bytes
      (near.connections i)
    rw [hf, Option.some.inj hconn, ← hf] at happend
    rw [Framing.encodeAll_cons, Framing.encodeAll_nil, List.append_nil]
    exact happend
  have hmax : kMaxPacketLength = 65535 := rfl
  have hlen : (UInt64.ofNat pv.length).toNat = pv.length := by
    rw [UInt64.toNat_ofNat', Nat.mod_eq_of_lt (by omega)]
  have hres : f.offset ≥ kReserveOffset := by
    rw [hf, ge_iff_le, UInt64.le_iff_toNat_le]
    have hone : kReserveOffset.toNat = 1 := rfl
    rw [hone, TcpConnection.dataFrame, h.offset]
    omega
  -- in the stream the segment starts where what was sent before ends
  have hseg : f.segment = ⟨sent.length, pv⟩ := by
    have hone : kReserveOffset.toNat = 1 := rfl
    rw [Frame.segment, UInt64.toNat_sub_of_le _ _ hres, hone]
    rw [hf, TcpConnection.dataFrame, h.offset, Nat.add_sub_cancel]
  refine ⟨Function.update pending i (pending i ++ [f]), h.inFlight_put hbytes, ?_, ?_, ?_, ?_⟩
  · intro j g hg hgoff
    by_cases hj : j = i
    · subst hj
      rw [Function.update_self] at hg
      rcases List.mem_append.1 hg with hg | hg
      · exact h.packets j g hg hgoff
      · obtain rfl := List.mem_singleton.1 hg
        rw [hf]
        exact hpv
    · rw [Function.update_of_ne hj] at hg
      exact h.packets j g hg hgoff
  · refine (Function.forall_update_iff pending fun _ fs => fs.Pairwise Before).2
      ⟨List.pairwise_append.2 ⟨h.ordered i, List.pairwise_singleton _ _, ?_⟩,
        fun j _ => h.ordered j⟩
    intro g hg g' hg' hgoff _
    obtain rfl := List.mem_singleton.1 hg'
    rw [hseg]
    exact (h.partOf hg hgoff).end_le
  · dsimp only [NearEnd.put]
    have hoffset := h.offset
    rw [UInt64.toNat_add, hlen, List.length_append, h.offset, Nat.mod_eq_of_lt (by omega)]
    omega
  · rw [sum_segments_append, segments_data hres, hseg]
    exact h.reassembles.send hne

/-- So does sending it in frames of at most a packet. -/
theorem sendDataLoop {answers : UInt64 → List SendAnswer} {i : Fin n} {rounds : ℕ} {pv : Bytes}
    (h : Carries readBuffers far sent pending near) (hrounds : pv.length ≤ rounds)
    {near' : NearEnd n} (hsend : near.sendDataLoop answers i rounds pv = some near') :
    ∃ pending', Carries readBuffers far (sent ++ pv) pending' near' := by
  induction rounds generalizing pv sent pending near with
  | zero =>
    obtain rfl := List.length_eq_zero_iff.1 (Nat.le_zero.1 hrounds)
    rw [NearEnd.sendDataLoop] at hsend
    obtain rfl := Option.some.inj hsend
    exact ⟨pending, by rwa [List.append_nil]⟩
  | succ rounds ih =>
    rw [NearEnd.sendDataLoop] at hsend
    split_ifs at hsend with hpos
    · obtain ⟨k, hk⟩ : ∃ k, k = min pv.length kMaxPacketLength := ⟨_, rfl⟩
      have hmax : 0 < kMaxPacketLength := by decide
      have hlen : (pv.take k).length = k := by
        rw [List.length_take]
        omega
      dsimp only at hsend
      rw [← hk] at hsend
      split at hsend
      · cases hsend
      · next near₁ hfirst =>
        have hne : pv.take k ≠ [] := List.length_pos_iff.1 (by omega)
        obtain ⟨pending₁, h₁⟩ := h.sendData hne hfirst
        rw [hlen] at h₁
        obtain ⟨pending₂, h₂⟩ := ih h₁ (by rw [List.length_drop]; omega) hsend
        rw [List.append_assoc, List.take_append_drop] at h₂
        exact ⟨pending₂, h₂⟩
    · obtain rfl := List.length_eq_zero_iff.1 (Nat.le_zero.1 (not_lt.1 hpos))
      obtain rfl := Option.some.inj hsend
      exact ⟨pending, by rwa [List.append_nil]⟩

/-- What the loop of `schedule` takes from its data is sent. -/
theorem scheduleLoop {share : Fin n → ℕ → ℕ} {answers : UInt64 → List SendAnswer}
    {connections : List (Fin n)} {data remain : Bytes} {near' : NearEnd n}
    (h : Carries readBuffers far sent pending near)
    (hsched : near.scheduleLoop share answers connections data = some (remain, near')) :
    ∃ taken pending', data = taken ++ remain ∧
      Carries readBuffers far (sent ++ taken) pending' near' := by
  have hstop : ∀ {d : Bytes}, some (d, near) = some (remain, near') → ∃ taken pending',
      d = taken ++ remain ∧ Carries readBuffers far (sent ++ taken) pending' near' := by
    intro d heq
    cases heq
    exact ⟨[], pending, rfl, by rwa [List.append_nil]⟩
  induction connections generalizing data sent pending near with
  | nil => exact hstop hsched
  | cons i rest ih =>
    cases rest with
    | nil =>
      rw [NearEnd.scheduleLoop] at hsched
      split_ifs at hsched
      · -- the last connection takes all of it
        obtain ⟨near₁, hsend, heq⟩ := Option.map_eq_some_iff.1 hsched
        cases heq
        obtain ⟨pending₁, h₁⟩ := h.sendDataLoop le_rfl hsend
        exact ⟨data, pending₁, (List.append_nil _).symm, h₁⟩
      · exact hstop hsched
    | cons j rest =>
      rw [NearEnd.scheduleLoop] at hsched
      split_ifs at hsched
      · obtain ⟨k, hk⟩ : ∃ k, k = min (max (share i data.length) kMinPayloadSize) data.length :=
          ⟨_, rfl⟩
        dsimp only at hsched
        rw [← hk] at hsched
        split at hsched
        · cases hsched
        · next near₁ hsend =>
          -- the others go on with the rest of the data
          obtain ⟨pending₁, h₁⟩ := h.sendDataLoop le_rfl hsend
          obtain ⟨taken, pending₂, hdata, h₂⟩ := ih h₁ hsched (by
            intro d heq
            cases heq
            exact ⟨[], pending₁, rfl, by rwa [List.append_nil]⟩)
          refine ⟨data.take k ++ taken, pending₂, ?_, ?_⟩
          · rw [List.append_assoc, ← hdata, List.take_append_drop]
          · rwa [← List.append_assoc]
      · exact hstop hsched

/-- What `schedule` takes from the read buffer is sent. -/
theorem schedule {ready : List (Fin n)} {share : Fin n → ℕ → ℕ}
    {answers : UInt64 → List SendAnswer} {near' : NearEnd n}
    (h : Carries readBuffers far sent pending near)
    (hsched : near.schedule ready share answers = some near') :
    ∃ taken pending', near.fdReadBuffer = taken ++ near'.fdReadBuffer ∧
      Carries readBuffers far (sent ++ taken) pending' near' := by
  unfold NearEnd.schedule at hsched
  extract_lets connections at hsched
  split_ifs at hsched
  · cases hsched
    exact ⟨[], pending, rfl, by rwa [List.append_nil]⟩
  · split at hsched
    · cases hsched
    · next remain near₁ hloop =>
      cases hsched
      obtain ⟨taken, pending₁, hdata, h₁⟩ := h.scheduleLoop hloop
      exact ⟨taken, pending₁, hdata, h₁.inFlight, h₁.packets, h₁.ordered, h₁.offset, h₁.reassembles⟩

end Carries

/-! ## The far end receives -/

/-- Once a frame is beyond the limits, it is not forgotten. -/
theorem withinLimits_of_handOnAll {fs : List Frame} {far far' : FarEnd}
    (h : FarEnd.receiver.handOnAll fs far = some far') (hlim : far'.withinLimits = true) :
    far.withinLimits = true := by
  induction fs generalizing far with
  | nil =>
    cases h
    exact hlim
  | cons f fs ih =>
    rw [Receiver.handOnAll, Receiver.handOn] at h
    split_ifs at h with hoff hatt hpos
    · have hf := ih h
      exact (Bool.and_eq_true_iff.1 hf).1
    · cases h
    · exact ih h
    · exact ih h

/-- Frames that arrive, within the limits, are reassembled with the others. -/
theorem reassembles_handOnAll {fs : List Frame} {far far' : FarEnd} {sent : Bytes}
    {flight : Multiset (Segment UInt8)} (h : far.Reassembles sent (segments fs + flight))
    (hpackets : ∀ f ∈ fs, f.offset ≥ kReserveOffset → f.payload.length ≤ kMaxPacketLength)
    (hrun : FarEnd.receiver.handOnAll fs far = some far') (hlim : far'.withinLimits = true) :
    far'.Reassembles sent flight := by
  induction fs generalizing far with
  | nil =>
    cases hrun
    rwa [show segments [] = 0 from rfl, zero_add] at h
  | cons f fs ih =>
    have hrest : ∀ g ∈ fs, g.offset ≥ kReserveOffset → g.payload.length ≤ kMaxPacketLength :=
      fun g hg => hpackets g (List.mem_cons_of_mem _ hg)
    rw [Receiver.handOnAll, Receiver.handOn] at hrun
    split_ifs at hrun with hoff hatt hpos
    · rw [segments_data hoff, Multiset.cons_add] at h
      have hf := withinLimits_of_handOnAll hrun hlim
      have hwithin := of_decide_eq_true (Bool.and_eq_true_iff.1 hf).2
      exact ih (h.recvData hoff (hpackets f List.mem_cons_self hoff) hwithin) hrest hrun
    · cases hrun
    · rw [segments_message hoff] at h
      exact ih h hrest hrun
    · rw [segments_message hoff] at h
      exact ih h hrest hrun

/-- A chunk that is read hands on the frames that are complete with it, and what follows
    them is kept. -/
theorem handOnAll_of_receive {far far' : FarEnd} {readBuffer chunk fdReadBuffer : Bytes}
    (h : FarEnd.receiver.receive chunk readBuffer far = some (fdReadBuffer, far')) :
    fdReadBuffer = (tpFraming.drain (readBuffer ++ chunk)).2 ∧
      FarEnd.receiver.handOnAll (tpFraming.drain (readBuffer ++ chunk)).1 far = some far' := by
  rw [Receiver.receive, Receiver.deliver_eq] at h
  obtain ⟨far₁, hhand, hpair⟩ := Option.map_eq_some_iff.1 h
  obtain ⟨rfl, hfar⟩ := Prod.mk.inj hpair
  obtain rfl : far₁ = far' := by
    split_ifs at hfar <;> exact hfar
  exact ⟨rfl, hhand⟩

/-- Reading a chunk from a path, and handling the frames it completes. -/
theorem Carries.receive {readBuffers : Fin n → Bytes} {far far' : FarEnd} {sent : Bytes}
    {pending : Fin n → List Frame} {near : NearEnd n} {i : Fin n}
    {chunk rest fdReadBuffer : Bytes} (h : Carries readBuffers far sent pending near)
    (hwire : near.wires i = chunk ++ rest)
    (hrecv : FarEnd.receiver.receive chunk (readBuffers i) far = some (fdReadBuffer, far'))
    (hlim : far'.withinLimits = true) :
    ∃ pending', Carries (Function.update readBuffers i fdReadBuffer) far' sent pending'
      { near with wires := Function.update near.wires i rest } := by
  -- what is read is a start of the frames in flight on the path
  have hpre : (readBuffers i ++ chunk) ++ (rest ++ (near.connections i).fdWriteBuffer) =
      tpFraming.encodeAll (pending i) := by
    rw [← h.inFlight i, hwire]
    simp only [List.append_assoc]
  obtain ⟨todo, hpend, hrest, -⟩ := Framing.drain_prefix hpre
  obtain ⟨rfl, hhand⟩ := handOnAll_of_receive hrecv
  refine ⟨Function.update pending i todo, ?_, ?_, ?_, h.offset, ?_⟩
  · intro j
    by_cases hj : j = i
    · subst hj
      dsimp only
      rw [Function.update_self, Function.update_self, Function.update_self, List.append_assoc]
      exact hrest
    · dsimp only
      rw [Function.update_of_ne hj, Function.update_of_ne hj, Function.update_of_ne hj]
      exact h.inFlight j
  · intro j f hf hoff
    by_cases hj : j = i
    · subst hj
      rw [Function.update_self] at hf
      exact h.packets j f (by rw [hpend]; exact List.mem_append_right _ hf) hoff
    · rw [Function.update_of_ne hj] at hf
      exact h.packets j f hf hoff
  · have hi := h.ordered i
    rw [hpend] at hi
    exact (Function.forall_update_iff pending fun _ fs => fs.Pairwise Before).2
      ⟨(List.pairwise_append.1 hi).2.1, fun j _ => h.ordered j⟩
  · have hreass := h.reassembles
    rw [sum_segments_split hpend] at hreass
    exact reassembles_handOnAll hreass
      (fun f hf => h.packets i f (by rw [hpend]; exact List.mem_append_left _ hf)) hhand hlim

/-! ## The invariant -/

theorem relays_init {s : Multipath n} (h : s.Init) : s.Relays := by
  obtain ⟨hread, hoff, hempty, hfar, hinput⟩ := h
  intro _
  refine ⟨[], fun _ => [], by rw [hinput, hread]; rfl, ?_, fun _ f hf => absurd hf
    List.not_mem_nil, fun _ => .nil, by rw [hoff]; rfl, ?_⟩
  · intro i
    obtain ⟨hw, hwire, hr⟩ := hempty i
    rw [hw, hwire, hr]
    rfl
  · have hsum : ∑ _i : Fin n, segments [] = 0 := Finset.sum_const_zero
    rw [hfar, hsum]
    exact FarEnd.Reassembles.new

theorem relays_step {s s' : Multipath n} (h : s.Relays) (hstep : Step s s') : s'.Relays := by
  intro hlim
  cases hstep with
  | onDataFromFd pv =>
    obtain ⟨sent, pending, hinput, hc⟩ := h hlim
    refine ⟨sent, pending, ?_, hc.inFlight, hc.packets, hc.ordered, hc.offset, hc.reassembles⟩
    dsimp only [NearEnd.onDataFromFd]
    rw [hinput, List.append_assoc]
  | schedule ready share answers near hsched =>
    obtain ⟨sent, pending, hinput, hc⟩ := h hlim
    obtain ⟨taken, pending', hread, hc'⟩ := hc.schedule hsched
    refine ⟨sent ++ taken, pending', ?_, hc'⟩
    dsimp only
    rw [hinput, hread, List.append_assoc]
  | writeMessage i type data answers near hwrite =>
    obtain ⟨sent, pending, hinput, hc⟩ := h hlim
    obtain ⟨⟨out, c⟩, hmsg, rfl⟩ := Option.map_eq_some_iff.1 hwrite
    obtain ⟨f, hoff, -, hres⟩ := TcpConnection.writeMessage_eq hmsg
    have happend := TcpConnection.append_eq answers f.bytes (s.near.connections i)
    rw [← hres] at happend
    refine ⟨sent, _, hinput, hc.put [f] ?_ ?_⟩
    · intro g hg
      obtain rfl := List.mem_singleton.1 hg
      rw [hoff]
      decide
    · rw [Framing.encodeAll_cons, Framing.encodeAll_nil, List.append_nil]
      exact happend
  | connect i =>
    obtain ⟨sent, pending, hinput, hc⟩ := h hlim
    refine ⟨sent, _, hinput, hc.put [] (fun f hf => absurd hf List.not_mem_nil) ?_⟩
    rw [Framing.encodeAll_nil, List.append_nil, List.nil_append]
  | onWriteEvent i answers =>
    obtain ⟨sent, pending, hinput, hc⟩ := h hlim
    have hwrite := TcpConnection.onWriteEvent_eq answers (s.near.connections i)
    refine ⟨sent, _, hinput, hc.put [] (fun f hf => absurd hf List.not_mem_nil) ?_⟩
    rw [Framing.encodeAll_nil, List.append_nil]
    exact hwrite
  | receive i chunk rest fdReadBuffer far hwire hrecv =>
    -- the limits are known of the state after the step, and hold before it as well
    have hlim' : s.far.withinLimits = true :=
      withinLimits_of_handOnAll (handOnAll_of_receive hrecv).2 hlim
    obtain ⟨sent, pending, hinput, hc⟩ := h hlim'
    obtain ⟨pending', hc'⟩ := hc.receive hwire hrecv hlim
    exact ⟨sent, pending', hinput, hc'⟩

/-- The invariant holds of all reachable states. -/
theorem relays_reachable {s : Multipath n} (h : (system n).Reachable s) : s.Relays :=
  h.invariant (fun _ => relays_init) fun _ _ _ => relays_step

/-- Nothing is on its way from the near end to the far end. -/
def NothingInFlight (s : Multipath n) : Prop :=
  ∀ i, (s.near.connections i).fdWriteBuffer = [] ∧ s.near.wires i = [] ∧ s.readBuffers i = []

/-- What the invariant says of what the far end passes on. -/
theorem Relays.delivered {s : Multipath n} (h : s.Relays) (hlim : s.far.withinLimits = true) :
    s.far.delivered <+: s.input ∧
      (s.NothingInFlight → s.input = s.far.delivered ++ s.near.fdReadBuffer) := by
  obtain ⟨sent, pending, hinput, hc⟩ := h hlim
  refine ⟨?_, fun hnone => ?_⟩
  · rw [hinput]
    exact hc.reassembles.delivered_prefix.trans (List.prefix_append _ _)
  · have hpend : ∀ i, pending i = [] := by
      intro i
      obtain ⟨hw, hwire, hr⟩ := hnone i
      have hdrain := Framing.drain_encodeAll (F := tpFraming) (pending i)
      rw [← hc.inFlight i, hw, hwire, hr, List.append_nil, List.append_nil,
        Framing.drain_of_none Framing.parse_nil] at hdrain
      exact (congrArg Prod.fst hdrain).symm
    have hreass := hc.reassembles
    rw [Finset.sum_eq_zero fun i _ => by rw [hpend i]; rfl] at hreass
    rw [hinput, hreass.delivered_all]

/-- As long as the frames are within the limits of the sequencer, what the far end
    passes on is a start of what the near end has read; and once nothing is in
    flight, it is all of it but what is still to be scheduled. -/
theorem multipath_reassembly {s : Multipath n} (h : (system n).Reachable s)
    (hlim : s.far.withinLimits = true) :
    s.far.delivered <+: s.input ∧
      (s.NothingInFlight → s.input = s.far.delivered ++ s.near.fdReadBuffer) :=
  (relays_reachable h).delivered hlim

/-- Two bytes are read, scheduled over two paths, and received in two chunks. -/
theorem multipath_reassembly_two_bytes : ∃ s : Multipath 2,
    s.input = [7, 8] ∧ s.far.delivered = [7, 8] ∧ s.far.delivered <+: s.input ∧
      (s.NothingInFlight → s.input = s.far.delivered ++ s.near.fdReadBuffer) := by
  have hinit : (system 2).Reachable
      ⟨⟨[], kReserveOffset, fun _ => ⟨3, true, false, []⟩, fun _ => []⟩, fun _ => [], .new, []⟩ :=
    .init ⟨rfl, rfl, fun _ => ⟨rfl, rfl, rfl⟩, rfl, rfl⟩
  have hread := hinit.step (.onDataFromFd _ [7, 8])
  have hsched := hread.step (.schedule _ [1, 0] (fun _ _ => 0) (fun _ => [.sent 4]) _ rfl)
  have hfirst := hsched.step (.receive _ 1 [1] [2, 7, 8] _ _ rfl rfl)
  have hsecond := hfirst.step (.receive _ 1 [2, 7, 8] [] _ _ rfl rfl)
  exact ⟨_, rfl, by decide +kernel, multipath_reassembly hsecond (by decide +kernel)⟩

end Multipath

end DashDim
