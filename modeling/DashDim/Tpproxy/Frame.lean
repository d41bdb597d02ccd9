import DashDim.Codec.RoundTrip
import DashDim.Lib.Framing

/-!
# Frames of the multipath proxy

What two ends of a path send each other, as in `tpproxy/mpproxy_types.cc`: a
frame is an offset and a length, both of variable length, and that many bytes.
The offset `0` marks a message; the others are those of a stream of data, from
`kReserveOffset` on.

`isDeliverable` tells whether a buffer starts with a whole frame. Together with
the encoding it is a framing (`tpFraming`): it accepts a frame whatever follows,
and no part of one.
-/

namespace DashDim

/-- The first offset of the data. -/
def kReserveOffset : UInt64 := 1

/-- What `isDeliverable` tells about the frame at the start of a buffer. -/
structure FrameHeader where
  offset : UInt64
  offsetBytes : ℕ
  len : UInt64
  lenBytes : ℕ
  deriving DecidableEq, Repr

/-- Whether `data` starts with a whole frame. If not, all outputs are `0`. -/
def isDeliverable (data : Bytes) : Bool × FrameHeader :=
  if data.length > 0 then
    let reader := DataReader.new data
    match Read.andThen DataReader.readVarInt62
      (fun offset => Read.map (offset, ·) DataReader.readVarInt62) reader with
    | (some (offset, len), _) =>
      let offsetBytes := DataWriter.getVarInt62Len offset
      let lenBytes := DataWriter.getVarInt62Len len
      let frameSize := (offsetBytes + lenBytes + len.toNat) % 2 ^ 64
      if data.length ≥ frameSize then (true, ⟨offset, offsetBytes, len, lenBytes⟩)
      else (false, ⟨0, 0, 0, 0⟩)
    | (none, _) => (false, ⟨0, 0, 0, 0⟩)
  else (false, ⟨0, 0, 0, 0⟩)

/-- A frame: an offset and a payload, whose length is encoded, too. -/
structure Frame where
  offset : UInt64
  payload : Bytes
  offset_lt : offset.toNat < 2 ^ 62
  payload_lt : payload.length < 2 ^ 62
  deriving DecidableEq

namespace Frame

/-- The bytes of a frame. -/
def bytes (f : Frame) : Bytes :=
  varInt62Bytes f.offset.toNat ++ varInt62Bytes f.payload.length ++ f.payload

theorem bytes_length (f : Frame) :
    f.bytes.length = varInt62Width f.offset.toNat + varInt62Width f.payload.length +
      f.payload.length := by
  simp [bytes, Nat.add_assoc]

end Frame

/-! ## Recognising frames -/

/-- The values of the two integers a buffer starts with. -/
def headerOf (data : Bytes) : Option (ℕ × ℕ) :=
  (varInt62Of data).bind fun p =>
    (varInt62Of (data.drop p.2)).map fun q => (p.1, q.1)

/-- The bytes of a frame that starts with these integers. -/
def frameSizeOf (p : ℕ × ℕ) : ℕ := varInt62Width p.1 + varInt62Width p.2 + p.2

/-- More bytes do not change the integers read. -/
theorem headerOf_append {data : Bytes} {p : ℕ × ℕ} (h : headerOf data = some p) (rest : Bytes) :
    headerOf (data ++ rest) = some p := by
  obtain ⟨⟨offset, width⟩, hoff, h⟩ := Option.bind_eq_some_iff.1 h
  obtain ⟨⟨len, width'⟩, hlen, rfl⟩ := Option.map_eq_some_iff.1 h
  have hwidth := (varInt62Of_bounds hoff).2.2.2
  rw [headerOf, varInt62Of_append hoff, Option.bind_some,
    List.drop_append_of_le_length hwidth, varInt62Of_append hlen]
  rfl

theorem headerOf_bounds {data : Bytes} {p : ℕ × ℕ} (h : headerOf data = some p) :
    p.1 < 2 ^ 62 ∧ p.2 < 2 ^ 62 := by
  obtain ⟨⟨offset, width⟩, hoff, h⟩ := Option.bind_eq_some_iff.1 h
  obtain ⟨⟨len, width'⟩, hlen, rfl⟩ := Option.map_eq_some_iff.1 h
  exact ⟨(varInt62Of_bounds hoff).1, (varInt62Of_bounds hlen).1⟩

/-- The integers at the start of a frame are its offset and its length. -/
theorem headerOf_bytes (f : Frame) (rest : Bytes) :
    headerOf (f.bytes ++ rest) = some (f.offset.toNat, f.payload.length) := by
  rw [headerOf, Frame.bytes, List.append_assoc, List.append_assoc, varInt62Of_bytes f.offset_lt,
    Option.bind_some]
  simp only [← varInt62Bytes_length f.offset.toNat, List.drop_left,
    varInt62Of_bytes f.payload_lt, Option.map_some]

/-- The reads of `isDeliverable` give the integers at the start of the buffer. -/
theorem read_header (data : Bytes) :
    (Read.andThen DataReader.readVarInt62
      (fun offset => Read.map (offset, ·) DataReader.readVarInt62) (DataReader.new data)).1 =
      (headerOf data).map fun p => (UInt64.ofNat p.1, UInt64.ofNat p.2) := by
  have hread := DataReader.readVarInt62_eq (r := DataReader.new data) le_rfl
  rw [DataReader.unread_new] at hread
  rw [headerOf, Read.andThen, hread]
  cases hoff : varInt62Of data with
  | none => rfl
  | some p =>
    have hu' : ((DataReader.new data).advancePos p.2).unread = data.drop p.2 := by
      rw [DataReader.unread_advancePos, DataReader.unread_new]
    have hread' := DataReader.readVarInt62_eq (r := (DataReader.new data).advancePos p.2) le_rfl
    rw [hu'] at hread'
    simp only [Option.bind_some, Read.map, hread']
    cases varInt62Of (data.drop p.2) <;> rfl

theorem frameSizeOf_lt {p : ℕ × ℕ} (h : p.2 < 2 ^ 62) : frameSizeOf p < 2 ^ 64 := by
  have h1 := varInt62Width_le p.1
  have h2 := varInt62Width_le p.2
  rw [frameSizeOf]
  omega

/-- `isDeliverable` accepts a buffer that starts with two integers, and holds as
    many bytes as a frame with these has. -/
theorem isDeliverable_eq (data : Bytes) :
    isDeliverable data = match headerOf data with
      | none => (false, ⟨0, 0, 0, 0⟩)
      | some p =>
        if frameSizeOf p ≤ data.length then
          (true, ⟨UInt64.ofNat p.1, varInt62Width p.1, UInt64.ofNat p.2, varInt62Width p.2⟩)
        else (false, ⟨0, 0, 0, 0⟩) := by
  cases hdata : data with
  | nil => rfl
  | cons b bs =>
    rw [← hdata, isDeliverable, if_pos (by rw [hdata]; simp)]
    have hread := read_header data
    dsimp only
    generalize Read.andThen DataReader.readVarInt62
      (fun offset => Read.map (offset, ·) DataReader.readVarInt62) (DataReader.new data) = res
      at hread ⊢
    obtain ⟨o, r⟩ := res
    cases hp : headerOf data with
    | none =>
      rw [hp] at hread
      cases hread
      rfl
    | some p =>
      obtain ⟨h1, h2⟩ := headerOf_bounds hp
      have hto : ∀ {n : ℕ}, n < 2 ^ 62 → (UInt64.ofNat n).toNat = n := by
        intro n hn
        rw [UInt64.toNat_ofNat', Nat.mod_eq_of_lt (by omega)]
      have hlt := frameSizeOf_lt h2
      rw [hp] at hread
      cases hread
      dsimp only
      rw [DataWriter.getVarInt62Len_eq (by rw [hto h1]; exact h1),
        DataWriter.getVarInt62Len_eq (by rw [hto h2]; exact h2), hto h1, hto h2,
        ← frameSizeOf, Nat.mod_eq_of_lt hlt]

/-! ## The framing -/

/-- The frame at the start of a buffer, and its size. -/
def parseFrame (data : Bytes) : Option (Frame × ℕ) :=
  match h : headerOf data with
  | none => none
  | some p =>
    if hsize : frameSizeOf p ≤ data.length then
      some (⟨UInt64.ofNat p.1, (data.drop (varInt62Width p.1 + varInt62Width p.2)).take p.2,
        by
          have h1 := (headerOf_bounds h).1
          rw [UInt64.toNat_ofNat', Nat.mod_eq_of_lt (by omega)]
          exact h1,
        (List.length_take_le _ _).trans_lt (headerOf_bounds h).2⟩, frameSizeOf p)
    else none

theorem parseFrame_of_some {data : Bytes} {p : ℕ × ℕ} (h : headerOf data = some p)
    (hsize : frameSizeOf p ≤ data.length) :
    ∃ f : Frame, parseFrame data = some (f, frameSizeOf p) ∧ f.offset = UInt64.ofNat p.1 ∧
      f.payload = (data.drop (varInt62Width p.1 + varInt62Width p.2)).take p.2 := by
  rw [parseFrame]
  split
  · next h' => rw [h] at h'; cases h'
  · next q h' =>
    rw [h] at h'
    cases h'
    rw [dif_pos hsize]
    exact ⟨_, rfl, rfl, rfl⟩

theorem parseFrame_some {data : Bytes} {f : Frame} {n : ℕ} (h : parseFrame data = some (f, n)) :
    ∃ p, headerOf data = some p ∧ frameSizeOf p = n ∧ n ≤ data.length ∧
      f.offset = UInt64.ofNat p.1 ∧
      f.payload = (data.drop (varInt62Width p.1 + varInt62Width p.2)).take p.2 := by
  cases hp : headerOf data with
  | none =>
    rw [parseFrame] at h
    split at h
    · cases h
    · next h' => rw [hp] at h'; cases h'
  | some p =>
    by_cases hsize : frameSizeOf p ≤ data.length
    · obtain ⟨g, hg, hoff, hpay⟩ := parseFrame_of_some hp hsize
      rw [h] at hg
      cases hg
      exact ⟨p, rfl, rfl, hsize, hoff, hpay⟩
    · rw [parseFrame] at h
      split at h
      · cases h
      · next h' =>
        rw [hp] at h'
        cases h'
        rw [dif_neg hsize] at h
        cases h

theorem parseFrame_bytes (f : Frame) (rest : Bytes) :
    parseFrame (f.bytes ++ rest) = some (f, f.bytes.length) := by
  have hsize : frameSizeOf (f.offset.toNat, f.payload.length) = f.bytes.length :=
    (Frame.bytes_length f).symm
  obtain ⟨g, hg, hoff, hpay⟩ := parseFrame_of_some (headerOf_bytes f rest)
    (by rw [hsize, List.length_append]; omega)
  rw [hsize] at hg
  have hdrop : (f.bytes ++ rest).drop (varInt62Width f.offset.toNat +
      varInt62Width f.payload.length) = f.payload ++ rest := by
    have hlen : (varInt62Bytes f.offset.toNat ++ varInt62Bytes f.payload.length).length =
        varInt62Width f.offset.toNat + varInt62Width f.payload.length := by simp
    rw [Frame.bytes, List.append_assoc, ← hlen, List.drop_left]
  rw [hdrop, List.take_left] at hpay
  rw [UInt64.ofNat_toNat] at hoff
  have hfg : g = f := by
    cases f
    cases g
    cases hoff
    cases hpay
    rfl
  rw [hg, hfg]

theorem parseFrame_append {data : Bytes} {p : Frame × ℕ} (rest : Bytes)
    (h : parseFrame data = some p) : parseFrame (data ++ rest) = some p := by
  obtain ⟨f, n⟩ := p
  obtain ⟨q, hq, rfl, hsize, hoff, hpay⟩ := parseFrame_some h
  obtain ⟨g, hg, hoff', hpay'⟩ := parseFrame_of_some (headerOf_append hq rest)
    (by rw [List.length_append]; omega)
  rw [frameSizeOf] at hsize
  rw [List.drop_append_of_le_length (by omega),
    List.take_append_of_le_length (by rw [List.length_drop]; omega), ← hpay] at hpay'
  rw [← hoff] at hoff'
  have hfg : g = f := by
    cases f
    cases g
    cases hoff'
    cases hpay'
    rfl
  rw [hg, hfg]

/-- The framing of the multipath proxy. -/
def tpFraming : Framing UInt8 Frame where
  encode := Frame.bytes
  parse := parseFrame
  parse_encode := parseFrame_bytes
  parse_append := parseFrame_append
  parse_length {xs f n} h := by
    obtain ⟨p, _, rfl, hsize, _⟩ := parseFrame_some h
    have hpos := varInt62Width_pos p.1
    rw [frameSizeOf] at hsize ⊢
    omega

/-- `isDeliverable` accepts what starts with a frame, and tells where its payload
    is. -/
theorem isDeliverable_of_parse {data : Bytes} {f : Frame} {n : ℕ}
    (h : tpFraming.parse data = some (f, n)) :
    ∃ hd, isDeliverable data = (true, hd) ∧ hd.offset = f.offset ∧
      hd.offsetBytes + hd.lenBytes + hd.len.toNat = n ∧ hd.len.toNat = f.payload.length ∧
      f.payload = (data.drop (hd.offsetBytes + hd.lenBytes)).take hd.len.toNat := by
  obtain ⟨p, hp, rfl, hsize, hoff, hpay⟩ := parseFrame_some h
  have hlen : (UInt64.ofNat p.2).toNat = p.2 := by
    have h2 := (headerOf_bounds hp).2
    rw [UInt64.toNat_ofNat', Nat.mod_eq_of_lt (by omega)]
  refine ⟨⟨UInt64.ofNat p.1, varInt62Width p.1, UInt64.ofNat p.2, varInt62Width p.2⟩,
    ?_, hoff.symm, ?_, ?_, ?_⟩
  · rw [isDeliverable_eq, hp]
    exact if_pos hsize
  · rw [hlen, frameSizeOf]
  · rw [frameSizeOf] at hsize
    rw [hpay, hlen, List.length_take, List.length_drop]
    omega
  · rw [hlen]
    exact hpay

theorem isDeliverable_of_parse_none {data : Bytes} (h : tpFraming.parse data = none) :
    (isDeliverable data).1 = false := by
  rw [isDeliverable_eq]
  cases hp : headerOf data with
  | none => rfl
  | some p =>
    by_cases hsize : frameSizeOf p ≤ data.length
    · obtain ⟨f, hf, _⟩ := parseFrame_of_some hp hsize
      rw [show tpFraming.parse data = parseFrame data from rfl, hf] at h
      cases h
    · simp only [if_neg hsize]

/-- The bytes of a frame are that frame. -/
theorem drain_frame (f : Frame) : tpFraming.drain f.bytes = ([f], []) := by
  have hdrain := Framing.drain_encodeAll (F := tpFraming) [f]
  rwa [Framing.encodeAll_cons, Framing.encodeAll_nil, List.append_nil] at hdrain

end DashDim
