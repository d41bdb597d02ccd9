import DashDim.Tpproxy.Frame

/-!
# The header of a frame

`isDeliverable` does not ask the reader how far it got: it computes the sizes of the two
integers from their values. The reader takes an integer in any of its four widths, and the
computed size is the least one. So the two agree exactly on the headers a writer puts
(`sizesAgree_iff`).
-/

namespace DashDim

/-! ## The shortest encoding -/

/-- The first of the bytes of a number in network order is its top one. -/
theorem leValue_reverse_cons_div (b : UInt8) (bs : Bytes) :
    leValue (b :: bs).reverse / 256 ^ bs.length = b.toNat := by
  have hlow := leValue_lt bs.reverse
  rw [List.length_reverse] at hlow
  have hone : leValue [b] = b.toNat := by rw [leValue, leValue, Nat.mul_zero, Nat.add_zero]
  rw [List.reverse_cons, leValue_append, hone, List.length_reverse,
    Nat.add_mul_div_left _ _ (Nat.pow_pos (by decide)), Nat.div_eq_of_lt hlow, Nat.zero_add]

/-- A string starts with what the writer puts for the number it starts with exactly if this
    number takes the least width. -/
theorem varInt62Bytes_prefix_iff {bs : Bytes} {n width : ℕ}
    (h : varInt62Of bs = some (n, width)) : varInt62Bytes n <+: bs ↔ width = varInt62Width n := by
  have hn := (varInt62Of_bounds h).1
  constructor
  · rintro ⟨rest, rfl⟩
    rw [varInt62Of_bytes hn] at h
    cases h
    rfl
  · intro hwidth
    cases bs with
    | nil => cases h
    | cons b bs =>
      rw [varInt62Of] at h
      split_ifs at h with hw
      generalize ht : b.toNat / 64 = t at h hw
      obtain ⟨hvalue, hpow⟩ := Prod.mk.inj (Option.some.inj h)
      have htag : t = varInt62Tag n := by
        rw [hwidth, varInt62Width] at hpow
        exact Nat.pow_right_injective le_rfl hpow
      -- what follows the first byte of the number
      obtain ⟨k, hk⟩ : ∃ k, 2 ^ t = k + 1 := ⟨2 ^ t - 1, by have := Nat.two_pow_pos t; omega⟩
      rw [hk, List.take_succ_cons] at hvalue
      rw [hk] at hw
      have hlen : (bs.take k).length = k := List.length_take_of_le (by omega)
      have htop := leValue_reverse_cons_div b (bs.take k)
      rw [hlen] at htop
      generalize hv : leValue (b :: bs.take k).reverse = v at hvalue htop
      have hsplit : 2 ^ (8 * (k + 1) - 2) = 256 ^ k * 64 := by
        rw [show 8 * (k + 1) - 2 = 8 * k + 6 by omega, pow_add, pow_mul]
        rfl
      have hquot : v / 2 ^ (8 * (k + 1) - 2) = t := by
        rw [hsplit, ← Nat.div_div_eq_div_mul, htop, ht]
      have hsum : n + t * 2 ^ (8 * (k + 1) - 2) = v := by
        rw [← hvalue, ← hquot]
        exact Nat.mod_add_div' v _
      have hbytes : varInt62Bytes n = b :: bs.take k := by
        have himage := leBytes_leValue (b :: bs.take k).reverse
        rw [List.length_reverse, List.length_cons, hlen, hv] at himage
        rw [varInt62Bytes, varInt62Width, ← htag, hk, hsum, himage, List.reverse_reverse]
      rw [hbytes]
      exact List.prefix_cons_inj b |>.2 (List.take_prefix k bs)

/-! ## The sizes -/

/-- If there is a frame, the sizes of the header are what the two reads consumed, the payload
    starts where they stopped and is within the buffer, and nothing wraps around. If not, all
    outputs are `0`. -/
def SizesAgree (data : Bytes) : Prop :=
  match isDeliverable data with
  | (true, hd) => ∃ r₁ r₂, (DataReader.new data).readVarInt62 = (some hd.offset, r₁) ∧
      r₁.readVarInt62 = (some hd.len, r₂) ∧ hd.offsetBytes = r₁.pos ∧
      hd.lenBytes = r₂.pos - r₁.pos ∧ data.drop (hd.offsetBytes + hd.lenBytes) = r₂.unread ∧
      hd.offsetBytes + hd.lenBytes + hd.len.toNat ≤ data.length ∧
      hd.offsetBytes + hd.lenBytes + hd.len.toNat < 2 ^ 64
  | (false, hd) => hd = ⟨0, 0, 0, 0⟩

/-- A buffer that holds a frame starts with what a writer puts for its offset and its length. -/
def WrittenHeader (data : Bytes) : Prop :=
  ∀ p, headerOf data = some p → frameSizeOf p ≤ data.length →
    varInt62Bytes p.1 ++ varInt62Bytes p.2 <+: data

/-- The two reads, and how far each gets. -/
theorem readVarInt62_twice {data : Bytes} {offset width len width' : ℕ}
    (hoffset : varInt62Of data = some (offset, width))
    (hlen : varInt62Of (data.drop width) = some (len, width')) :
    let r₁ := (DataReader.new data).advancePos width
    (DataReader.new data).readVarInt62 = (some (UInt64.ofNat offset), r₁) ∧
      r₁.readVarInt62 = (some (UInt64.ofNat len), r₁.advancePos width') := by
  have hfirst := DataReader.readVarInt62_eq (r := DataReader.new data) le_rfl
  have hsecond :=
    DataReader.readVarInt62_eq (r := (DataReader.new data).advancePos width) le_rfl
  rw [DataReader.unread_new, hoffset] at hfirst
  rw [DataReader.unread_advancePos, DataReader.unread_new, hlen] at hsecond
  exact ⟨hfirst, hsecond⟩

/-- The header starts with what a writer puts exactly if its two integers take their least
    widths. -/
theorem writtenBytes_prefix_iff {data : Bytes} {offset width len width' : ℕ}
    (hoffset : varInt62Of data = some (offset, width))
    (hlen : varInt62Of (data.drop width) = some (len, width')) :
    varInt62Bytes offset ++ varInt62Bytes len <+: data ↔
      width = varInt62Width offset ∧ width' = varInt62Width len := by
  rw [← varInt62Bytes_prefix_iff hoffset, ← varInt62Bytes_prefix_iff hlen]
  constructor
  · rintro ⟨rest, hdata⟩
    have hfirst : varInt62Bytes offset <+: data :=
      ⟨varInt62Bytes len ++ rest, by rw [← List.append_assoc, hdata]⟩
    refine ⟨hfirst, ?_⟩
    rw [(varInt62Bytes_prefix_iff hoffset).1 hfirst, ← varInt62Bytes_length, ← hdata,
      List.append_assoc, List.drop_left]
    exact List.prefix_append _ _
  · rintro ⟨hfirst, rest, hsecond⟩
    have hwidth := (varInt62Bytes_prefix_iff hoffset).1 hfirst
    obtain ⟨rest', rfl⟩ := hfirst
    rw [hwidth, ← varInt62Bytes_length, List.drop_left] at hsecond
    exact ⟨rest, by rw [List.append_assoc, hsecond]⟩

/-- The sizes agree with the bytes exactly if a writer could have put the header. -/
theorem sizesAgree_iff (data : Bytes) : SizesAgree data ↔ WrittenHeader data := by
  rw [SizesAgree, isDeliverable_eq, WrittenHeader]
  cases hp : headerOf data with
  | none => exact iff_of_true rfl nofun
  | some p =>
    obtain ⟨⟨offset, width⟩, hoffset, hq⟩ := Option.bind_eq_some_iff.1 hp
    obtain ⟨⟨len, width'⟩, hlen, rfl⟩ := Option.map_eq_some_iff.1 hq
    by_cases hsize : frameSizeOf (offset, len) ≤ data.length
    · have hlt := frameSizeOf_lt (headerOf_bounds hp).2
      have hto : (UInt64.ofNat len).toNat = len := by
        have hbound := (headerOf_bounds hp).2
        rw [UInt64.toNat_ofNat', Nat.mod_eq_of_lt (by omega)]
      have hreads := readVarInt62_twice hoffset hlen
      dsimp only at hreads hoffset hlen
      have hiff := writtenBytes_prefix_iff hoffset hlen
      simp only [if_pos hsize]
      rw [frameSizeOf] at hsize hlt
      constructor
      · -- the two reads are the only ones, so that the sizes are their widths
        rintro ⟨r₁, r₂, hfirst, hsecond, hwidth, hwidth', -⟩ p heq -
        cases heq
        cases hreads.1.symm.trans hfirst
        cases hreads.2.symm.trans hsecond
        simp only [DataReader.new, DataReader.advancePos] at hwidth hwidth'
        exact hiff.2 ⟨by omega, by omega⟩
      · -- a header as it is written has the sizes that are added up for it
        intro hwritten
        obtain ⟨hwidth, hwidth'⟩ := hiff.1 (hwritten _ rfl hsize)
        rw [← hwidth, ← hwidth', hto]
        refine ⟨_, _, hreads.1, hreads.2, (Nat.zero_add _).symm, ?_, ?_, ?_, ?_⟩
        · exact (Nat.add_sub_cancel_left _ _).symm
        · rw [DataReader.unread_advancePos, DataReader.unread_advancePos, DataReader.unread,
            DataReader.new, List.take_length, List.drop_zero, List.drop_drop]
        · rw [hwidth, hwidth']
          exact hsize
        · rw [hwidth, hwidth']
          exact hlt
    · -- the frame is not complete
      simp only [if_neg hsize]
      refine iff_of_true trivial fun p heq hle => ?_
      cases heq
      exact absurd hle hsize

/-- The frames of the proxy itself are written so. -/
theorem writtenHeader_bytes (f : Frame) (rest : Bytes) : WrittenHeader (f.bytes ++ rest) := by
  intro p hp _
  rw [headerOf_bytes] at hp
  cases hp
  rw [Frame.bytes, List.append_assoc]
  exact List.prefix_append _ _

/-- The offset `1` in two bytes, and a payload of two bytes. -/
def longOffset : Bytes := [0x40, 0x01, 0x02, 0xaa, 0xbb]

/-- The payload is taken to start at its length. -/
theorem not_sizesAgree_longOffset :
    isDeliverable longOffset = (true, ⟨1, 1, 2, 1⟩) ∧ ¬SizesAgree longOffset := by
  have hdeliverable : isDeliverable longOffset = (true, ⟨1, 1, 2, 1⟩) := by decide
  refine ⟨hdeliverable, ?_⟩
  rw [SizesAgree, hdeliverable]
  rintro ⟨r₁, r₂, hfirst, -, hwidth, -⟩
  have hpos : (DataReader.new longOffset).readVarInt62.2.pos = 2 := by decide
  rw [hfirst, ← hwidth] at hpos
  cases hpos

end DashDim
