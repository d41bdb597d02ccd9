import DashDim.Codec.Reader
import Mathlib.Tactic

/-!
# The 62-bit variable-length encoding

What `writeVarInt62`, `getVarInt62Len` and `readVarInt62` do, without their
masks and shifts: a number below `2 ^ 62` is written big-endian in `2 ^ t` bytes,
for the least `t ≤ 3` for which it fits beside the two bits holding `t`
(`varInt62Bytes`), and is read back by looking at these two bits first
(`varInt62Of`).

* `writeVarInt62_eq`: the writer puts `varInt62Bytes`, if there is room;
* `readVarInt62_eq`: the reader reads `varInt62Of` of what is unread;
* `varInt62Of_bytes`: the one undoes the other.
-/

namespace DashDim

/-! ## Bits of numbers -/

/-- Masking the `k` bits from the bit `s` on. -/
theorem and_mask (n k s : ℕ) : n &&& ((2 ^ k - 1) * 2 ^ s) = n / 2 ^ s % 2 ^ k * 2 ^ s := by
  apply Nat.eq_of_testBit_eq
  intro i
  rw [Nat.testBit_and, Nat.testBit_mul_two_pow, Nat.testBit_mul_two_pow,
    Nat.testBit_two_pow_sub_one, Nat.testBit_mod_two_pow, Nat.testBit_div_two_pow]
  by_cases h : s ≤ i <;> simp [h, Bool.and_comm]

theorem and_63 (n : ℕ) : n &&& 63 = n % 64 := Nat.and_two_pow_sub_one_eq_mod n 6

theorem and_127 (n : ℕ) : n &&& 127 = n % 128 := Nat.and_two_pow_sub_one_eq_mod n 7

theorem and_255 (n : ℕ) : n &&& 255 = n % 256 := Nat.and_two_pow_sub_one_eq_mod n 8

/-- A mask of `k` bits from the bit `s` on misses `v`: these bits of `v` are `0`. -/
theorem and_eq_zero_iff (v m : UInt64) (k s : ℕ) (hm : m.toNat = (2 ^ k - 1) * 2 ^ s) :
    v &&& m = 0 ↔ v.toNat / 2 ^ s % 2 ^ k = 0 := by
  rw [← UInt64.toNat_inj, UInt64.toNat_and, hm, and_mask]
  simp

/-- The top two bits of a byte. -/
theorem and_c0 (b m : UInt8) : b &&& 0xc0 = m ↔ b.toNat / 64 * 64 = m.toNat := by
  have h : (0xc0 : UInt8).toNat = (2 ^ 2 - 1) * 2 ^ 6 := rfl
  have hb := b.toNat_lt
  rw [← UInt8.toNat_inj, UInt8.toNat_and, h, and_mask]
  omega

/-- A byte cut out of `v` by a shift and a mask. -/
theorem toUInt8_shiftRight (v s : UInt64) (hs : s.toNat < 64) :
    ((v >>> s) &&& 0xff).toUInt8 = UInt8.ofNat (v.toNat / 2 ^ s.toNat) := by
  apply UInt8.toNat_inj.1
  have h : (0xff : UInt64).toNat = 255 := rfl
  rw [UInt64.toNat_toUInt8, UInt64.toNat_and, UInt64.toNat_shiftRight, h, and_255,
    UInt8.toNat_ofNat', Nat.shiftRight_eq_div_pow, Nat.mod_mod, Nat.mod_eq_of_lt hs]

/-- The first byte of an encoding: the top bits of `v` and the tag. -/
theorem toUInt8_shiftRight_add (v s tag : UInt64) (hs : s.toNat < 64)
    (hv : v.toNat / 2 ^ s.toNat < 64) :
    (((v >>> s) &&& 0x3f) + tag).toUInt8 =
      UInt8.ofNat (v.toNat / 2 ^ s.toNat + tag.toNat) := by
  apply UInt8.toNat_inj.1
  have h : (0x3f : UInt64).toNat = 63 := rfl
  rw [UInt64.toNat_toUInt8, UInt64.toNat_add, UInt64.toNat_and, UInt64.toNat_shiftRight, h,
    and_63, UInt8.toNat_ofNat', Nat.shiftRight_eq_div_pow, Nat.mod_eq_of_lt hs,
    Nat.mod_eq_of_lt hv]
  omega

theorem toUInt8_and (v : UInt64) : (v &&& 0xff).toUInt8 = UInt8.ofNat v.toNat := by
  simpa using toUInt8_shiftRight v 0 (by decide)

theorem ofNat_congr {a b : ℕ} (h : a % 256 = b % 256) : UInt8.ofNat a = UInt8.ofNat b := by
  apply UInt8.toNat_inj.1
  rw [UInt8.toNat_ofNat', UInt8.toNat_ofNat', h]

/-! ## The encoding -/

/-- The tag of a number: the width of its encoding is `2 ^ tag`. -/
def varInt62Tag (n : ℕ) : ℕ :=
  if n < 2 ^ 6 then 0 else if n < 2 ^ 14 then 1 else if n < 2 ^ 30 then 2 else 3

/-- The width of the encoding of a number. -/
def varInt62Width (n : ℕ) : ℕ := 2 ^ varInt62Tag n

/-- The encoding of a number: big-endian, with the tag in the top two bits. -/
def varInt62Bytes (n : ℕ) : Bytes :=
  (leBytes (varInt62Width n)
    (n + varInt62Tag n * 2 ^ (8 * varInt62Width n - 2))).reverse

/-- The number encoded at the start of a string of bytes, and the width of its
    encoding. -/
def varInt62Of : Bytes → Option (ℕ × ℕ)
  | [] => none
  | b :: bs =>
    let width := 2 ^ (b.toNat / 64)
    if width ≤ bs.length + 1 then
      some (leValue ((b :: bs).take width).reverse % 2 ^ (8 * width - 2), width)
    else none

@[simp] theorem varInt62Bytes_length (n : ℕ) : (varInt62Bytes n).length = varInt62Width n := by
  simp [varInt62Bytes]

theorem varInt62Width_pos (n : ℕ) : 0 < varInt62Width n := Nat.two_pow_pos _

/-- The four classes of numbers. -/
theorem varInt62_cases {n : ℕ} (h : n < 2 ^ 62) :
    (n < 2 ^ 6 ∧ varInt62Tag n = 0) ∨ (2 ^ 6 ≤ n ∧ n < 2 ^ 14 ∧ varInt62Tag n = 1) ∨
      (2 ^ 14 ≤ n ∧ n < 2 ^ 30 ∧ varInt62Tag n = 2) ∨ (2 ^ 30 ≤ n ∧ varInt62Tag n = 3) := by
  rw [varInt62Tag]
  split_ifs <;> omega

theorem varInt62Width_le (n : ℕ) : varInt62Width n ≤ 8 := by
  rw [varInt62Width, varInt62Tag]
  split_ifs <;> decide

/-- A number is read back from the start of what its encoding starts. -/
theorem varInt62Of_bytes {n : ℕ} (h : n < 2 ^ 62) (rest : Bytes) :
    varInt62Of (varInt62Bytes n ++ rest) = some (n, varInt62Width n) := by
  have key : ∀ t, varInt62Tag n = t → t < 4 → n < 2 ^ (8 * 2 ^ t - 2) →
      varInt62Of (varInt62Bytes n ++ rest) = some (n, 2 ^ t) := by
    intro t ht ht4 hn
    obtain ⟨m, hm⟩ : ∃ m, n + t * 2 ^ (8 * 2 ^ t - 2) = m := ⟨_, rfl⟩
    have hbytes : varInt62Bytes n = (leBytes (2 ^ t) m).reverse := by
      rw [varInt62Bytes, varInt62Width, ht, hm]
    have hlen : (varInt62Bytes n).length = 2 ^ t := by rw [hbytes]; simp
    -- the first byte is the top byte of `m`, which holds the tag
    have hhead : ∃ b bs, varInt62Bytes n = b :: bs ∧ b.toNat / 64 = t := by
      rw [hbytes]
      interval_cases t <;>
        exact ⟨_, _, by simp [leBytes]; exact ⟨rfl, rfl⟩, by simp; omega⟩
    obtain ⟨b, bs, hb, htag⟩ := hhead
    have htake : (b :: (bs ++ rest)).take (2 ^ t) = b :: bs := by
      rw [← List.cons_append, ← hb, ← hlen, List.take_left]
    have hlen' : bs.length + 1 = 2 ^ t := by rw [← hlen, hb, List.length_cons]
    have hm' : m < 256 ^ 2 ^ t := by
      subst hm
      interval_cases t <;> omega
    rw [hb, List.cons_append, varInt62Of]
    simp only [htag, htake]
    rw [if_pos (by rw [List.length_append]; omega), ← hb, hbytes, List.reverse_reverse,
      leValue_leBytes_of_lt hm', ← hm, Nat.add_mul_mod_self_right, Nat.mod_eq_of_lt hn]
  rcases varInt62_cases h with ⟨h1, ht⟩ | ⟨_, h1, ht⟩ | ⟨_, h1, ht⟩ | ⟨_, ht⟩
  · rw [key 0 ht (by decide) h1, varInt62Width, ht]
  · rw [key 1 ht (by decide) h1, varInt62Width, ht]
  · rw [key 2 ht (by decide) h1, varInt62Width, ht]
  · rw [key 3 ht (by decide) h, varInt62Width, ht]

/-- Reading a number only looks at its encoding: more bytes do not change it. -/
theorem varInt62Of_append {bs : Bytes} {p : ℕ × ℕ} (h : varInt62Of bs = some p) (rest : Bytes) :
    varInt62Of (bs ++ rest) = some p := by
  cases bs with
  | nil => cases h
  | cons b bs =>
    simp only [varInt62Of, List.cons_append] at h ⊢
    split_ifs at h with hw
    rw [if_pos (by rw [List.length_append]; omega), ← h, ← List.cons_append,
      List.take_append_of_le_length (by simpa using hw)]

/-- What is read is a 62-bit number, and its encoding is within the bytes. -/
theorem varInt62Of_bounds {bs : Bytes} {n width : ℕ} (h : varInt62Of bs = some (n, width)) :
    n < 2 ^ 62 ∧ 0 < width ∧ width ≤ 8 ∧ width ≤ bs.length := by
  cases bs with
  | nil => cases h
  | cons b bs =>
    simp only [varInt62Of] at h
    split_ifs at h with hw
    obtain ⟨rfl, rfl⟩ := Prod.mk.inj (Option.some.inj h)
    have hb := b.toNat_lt
    have ht : b.toNat / 64 ≤ 3 := by omega
    have hle : 2 ^ (b.toNat / 64) ≤ 2 ^ 3 := Nat.pow_le_pow_right (by decide) ht
    refine ⟨?_, Nat.two_pow_pos _, hle, by simpa using hw⟩
    refine (Nat.mod_lt _ (Nat.two_pow_pos _)).trans_le (Nat.pow_le_pow_right (by decide) ?_)
    omega

/-! ## The writer -/

namespace DataWriter

theorem and_errorMask (v : UInt64) : v &&& kVarInt62ErrorMask = 0 ↔ v.toNat < 2 ^ 62 := by
  rw [and_eq_zero_iff v _ 2 62 rfl]
  have := v.toNat_lt
  omega

theorem and_mask8 {v : UInt64} (h : v.toNat < 2 ^ 62) :
    v &&& kVarInt62Mask8Bytes = 0 ↔ v.toNat < 2 ^ 30 := by
  rw [and_eq_zero_iff v _ 32 30 rfl]
  omega

theorem and_mask4 {v : UInt64} (h : v.toNat < 2 ^ 30) :
    v &&& kVarInt62Mask4Bytes = 0 ↔ v.toNat < 2 ^ 14 := by
  rw [and_eq_zero_iff v _ 16 14 rfl]
  omega

theorem and_mask2 {v : UInt64} (h : v.toNat < 2 ^ 14) :
    v &&& kVarInt62Mask2Bytes = 0 ↔ v.toNat < 2 ^ 6 := by
  rw [and_eq_zero_iff v _ 8 6 rfl]
  omega

theorem getVarInt62Len_eq {v : UInt64} (h : v.toNat < 2 ^ 62) :
    getVarInt62Len v = varInt62Width v.toNat := by
  rw [getVarInt62Len, if_neg (not_not.2 ((and_errorMask v).2 h)), varInt62Width, varInt62Tag]
  by_cases h30 : v.toNat < 2 ^ 30
  · rw [if_neg (not_not.2 ((and_mask8 h).2 h30))]
    by_cases h14 : v.toNat < 2 ^ 14
    · rw [if_neg (not_not.2 ((and_mask4 h30).2 h14))]
      by_cases h6 : v.toNat < 2 ^ 6
      · rw [if_neg (not_not.2 ((and_mask2 h14).2 h6)), if_pos h6, pow_zero]
      · rw [if_pos (mt (and_mask2 h14).1 h6), if_neg h6, if_pos h14, pow_one]
    · rw [if_pos (mt (and_mask4 h30).1 h14), if_neg (by omega), if_neg h14, if_pos h30]
      rfl
  · rw [if_pos (mt (and_mask8 h).1 h30), if_neg (by omega), if_neg (by omega), if_neg h30]
    rfl

theorem varInt62Bytes_one {v : UInt64} (h : v.toNat < 2 ^ 6) (ht : varInt62Tag v.toNat = 0) :
    varInt62Bytes v.toNat = [(v &&& 0x3f).toUInt8] := by
  have hb := toUInt8_shiftRight_add v 0 0 (by decide) (by simpa using h)
  simp only [UInt64.shiftRight_zero, UInt64.add_zero, UInt64.toNat_zero, pow_zero,
    Nat.div_one, Nat.add_zero] at hb
  rw [hb, varInt62Bytes, varInt62Width, ht]
  simp [leBytes]

theorem varInt62Bytes_two {v : UInt64} (h : v.toNat < 2 ^ 14) (ht : varInt62Tag v.toNat = 1) :
    varInt62Bytes v.toNat = [(((v >>> 8) &&& 0x3f) + 0x40).toUInt8, (v &&& 0xff).toUInt8] := by
  have htop : v.toNat / 2 ^ (8 : UInt64).toNat < 64 := by simp; omega
  rw [toUInt8_shiftRight_add v 8 0x40 (by decide) htop, toUInt8_and,
    varInt62Bytes, varInt62Width, ht]
  simp only [Nat.reducePow, leBytes, List.reverse_cons, List.reverse_nil, List.nil_append,
    List.cons_append, List.cons.injEq, and_true]
  refine ⟨?_, ?_⟩ <;> exact ofNat_congr (by simp; omega)

theorem varInt62Bytes_four {v : UInt64} (h : v.toNat < 2 ^ 30) (ht : varInt62Tag v.toNat = 2) :
    varInt62Bytes v.toNat = [(((v >>> 24) &&& 0x3f) + 0x80).toUInt8,
      ((v >>> 16) &&& 0xff).toUInt8, ((v >>> 8) &&& 0xff).toUInt8, (v &&& 0xff).toUInt8] := by
  have htop : v.toNat / 2 ^ (24 : UInt64).toNat < 64 := by simp; omega
  rw [toUInt8_shiftRight_add v 24 0x80 (by decide) htop, toUInt8_shiftRight v 16 (by decide),
    toUInt8_shiftRight v 8 (by decide), toUInt8_and, varInt62Bytes, varInt62Width, ht]
  simp only [Nat.reducePow, leBytes, List.reverse_cons, List.reverse_nil, List.nil_append,
    List.cons_append, Nat.div_div_eq_div_mul, List.cons.injEq, and_true]
  refine ⟨?_, ?_, ?_, ?_⟩ <;> exact ofNat_congr (by simp; omega)

theorem varInt62Bytes_eight {v : UInt64} (h : v.toNat < 2 ^ 62) (ht : varInt62Tag v.toNat = 3) :
    varInt62Bytes v.toNat = [(((v >>> 56) &&& 0x3f) + 0xc0).toUInt8,
      ((v >>> 48) &&& 0xff).toUInt8, ((v >>> 40) &&& 0xff).toUInt8,
      ((v >>> 32) &&& 0xff).toUInt8, ((v >>> 24) &&& 0xff).toUInt8,
      ((v >>> 16) &&& 0xff).toUInt8, ((v >>> 8) &&& 0xff).toUInt8, (v &&& 0xff).toUInt8] := by
  have htop : v.toNat / 2 ^ (56 : UInt64).toNat < 64 := by simp; omega
  rw [toUInt8_shiftRight_add v 56 0xc0 (by decide) htop, toUInt8_shiftRight v 48 (by decide),
    toUInt8_shiftRight v 40 (by decide), toUInt8_shiftRight v 32 (by decide),
    toUInt8_shiftRight v 24 (by decide), toUInt8_shiftRight v 16 (by decide),
    toUInt8_shiftRight v 8 (by decide), toUInt8_and, varInt62Bytes, varInt62Width, ht]
  simp only [Nat.reducePow, leBytes, List.reverse_cons, List.reverse_nil, List.nil_append,
    List.cons_append, Nat.div_div_eq_div_mul, List.cons.injEq, and_true]
  refine ⟨?_, ?_, ?_, ?_, ?_, ?_, ?_, ?_⟩ <;> exact ofNat_congr (by simp; omega)

/-- `writeVarInt62` writes the encoding of its value, if it has one and there is
    room for it, and otherwise does nothing. -/
theorem writeVarInt62_eq (w : DataWriter) (v : UInt64) :
    w.writeVarInt62 v = if v.toNat < 2 ^ 62 ∧ varInt62Width v.toNat ≤ w.remaining then
      (true, w.put (varInt62Bytes v.toNat)) else (false, w) := by
  rw [writeVarInt62]
  by_cases h : v.toNat < 2 ^ 62
  swap
  · rw [if_neg (mt (and_errorMask v).1 h), if_neg (by tauto)]
  rw [if_pos ((and_errorMask v).2 h)]
  simp only [h, true_and]
  rcases varInt62_cases h with ⟨h6, ht⟩ | ⟨h6, h14, ht⟩ | ⟨h14, h30, ht⟩ | ⟨h30, ht⟩
  · rw [if_neg (not_not.2 ((and_mask8 h).2 (by omega))),
      if_neg (not_not.2 ((and_mask4 (by omega)).2 (by omega))),
      if_neg (not_not.2 ((and_mask2 (by omega)).2 h6)), varInt62Bytes_one h6 ht,
      varInt62Width, ht, pow_zero]
  · rw [if_neg (not_not.2 ((and_mask8 h).2 (by omega))),
      if_neg (not_not.2 ((and_mask4 (by omega)).2 h14)),
      if_pos (mt (and_mask2 h14).1 (by omega)), varInt62Bytes_two h14 ht,
      varInt62Width, ht, pow_one]
  · rw [if_neg (not_not.2 ((and_mask8 h).2 h30)), if_pos (mt (and_mask4 h30).1 (by omega)),
      varInt62Bytes_four h30 ht, varInt62Width, ht]
    rfl
  · rw [if_pos (mt (and_mask8 h).1 (by omega)), varInt62Bytes_eight h ht, varInt62Width, ht]
    rfl

end DataWriter

/-! ## The reader -/

namespace DataReader

/-- The bytes still to be read. -/
def unread (r : DataReader) : Bytes := (r.data.take r.len).drop r.pos

theorem unread_length {r : DataReader} (h : r.len ≤ r.data.length) :
    r.unread.length = r.bytesRemaining := by
  rw [unread, List.length_drop, List.length_take, Nat.min_eq_left h, bytesRemaining]

/-- The bytes ahead of the reader are those unread, as far as these go. -/
theorem byteAt_eq {r : DataReader} {i : ℕ} (hi : i < r.unread.length) :
    r.byteAt i = r.unread.getD i 0 := by
  have hlen : r.pos + i < r.len ∧ r.pos + i < r.data.length := by
    rw [unread, List.length_drop, List.length_take] at hi
    omega
  simp only [byteAt, unread, List.getD_eq_getElem?_getD, List.getElem?_drop,
    List.getElem?_take, if_pos hlen.1]

/-- The four ways `readVarInt62` puts bytes together are one: the number they
    hold, without the two bits of the tag. -/
theorem read_one (b0 : UInt8) :
    b0.toUInt64 &&& 0x3f = UInt64.ofNat (leValue [b0] % 2 ^ 6) := by
  apply UInt64.toNat_inj.1
  simp [leValue, and_63]
  omega

theorem read_two (b0 b1 : UInt8) :
    ((b0.toUInt64 &&& 0x3f) <<< 8) + b1.toUInt64 =
      UInt64.ofNat (leValue [b1, b0] % 2 ^ 14) := by
  apply UInt64.toNat_inj.1
  have h0 := b0.toNat_lt
  have h1 := b1.toNat_lt
  simp [leValue, UInt64.toNat_add, UInt64.toNat_shiftLeft, Nat.shiftLeft_eq, and_63]
  omega

theorem read_four (b0 b1 b2 b3 : UInt8) :
    ((b0.toUInt64 &&& 0x3f) <<< 24) + (b1.toUInt64 <<< 16) + (b2.toUInt64 <<< 8)
      + (b3.toUInt64 <<< 0) = UInt64.ofNat (leValue [b3, b2, b1, b0] % 2 ^ 30) := by
  apply UInt64.toNat_inj.1
  have h0 := b0.toNat_lt
  have h1 := b1.toNat_lt
  have h2 := b2.toNat_lt
  have h3 := b3.toNat_lt
  simp [leValue, UInt64.toNat_add, UInt64.toNat_shiftLeft, Nat.shiftLeft_eq, and_63]
  omega

theorem read_eight (b0 b1 b2 b3 b4 b5 b6 b7 : UInt8) :
    ((b0.toUInt64 &&& 0x3f) <<< 56) + (b1.toUInt64 <<< 48) + (b2.toUInt64 <<< 40)
      + (b3.toUInt64 <<< 32) + (b4.toUInt64 <<< 24) + (b5.toUInt64 <<< 16)
      + (b6.toUInt64 <<< 8) + (b7.toUInt64 <<< 0) =
      UInt64.ofNat (leValue [b7, b6, b5, b4, b3, b2, b1, b0] % 2 ^ 62) := by
  apply UInt64.toNat_inj.1
  have h0 := b0.toNat_lt
  have h1 := b1.toNat_lt
  have h2 := b2.toNat_lt
  have h3 := b3.toNat_lt
  have h4 := b4.toNat_lt
  have h5 := b5.toNat_lt
  have h6 := b6.toNat_lt
  have h7 := b7.toNat_lt
  simp [leValue, UInt64.toNat_add, UInt64.toNat_shiftLeft, Nat.shiftLeft_eq, and_63]
  omega

/-- `readVarInt62` reads the number encoded at the start of what is unread, and
    stays where it is if there is none. -/
theorem readVarInt62_eq {r : DataReader} (h : r.len ≤ r.data.length) :
    r.readVarInt62 = match varInt62Of r.unread with
      | some (n, width) => (some (UInt64.ofNat n), r.advancePos width)
      | none => (none, r) := by
  have hat := fun i (hi : i < r.unread.length) => byteAt_eq hi
  rw [readVarInt62, ← unread_length h]
  cases hu : r.unread with
  | nil => rfl
  | cons b0 bs =>
    rw [hu, List.length_cons] at hat
    have h0 : r.byteAt 0 = b0 := hat 0 (Nat.succ_pos _)
    have hb := b0.toNat_lt
    rw [if_pos (by simp), h0, varInt62Of, List.length_cons]
    have hcase : b0.toNat / 64 = 0 ∨ b0.toNat / 64 = 1 ∨ b0.toNat / 64 = 2 ∨ b0.toNat / 64 = 3 := by
      omega
    -- the two high bits of the first byte tell the width: 1, 2, 4 or 8 bytes
    rcases hcase with ht | ht | ht | ht
    · have ne : ∀ m : UInt8, m.toNat ≠ 0 → ¬b0 &&& 0xc0 = m := fun m hm he =>
        hm (by rw [← (and_c0 b0 m).1 he, ht])
      rw [if_neg (ne _ (by decide)), if_neg (ne _ (by decide)), if_neg (ne _ (by decide)), ht]
      have htake : (b0 :: bs).take (2 ^ 0) = [b0] := rfl
      rw [htake]
      simpa using read_one b0
    · have ne : ∀ m : UInt8, m.toNat ≠ 64 → ¬b0 &&& 0xc0 = m := fun m hm he =>
        hm (by rw [← (and_c0 b0 m).1 he, ht])
      rw [if_neg (ne _ (by decide)), if_neg (ne _ (by decide)),
        if_pos ((and_c0 b0 0x40).2 (by rw [ht]; rfl)), ht]
      match bs, hat with
      | [], _ => simp
      | b1 :: bs, hat =>
        have h1 : r.byteAt 1 = b1 := hat 1 (by simp)
        simpa [h1] using read_two b0 b1
    · have ne : ∀ m : UInt8, m.toNat ≠ 128 → ¬b0 &&& 0xc0 = m := fun m hm he =>
        hm (by rw [← (and_c0 b0 m).1 he, ht])
      rw [if_neg (ne _ (by decide)), if_pos ((and_c0 b0 0x80).2 (by rw [ht]; rfl)), ht]
      match bs, hat with
      | [], _ | [_], _ | [_, _], _ => simp
      | b1 :: b2 :: b3 :: bs, hat =>
        have h1 : r.byteAt 1 = b1 := hat 1 (by simp)
        have h2 : r.byteAt 2 = b2 := hat 2 (by simp)
        have h3 : r.byteAt 3 = b3 := hat 3 (by simp)
        simpa [h1, h2, h3] using read_four b0 b1 b2 b3
    · rw [if_pos ((and_c0 b0 0xc0).2 (by rw [ht]; rfl)), ht]
      match bs, hat with
      | [], _ | [_], _ | [_, _], _ | [_, _, _], _ | [_, _, _, _], _ | [_, _, _, _, _], _
      | [_, _, _, _, _, _], _ => simp
      | b1 :: b2 :: b3 :: b4 :: b5 :: b6 :: b7 :: bs, hat =>
        have h1 : r.byteAt 1 = b1 := hat 1 (by simp)
        have h2 : r.byteAt 2 = b2 := hat 2 (by simp)
        have h3 : r.byteAt 3 = b3 := hat 3 (by simp)
        have h4 : r.byteAt 4 = b4 := hat 4 (by simp)
        have h5 : r.byteAt 5 = b5 := hat 5 (by simp)
        have h6 : r.byteAt 6 = b6 := hat 6 (by simp)
        have h7 : r.byteAt 7 = b7 := hat 7 (by simp)
        simpa [h1, h2, h3, h4, h5, h6, h7] using read_eight b0 b1 b2 b3 b4 b5 b6 b7

end DataReader

end DashDim
