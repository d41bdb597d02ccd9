import DashDim.Codec.VarInt62

/-!
# The 7-bit-group variable-length encoding

What `writeVarInt`, `getVarIntLen` and `readVarInt` do: a number is written in
groups of 7 bits, lowest first, each in a byte whose top bit tells whether more
follow (`varIntBytes`). The reader takes at most 8 groups, and so does the
writer: it refuses numbers from `2 ^ 56` on.

* `writeVarInt_eq`: the writer puts `varIntBytes`, if there is room;
* `readVarInt_of_unread`: the reader reads the number back.
-/

namespace DashDim

/-! ## The encoding -/

/-- The encoding of a number of at most so many groups. -/
def varIntBytes : ℕ → ℕ → Bytes
  | 0, _ => []
  | groups + 1, n =>
    if 128 ≤ n then UInt8.ofNat (n % 128 + 128) :: varIntBytes groups (n / 128)
    else [UInt8.ofNat n]

/-- A number takes as many groups as its size in base `128`. -/
theorem varIntBytes_length {k n : ℕ} (hlo : 128 ^ k ≤ n ∨ k = 0) (hhi : n < 128 ^ (k + 1))
    {groups : ℕ} (hg : k < groups) : (varIntBytes groups n).length = k + 1 := by
  induction k generalizing n groups with
  | zero =>
    obtain ⟨g, rfl⟩ : ∃ g, groups = g + 1 := ⟨groups - 1, by omega⟩
    rw [varIntBytes, if_neg (by simpa using hhi)]
    rfl
  | succ k ih =>
    obtain ⟨g, rfl⟩ : ∃ g, groups = g + 1 := ⟨groups - 1, by omega⟩
    have hlo : 128 ^ (k + 1) ≤ n := hlo.resolve_right (Nat.succ_ne_zero k)
    have hpos : 0 < 128 ^ k := Nat.pow_pos (by decide)
    rw [pow_succ] at hlo
    rw [pow_succ] at hhi
    have hlo' : 128 ^ k ≤ n / 128 := (Nat.le_div_iff_mul_le (by decide)).2 hlo
    have hhi' : n / 128 < 128 ^ (k + 1) := (Nat.div_lt_iff_lt_mul (by decide)).2 hhi
    rw [varIntBytes, if_pos (by omega), List.length_cons, ih (.inl hlo') hhi' (by omega)]

theorem varIntBytes_ne_nil {groups : ℕ} (hg : 0 < groups) (n : ℕ) :
    varIntBytes groups n ≠ [] := by
  obtain ⟨g, rfl⟩ : ∃ g, groups = g + 1 := ⟨groups - 1, by omega⟩
  rw [varIntBytes]
  split <;> simp

/-! ## The writer -/

/-- Consecutive stores are one. -/
theorem store_store {buf a b : Bytes} {pos : ℕ} (h : pos ≤ buf.length) :
    store (store buf pos a) (pos + a.length) b = store buf pos (a ++ b) := by
  have hlen : (buf.take pos ++ a).length = pos + a.length := by
    rw [List.length_append, List.length_take, Nat.min_eq_left h]
  have hdrop : (store buf pos a).drop (pos + a.length + b.length) =
      buf.drop (pos + a.length + b.length) := by
    rw [store, ← hlen, List.drop_length_add_append, List.drop_drop]
  rw [store, take_store h, hdrop, store, List.length_append, List.append_assoc (buf.take pos),
    Nat.add_assoc]

/-- Marking a group of 7 bits. -/
theorem or_128 {n : ℕ} (h : n < 128) : n ||| 128 = n + 128 := by
  have hor := Nat.two_pow_add_eq_or_of_lt (i := 7) h 1
  rw [Nat.or_comm, Nat.add_comm]
  exact hor.symm

namespace DataWriter

@[simp] theorem put_length (w : DataWriter) (bs : Bytes) :
    (w.put bs).length = w.length + bs.length := rfl

@[simp] theorem put_endianness (w : DataWriter) (bs : Bytes) :
    (w.put bs).endianness = w.endianness := rfl

theorem put_capacity {w : DataWriter} {bs : Bytes} (h : w.length + bs.length ≤ w.capacity) :
    (w.put bs).capacity = w.capacity := store_length h

theorem put_put {w : DataWriter} (h : w.length ≤ w.capacity) (a b : Bytes) :
    (w.put a).put b = w.put (a ++ b) := by
  simp only [put, List.length_append, Nat.add_assoc, store_store h]

theorem put_nil {w : DataWriter} : w.put [] = w := by
  simp [put, store]

/-- `writeBytes` writes its data, if there is room, and otherwise does nothing. -/
theorem writeBytes_eq {w : DataWriter} (h : w.length ≤ w.capacity) (data : Bytes) :
    w.writeBytes data =
      if data.length ≤ w.remaining then (true, w.put data) else (false, w) := by
  rw [writeBytes, beginWrite, if_neg (by omega), remaining]
  by_cases hd : data.length ≤ w.capacity - w.length
  · rw [if_neg (by omega), if_pos hd]
    rfl
  · rw [if_pos (by omega), if_neg hd]

/-- The loop of `writeVarInt` puts the groups of its number one by one. -/
theorem writeVarIntLoop_eq {rounds : ℕ} {w : DataWriter} {next : UInt64}
    (h : w.length + (varIntBytes rounds next.toNat).length ≤ w.capacity) :
    writeVarIntLoop rounds w next = w.put (varIntBytes rounds next.toNat) := by
  -- a round writes one group, and the rest of the value is the next round's
  induction rounds generalizing w next with
  | zero => rw [varIntBytes, put_nil]; rfl
  | succ rounds ih =>
    have hdiv : (next / 128).toNat = next.toNat / 128 := by rw [UInt64.toNat_div]; rfl
    have hmod : (next % 128).toNat = next.toNat % 128 := by rw [UInt64.toNat_mod]; rfl
    have hpos : next / 128 > 0 ↔ 128 ≤ next.toNat := by
      rw [gt_iff_lt, UInt64.lt_iff_toNat_lt, hdiv, UInt64.toNat_zero]
      omega
    rw [varIntBytes] at h ⊢
    simp only [writeVarIntLoop]
    by_cases hc : 128 ≤ next.toNat
    · have hbyte : (next % 128).toUInt8 ||| 128 = UInt8.ofNat (next.toNat % 128 + 128) := by
        apply UInt8.toNat_inj.1
        have h128 : (128 : UInt8).toNat = 128 := rfl
        rw [UInt8.toNat_or, UInt64.toNat_toUInt8, hmod, UInt8.toNat_ofNat', h128,
          Nat.mod_eq_of_lt (show next.toNat % 128 < 2 ^ 8 by omega), or_128 (by omega),
          Nat.mod_eq_of_lt (show next.toNat % 128 + 128 < 2 ^ 8 by omega)]
      rw [if_pos hc] at h ⊢
      rw [List.length_cons] at h
      rw [if_pos (hpos.2 hc), if_pos (hpos.2 hc), hbyte, writeUInt8,
        writeBytes_eq (by omega), if_pos (by rw [remaining, List.length_singleton]; omega)]
      have hcap : (w.put [UInt8.ofNat (next.toNat % 128 + 128)]).capacity = w.capacity :=
        put_capacity (by rw [List.length_singleton]; omega)
      rw [ih (by rw [hcap, put_length, hdiv, List.length_singleton]; omega),
        put_put (by omega), hdiv]
      rfl
    · rw [if_neg hc] at h ⊢
      rw [List.length_singleton] at h
      have hbyte : (next % 128).toUInt8 = UInt8.ofNat next.toNat := by
        apply UInt8.toNat_inj.1
        rw [UInt64.toNat_toUInt8, hmod, UInt8.toNat_ofNat']
        omega
      rw [if_neg (mt hpos.1 hc), if_neg (mt hpos.1 hc), hbyte, writeUInt8,
        writeBytes_eq (by omega), if_pos (by rw [remaining, List.length_singleton]; omega)]

/-- The thresholds of `getVarIntLen` are the powers of `128`. -/
theorem getVarIntLen_eq (v : UInt64) :
    getVarIntLen v = if v.toNat < 2 ^ 56 then (varIntBytes 10 v.toNat).length else 0 := by
  have hlen : ∀ k < 8, 128 ^ k ≤ v.toNat ∨ k = 0 → v.toNat < 128 ^ (k + 1) →
      k + 1 = if v.toNat < 2 ^ 56 then (varIntBytes 10 v.toNat).length else 0 := by
    intro k hk hlo hhi
    have hpow : 128 ^ (k + 1) ≤ 2 ^ 56 :=
      (Nat.pow_le_pow_right (by decide) (show k + 1 ≤ 8 by omega)).trans (by decide)
    rw [if_pos (by omega), varIntBytes_length hlo hhi (by omega)]
  have hbig : ¬v.toNat < 2 ^ 56 →
      0 = if v.toNat < 2 ^ 56 then (varIntBytes 10 v.toNat).length else 0 := fun h =>
    (if_neg h).symm
  generalize (if v.toNat < 2 ^ 56 then (varIntBytes 10 v.toNat).length else 0) = len at hlen hbig
  simp only [getVarIntLen, UInt64.le_iff_toNat_le, UInt64.reduceToNat]
  split_ifs
  · exact hlen 0 (by decide) (.inr rfl) (by omega)
  · exact hlen 1 (by decide) (.inl (by omega)) (by omega)
  · exact hlen 2 (by decide) (.inl (by omega)) (by omega)
  · exact hlen 3 (by decide) (.inl (by omega)) (by omega)
  · exact hlen 4 (by decide) (.inl (by omega)) (by omega)
  · exact hlen 5 (by decide) (.inl (by omega)) (by omega)
  · exact hlen 6 (by decide) (.inl (by omega)) (by omega)
  · exact hlen 7 (by decide) (.inl (by omega)) (by omega)
  · exact hbig (by omega)

/-- `writeVarInt` writes the groups of its value, if there are at most 8 and
    there is room for them, and otherwise does nothing. -/
theorem writeVarInt_eq (w : DataWriter) (v : UInt64) :
    w.writeVarInt v =
      if v.toNat < 2 ^ 56 ∧ (varIntBytes 10 v.toNat).length ≤ w.remaining then
        (true, w.put (varIntBytes 10 v.toNat)) else (false, w) := by
  have hne := List.length_pos_iff.2 (varIntBytes_ne_nil (by decide : 0 < 10) v.toNat)
  rw [writeVarInt, getVarIntLen_eq]
  by_cases hv : v.toNat < 2 ^ 56
  · rw [if_pos hv]
    by_cases hr : (varIntBytes 10 v.toNat).length ≤ w.remaining
    · rw [if_neg (by omega), if_pos ⟨hv, hr⟩, writeVarIntLoop_eq (by rw [remaining] at hr; omega)]
    · rw [if_pos (by omega), if_neg (by tauto)]
  · rw [if_neg hv, if_pos (.inl rfl), if_neg (by tauto)]

end DataWriter

/-! ## The reader -/

namespace DataReader

/-- The search for the last group finds the end of the encoding ahead. -/
theorem varIntScan_eq {r : DataReader} {groups n i length remaining : ℕ} (hn : n < 128 ^ groups)
    (hg : 0 < groups)
    (hat : ∀ j < (varIntBytes groups n).length, r.byteAt (i + j) = (varIntBytes groups n).getD j 0)
    (hrem : (varIntBytes groups n).length ≤ remaining)
    (hlen : length + (varIntBytes groups n).length ≤ 8) :
    r.varIntScan remaining i length = (length + (varIntBytes groups n).length, true) := by
  induction groups generalizing n i length remaining with
  | zero => exact absurd hg (lt_irrefl 0)
  | succ groups ih =>
    have hpos := List.length_pos_iff.2 (varIntBytes_ne_nil hg n)
    obtain ⟨rem, rfl⟩ : ∃ rem, remaining = rem + 1 := ⟨remaining - 1, by omega⟩
    have h0 : r.byteAt i = (varIntBytes (groups + 1) n).getD 0 0 := hat 0 hpos
    have h128 : (128 : UInt8).toNat = (2 ^ 1 - 1) * 2 ^ 7 := rfl
    rw [varIntBytes] at hat hrem hlen h0 ⊢
    by_cases hc : 128 ≤ n
    · -- a marked group: the search goes on in the rest
      rw [if_pos hc] at hat hrem hlen h0 ⊢
      rw [List.length_cons] at hat hrem hlen ⊢
      have hmark : ¬r.byteAt i &&& 128 = 0 := by
        rw [h0, ← UInt8.toNat_inj, UInt8.toNat_and, h128, and_mask]
        simp
        omega
      have hn' : n / 128 < 128 ^ groups := by
        rw [pow_succ] at hn
        exact (Nat.div_lt_iff_lt_mul (by decide)).2 hn
      have hg' : 0 < groups := by
        rcases Nat.eq_zero_or_pos groups with rfl | h
        · simp at hn
          omega
        · exact h
      have hrest : r.varIntScan rem (i + 1) (length + 1) =
          (length + 1 + (varIntBytes groups (n / 128)).length, true) := by
        refine ih hn' hg' (fun j hj => ?_) (by omega) (by omega)
        have h := hat (j + 1) (by omega)
        rw [List.getD_cons_succ] at h
        rw [← h]
        congr 1
        omega
      have hpos' := List.length_pos_iff.2 (varIntBytes_ne_nil hg' (n / 128))
      rw [varIntScan, if_neg hmark, if_neg (by omega), hrest]
      congr 1
      omega
    · -- the last group has no mark, so the search ends on it
      rw [if_neg hc] at h0 ⊢
      have hmark : r.byteAt i &&& 128 = 0 := by
        rw [h0, ← UInt8.toNat_inj, UInt8.toNat_and, h128, and_mask]
        simp
        omega
      rw [varIntScan, if_pos hmark]
      rfl

/-- The groups of the encoding ahead add up to the number encoded. -/
theorem varIntValue_eq {r : DataReader} {groups n i : ℕ} (remain remainMulti : UInt64)
    (hn : n < 128 ^ groups) (hg : 0 < groups)
    (hat : ∀ j < (varIntBytes groups n).length,
      r.byteAt (i + j) = (varIntBytes groups n).getD j 0) :
    r.varIntValue (varIntBytes groups n).length i remain remainMulti =
      remain + UInt64.ofNat n * remainMulti := by
  induction groups generalizing n i remain remainMulti with
  | zero => exact absurd hg (lt_irrefl 0)
  | succ groups ih =>
    have hpos := List.length_pos_iff.2 (varIntBytes_ne_nil hg n)
    have h0 : r.byteAt i = (varIntBytes (groups + 1) n).getD 0 0 := hat 0 hpos
    have h127 : (127 : UInt8).toNat = 127 := rfl
    rw [varIntBytes] at hat h0 ⊢
    by_cases hc : 128 ≤ n
    · rw [if_pos hc] at hat h0 ⊢
      rw [List.length_cons] at hat ⊢
      have hgroup : (r.byteAt i &&& 127).toUInt64 = UInt64.ofNat (n % 128) := by
        apply UInt64.toNat_inj.1
        rw [h0, UInt8.toNat_toUInt64, UInt8.toNat_and, h127, and_127]
        simp
        omega
      have hn' : n / 128 < 128 ^ groups := by
        rw [pow_succ] at hn
        exact (Nat.div_lt_iff_lt_mul (by decide)).2 hn
      have hg' : 0 < groups := by
        rcases Nat.eq_zero_or_pos groups with rfl | h
        · simp at hn
          omega
        · exact h
      rw [varIntValue, hgroup, ih _ _ hn' hg' (fun j hj => by
          have h := hat (j + 1) (by omega)
          rw [List.getD_cons_succ] at h
          rw [← h]
          congr 1
          omega)]
      -- the lowest group is read first, so each later one counts 128 times as much
      have hsum : UInt64.ofNat n = UInt64.ofNat (n % 128) + UInt64.ofNat (n / 128) * 128 := by
        apply UInt64.toNat_inj.1
        simp
        omega
      rw [hsum, UInt64.add_mul, UInt64.mul_assoc, UInt64.mul_comm 128, UInt64.add_assoc]
    · rw [if_neg hc] at h0 ⊢
      have hgroup : (r.byteAt i &&& 127).toUInt64 = UInt64.ofNat n := by
        apply UInt64.toNat_inj.1
        rw [h0, UInt8.toNat_toUInt64, UInt8.toNat_and, h127, and_127]
        simp
        omega
      rw [List.length_singleton, varIntValue, varIntValue, hgroup]

/-- `readVarInt` reads back a number of at most 8 groups. -/
theorem readVarInt_of_unread {r : DataReader} (h : r.len ≤ r.data.length) {n : ℕ}
    (hn : n < 2 ^ 56) {rest : Bytes} (hu : r.unread = varIntBytes 10 n ++ rest) :
    r.readVarInt = (some (UInt64.ofNat n), r.advancePos (varIntBytes 10 n).length) := by
  have hpos := List.length_pos_iff.2 (varIntBytes_ne_nil (by decide : 0 < 10) n)
  have hlen8 : (varIntBytes 10 n).length ≤ 8 := by
    have hv := DataWriter.getVarIntLen_eq (UInt64.ofNat n)
    have hto : (UInt64.ofNat n).toNat = n := by
      rw [UInt64.toNat_ofNat', Nat.mod_eq_of_lt (by omega)]
    rw [hto, if_pos hn] at hv
    rw [← hv, DataWriter.getVarIntLen]
    split_ifs <;> decide
  have hat : ∀ j < (varIntBytes 10 n).length, r.byteAt (0 + j) = (varIntBytes 10 n).getD j 0 := by
    intro j hj
    rw [Nat.zero_add, byteAt_eq (by rw [hu, List.length_append]; omega), hu,
      List.getD_append _ _ _ _ hj]
  have hrem : (varIntBytes 10 n).length ≤ r.bytesRemaining := by
    rw [← unread_length h, hu, List.length_append]
    omega
  have hn10 : n < 128 ^ 10 := by omega
  rw [readVarInt, varIntScan_eq hn10 (by decide) hat hrem (by omega)]
  simp only [Nat.zero_add, hpos, hlen8, and_self, if_true]
  rw [varIntValue_eq 0 1 hn10 (by decide) hat, UInt64.zero_add, UInt64.mul_one]

end DataReader

end DashDim
