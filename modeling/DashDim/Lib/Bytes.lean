import Mathlib.Data.Nat.Bitwise
import Mathlib.Data.List.Basic
import Mathlib.Tactic.Ring

/-!
# Bytes of numbers, and bytes in a buffer

How a number lies in memory on a little-endian machine, and what a `memcpy`
into a buffer does:

* `leBytes w n`: the memory image of an unsigned integer of `w` bytes holding
  `n`, lowest byte first, and `leValue`, the number a memory image holds;
* `byteSwap w n`: the integer whose image is that of `n` reversed;
* `store buf pos bs`: the buffer `buf` after the bytes `bs` are copied to the
  position `pos`.
-/

namespace DashDim

/-- A string of bytes. -/
abbrev Bytes := List UInt8

/-! ## Memory images -/

/-- The memory image of a `w`-byte unsigned integer holding `n`. -/
def leBytes : ℕ → ℕ → Bytes
  | 0, _ => []
  | w + 1, n => UInt8.ofNat n :: leBytes w (n / 256)

/-- The number a memory image holds. -/
def leValue : Bytes → ℕ
  | [] => 0
  | b :: bs => b.toNat + 256 * leValue bs

@[simp] theorem leBytes_length (w n : ℕ) : (leBytes w n).length = w := by
  induction w generalizing n with
  | zero => rfl
  | succ w ih => rw [leBytes, List.length_cons, ih]

/-- An image holds the number it was made from, up to its width. -/
theorem leValue_leBytes (w n : ℕ) : leValue (leBytes w n) = n % 256 ^ w := by
  induction w generalizing n with
  | zero => rw [pow_zero, Nat.mod_one]; rfl
  | succ w ih =>
    rw [leBytes, leValue, ih, UInt8.toNat_ofNat', pow_succ' 256 w, Nat.mod_mul]

theorem leValue_leBytes_of_lt {w n : ℕ} (h : n < 256 ^ w) : leValue (leBytes w n) = n := by
  rw [leValue_leBytes, Nat.mod_eq_of_lt h]

/-- Every string of bytes is the image of the number it holds. -/
theorem leBytes_leValue (bs : Bytes) : leBytes bs.length (leValue bs) = bs := by
  induction bs with
  | nil => rfl
  | cons b bs ih =>
    have hb := b.toNat_lt
    have hdiv : (b.toNat + 256 * leValue bs) / 256 = leValue bs := by omega
    rw [List.length_cons, leValue, leBytes, hdiv, ih]
    congr 1
    apply UInt8.toNat_inj.1
    rw [UInt8.toNat_ofNat']
    omega

theorem leValue_lt (bs : Bytes) : leValue bs < 256 ^ bs.length := by
  rw [← leBytes_leValue bs, leValue_leBytes, leBytes_length]
  exact Nat.mod_lt _ (Nat.pow_pos (by decide))

theorem leValue_append (bs cs : Bytes) :
    leValue (bs ++ cs) = leValue bs + 256 ^ bs.length * leValue cs := by
  induction bs with
  | nil => simp [leValue]
  | cons b bs ih =>
    rw [List.cons_append, leValue, leValue, ih, List.length_cons, pow_succ]
    ring

/-- Bytes of `0` on top do not change the number held. -/
theorem leValue_append_zeros (bs : Bytes) (k : ℕ) :
    leValue (bs ++ List.replicate k 0) = leValue bs := by
  have hz : ∀ k, leValue (List.replicate k 0) = 0 := by
    intro k
    induction k with
    | zero => rfl
    | succ k ih => rw [List.replicate_succ, leValue, ih]; rfl
  rw [leValue_append, hz, Nat.mul_zero, Nat.add_zero]

/-! ## Byte swaps -/

/-- The `w`-byte integer with the bytes of `n` in the opposite order. -/
def byteSwap (w n : ℕ) : ℕ := leValue (leBytes w n).reverse

theorem leBytes_byteSwap (w n : ℕ) : leBytes w (byteSwap w n) = (leBytes w n).reverse := by
  have h := leBytes_leValue (leBytes w n).reverse
  rwa [List.length_reverse, leBytes_length] at h

theorem byteSwap_lt (w n : ℕ) : byteSwap w n < 256 ^ w := by
  have h := leValue_lt (leBytes w n).reverse
  rwa [List.length_reverse, leBytes_length] at h

/-- Swapping twice gives the integer back. -/
theorem byteSwap_byteSwap {w n : ℕ} (h : n < 256 ^ w) : byteSwap w (byteSwap w n) = n := by
  rw [byteSwap, leBytes_byteSwap, List.reverse_reverse, leValue_leBytes_of_lt h]

/-! ## Stores -/

/-- The buffer `buf` after `bs` is copied to it at the position `pos`. -/
def store (buf : Bytes) (pos : ℕ) (bs : Bytes) : Bytes :=
  buf.take pos ++ bs ++ buf.drop (pos + bs.length)

/-- A store inside the buffer keeps its length. -/
theorem store_length {buf bs : Bytes} {pos : ℕ} (h : pos + bs.length ≤ buf.length) :
    (store buf pos bs).length = buf.length := by
  simp only [store, List.length_append, List.length_take, List.length_drop]
  omega

/-- Up to its end, a store keeps what was before `pos` and appends `bs`. -/
theorem take_store {buf bs : Bytes} {pos : ℕ} (h : pos ≤ buf.length) :
    (store buf pos bs).take (pos + bs.length) = buf.take pos ++ bs := by
  have hlen : (buf.take pos ++ bs).length = pos + bs.length := by
    rw [List.length_append, List.length_take, Nat.min_eq_left h]
  rw [store, ← hlen, List.take_left]

theorem store_nil (buf : Bytes) (pos : ℕ) : store buf pos [] = buf := by
  rw [store, List.append_nil, List.length_nil, Nat.add_zero, List.take_append_drop]

/-- A store of the first byte, and one of the others behind it. -/
theorem store_cons {buf : Bytes} {pos : ℕ} (h : pos < buf.length) (b : UInt8) (bs : Bytes) :
    store buf pos (b :: bs) = store (buf.set pos b) (pos + 1) bs := by
  have hset : pos < (buf.set pos b).length := by rwa [List.length_set]
  have htake : (buf.set pos b).take (pos + 1) = buf.take pos ++ [b] := by
    rw [List.take_succ_eq_append_getElem hset, List.take_set_of_le le_rfl, List.getElem_set_self]
  have hdrop : (buf.set pos b).drop (pos + 1 + bs.length) = buf.drop (pos + 1 + bs.length) :=
    List.drop_set_of_lt (by omega)
  have hlen : pos + (b :: bs).length = pos + 1 + bs.length := by
    rw [List.length_cons]
    omega
  rw [store, store, htake, hdrop, hlen, List.append_assoc (buf.take pos) [b]]
  rfl

end DashDim
