import Mathlib.Data.Int.Order.Basic
import Mathlib.Data.List.Range

/-!
# Searching a table

Loops look for the last index of a table that satisfies a condition, and have a default
if there is none. They go through the table index by index, from either end: what one more
index does is `GreatestOr.succ_of_pos` and `GreatestOr.extend`.

* `foldlM_greatestOr`: the loop that keeps the last match;
* `GreatestOr.default_iff`, `GreatestOr.succ_iff`: when a search with another default, or
  one that misses the last index, has the same result.
-/

namespace DashDim

variable {p : ℕ → Prop} {n : ℕ} {d e l : ℤ}

/-- The greatest index below a bound that satisfies a condition, or a default if there is
    none. -/
def GreatestOr (p : ℕ → Prop) (n : ℕ) (d l : ℤ) : Prop :=
  (∃ i < n, p i ∧ (∀ j, i < j → j < n → ¬p j) ∧ l = i) ∨ (∀ i < n, ¬p i) ∧ l = d

namespace GreatestOr

/-- Of no indices. -/
theorem zero (p : ℕ → Prop) (d : ℤ) : GreatestOr p 0 d d :=
  .inr ⟨fun i hi => absurd hi (Nat.not_lt_zero i), rfl⟩

/-- The last index. -/
theorem succ_of_pos (h : p n) (d : ℤ) : GreatestOr p (n + 1) d n :=
  .inl ⟨n, Nat.lt_succ_self n, h, fun j hj hlt => absurd hlt (by omega), rfl⟩

/-- Indices that do not satisfy the condition are passed over. -/
theorem extend {k : ℕ} (h : GreatestOr p k d l) (hle : k ≤ n)
    (hnone : ∀ j, k ≤ j → j < n → ¬p j) : GreatestOr p n d l := by
  rcases h with ⟨i, hi, hp, hlast, rfl⟩ | ⟨hbelow, rfl⟩
  · refine .inl ⟨i, by omega, hp, fun j hij hj => ?_, rfl⟩
    rcases Nat.lt_or_ge j k with hlt | hge
    · exact hlast j hij hlt
    · exact hnone j hge hj
  · refine .inr ⟨fun i hi => ?_, rfl⟩
    rcases Nat.lt_or_ge i k with hlt | hge
    · exact hbelow i hlt
    · exact hnone i hge hi

/-- One more index, which does not satisfy the condition. -/
theorem succ_of_neg (h : GreatestOr p n d l) (hp : ¬p n) : GreatestOr p (n + 1) d l := by
  refine h.extend (Nat.le_succ n) fun j hle hlt => ?_
  obtain rfl : j = n := by omega
  exact hp

/-- It is the result with another default too exactly if there is a match, or the defaults
    agree. -/
theorem default_iff (h : GreatestOr p n d l) :
    GreatestOr p n e l ↔ (∃ i < n, p i) ∨ d = e := by
  rcases h with ⟨i, hi, hp, hlast, rfl⟩ | ⟨hnone, rfl⟩
  · exact iff_of_true (.inl ⟨i, hi, hp, hlast, rfl⟩) (.inl ⟨i, hi, hp⟩)
  · constructor
    · rintro (⟨i, hi, hp, -⟩ | ⟨-, heq⟩)
      · exact absurd hp (hnone i hi)
      · exact .inr heq
    · rintro (⟨i, hi, hp⟩ | rfl)
      · exact absurd hp (hnone i hi)
      · exact .inr ⟨hnone, rfl⟩

/-- The result is above an index exactly if a match is. -/
theorem lt_iff {k : ℕ} (h : GreatestOr p n d l) (hd : d ≤ k) :
    (k : ℤ) < l ↔ ∃ i < n, k < i ∧ p i := by
  rcases h with ⟨i, hi, hp, hlast, rfl⟩ | ⟨hnone, rfl⟩
  · constructor
    · exact fun hlt => ⟨i, hi, by omega, hp⟩
    · rintro ⟨j, hj, hkj, hpj⟩
      by_contra hle
      exact hlast j (by omega) hj hpj
  · refine iff_of_false (by omega) ?_
    rintro ⟨i, hi, -, hp⟩
    exact hnone i hi hp

/-- A weaker condition has a greater result, if the default is below all indices. -/
theorem mono {q : ℕ → Prop} (h : GreatestOr p n d l) (h' : GreatestOr q n d e)
    (hpq : ∀ i < n, p i → q i) (hd : d ≤ 0) : l ≤ e := by
  rcases h with ⟨i, hi, hp, -, rfl⟩ | ⟨-, rfl⟩
  · rcases h' with ⟨j, hj, -, hlast, rfl⟩ | ⟨hnone, -⟩
    · by_contra hlt
      exact hlast i (by omega) hi (hpq i hi hp)
    · exact absurd (hpq i hi hp) (hnone i hi)
  · rcases h' with ⟨j, -, -, -, rfl⟩ | ⟨-, rfl⟩ <;> omega

/-- A search that misses the last index is right exactly if this index does not match, or is
    the default. -/
theorem succ_iff (h : GreatestOr p n 0 l) : GreatestOr p (n + 1) 0 l ↔ n = 0 ∨ ¬p n := by
  by_cases hp : p n
  · constructor
    · intro hsucc
      have hlast : l = n := by
        rcases hsucc with ⟨i, hi, -, hmax, rfl⟩ | ⟨hnone, -⟩
        · by_contra hne
          exact hmax n (by omega) (Nat.lt_succ_self n) hp
        · exact absurd hp (hnone n (Nat.lt_succ_self n))
      rcases h with ⟨i, hi, -, -, rfl⟩ | ⟨-, rfl⟩
      · omega
      · exact .inl (by omega)
    · rintro (rfl | hneg)
      · rcases h with ⟨i, hi, -⟩ | ⟨-, rfl⟩
        · exact absurd hi (Nat.not_lt_zero i)
        · exact succ_of_pos hp 0
      · exact absurd hp hneg
  · exact iff_of_true (h.succ_of_neg hp) (.inr hp)

end GreatestOr

/-- A loop over the indices that keeps the last match. -/
theorem foldlM_greatestOr {f : ℤ → ℕ → Option ℤ}
    (hf : ∀ i < n, ∀ s, f s i = some (i : ℤ) ∧ p i ∨ f s i = some s ∧ ¬p i) (d : ℤ) :
    ∃ l, (List.range n).foldlM f d = some l ∧ GreatestOr p n d l := by
  induction n with
  | zero => exact ⟨d, rfl, .zero p d⟩
  | succ n ih =>
    obtain ⟨l, hl, hgreatest⟩ := ih fun i hi => hf i (by omega)
    rw [List.range_succ, List.foldlM_append, hl]
    simp only [List.foldlM_cons, List.foldlM_nil, Option.bind_eq_bind, Option.bind_some]
    rcases hf n (Nat.lt_succ_self n) l with ⟨heq, hp⟩ | ⟨heq, hp⟩
    · rw [heq]
      exact ⟨n, rfl, .succ_of_pos hp d⟩
    · rw [heq]
      exact ⟨l, rfl, hgreatest.succ_of_neg hp⟩

end DashDim
