import Mathlib.Algebra.BigOperators.Ring.List
import Mathlib.Algebra.Order.BigOperators.Group.List
import Mathlib.Algebra.Order.Field.Basic

/-!
# The harmonic mean

The harmonic mean of values that have a weight each, given as pairs of a weight and a value.
It lies between bounds of the values (`le_harmonicMean`, `harmonicMean_le`).
-/

namespace DashDim

variable {K : Type*} [Field K] [LinearOrder K] [IsStrictOrderedRing K] {l : List (K × K)} {m : K}

/-- The sum of the weights, over that of the weights over the values. -/
def harmonicMean (l : List (K × K)) : K := (l.map Prod.fst).sum / (l.map fun p => p.1 / p.2).sum

/-- What is divided by. -/
theorem sum_weights_div_pos (hne : l ≠ []) (hpos : ∀ p ∈ l, 0 < p.1 ∧ 0 < p.2) :
    0 < (l.map fun p => p.1 / p.2).sum := by
  refine List.sum_pos _ (fun x hx => ?_) (fun hnil => hne (List.map_eq_nil_iff.1 hnil))
  obtain ⟨p, hp, rfl⟩ := List.mem_map.1 hx
  exact div_pos (hpos p hp).1 (hpos p hp).2

theorem le_harmonicMean (hne : l ≠ []) (hpos : ∀ p ∈ l, 0 < p.1 ∧ 0 < p.2)
    (hm : ∀ p ∈ l, m ≤ p.2) : m ≤ harmonicMean l := by
  rw [harmonicMean, le_div_iff₀ (sum_weights_div_pos hne hpos), ← List.sum_map_mul_left]
  refine List.sum_le_sum fun p hp => ?_
  obtain ⟨hweight, hvalue⟩ := hpos p hp
  rw [mul_div_assoc', div_le_iff₀ hvalue, mul_comm]
  exact mul_le_mul_of_nonneg_left (hm p hp) hweight.le

theorem harmonicMean_le (hne : l ≠ []) (hpos : ∀ p ∈ l, 0 < p.1 ∧ 0 < p.2)
    (hm : ∀ p ∈ l, p.2 ≤ m) : harmonicMean l ≤ m := by
  rw [harmonicMean, div_le_iff₀ (sum_weights_div_pos hne hpos), ← List.sum_map_mul_left]
  refine List.sum_le_sum fun p hp => ?_
  obtain ⟨hweight, hvalue⟩ := hpos p hp
  rw [mul_div_assoc', le_div_iff₀ hvalue, mul_comm m]
  exact mul_le_mul_of_nonneg_left (hm p hp) hweight.le

end DashDim
