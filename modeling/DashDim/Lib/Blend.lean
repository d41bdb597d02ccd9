import Mathlib.Analysis.Real.Sqrt
import Mathlib.Order.Monotone.Union
import Mathlib.Tactic.Positivity
import Mathlib.Tactic.Linarith
import Mathlib.Algebra.Order.Monoid.Unbundled.Basic

/-!
# Blending two inputs

Two inputs between `0` and `1` are blended into an output between `1` and `4`. Each input is
low to the degree `1 - u` and high to the degree `u`. Both are low, or both are high, to the
lesser of their degrees; one is low and the other high to the root of the squares of the two
ways this may be. The output weighs these three degrees with `1`, `4` and `2`.

The degree that one is low and the other high goes up and down with an input. It does so not
faster than the input (`mixed_le_add`, `le_mixed_add`), so that the output only goes up
(`blend_monotoneOn`).

An input is the position of a measured value between breakpoints (`position`).
-/

namespace DashDim

namespace Blend

/-! ## Roots of squares -/

/-- The root of two squares goes up with either argument, but not faster. -/
theorem sqrt_mono {x y c : ℝ} (hx : 0 ≤ x) (hxy : x ≤ y) :
    √(x * x + c * c) ≤ √(y * y + c * c) := by
  apply Real.sqrt_le_sqrt
  linarith [mul_self_le_mul_self hx hxy]

theorem sqrt_le_add {x y c : ℝ} (hx : 0 ≤ x) (hxy : x ≤ y) :
    √(y * y + c * c) ≤ √(x * x + c * c) + (y - x) := by
  have hle : x ≤ √(x * x + c * c) := by
    apply Real.le_sqrt_of_sq_le
    linarith [sq x, mul_self_nonneg c]
  have hsq : √(x * x + c * c) * √(x * x + c * c) = x * x + c * c :=
    Real.mul_self_sqrt (add_nonneg (mul_self_nonneg x) (mul_self_nonneg c))
  apply Real.sqrt_le_iff.2
  refine ⟨by linarith, ?_⟩
  have hmul := mul_le_mul_of_nonneg_right hle (sub_nonneg.2 hxy)
  nlinarith [hmul, hsq]

/-! ## The three degrees -/

/-- Both are low. -/
noncomputable def low (u v : ℝ) : ℝ := min (1 - u) (1 - v)

/-- One is low and the other high. -/
noncomputable def mixed (u v : ℝ) : ℝ :=
  √(min u (1 - v) * min u (1 - v) + min (1 - u) v * min (1 - u) v)

/-- Both are high. -/
noncomputable def high (u v : ℝ) : ℝ := min u v

/-- The weighted mean of the three grades, at the weights 1, 2 and 4. -/
noncomputable def blend (u v : ℝ) : ℝ :=
  (low u v + 2 * mixed u v + 4 * high u v) / (low u v + mixed u v + high u v)

theorem low_comm (u v : ℝ) : low u v = low v u := min_comm _ _

theorem mixed_comm (u v : ℝ) : mixed u v = mixed v u := by
  rw [mixed, mixed, add_comm, min_comm (1 - u), min_comm u]

theorem high_comm (u v : ℝ) : high u v = high v u := min_comm _ _

theorem blend_comm (u v : ℝ) : blend u v = blend v u := by
  rw [blend, blend, low_comm, mixed_comm, high_comm]

variable {u u' v : ℝ}

theorem mixed_of_le (h : u ≤ 1 - v) : mixed u v = √(u * u + v * v) := by
  rw [mixed, min_eq_left h, min_eq_right (by linarith)]

theorem mixed_of_ge (h : 1 - v ≤ u) :
    mixed u v = √((1 - u) * (1 - u) + (1 - v) * (1 - v)) := by
  rw [mixed, min_eq_right h, min_eq_left (by linarith), add_comm]

theorem low_of_le (h : u ≤ v) : low u v = 1 - v := min_eq_right (by linarith)

theorem low_of_ge (h : v ≤ u) : low u v = 1 - u := min_eq_left (by linarith)

theorem high_of_le (h : u ≤ v) : high u v = u := min_eq_left h

theorem high_of_ge (h : v ≤ u) : high u v = v := min_eq_right h

/-- While an input is below what the other lacks, the mixed degree goes up with it, but not
    faster. -/
theorem mixed_le_add (hu : 0 ≤ u) (huu' : u ≤ u') (hsum : u' ≤ 1 - v) :
    mixed u v ≤ mixed u' v ∧ mixed u' v ≤ mixed u v + (u' - u) := by
  rw [mixed_of_le hsum, mixed_of_le (huu'.trans hsum)]
  exact ⟨sqrt_mono hu huu', sqrt_le_add hu huu'⟩

/-- Above it, it goes down with it, but not faster. -/
theorem le_mixed_add (hu' : u' ≤ 1) (huu' : u ≤ u') (hsum : 1 - v ≤ u) :
    mixed u' v ≤ mixed u v ∧ mixed u v ≤ mixed u' v + (u' - u) := by
  rw [mixed_of_ge hsum, mixed_of_ge (hsum.trans huu')]
  have hnonneg : 0 ≤ 1 - u' := sub_nonneg.2 hu'
  have hle : 1 - u' ≤ 1 - u := by linarith
  have hadd := sqrt_le_add (c := 1 - v) hnonneg hle
  exact ⟨sqrt_mono hnonneg hle, by linarith⟩

theorem mixed_nonneg (u v : ℝ) : 0 ≤ mixed u v := Real.sqrt_nonneg _

theorem low_nonneg (hu : u ≤ 1) (hv : v ≤ 1) : 0 ≤ low u v :=
  le_min (sub_nonneg.2 hu) (sub_nonneg.2 hv)

theorem high_nonneg (hu : 0 ≤ u) (hv : 0 ≤ v) : 0 ≤ high u v := le_min hu hv

theorem le_mixed (u v : ℝ) : min u (1 - v) ≤ mixed u v := by
  apply Real.le_sqrt_of_sq_le
  linarith [sq (min u (1 - v)), mul_self_nonneg (min (1 - u) v)]

/-- What is divided by is at least `1`. -/
theorem one_le_sum (hu : u ∈ Set.Icc (0 : ℝ) 1) (hv : v ∈ Set.Icc (0 : ℝ) 1) :
    1 ≤ low u v + mixed u v + high u v := by
  have hle : ∀ {x y : ℝ}, 0 ≤ y → x ≤ 1 → y ≤ x → 1 ≤ low x y + mixed x y + high x y := by
    intro x y hy hx hyx
    have hmixed := le_mixed x y
    rw [low, high, min_eq_left (by linarith), min_eq_right hyx]
    rcases min_choice x (1 - y) with heq | heq <;> rw [heq] at hmixed <;> linarith
  rcases le_total v u with hvu | huv
  · exact hle hv.1 hu.2 hvu
  · rw [low_comm, mixed_comm, high_comm]
    exact hle hu.1 hv.2 huv

theorem blend_bounds (hu : u ∈ Set.Icc (0 : ℝ) 1) (hv : v ∈ Set.Icc (0 : ℝ) 1) :
    1 ≤ blend u v ∧ blend u v ≤ 4 := by
  have hpos := one_le_sum hu hv
  have hlow := low_nonneg hu.2 hv.2
  have hmixed := mixed_nonneg u v
  have hhigh := high_nonneg hu.1 hv.1
  rw [blend, le_div_iff₀ (by linarith), div_le_iff₀ (by linarith)]
  constructor <;> linarith

/-! ## Monotonicity -/

/-- Two outputs compare as the products of their degrees do. -/
theorem weighted_le {a b c a' b' c' : ℝ} (hpos : 0 < a + b + c) (hpos' : 0 < a' + b' + c')
    (h : 0 ≤ (a * b' - b * a') + 3 * (a * c' - c * a') + 2 * (b * c' - c * b')) :
    (a + 2 * b + 4 * c) / (a + b + c) ≤ (a' + 2 * b' + 4 * c') / (a' + b' + c') := by
  rw [div_le_div_iff₀ hpos hpos']
  linarith

theorem blend_le_of_products (hu : u ∈ Set.Icc (0 : ℝ) 1) (hu' : u' ∈ Set.Icc (0 : ℝ) 1)
    (hv : v ∈ Set.Icc (0 : ℝ) 1)
    (h : 0 ≤ (low u v * mixed u' v - mixed u v * low u' v) +
      3 * (low u v * high u' v - high u v * low u' v) +
      2 * (mixed u v * high u' v - high u v * mixed u' v)) : blend u v ≤ blend u' v := by
  have hpos := one_le_sum hu hv
  have hpos' := one_le_sum hu' hv
  exact weighted_le (by linarith) (by linarith) h

section pieces

variable (hu : 0 ≤ u) (huu' : u ≤ u') (hu' : u' ≤ 1) (hv : 0 ≤ v) (hv' : v ≤ 1)
include hu huu' hu' hv hv'

/-- Below both the other input and what it lacks: the degree that both are high goes up, and
    is less than the mixed one. -/
theorem blend_le_of_le_of_le (hle : u' ≤ v) (hsum : u' ≤ 1 - v) : blend u v ≤ blend u' v := by
  have hmixed := le_mixed u v
  rw [min_eq_left (huu'.trans hsum)] at hmixed
  obtain ⟨hmono, hslow⟩ := mixed_le_add hu huu' hsum
  refine blend_le_of_products ⟨hu, huu'.trans hu'⟩ ⟨hu.trans huu', hu'⟩ ⟨hv, hv'⟩ ?_
  rw [low_of_le hle, low_of_le (huu'.trans hle), high_of_le hle, high_of_le (huu'.trans hle)]
  have hstep : 0 ≤ u' - u := sub_nonneg.2 huu'
  have h₁ := mul_nonneg (sub_nonneg.2 hv') (sub_nonneg.2 hmono)
  have h₂ := mul_nonneg (sub_nonneg.2 hv') hstep
  have h₃ := mul_nonneg hu (sub_nonneg.2 hslow)
  have h₄ := mul_nonneg (sub_nonneg.2 hmixed) hstep
  linarith

/-- Below the other input, and above what it lacks: the mixed degree goes down, and that both
    are high goes up. -/
theorem blend_le_of_le_of_ge (hle : u' ≤ v) (hsum : 1 - v ≤ u) : blend u v ≤ blend u' v := by
  obtain ⟨hmono, hslow⟩ := le_mixed_add hu' huu' hsum
  refine blend_le_of_products ⟨hu, huu'.trans hu'⟩ ⟨hu.trans huu', hu'⟩ ⟨hv, hv'⟩ ?_
  rw [low_of_le hle, low_of_le (huu'.trans hle), high_of_le hle, high_of_le (huu'.trans hle)]
  have hstep : 0 ≤ u' - u := sub_nonneg.2 huu'
  have h₁ := mul_nonneg (sub_nonneg.2 hv') (sub_nonneg.2 hslow)
  have h₂ := mul_nonneg (sub_nonneg.2 hv') hstep
  have h₃ := mul_nonneg hu (sub_nonneg.2 hmono)
  have h₄ := mul_nonneg (mixed_nonneg u v) hstep
  linarith

/-- Above the other input, and below what it lacks: the degree that both are low goes down, and
    the mixed one goes up. -/
theorem blend_le_of_ge_of_le (hle : v ≤ u) (hsum : u' ≤ 1 - v) : blend u v ≤ blend u' v := by
  obtain ⟨hmono, hslow⟩ := mixed_le_add hu huu' hsum
  refine blend_le_of_products ⟨hu, huu'.trans hu'⟩ ⟨hu.trans huu', hu'⟩ ⟨hv, hv'⟩ ?_
  rw [low_of_ge hle, low_of_ge (hle.trans huu'), high_of_ge hle, high_of_ge (hle.trans huu')]
  have hlow : 0 ≤ 1 - u := by linarith
  have hstep : 0 ≤ u' - u := sub_nonneg.2 huu'
  have h₁ := mul_nonneg hlow (sub_nonneg.2 hmono)
  have h₂ := mul_nonneg (mixed_nonneg u v) hstep
  have h₃ := mul_nonneg hv (sub_nonneg.2 hslow)
  have h₄ := mul_nonneg hv hstep
  linarith

/-- Above both: the degree that both are low goes down, and is less than the mixed one. -/
theorem blend_le_of_ge_of_ge (hle : v ≤ u) (hsum : 1 - v ≤ u) : blend u v ≤ blend u' v := by
  have hmixed := le_mixed v u
  rw [min_eq_right (by linarith), mixed_comm] at hmixed
  obtain ⟨hmono, hslow⟩ := le_mixed_add hu' huu' hsum
  refine blend_le_of_products ⟨hu, huu'.trans hu'⟩ ⟨hu.trans huu', hu'⟩ ⟨hv, hv'⟩ ?_
  rw [low_of_ge hle, low_of_ge (hle.trans huu'), high_of_ge hle, high_of_ge (hle.trans huu')]
  have hlow : 0 ≤ 1 - u := by linarith
  have hstep : 0 ≤ u' - u := sub_nonneg.2 huu'
  have h₁ := mul_nonneg hlow (sub_nonneg.2 hslow)
  have h₂ := mul_nonneg (sub_nonneg.2 hmixed) hstep
  have h₃ := mul_nonneg hv (sub_nonneg.2 hmono)
  have h₄ := mul_nonneg hv hstep
  linarith

end pieces

/-- The output goes up with an input: below both the other one and what it lacks, between
    them, and above both. -/
theorem blend_monotoneOn (hv : v ∈ Set.Icc (0 : ℝ) 1) :
    MonotoneOn (fun u => blend u v) (Set.Icc 0 1) := by
  obtain ⟨hzero, hone⟩ := hv
  have hmin : 0 ≤ min v (1 - v) := le_min hzero (sub_nonneg.2 hone)
  have hmax : max v (1 - v) ≤ 1 := max_le hone (by linarith)
  have hlower : MonotoneOn (fun u => blend u v) (Set.Icc 0 (min v (1 - v))) := by
    intro u hu u' hu' huu'
    have hle := hu'.2.trans (min_le_left _ _)
    have hsum := hu'.2.trans (min_le_right _ _)
    exact blend_le_of_le_of_le hu.1 huu' (by linarith) hzero hone hle hsum
  have hmiddle : MonotoneOn (fun u => blend u v) (Set.Icc (min v (1 - v)) (max v (1 - v))) := by
    intro u hu u' hu' huu'
    have hnonneg := hmin.trans hu.1
    have hleone := hu'.2.trans hmax
    rcases le_total v (1 - v) with hle | hge
    · have hvu : v ≤ u := min_eq_left hle ▸ hu.1
      have hsum : u' ≤ 1 - v := max_eq_right hle ▸ hu'.2
      exact blend_le_of_ge_of_le hnonneg huu' hleone hzero hone hvu hsum
    · have huv : u' ≤ v := max_eq_left hge ▸ hu'.2
      have hsum : 1 - v ≤ u := min_eq_right hge ▸ hu.1
      exact blend_le_of_le_of_ge hnonneg huu' hleone hzero hone huv hsum
  have hupper : MonotoneOn (fun u => blend u v) (Set.Icc (max v (1 - v)) 1) := by
    intro u hu u' hu' huu'
    have hle := (le_max_left _ _).trans hu.1
    have hsum := (le_max_right _ _).trans hu.1
    exact blend_le_of_ge_of_ge (by linarith) huu' hu'.2 hzero hone hle hsum
  have hminmax : min v (1 - v) ≤ max v (1 - v) := min_le_max
  have hleft := hlower.union_right hmiddle (isGreatest_Icc hmin) (isLeast_Icc hminmax)
  rw [Set.Icc_union_Icc_eq_Icc hmin hminmax] at hleft
  have hall := hleft.union_right hupper (isGreatest_Icc (hmin.trans hminmax)) (isLeast_Icc hmax)
  rwa [Set.Icc_union_Icc_eq_Icc (hmin.trans hminmax) hmax] at hall

/-! ## Positions -/

/-- How far a value is from one breakpoint to the next. -/
noncomputable def ramp (a b x : ℝ) : ℝ := max 0 (min 1 ((x - a) / (b - a)))

/-- The position of a value: `0` up to the first of three breakpoints, `1` at the second, and
    `2` from the third on. -/
noncomputable def position (a b c x : ℝ) : ℝ := ramp a b x + ramp b c x

variable {a b c x : ℝ}

theorem ramp_monotone (hab : a < b) : Monotone (ramp a b) := by
  intro x y hxy
  refine max_le_max le_rfl (min_le_min le_rfl ?_)
  exact div_le_div_of_nonneg_right (by linarith) (by linarith)

theorem ramp_mem (a b x : ℝ) : ramp a b x ∈ Set.Icc (0 : ℝ) 1 :=
  ⟨le_max_left _ _, max_le zero_le_one (min_le_left _ _)⟩

theorem ramp_of_le (hab : a < b) (h : x ≤ a) : ramp a b x = 0 := by
  have hle : (x - a) / (b - a) ≤ 0 := div_nonpos_of_nonpos_of_nonneg (by linarith) (by linarith)
  exact max_eq_left ((min_le_right _ _).trans hle)

theorem ramp_of_ge (hab : a < b) (h : b ≤ x) : ramp a b x = 1 := by
  have hge : 1 ≤ (x - a) / (b - a) := by
    rw [one_le_div (by linarith)]
    linarith
  rw [ramp, min_eq_left hge, max_eq_right zero_le_one]

theorem ramp_of_mem (hab : a < b) (ha : a ≤ x) (hb : x ≤ b) : ramp a b x = (x - a) / (b - a) := by
  have hnonneg : 0 ≤ (x - a) / (b - a) := div_nonneg (by linarith) (by linarith)
  have hle : (x - a) / (b - a) ≤ 1 := by
    rw [div_le_one (by linarith)]
    linarith
  rw [ramp, min_eq_right hle, max_eq_right hnonneg]

theorem position_monotone (hab : a < b) (hbc : b < c) : Monotone (position a b c) :=
  (ramp_monotone hab).add (ramp_monotone hbc)

theorem position_mem (a b c x : ℝ) : position a b c x ∈ Set.Icc (0 : ℝ) 2 := by
  obtain ⟨h₁, h₁'⟩ := ramp_mem a b x
  obtain ⟨h₂, h₂'⟩ := ramp_mem b c x
  rw [position, Set.mem_Icc]
  constructor <;> linarith

/-- A position is in the lower or in the upper half. -/
theorem exists_half {p : ℝ} (hp : p ∈ Set.Icc (0 : ℝ) 2) :
    ∃ u ∈ Set.Icc (0 : ℝ) 1, p = u ∨ p = 1 + u := by
  rcases le_total p 1 with hle | hge
  · exact ⟨p, ⟨hp.1, hle⟩, .inl rfl⟩
  · exact ⟨p - 1, ⟨by linarith, by linarith [hp.2]⟩, .inr (by ring)⟩

end Blend

end DashDim
