import DashDim.Dash.Algorithms
import DashDim.Lib.Blend

/-!
# The fuzzy controller

FDASH asks for a bitrate that is the estimated bandwidth times the output of a controller. The
controller looks at the buffer and at how it changes: each has a position between breakpoints,
and to the degrees that this gives nine rules ask for outputs from `1/4` to `4`.

In each of the four cells of positions the controller is a blend of two inputs, with other
factors (`controller_cells`). So it is bounded (`output_bounded`), and a fuller buffer, or one
that fills faster, never asks for less (`output_monotone`).
-/

namespace DashDim

namespace FdashAlgorithm

open Blend

theorem minOf_eq_min (a b : ℝ) : minOf a b = min a b := by
  rw [minOf]
  split_ifs with h
  · exact (min_eq_right h.le).symm
  · exact (min_eq_left (not_lt.1 h)).symm

/-! ## Degrees -/

/-- The degrees of membership at a position: those of its half add up to `1`. -/
noncomputable def degrees (p : ℝ) : ℝ × ℝ × ℝ :=
  if p ≤ 1 then (1 - p, p, 0) else (0, 1 - (p - 1), p - 1)

theorem degrees_lower {u : ℝ} (hu : u ≤ 1) : degrees u = (1 - u, u, 0) := if_pos hu

theorem degrees_upper {u : ℝ} (hu : 0 ≤ u) : degrees (1 + u) = (0, 1 - u, u) := by
  rw [degrees]
  split_ifs with h
  · obtain rfl : u = 0 := by linarith
    norm_num
  · exact Prod.ext rfl (Prod.ext (by ring) (by ring))

/-- Degrees of membership: each of three is between `0` and `1`, and they add up to `1`. -/
structure IsMembership (m : ℝ × ℝ × ℝ) : Prop where
  first : 0 ≤ m.1 ∧ m.1 ≤ 1
  second : 0 ≤ m.2.1 ∧ m.2.1 ≤ 1
  third : 0 ≤ m.2.2 ∧ m.2.2 ≤ 1
  sum : m.1 + m.2.1 + m.2.2 = 1

theorem isMembership_degrees {p : ℝ} (hp : p ∈ Set.Icc (0 : ℝ) 2) : IsMembership (degrees p) := by
  obtain ⟨u, ⟨hu, hu'⟩, rfl | rfl⟩ := exists_half hp
  · rw [degrees_lower hu']
    constructor <;> dsimp only <;> first | constructor <;> linarith | linarith
  · rw [degrees_upper hu]
    constructor <;> dsimp only <;> first | constructor <;> linarith | linarith

/-- The degrees of a value, between three breakpoints. -/
theorem degrees_position {a b c : ℝ} (hab : a < b) (hbc : b < c) (x : ℝ) :
    degrees (position a b c x) =
      if x < a then (1, 0, 0)
      else if x < b then (1 - (x - a) / (b - a), (x - a) / (b - a), 0)
      else if x < c then (0, 1 - (x - b) / (c - b), (x - b) / (c - b))
      else (0, 0, 1) := by
  rw [position]
  split_ifs with hlow hmiddle hhigh
  · rw [ramp_of_le hab hlow.le, ramp_of_le hbc (hlow.trans hab).le, add_zero,
      degrees_lower zero_le_one, sub_zero]
  · have hle := (ramp_mem a b x).2
    rw [ramp_of_le hbc hmiddle.le, add_zero, degrees_lower hle,
      ramp_of_mem hab (not_lt.1 hlow) hmiddle.le]
  · have hge := (ramp_mem b c x).1
    rw [ramp_of_ge hab (not_lt.1 hmiddle), degrees_upper hge,
      ramp_of_mem hbc (not_lt.1 hmiddle) hhigh.le]
  · rw [ramp_of_ge hab (hbc.le.trans (not_lt.1 hhigh)), ramp_of_ge hbc (not_lt.1 hhigh),
      degrees_upper zero_le_one, sub_self]

variable {t : ℝ} (ht : 0 < t)
include ht

/-- The breakpoints of the buffer. -/
theorem bufferMembership_eq (currDt : ℝ) :
    bufferMembership t currDt = degrees (position (2 * t / 3) t (4 * t) currDt) := by
  have hslope : t - 2 * t / 3 = t / 3 := by ring
  have hslope' : 4 * t - t = 3 * t := by ring
  rw [degrees_position (by linarith) (by linarith), hslope, hslope', bufferMembership]
  simp only [const_eq, div_eq_inv_mul (currDt - _)]
  push_cast
  simp only [one_div]

/-- The breakpoints of its change. -/
theorem diffMembership_eq (diff : ℝ) :
    diffMembership t diff = degrees (position (-2 * t / 3) 0 (4 * t) diff) := by
  have hslope : 0 - -2 * t / 3 = 2 * t / 3 := by ring
  have hsub : diff - -2 * t / 3 = diff + 2 * t / 3 := by ring
  rw [degrees_position (by linarith) (by linarith), hslope, hsub, sub_zero, sub_zero,
    diffMembership]
  simp only [const_eq, div_eq_inv_mul (diff + _), div_eq_inv_mul diff]
  push_cast
  simp only [one_div]

omit ht

/-! ## The rules -/

/-- What the nine rules amount to: the degrees of the five outputs. -/
structure Aggregates where
  n2 : ℝ
  n1 : ℝ
  z : ℝ
  p1 : ℝ
  p2 : ℝ

namespace Aggregates

/-- The rules, for the degrees of the buffer and of its change. -/
noncomputable def ofRules (buffer diff : ℝ × ℝ × ℝ) : Aggregates :=
  let (slow, ok, fast) := buffer
  let (falling, steady, rising) := diff
  { n2 := √(minOf slow falling * minOf slow falling)
    n1 := √(minOf ok falling * minOf ok falling + minOf slow steady * minOf slow steady)
    z := √(minOf fast falling * minOf fast falling + minOf ok steady * minOf ok steady +
      minOf slow rising * minOf slow rising)
    p1 := √(minOf fast steady * minOf fast steady + minOf ok rising * minOf ok rising)
    p2 := √(minOf fast rising * minOf fast rising) }

/-- What the output is divided by. -/
def denominator (a : Aggregates) : ℝ := a.n2 + a.n1 + a.z + a.p1 + a.p2

/-- The output: the mean of the five factors, weighted by the aggregates. -/
noncomputable def output (a : Aggregates) : ℝ :=
  (a.n2 * const (1 / 4) + a.n1 * const (1 / 2) + a.z * const 1 + a.p1 * const 2 +
    a.p2 * const 4) / a.denominator

end Aggregates

/-- The degrees that the code computes, and what it divides by. -/
theorem output_eq (t currDt diff : ℝ) : output t currDt diff =
    (Aggregates.ofRules (bufferMembership t currDt) (diffMembership t diff)).output := rfl

variable {u v : ℝ} (hu : u ∈ Set.Icc (0 : ℝ) 1) (hv : v ∈ Set.Icc (0 : ℝ) 1)
include hu hv

/-- In a cell of positions, three outputs next to each other are asked for. -/
theorem ofRules_cells :
    Aggregates.ofRules (degrees u) (degrees v) = ⟨low u v, mixed u v, high u v, 0, 0⟩ ∧
    Aggregates.ofRules (degrees (1 + u)) (degrees v) = ⟨0, low u v, mixed u v, high u v, 0⟩ ∧
    Aggregates.ofRules (degrees u) (degrees (1 + v)) = ⟨0, low u v, mixed u v, high u v, 0⟩ ∧
    Aggregates.ofRules (degrees (1 + u)) (degrees (1 + v)) =
      ⟨0, 0, low u v, mixed u v, high u v⟩ := by
  have hlow : √(low u v * low u v) = low u v := Real.sqrt_mul_self (low_nonneg hu.2 hv.2)
  have hhigh : √(high u v * high u v) = high u v := Real.sqrt_mul_self (high_nonneg hu.1 hv.1)
  rw [low] at hlow
  rw [high] at hhigh
  rw [degrees_lower hu.2, degrees_lower hv.2, degrees_upper hu.1, degrees_upper hv.1]
  -- a rule does not fire if one of its degrees is zero
  simp only [Aggregates.ofRules, minOf_eq_min, min_eq_left (sub_nonneg.2 hv.2),
    min_eq_left hv.1, min_eq_right (sub_nonneg.2 hu.2), min_eq_right hu.1, min_self, mul_zero,
    add_zero, zero_add, Real.sqrt_zero, hlow, hhigh]
  exact ⟨rfl, rfl, rfl, rfl⟩

omit hu hv

/-- The output at two positions. -/
noncomputable def controller (p q : ℝ) : ℝ := (Aggregates.ofRules (degrees p) (degrees q)).output

theorem output_eq_controller {t : ℝ} (ht : 0 < t) (currDt diff : ℝ) : output t currDt diff =
    controller (position (2 * t / 3) t (4 * t) currDt) (position (-2 * t / 3) 0 (4 * t) diff) := by
  rw [output_eq, bufferMembership_eq ht, diffMembership_eq ht, controller]

include hu hv

/-- In each cell the controller is a blend. -/
theorem controller_cells : controller u v = blend u v / 4 ∧
    controller (1 + u) v = blend u v / 2 ∧ controller u (1 + v) = blend u v / 2 ∧
    controller (1 + u) (1 + v) = blend u v := by
  obtain ⟨h₁, h₂, h₃, h₄⟩ := ofRules_cells hu hv
  have hpos := one_le_sum hu hv
  have hne : low u v + mixed u v + high u v ≠ 0 := by linarith
  rw [controller, controller, controller, controller, h₁, h₂, h₃, h₄]
  simp only [Aggregates.output, Aggregates.denominator, blend, const_eq, zero_mul, zero_add,
    add_zero]
  push_cast
  refine ⟨?_, ?_, ?_, ?_⟩ <;> field_simp <;> ring

omit hu hv

/-- The buffer and its change have the same part in it. -/
theorem controller_comm {p q : ℝ} (hp : p ∈ Set.Icc (0 : ℝ) 2) (hq : q ∈ Set.Icc (0 : ℝ) 2) :
    controller p q = controller q p := by
  obtain ⟨u, hu, hpu⟩ := exists_half hp
  obtain ⟨v, hv, hqv⟩ := exists_half hq
  obtain ⟨h₁, h₂, h₃, h₄⟩ := controller_cells hu hv
  obtain ⟨h₁', h₂', h₃', h₄'⟩ := controller_cells hv hu
  rcases hpu with rfl | rfl <;> rcases hqv with rfl | rfl
  · rw [h₁, h₁', blend_comm]
  · rw [h₃, h₂', blend_comm]
  · rw [h₂, h₃', blend_comm]
  · rw [h₄, h₄', blend_comm]

/-- What it divides by is at least `1`, and its output is between those of the rules. -/
theorem controller_bounds {p q : ℝ} (hp : p ∈ Set.Icc (0 : ℝ) 2) (hq : q ∈ Set.Icc (0 : ℝ) 2) :
    0 < (Aggregates.ofRules (degrees p) (degrees q)).denominator ∧
      1 / 4 ≤ controller p q ∧ controller p q ≤ 4 := by
  obtain ⟨u, hu, hpu⟩ := exists_half hp
  obtain ⟨v, hv, hqv⟩ := exists_half hq
  obtain ⟨h₁, h₂, h₃, h₄⟩ := controller_cells hu hv
  obtain ⟨r₁, r₂, r₃, r₄⟩ := ofRules_cells hu hv
  obtain ⟨hlow, hhigh⟩ := blend_bounds hu hv
  have hpos := one_le_sum hu hv
  rcases hpu with rfl | rfl <;> rcases hqv with rfl | rfl
  · rw [h₁, r₁, Aggregates.denominator]
    exact ⟨by linarith, by linarith, by linarith⟩
  · rw [h₃, r₃, Aggregates.denominator]
    exact ⟨by linarith, by linarith, by linarith⟩
  · rw [h₂, r₂, Aggregates.denominator]
    exact ⟨by linarith, by linarith, by linarith⟩
  · rw [h₄, r₄, Aggregates.denominator]
    exact ⟨by linarith, by linarith, by linarith⟩

/-- It goes up in the lower half of the positions, and from there in the upper half. -/
theorem controller_monotoneOn {q : ℝ} (hq : q ∈ Set.Icc (0 : ℝ) 2) :
    MonotoneOn (fun p => controller p q) (Set.Icc 0 2) := by
  obtain ⟨v, hv, hqv⟩ := exists_half hq
  have hmono := blend_monotoneOn hv
  have hlower : MonotoneOn (fun p => controller p q) (Set.Icc 0 1) := by
    intro p hp p' hp' hle
    have hblend := hmono hp hp' hle
    obtain ⟨h₁, -, h₃, -⟩ := controller_cells hp hv
    obtain ⟨h₁', -, h₃', -⟩ := controller_cells hp' hv
    dsimp only at hblend ⊢
    rcases hqv with rfl | rfl
    · rw [h₁, h₁']
      linarith
    · rw [h₃, h₃']
      linarith
  have hupper : MonotoneOn (fun p => controller p q) (Set.Icc 1 2) := by
    intro p hp p' hp' hle
    obtain ⟨u, rfl⟩ : ∃ u, p = 1 + u := ⟨p - 1, by ring⟩
    obtain ⟨u', rfl⟩ : ∃ u', p' = 1 + u' := ⟨p' - 1, by ring⟩
    have hu : u ∈ Set.Icc (0 : ℝ) 1 := ⟨by linarith [hp.1], by linarith [hp.2]⟩
    have hu' : u' ∈ Set.Icc (0 : ℝ) 1 := ⟨by linarith [hp'.1], by linarith [hp'.2]⟩
    have hblend := hmono hu hu' (by linarith)
    obtain ⟨-, h₂, -, h₄⟩ := controller_cells hu hv
    obtain ⟨-, h₂', -, h₄'⟩ := controller_cells hu' hv
    dsimp only at hblend ⊢
    rcases hqv with rfl | rfl
    · rw [h₂, h₂']
      linarith
    · rw [h₄, h₄']
      exact hblend
  have hall := hlower.union_right hupper (isGreatest_Icc zero_le_one) (isLeast_Icc one_le_two)
  rwa [Set.Icc_union_Icc_eq_Icc zero_le_one one_le_two] at hall

/-! ## The output -/

/-- The degrees of the buffer and of its change are memberships, the output does not divide by
    zero, and it is between `1/4` and `4`. -/
theorem output_bounded {t : ℝ} (ht : 0 < t) (currDt diff : ℝ) :
    IsMembership (bufferMembership t currDt) ∧ IsMembership (diffMembership t diff) ∧
      output t currDt diff =
        (Aggregates.ofRules (bufferMembership t currDt) (diffMembership t diff)).output ∧
      0 < (Aggregates.ofRules (bufferMembership t currDt) (diffMembership t diff)).denominator ∧
      1 / 4 ≤ output t currDt diff ∧ output t currDt diff ≤ 4 := by
  have hp := position_mem (2 * t / 3) t (4 * t) currDt
  have hq := position_mem (-2 * t / 3) 0 (4 * t) diff
  obtain ⟨hpos, hbounds⟩ := controller_bounds hp hq
  rw [output_eq_controller ht, bufferMembership_eq ht, diffMembership_eq ht]
  exact ⟨isMembership_degrees hp, isMembership_degrees hq, rfl, hpos, hbounds⟩

theorem output_bounded_twenty : 1 / 4 ≤ output (20 : ℝ) 25 1 ∧ output (20 : ℝ) 25 1 ≤ 4 :=
  (output_bounded (by norm_num) 25 1).2.2.2.2

/-- The output goes up with the buffer, and with its change. -/
theorem output_monotone {t : ℝ} (ht : 0 < t) :
    (∀ diff, Monotone fun currDt => output t currDt diff) ∧
      ∀ currDt, Monotone fun diff => output t currDt diff := by
  have hbuffer := position_monotone (a := 2 * t / 3) (b := t) (c := 4 * t) (by linarith)
    (by linarith)
  have hdiff := position_monotone (a := -2 * t / 3) (b := 0) (c := 4 * t) (by linarith)
    (by linarith)
  constructor
  · intro diff currDt currDt' hle
    have hq := position_mem (-2 * t / 3) 0 (4 * t) diff
    dsimp only
    rw [output_eq_controller ht, output_eq_controller ht]
    exact controller_monotoneOn hq (position_mem _ _ _ _) (position_mem _ _ _ _) (hbuffer hle)
  · intro currDt diff diff' hle
    have hp := position_mem (2 * t / 3) t (4 * t) currDt
    dsimp only
    rw [output_eq_controller ht, output_eq_controller ht,
      controller_comm hp (position_mem _ _ _ _), controller_comm hp (position_mem _ _ _ _)]
    exact controller_monotoneOn hp (position_mem _ _ _ _) (position_mem _ _ _ _) (hdiff hle)

theorem output_monotone_twenty : output (20 : ℝ) 15 0 ≤ output (20 : ℝ) 25 0 :=
  (output_monotone (by norm_num)).1 0 (by norm_num)

end FdashAlgorithm

end DashDim
