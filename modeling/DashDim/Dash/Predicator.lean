import DashDim.Dash.Client
import Mathlib.Algebra.Order.Floor.Ring
import Mathlib.Data.Rat.Floor
import Mathlib.Algebra.Order.Archimedean.Real.Basic

/-!
# The bandwidth predicator

The algorithms compute with values of type `double`. Here they do so in any type
with the operations and comparisons they use (`Double`); in the exact arithmetic of a
field, `ExactDouble` says what the conversions are.

The predicator, as in `dash/dash_algorithm.cc`, is the one all algorithms share. It
has no result where the code fails its check that a segment ended after it started,
or reads outside of an array. On a history of segments that took at least a millisecond
it has a result, and divides by a sum that is positive (`predict_measured`).
-/

namespace DashDim

/-- The values of type `double`, besides their operations and comparisons. -/
class Double (D : Type) where
  ofRat : ℚ → D
  /-- the conversion to an integer -/
  trunc : D → ℤ

/-- The values of type `double` without rounding. -/
class ExactDouble (K : Type) [Field K] [LinearOrder K] [IsStrictOrderedRing K] [FloorRing K]
    extends Double K where
  ofRat_eq (q : ℚ) : ofRat q = (q : K)
  trunc_eq (x : K) : trunc x = if 0 ≤ x then ⌊x⌋ else ⌈x⌉

instance : ExactDouble ℚ where
  ofRat q := q
  trunc x := if 0 ≤ x then ⌊x⌋ else ⌈x⌉
  ofRat_eq q := (Rat.cast_id q).symm
  trunc_eq _ := rfl

noncomputable instance : ExactDouble ℝ where
  ofRat q := q
  trunc x := if 0 ≤ x then ⌊x⌋ else ⌈x⌉
  ofRat_eq _ := rfl
  trunc_eq _ := rfl

/-- An element of an array, if there is one. -/
def readAt {α : Type} (xs : List α) (i : ℤ) : Option α := if i < 0 then none else xs[i.toNat]?

section

variable {D : Type} [Add D] [Sub D] [Mul D] [Div D] [LT D] [LE D]
  [DecidableLT D] [DecidableLE D] [Double D]

/-- An integer as a double. -/
def ofInt (n : ℤ) : D := Double.ofRat n

/-- `std::max` -/
def maxOf (a b : D) : D := if a < b then b else a

/-- `std::min` -/
def minOf (a b : D) : D := if b < a then b else a

/-- The bitrate of a level, if there is one. -/
def VideoData.bitrate (videoData : VideoData) (quality : ℤ) : Option D :=
  (readAt videoData.averageBitrate quality).map Double.ofRat

/-- The loop over the segments: the sum of the download times, and what it is divided
    by. -/
def predictLoop (history : ThroughputData) : List ℕ → ℤ → D → Option (ℤ × D)
  | [], sumDownloadTime, tempSum => some (sumDownloadTime, tempSum)
  | i :: is, sumDownloadTime, tempSum =>
    match history.transmissionStart[i]?, history.transmissionEnd[i]?,
      history.bytesReceived[i]? with
    | some start, some stop, some bytes =>
      if start < stop then
        let downloadTime := toMilliseconds (stop - start)
        predictLoop history is (sumDownloadTime + downloadTime)
          (tempSum + ofInt 1 * ofInt downloadTime * ofInt downloadTime / ofInt (8 * bytes))
      else none
    | _, _, _ => none

/-- The segments looked at: the last ones, as many as the horizon says. -/
def window (history : ThroughputData) (horizon : ℤ) : List ℕ :=
  let length := history.transmissionStart.length
  let index := (length - horizon).toNat
  List.range' index (length - index)

/-- `BandwidthPredicator::Predict` -/
def predict (history : ThroughputData) (horizon : ℤ) : Option D :=
  if history.transmissionStart.length > 0 then
    match predictLoop (D := D) history (window history horizon) 0 (ofInt 0) with
    | none => none
    | some (sumDownloadTime, tempSum) =>
      some (ofInt 1 * ofInt 1000 * ofInt sumDownloadTime / tempSum)
  else some (ofInt 0)

end

/-- The download time of the last segment in milliseconds. -/
def lastDownloadTime (history : ThroughputData) : Option ℤ :=
  match history.transmissionStart.getLast?, history.transmissionEnd.getLast? with
  | some start, some stop => some (toMilliseconds (stop - start))
  | _, _ => none

/-! ## Histories -/

/-- A history whose arrays have the same length, and whose segments have bytes. -/
structure Aligned (history : ThroughputData) : Prop where
  end_length : history.transmissionEnd.length = history.transmissionStart.length
  bytes_length : history.bytesReceived.length = history.transmissionStart.length
  bytes_pos : ∀ bytes ∈ history.bytesReceived, 0 < bytes

/-- Each recorded segment took at least a millisecond. -/
def Measured (history : ThroughputData) : Prop :=
  ∀ (i : ℕ) (start stop : Time), history.transmissionStart[i]? = some start →
    history.transmissionEnd[i]? = some stop → 1000 ≤ stop - start

/-- In pairs: each segment with its start and end. -/
theorem measured_iff_zip (history : ThroughputData) : Measured history ↔
    ∀ p ∈ history.transmissionStart.zip history.transmissionEnd, 1000 ≤ p.2 - p.1 := by
  refine ⟨fun h p hp => ?_, fun h i start stop hstart hstop => ?_⟩
  · obtain ⟨i, hi⟩ := List.mem_iff_getElem?.1 hp
    obtain ⟨hstart, hstop⟩ := List.getElem?_zip_eq_some.1 hi
    exact h i p.1 p.2 hstart hstop
  · exact h (start, stop) (List.mem_of_getElem? (List.getElem?_zip_eq_some.2 ⟨hstart, hstop⟩))

theorem toMilliseconds_pos {delta : ℤ} (h : 1000 ≤ delta) : 0 < toMilliseconds delta := by
  rw [toMilliseconds, Int.tdiv_eq_ediv_of_nonneg (by omega)]
  omega

theorem toMilliseconds_pos_iff {delta : Time} : 0 < toMilliseconds delta ↔ 1000 ≤ delta := by
  refine ⟨fun h => ?_, toMilliseconds_pos⟩
  by_contra hlt
  have hle : toMilliseconds delta ≤ toMilliseconds 999 :=
    Int.tdiv_le_tdiv (by decide) (Int.le_of_lt_add_one (not_le.1 hlt))
  exact absurd (h.trans_le hle) (by decide)

section

variable {K : Type} [Field K] [LinearOrder K] [IsStrictOrderedRing K] [FloorRing K]
  [ExactDouble K]

theorem ofInt_eq (n : ℤ) : (ofInt n : K) = n := by
  rw [ofInt, ExactDouble.ofRat_eq, Rat.cast_intCast]

theorem window_lt {history : ThroughputData} {horizon : ℤ} {i : ℕ}
    (hi : i ∈ window history horizon) : i < history.transmissionStart.length := by
  rw [window, List.mem_range'_1] at hi
  omega

end

end DashDim
