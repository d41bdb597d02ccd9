import DashDim.Octopus.Base
import Mathlib.Tactic

/-!
# What a hand is allowed to write

Twice the round trip at the estimated bandwidth, less what waits in the socket, as in
`OctopusBase::GetWriteBudget`. The bandwidth and the time are 64-bit integers, and what they
make is kept as an `int`: from `2 ^ 31` bytes on it is another number, and nothing the code
returns is the budget (`writeBudget_iff`).
-/

namespace DashDim

/-- Bits per second. -/
structure QuicBandwidth where
  bitsPerSecond : Int64
  nonneg : 0 ≤ bitsPerSecond.toInt

namespace QuicBandwidth

/-- `FromBitsPerSecond` -/
def fromBitsPerSecond (bitsPerSecond : Int64) : QuicBandwidth :=
  if h : 0 ≤ bitsPerSecond.toInt then ⟨bitsPerSecond, h⟩ else ⟨0, le_rfl⟩

/-- The division by 8 is one of signed integers, and the next one is not. -/
def toBytesPerPeriod (bandwidth : QuicBandwidth) (timePeriod : Int64) : UInt64 :=
  (bandwidth.bitsPerSecond * timePeriod / 8).toUInt64 / 1000000

end QuicBandwidth

namespace Octopus

/-- The bandwidth assumed at least. -/
def kMinBandwidth : QuicBandwidth := .fromBitsPerSecond 500000

/-- In microseconds. -/
def kMinRoundTripTime : Int64 := 5000

/-- The budget for a descriptor, for the minimal round trip in its information, how much waits
    in its socket and the estimate of the bandwidth. There is none where the check of the round
    trip fails. -/
def getWriteBudget (fd : ℤ) (info : Option UInt32) (pending : Int32) (best : QuicBandwidth) :
    Option Int32 :=
  if fd > 0 then do
    let minRttMicro ← match info with
      | some minRtt => if minRtt > 0 then some minRtt else none
      | none => some 0
    let rtt : Int64 := minRttMicro.toUInt64.toInt64
    let rtt := if rtt < kMinRoundTripTime then kMinRoundTripTime else rtt
    let estimateBw :=
      if best.bitsPerSecond < kMinBandwidth.bitsPerSecond then kMinBandwidth else best
    let budget := (estimateBw.toBytesPerPeriod (2 * rtt)).toUInt32.toInt32
    if budget > pending then
      let remain := budget - pending
      some (if remain < Int32.ofNat kSegmentSize then Int32.ofNat kSegmentSize else remain)
    else some 0
  else some 0

/-- Twice the round trip at the estimated bandwidth, in bytes. -/
def bytesInFlight (minRtt : UInt32) (best : QuicBandwidth) : ℤ :=
  max best.bitsPerSecond.toInt 500000 * (2 * max minRtt.toNat 5000) / 8 / 1000000

/-- What the budget is for. -/
def writeBudget (minRtt : UInt32) (pending : Int32) (best : QuicBandwidth) : ℤ :=
  if bytesInFlight minRtt best ≤ pending.toInt then 0
  else max (bytesInFlight minRtt best - pending.toInt) kSegmentSize

/-- What the code leaves of a budget. -/
def remaining (budget pending : Int32) : Int32 :=
  if budget > pending then
    if budget - pending < Int32.ofNat kSegmentSize then Int32.ofNat kSegmentSize
    else budget - pending
  else 0

/-- The product fits: what is computed is the number of bytes. -/
theorem toBytesPerPeriod_toNat {bandwidth : QuicBandwidth} {timePeriod : Int64}
    (hperiod : 0 ≤ timePeriod.toInt)
    (h : bandwidth.bitsPerSecond.toInt * timePeriod.toInt < 2 ^ 63) :
    ((bandwidth.toBytesPerPeriod timePeriod).toNat : ℤ) =
      bandwidth.bitsPerSecond.toInt * timePeriod.toInt / 8 / 1000000 := by
  have hnonneg := Int.mul_nonneg bandwidth.nonneg hperiod
  have hproduct : (bandwidth.bitsPerSecond * timePeriod).toInt =
      bandwidth.bitsPerSecond.toInt * timePeriod.toInt := by
    rw [Int64.toInt_mul]
    exact Int.bmod_eq_of_le (by omega) (by omega)
  generalize bandwidth.bitsPerSecond.toInt * timePeriod.toInt = p at h hnonneg hproduct ⊢
  have hbytes : (bandwidth.bitsPerSecond * timePeriod / 8).toInt = p / 8 := by
    rw [Int64.toInt_div_of_ne_right _ _ (by decide), hproduct]
    exact Int.tdiv_eq_ediv_of_nonneg hnonneg
  have hle : 0 ≤ bandwidth.bitsPerSecond * timePeriod / 8 := by
    rw [Int64.le_iff_toInt_le, hbytes]
    exact Int.ediv_nonneg hnonneg (by decide)
  rw [QuicBandwidth.toBytesPerPeriod, UInt64.toNat_div, Int64.toNat_toUInt64_of_le hle,
    ← Int64.toNat_toInt, hbytes]
  change ((((p / 8).toNat / 1000000 : ℕ)) : ℤ) = _
  omega

theorem toInt_toInt64 {x : UInt64} (h : x.toNat < 2 ^ 63) : x.toInt64.toInt = x.toNat := by
  change x.toBitVec.toInt = x.toNat
  rw [BitVec.toInt_eq_toNat_bmod]
  exact Int.bmod_eq_of_le (by rw [UInt64.toNat_toBitVec]; omega)
    (by rw [UInt64.toNat_toBitVec]; omega)

/-- What an `int` keeps of a larger number. -/
theorem toInt_toUInt32 (x : UInt64) : x.toUInt32.toInt32.toInt = (x.toNat : ℤ).bmod (2 ^ 32) := by
  change x.toUInt32.toBitVec.toInt = _
  rw [BitVec.toInt_eq_toNat_bmod, UInt32.toNat_toBitVec, UInt64.toNat_toUInt32, Int.natCast_emod]
  exact Int.emod_bmod _ _

/-- The number of bytes as the code has it, unless it is too large even for that. -/
theorem getWriteBudget_eq {fd : ℤ} (hfd : fd > 0) {minRtt : UInt32} (hrtt : minRtt > 0)
    (pending : Int32) (best : QuicBandwidth) : ∃ budget : Int32,
      (bytesInFlight minRtt best < 2 ^ 32 →
        budget.toInt = (bytesInFlight minRtt best).bmod (2 ^ 32)) ∧
      getWriteBudget fd (some minRtt) pending best = some (remaining budget pending) := by
  have hlt := minRtt.toNat_lt
  -- the two minimal values
  have htime : (if minRtt.toUInt64.toInt64 < kMinRoundTripTime then kMinRoundTripTime
      else minRtt.toUInt64.toInt64).toInt = max minRtt.toNat 5000 := by
    have hself : minRtt.toUInt64.toInt64.toInt = minRtt.toNat := by
      rw [toInt_toInt64 (by rw [UInt32.toNat_toUInt64]; omega), UInt32.toNat_toUInt64]
    have hmin : kMinRoundTripTime.toInt = 5000 := rfl
    split_ifs with h
    · rw [Int64.lt_iff_toInt_lt, hself, hmin] at h
      omega
    · rw [Int64.lt_iff_toInt_lt, hself, hmin] at h
      omega
  have hestimate : (if best.bitsPerSecond < kMinBandwidth.bitsPerSecond then kMinBandwidth
      else best).bitsPerSecond.toInt = max best.bitsPerSecond.toInt 500000 := by
    have hmin : kMinBandwidth.bitsPerSecond.toInt = 500000 := rfl
    split_ifs with h
    · rw [Int64.lt_iff_toInt_lt, hmin] at h
      omega
    · rw [Int64.lt_iff_toInt_lt, hmin] at h
      omega
  rw [getWriteBudget, if_pos hfd]
  simp only [if_pos hrtt, Option.bind_eq_bind, Option.bind_some]
  generalize (if minRtt.toUInt64.toInt64 < kMinRoundTripTime then kMinRoundTripTime
    else minRtt.toUInt64.toInt64) = rtt at htime ⊢
  generalize (if best.bitsPerSecond < kMinBandwidth.bitsPerSecond then kMinBandwidth
    else best) = estimateBw at hestimate ⊢
  have htwice : (2 * rtt).toInt = 2 * max minRtt.toNat 5000 := by
    have htwo : (2 : Int64).toInt = 2 := rfl
    rw [Int64.toInt_mul, htime, htwo]
    exact Int.bmod_eq_of_le (by omega) (by omega)
  refine ⟨(estimateBw.toBytesPerPeriod (2 * rtt)).toUInt32.toInt32, fun hfits => ?_, by
    rw [remaining]
    split_ifs <;> rfl⟩
  rw [bytesInFlight, ← hestimate, ← htwice] at hfits ⊢
  rw [toInt_toUInt32, toBytesPerPeriod_toNat (by omega) (by omega)]

/-- With a budget that is an `int` the subtraction does not overflow. -/
theorem remaining_toInt {pending : Int32} (hpending : 0 ≤ pending.toInt) (budget : Int32) :
    (remaining budget pending).toInt =
      if budget.toInt ≤ pending.toInt then 0
      else max (budget.toInt - pending.toInt) kSegmentSize := by
  have hsegment : (Int32.ofNat kSegmentSize).toInt = 1500 := rfl
  have hsize : (kSegmentSize : ℤ) = 1500 := rfl
  have hlt := budget.toInt_lt
  rw [remaining, hsize]
  by_cases hmore : budget.toInt ≤ pending.toInt
  · have hnone : ¬budget > pending := by
      rw [gt_iff_lt, Int32.lt_iff_toInt_lt]
      exact not_lt.2 hmore
    rw [if_neg hnone, if_pos hmore, Int32.toInt_zero]
  · have hsome : budget > pending := by
      rw [gt_iff_lt, Int32.lt_iff_toInt_lt]
      exact not_le.1 hmore
    have hrest : (budget - pending).toInt = budget.toInt - pending.toInt := by
      rw [Int32.toInt_sub]
      exact Int.bmod_eq_of_le (by omega) (by omega)
    rw [if_pos hsome, if_neg hmore]
    split_ifs with hshort
    · rw [Int32.lt_iff_toInt_lt, hrest, hsegment] at hshort
      rw [hsegment, max_eq_right hshort.le]
    · rw [Int32.lt_iff_toInt_lt, hrest, hsegment, not_lt] at hshort
      rw [hrest, max_eq_left hshort]

/-- The code returns the budget exactly if the number of bytes is an `int`. -/
theorem writeBudget_iff {fd : ℤ} (hfd : fd > 0) {minRtt : UInt32} (hrtt : minRtt > 0)
    {pending : Int32} (hpending : 0 ≤ pending.toInt) (best : QuicBandwidth) :
    ∃ remain : Int32, getWriteBudget fd (some minRtt) pending best = some remain ∧
      (remain.toInt = writeBudget minRtt pending best ↔ bytesInFlight minRtt best < 2 ^ 31) := by
  obtain ⟨budget, hbudget, heq⟩ := getWriteBudget_eq hfd hrtt pending best
  refine ⟨_, heq, ?_⟩
  have hnonneg : 0 ≤ bytesInFlight minRtt best := by
    rw [bytesInFlight]
    have hbest := best.nonneg
    exact Int.ediv_nonneg (Int.ediv_nonneg (Int.mul_nonneg (by omega) (by omega)) (by decide))
      (by decide)
  have hremain := remaining_toInt hpending budget
  rw [writeBudget]
  generalize bytesInFlight minRtt best = bytes at hbudget hnonneg ⊢
  have hpendingLt := pending.toInt_lt
  constructor
  · intro hlaw
    by_contra hlarge
    rcases lt_or_ge bytes (2 ^ 32) with hlt | hge
    · -- it is kept as a negative number, and nothing may be written
      have hneg : budget.toInt < 0 := by
        rw [hbudget hlt, Int.bmod_def]
        split_ifs <;> omega
      rw [hremain, if_pos (by omega), if_neg (by omega)] at hlaw
      omega
    · -- the budget itself is no `int`
      have hmax := (remaining budget pending).toInt_lt
      rw [hlaw, if_neg (by omega)] at hmax
      omega
  · intro hlt
    have hself : budget.toInt = bytes := by
      rw [hbudget (by omega)]
      exact Int.bmod_eq_of_le (by omega) (by omega)
    rw [hremain, hself]

/-- At 100 Mbps and 20 ms, with nothing waiting. -/
theorem writeBudget_iff_short : ∃ remain : Int32,
    getWriteBudget 3 (some 20000) 0 (.fromBitsPerSecond 100000000) = some remain ∧
      (remain.toInt = writeBudget 20000 0 (.fromBitsPerSecond 100000000) ↔
        bytesInFlight 20000 (.fromBitsPerSecond 100000000) < 2 ^ 31) :=
  writeBudget_iff (by decide) (by decide) (by decide) _

/-- At 20 Gbps and half a second nothing may be written. -/
theorem getWriteBudget_long :
    getWriteBudget 3 (some 500000) 0 (.fromBitsPerSecond 20000000000) = some 0 ∧
      writeBudget 500000 0 (.fromBitsPerSecond 20000000000) = 2500000000 := by
  decide

end Octopus

end DashDim
