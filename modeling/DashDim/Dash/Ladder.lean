import DashDim.Dash.Algorithms
import Mathlib.Analysis.SpecialFunctions.Exp

/-!
# Algorithms that search the ladder

Four more of the algorithms of `dash/dash_algorithm.cc`: PANDA, OSMP, RAAHS and SVAA. They
look for a level by going through the bitrates of the ladder, from one end to the other.
PANDA has the level of its last reply in its own state.

As with the others, they compute in any type `D` of `double` values, and have no reply where
the code fails the check of its predicator, or reads outside of an array.
-/

namespace DashDim

/-- `std::exp` -/
class Exponential (D : Type) where
  exp : D → D

noncomputable instance : Exponential ℝ := ⟨Real.exp⟩

section

variable {D : Type} [Add D] [Sub D] [Mul D] [Div D] [LT D] [LE D]
  [DecidableLT D] [DecidableLE D] [Double D]

/-! ## PANDA -/

/-- The level of the last reply is a whole number, which the code keeps as a `double`. -/
structure PandaAlgorithm (D : Type) where
  lastBuffer : D
  lastTargetInterrequestTime : Time := 0
  lastBandwidthShare : D
  lastSmoothBandwidthShare : D
  lastVideoIndex : ℤ

namespace PandaAlgorithm

/-- The convergence rate of the probing of PANDA. -/
def kappa : ℚ := 28 / 100

/-- The additive increase of PANDA. -/
def omega : ℚ := 3 / 10

/-- The smoothing rate of PANDA. -/
def alpha : ℚ := 1 / 5

/-- The buffer convergence rate of PANDA. -/
def beta : ℚ := 1 / 5

/-- The safety margin of PANDA. -/
def epsilon : ℚ := 15 / 100

/-- The lowest buffer of PANDA in seconds. -/
def bMin : ℚ := 26

/-- `FindLargest`: the last level below the top whose bitrate is at most this, in Mbps. -/
def findLargest (videoData : VideoData) (smoothBw delta : D) : Option ℤ :=
  (List.range (videoData.averageBitrate.length - 1)).foldlM (fun largest (i : ℕ) => do
    let rate ← videoData.bitrate i
    some (if rate / const 1000000 ≤ smoothBw - delta then (i : ℤ) else largest)) 0

/-- The level between the two that were found. -/
def nextLevel (videoData : VideoData) (last rUp rDown : ℤ) : Option ℤ := do
  let rateLast : D ← videoData.bitrate last
  let rateUp : D ← videoData.bitrate rUp
  let rateDown : D ← videoData.bitrate rDown
  some (if rateLast < rateUp then rUp
    else if rateUp ≤ rateLast ∧ rateLast ≤ rateDown then last else rDown)

/-- The share of the bandwidth, for what was measured and the time between two requests. -/
def bandwidthShare (throughputMeasured lastBandwidthShare interrequestTime : D) : D :=
  let share := const kappa * (const omega -
    maxOf (const 0) (lastBandwidthShare - throughputMeasured + const omega)) * interrequestTime +
    lastBandwidthShare
  if share < const 0 then const 0 else share

/-- `PandaAlgorithm::GetNextQuality`. -/
def getNextQuality (D : Type) [Add D] [Sub D] [Mul D] [Div D] [LT D] [LE D]
    [DecidableLT D] [DecidableLE D] [Double D] (a : PandaAlgorithm D) (data : ClientData)
    (now : Time) (segmentCount : ℕ) : Option (AlgorithmReply × PandaAlgorithm D) :=
  if segmentCount = 0 then
    some ({}, { a with
      lastVideoIndex := 0
      lastBuffer := ofInt data.videoData.segmentDuration * const 1 / const 1000
      lastTargetInterrequestTime := 0 })
  else do
    let requested ← data.throughput.transmissionRequested.getLast?
    let start ← data.throughput.transmissionStart.getLast?
    let stop ← data.throughput.transmissionEnd.getLast?
    let rate ← data.videoData.bitrate a.lastVideoIndex
    let measured : D := const 1 * rate * ofInt data.videoData.segmentDuration /
      ofInt (toMilliseconds (stop - start)) / const 1000000
    let a := if segmentCount = 1 then
      { a with lastBandwidthShare := measured, lastSmoothBandwidthShare := measured } else a
    let interrequestTime : D := if now - requested > a.lastTargetInterrequestTime then
        const 1 * ofInt (toMilliseconds (now - requested)) / const 1000
      else const 1 * ofInt (toMilliseconds a.lastTargetInterrequestTime) / const 1000
    let share := bandwidthShare measured a.lastBandwidthShare interrequestTime
    let smooth := const (-alpha) * (a.lastSmoothBandwidthShare - share) *
      interrequestTime + a.lastSmoothBandwidthShare
    let rUp ← findLargest data.videoData smooth (const omega + const epsilon * smooth)
    let rDown ← findLargest data.videoData smooth (const omega)
    let videoIndex ← nextLevel (D := D) data.videoData a.lastVideoIndex rUp rDown
    let rateNext ← data.videoData.bitrate videoIndex
    let seconds := rateNext / const 1000000 *
      (const 1 * ofInt data.videoData.segmentDuration / const 1000) / smooth
    let target := maxOf (const 0) (seconds + const beta * (a.lastBuffer - const bMin))
    let delay := if stop - requested < a.lastTargetInterrequestTime then
      a.lastTargetInterrequestTime - (stop - requested) else 0
    some ({ nextQuality := videoIndex, nextDownloadDelay := delay }, { a with
      lastBuffer := ofInt data.getBufferLevelMs * const 1 / const 1000
      lastTargetInterrequestTime := fromMilliseconds (Double.trunc (target * const 1000))
      lastBandwidthShare := share
      lastSmoothBandwidthShare := smooth
      lastVideoIndex := videoIndex })

end PandaAlgorithm

/-! ## OSMP -/

/-- It has no state. -/
structure OsmpAlgorithm where

namespace OsmpAlgorithm

/-- The loop that goes up from a level: to the top, or to the first level whose next one is
    too much. It goes through at most so many rounds. -/
def goUp (videoData : VideoData) (rDownload rateCur : D) (lMax : ℤ) : ℕ → ℤ → Option ℤ
  | 0, _ => none
  | rounds + 1, lNxt =>
    if lNxt + 1 = lMax then some (lNxt + 1)
    else do
      let rate ← videoData.bitrate (lNxt + 1 + 1)
      if rDownload < rate / rateCur then some (lNxt + 1)
      else goUp videoData rDownload rateCur lMax rounds (lNxt + 1)

/-- The bitrate of the level below, relative to that of the current one. -/
def ratioBelow (videoData : VideoData) (lCur : ℤ) : Option D := do
  let rateBelow ← videoData.bitrate (lCur - 1)
  let rateCur ← videoData.bitrate lCur
  some (const 1 * rateBelow / rateCur)

/-- A level above the lowest is left upwards only if the one below it is too little. -/
def goesUp (videoData : VideoData) (rDownload : D) (lCur : ℤ) : Option Bool :=
  if lCur = 0 then some true
  else (ratioBelow videoData lCur).map fun ratio => decide (rDownload > ratio)

/-- The level for the time that a segment plays, relative to what the last one took. -/
def nextLevel (videoData : VideoData) (rDownload : D) (lCur : ℤ) : Option ℤ :=
  let lMax := videoData.ratesSize - 1
  if rDownload < const 1 then
    if lCur > 0 then do
      let ratio ← ratioBelow videoData lCur
      some (if rDownload < ratio then 0 else lCur - 1)
    else some 0
  else if lCur < lMax then do
    let up ← goesUp videoData rDownload lCur
    if up = true then do
      let rateCur ← videoData.bitrate lCur
      goUp videoData rDownload rateCur lMax lMax.toNat 0
    else some 0
  else some 0

/-- `OsmpAlgorithm::GetNextQuality`. -/
def getNextQuality (D : Type) [Add D] [Sub D] [Mul D] [Div D] [LT D] [LE D]
    [DecidableLT D] [DecidableLE D] [Double D] (a : OsmpAlgorithm) (data : ClientData)
    (preQuality : ℤ) (segmentCount : ℕ) : Option (AlgorithmReply × OsmpAlgorithm) :=
  if segmentCount = 0 then some ({}, a)
  else if data.throughput.transmissionEnd.length > 0 then do
    let downloadTime ← lastDownloadTime data.throughput
    let rDownload : D := const 1 * ofInt data.videoData.segmentDuration /
      (const 1 * ofInt downloadTime)
    let quality ← nextLevel data.videoData rDownload preQuality
    some ({ nextQuality := quality }, a)
  else some ({}, a)

end OsmpAlgorithm

/-! ## RAAHS -/

/-- The state of RAAHS: its buffer threshold. -/
structure RaahsAlgorithm where
  tMinMs : ℤ := 9000

namespace RaahsAlgorithm

/-- The factor to switch down. -/
def gammaD : ℚ := 67 / 100

/-- The `epsilon` of the ladder, its largest step up. The index is unsigned, and so is the
    bound: without levels the loop does not end before it reads. -/
def epsilon (videoData : VideoData) : Option D :=
  if videoData.averageBitrate.length = 0 then none else SftmAlgorithm.largestStepUp videoData

/-- The search downwards from a level, for at most so many rounds: the indices it reads, and
    the level it comes to. The index is unsigned. -/
def searchDown (videoData : VideoData) (wanted : D) : ℕ → UInt32 → List ℕ × Option ℤ
  | 0, _ => ([], none)
  | rounds + 1, i =>
    if 0 ≤ i then
      match videoData.bitrate i.toNat with
      | none => ([i.toNat], none)
      | some rate =>
        if rate < wanted then ([i.toNat], some i.toBitVec.toInt)
        else
          let (reads, level) := searchDown videoData wanted rounds (i - 1)
          (i.toNat :: reads, level)
    else ([], some 0)

/-- The search from the level below the current one. Only the index changes in its rounds:
    if it has not ended when there was each value, it does not end. -/
def switchDown (videoData : VideoData) (mi : D) (curQuality : ℤ) : List ℕ × Option ℤ :=
  match videoData.bitrate curQuality with
  | none => ([], none)
  | some rate => searchDown videoData (mi * rate) (2 ^ 32) (UInt32.ofInt (curQuality - 1))

/-- The level for the time that a segment plays, relative to what the last one took. -/
def nextLevel (videoData : VideoData) (mi : D) (curQuality : ℤ) : Option ℤ := do
  let epsilon ← epsilon videoData
  if mi > const 1 + epsilon then
    some (if curQuality < videoData.ratesSize - 1 then curQuality + 1 else curQuality)
  else if mi < const gammaD then (switchDown videoData mi curQuality).2
  else some curQuality

/-- The wait: what is buffered beyond a minimum, and a segment of the current bitrate at the
    lowest. -/
def delay (a : RaahsAlgorithm) (data : ClientData) (rate rateMin : D) : Time :=
  let temp := rate * ofInt data.videoData.segmentDuration / rateMin
  let delay := data.getBufferLevelMs - a.tMinMs - Double.trunc temp
  if delay > 0 then fromMilliseconds delay else 0

/-- `RaahsAlgorithm::GetNextQuality`. -/
def getNextQuality (D : Type) [Add D] [Sub D] [Mul D] [Div D] [LT D] [LE D]
    [DecidableLT D] [DecidableLE D] [Double D] (a : RaahsAlgorithm) (data : ClientData)
    (preQuality : ℤ) (segmentCount : ℕ) : Option (AlgorithmReply × RaahsAlgorithm) :=
  if segmentCount = 0 then some ({}, a)
  else if data.throughput.transmissionEnd.length > 0 then do
    let sft ← lastDownloadTime data.throughput
    let mi : D := const 1 * ofInt data.videoData.segmentDuration / (const 1 * ofInt sft)
    let quality ← nextLevel data.videoData mi preQuality
    let rate : D ← data.videoData.bitrate preQuality
    let rateMin : D ← data.videoData.bitrate 0
    some ({ nextQuality := quality, nextDownloadDelay := a.delay data rate rateMin }, a)
  else some ({}, a)

end RaahsAlgorithm

/-! ## SVAA -/

/-- The state of SVAA. -/
structure SvaaAlgorithm where
  targetBuffer : ℤ := 20000
  mK1 : ℤ := 0
  mK2 : ℤ := 0
  counter : ℤ := 0

namespace SvaaAlgorithm

/-- The highest level whose bitrate is at most this, from the top, or the lowest. -/
def findLevel (videoData : VideoData) (tK : D) : ℕ → Option ℤ
  | 0 => do
    let _rate : D ← videoData.bitrate 0
    some 0
  | i + 1 => do
    let rate ← videoData.bitrate ((i : ℤ) + 1)
    if rate > tK then findLevel videoData tK i else some ((i : ℤ) + 1)

/-- The factor of the trend: the duration of a segment, over what of it was not gained. -/
def trendFactor (segmentDuration bufferDiff : ℤ) : D :=
  let delta := const 1 * ofInt segmentDuration / const 1000
  let diff := const 1 * ofInt bufferDiff / const 1000
  delta / (delta - diff)

/-- How many calls a higher level needs, by the trend of the buffer. -/
def callsNeeded (delta diff : D) : ℤ :=
  if const (2 / 5) * delta ≤ diff then 1
  else if const (1 / 5) * delta ≤ diff then 5
  else if const 0 ≤ diff then 15
  else 20

variable [Exponential D]

/-- The factor of the buffer, by its distance to the target. -/
def bufferFactor (qTk qRef : D) : D :=
  const 2 * Exponential.exp (const 1 * (qTk - qRef)) /
    (const 1 + Exponential.exp (const 1 * (qTk - qRef)))

/-- `SvaaAlgorithm::GetNextQuality`. -/
def getNextQuality (D : Type) [Add D] [Sub D] [Mul D] [Div D] [LT D] [LE D]
    [DecidableLT D] [DecidableLE D] [Double D] [Exponential D] (a : SvaaAlgorithm)
    (data : ClientData) (preQuality : ℤ) (segmentCount : ℕ) :
    Option (AlgorithmReply × SvaaAlgorithm) :=
  if segmentCount = 0 then some ({}, a)
  else do
    let diff : D := const 1 * ofInt data.getBufferDiffMs / const 1000
    let qTk : D := const 1 * ofInt data.getBufferLevelMs / const 1000
    let qRef : D := ofInt (a.targetBuffer.tdiv 1000)
    let delta : D := const 1 * ofInt data.videoData.segmentDuration / const 1000
    let f := bufferFactor qTk qRef *
      trendFactor data.videoData.segmentDuration data.getBufferDiffMs * const 1
    let tK : D ← predict data.throughput 5
    let uK := f * tK
    let mK := callsNeeded delta diff
    let m := (mK + a.mK1 + a.mK2).tdiv 3
    let a := { a with mK1 := mK, mK2 := a.mK1 }
    let currRate ← data.videoData.bitrate preQuality
    if qTk < qRef / const 2 then do
      let quality ← findLevel data.videoData tK (data.videoData.averageBitrate.length - 1)
      some ({ nextQuality := quality }, a)
    else if uK > currRate then
      if a.counter + 1 > m then do
        let quality ← findLevel data.videoData tK (data.videoData.averageBitrate.length - 1)
        some ({ nextQuality := quality }, { a with counter := 0 })
      else some ({ nextQuality := preQuality }, { a with counter := a.counter + 1 })
    else if uK < currRate then
      some ({ nextQuality := preQuality }, { a with counter := 0 })
    else some ({ nextQuality := preQuality }, a)

end SvaaAlgorithm

end

end DashDim
