import DashDim.Dash.Predicator
import Mathlib.Analysis.Real.Sqrt
import Mathlib.Data.Rat.Sqrt

/-!
# Adaptation algorithms

Four of the algorithms of `dash/dash_algorithm.cc`: FESTIVE, TOBASCO, FDASH and SFTM.
Each chooses the level of the next segment, and a time to wait before it is
requested, from the buffered playtime and the bitrates of the levels.

They compute in any type `D` of `double` values, and have no reply where the code
fails a check of its predicator or reads outside of an array.
-/

namespace DashDim

/-- `std::sqrt` -/
class SquareRoot (D : Type) where
  sqrt : D → D

noncomputable instance : SquareRoot ℝ := ⟨Real.sqrt⟩

/-- Exact on squares only, but it computes. -/
instance : SquareRoot ℚ := ⟨Rat.sqrt⟩

/-- The segments a throughput is predicted from. -/
def kThroughputHorizon : ℤ := 5

/-- The target buffer of FESTIVE in milliseconds. -/
def kFestiveTarget : ℤ := 20000

/-- The segments FESTIVE looks back over. -/
def kFestiveHorizon : ℤ := 5

/-- The number of levels that have a bitrate. -/
def VideoData.ratesSize (videoData : VideoData) : ℤ := videoData.averageBitrate.length

section

variable {D : Type} [Add D] [Sub D] [Mul D] [Div D] [LT D] [LE D]
  [DecidableLT D] [DecidableLE D] [Double D]

/-- A constant of the code. -/
def const (q : ℚ) : D := Double.ofRat q

/-! ## FESTIVE -/

/-- The state of the algorithm; `random` are the values its generator gives from now
    on. -/
structure FestiveAlgorithm where
  targetBuffer : ℤ := kFestiveTarget
  horizon : ℤ := kFestiveHorizon
  delta : ℤ
  random : ℕ → ℕ
  switchUpCount : ℤ := 0

namespace FestiveAlgorithm

/-- How many segments each level must be kept before a switch up. -/
def kSwitchUpThreshold : List ℤ := [0, 1, 2, 3, 4, 5, 6, 7, 8, 9]

/-- The highest level whose bitrate is at most this, from the top, or the lowest. -/
def targetLevel (videoData : VideoData) (tempBitrate : D) : ℕ → ℤ → Option ℤ
  | 0, bTarget => some bTarget
  | i + 1, _ => do
    let rate ← videoData.bitrate i
    if rate ≤ tempBitrate then some i else targetLevel videoData tempBitrate i i

/-- The changes of level among the last ones. -/
def countChanges (historyQuality : List ℤ) : List ℕ → ℕ → Option ℕ
  | [], n => some n
  | i :: is, n => do
    let quality ← historyQuality[i]?
    let next ← historyQuality[i + 1]?
    countChanges historyQuality is (if quality ≠ next then n + 1 else n)

/-- `CalculateStabilityScore`: doubled by each change of the level in the window. -/
def calculateStabilityScore (a : FestiveAlgorithm) (b bCur : ℤ) (historyQuality : List ℤ) :
    Option D := do
  let length := historyQuality.length
  let index := (length - a.horizon).toNat
  let n ← countChanges historyQuality (List.range' index (length - 1 - index)) 0
  some (const (2 ^ (if b ≠ bCur then n + 1 else n)))

/-- `CalculateEfficiencyScore`: how far a level's rate is from what it should be. -/
def calculateEfficiencyScore (videoData : VideoData) (b bRef : ℤ) (predictBandwidth : D) :
    Option D := do
  let rateRef ← videoData.bitrate bRef
  let rate ← videoData.bitrate b
  let ratio := rate / minOf predictBandwidth rateRef
  let diff := ratio - const 1
  some (if diff < const 0 then const 0 - diff else diff)

/-- The weight of the efficiency in the combined score. -/
def kFestiveAlpha : ℚ := 12

/-- `CalculateCombineScore`. -/
def calculateCombineScore (a : FestiveAlgorithm) (videoData : VideoData) (b bRef bCur : ℤ)
    (predictBandwidth : D) (historyQuality : List ℤ) : Option D := do
  let stabilityScore ← a.calculateStabilityScore b bCur historyQuality
  let efficiencyScore ← calculateEfficiencyScore videoData b bRef predictBandwidth
  some (stabilityScore + const kFestiveAlpha * efficiencyScore)

/-- One step towards the target: up only after some calls in a row that want to. The
    second result is the count of these calls. -/
def referenceLevel (a : FestiveAlgorithm) (bTarget bCur : ℤ) : Option (ℤ × ℤ) :=
  if bTarget > bCur then do
    let threshold ← readAt kSwitchUpThreshold bCur
    some (if a.switchUpCount + 1 > threshold then bCur + 1 else bCur, a.switchUpCount + 1)
  else if bTarget < bCur then some (bCur - 1, 0)
  else some (bCur, 0)

/-- What of the predicted bandwidth is spent. -/
def kBandwidthScale : ℚ := 4 / 5

/-- The highest level that what is spent of the predicted bandwidth pays for. -/
def affordableLevel (videoData : VideoData) (predictBandwidth : D) : Option ℤ :=
  targetLevel videoData (const kBandwidthScale * predictBandwidth)
    videoData.averageBitrate.length 0

/-- The level of the next segment, and the count. -/
def nextLevel (D : Type) [Add D] [Sub D] [Mul D] [Div D] [LT D] [LE D]
    [DecidableLT D] [DecidableLE D] [Double D] (a : FestiveAlgorithm) (data : ClientData)
    (bCur : ℤ) : Option (ℤ × ℤ) := do
  let predictBandwidth : D ← predict data.throughput kThroughputHorizon
  let bTarget ← affordableLevel data.videoData predictBandwidth
  let (bRef, switchUpCount) ← a.referenceLevel bTarget bCur
  let topQuality := data.videoData.ratesSize - 1
  let bRef := if bRef > topQuality then topQuality else bRef
  let bRef := if bRef < 0 then 0 else bRef
  if bRef ≠ bCur then do
    let scoreCur ← a.calculateCombineScore data.videoData bCur bRef bCur predictBandwidth
      data.historyQuality
    let scoreRef ← a.calculateCombineScore data.videoData bRef bRef bCur predictBandwidth
      data.historyQuality
    if scoreCur ≤ scoreRef then some (bCur, switchUpCount)
    else some (bRef, if bRef > bCur then 0 else switchUpCount)
  else some (bCur, switchUpCount)

/-- `nextInt(0, 2*delta_+1)` -/
def nextInt (a : FestiveAlgorithm) : ℤ := (a.random 0 : ℤ).tmod (2 * a.delta + 1 - 0) + 0

/-- The wait: down to a level of the buffer around the target. -/
def delay (a : FestiveAlgorithm) (bufferLevelMs : ℤ) : Time :=
  let lowerBound := a.targetBuffer - a.delta
  let randBuf := lowerBound + a.nextInt
  if bufferLevelMs > randBuf then fromMilliseconds (bufferLevelMs - randBuf) else 0

/-- `FestiveAlgorithm::GetNextQuality`. -/
def getNextQuality (D : Type) [Add D] [Sub D] [Mul D] [Div D] [LT D] [LE D]
    [DecidableLT D] [DecidableLE D] [Double D] (a : FestiveAlgorithm) (data : ClientData)
    (preQuality : ℤ) (segmentCount : ℕ) : Option (AlgorithmReply × FestiveAlgorithm) :=
  if segmentCount = 0 then some ({}, a)
  else do
    let (quality, switchUpCount) ← a.nextLevel D data preQuality
    some ({ nextQuality := quality, nextDownloadDelay := a.delay data.getBufferLevelMs },
      { a with switchUpCount := switchUpCount, random := fun n => a.random (n + 1) })

end FestiveAlgorithm

/-! ## TOBASCO -/

/-- The state of TOBASCO: whether the fast start is still under way. -/
structure TobascoAlgorithm where
  runningFastStart : Bool := true

namespace TobascoAlgorithm

/-- The lowest of TOBASCO's buffer levels, in microseconds. -/
def bMin : ℤ := 10000000

/-- The level below which TOBASCO switches down. -/
def bLow : ℤ := 20000000

/-- The level above which TOBASCO waits. -/
def bHigh : ℤ := 40000000

/-- The middle of the range TOBASCO aims at. -/
def bOpt : ℤ := (bLow + bHigh).tdiv 2

/-- The levels of the buffer went up only. -/
def bufferInc : List ℤ → ℤ → Bool
  | [], _ => true
  | bufferLevel :: levels, last =>
    if bufferLevel < last then false else bufferInc levels bufferLevel

/-- The level and the wait of the fast start. -/
def fastStart (bT taf cur rUp : ℤ) (rateUp est : D) : ℤ × ℤ :=
  if bT < bMin then (if rateUp ≤ const (33 / 100) * est then rUp else cur, 0)
  else if bT < bLow then (if rateUp ≤ const (1 / 2) * est then rUp else cur, 0)
  else (if rateUp ≤ const (3 / 4) * est then rUp else cur, if bT > bHigh then bHigh - taf else 0)

/-- There is no level to go up to. -/
def AtTop (ratesSize cur : ℤ) (rateUp est : D) : Prop :=
  cur = ratesSize - 1 ∨ const (9 / 10) * est ≤ rateUp

instance (ratesSize cur : ℤ) (rateUp est : D) : Decidable (AtTop ratesSize cur rateUp est) :=
  inferInstanceAs (Decidable (_ ∨ _))

/-- The level and the wait after it. -/
def steady (bT taf ratesSize cur rUp rDown : ℤ) (currRate rateUp est : D) : ℤ × ℤ :=
  if bT < bMin then (0, 0)
  else if bT < bLow then (if cur ≠ 0 ∧ est ≤ currRate then rDown else cur, 0)
  else if bT < bHigh then
    (cur, if AtTop ratesSize cur rateUp est then max (bT - taf) bOpt else 0)
  else if AtTop ratesSize cur rateUp est then (cur, max (bT - taf) bOpt)
  else (rUp, 0)

/-- The level above the current one, if there is one. -/
def levelUp (ratesSize cur : ℤ) : ℤ := if cur + 1 < ratesSize then cur + 1 else cur

/-- The level below it. -/
def levelDown (cur : ℤ) : ℤ := if cur ≥ 1 then cur - 1 else cur

/-- The fast start goes on. -/
def FastStart (a : TobascoAlgorithm) (data : ClientData) (cur : ℤ) (currRate est : D) : Prop :=
  a.runningFastStart = true ∧ cur ≠ data.videoData.ratesSize - 1 ∧
    bufferInc data.bufferData.bufferLevelNew 0 = true ∧ currRate ≤ const (3 / 4) * est

instance (a : TobascoAlgorithm) (data : ClientData) (cur : ℤ) (currRate est : D) :
    Decidable (a.FastStart data cur currRate est) :=
  inferInstanceAs (Decidable (_ ∧ _ ∧ _ ∧ _))

/-- Times are in microseconds here. The level above the current one is in the table if
    the current one is. -/
def getNextQuality (D : Type) [Add D] [Sub D] [Mul D] [Div D] [LT D] [LE D]
    [DecidableLT D] [DecidableLE D] [Double D] (a : TobascoAlgorithm) (data : ClientData)
    (preQuality : ℤ) (segmentCount : ℕ) : Option (AlgorithmReply × TobascoAlgorithm) :=
  if segmentCount = 0 then some ({}, a)
  else do
    let ratesSize := data.videoData.ratesSize
    let bT := data.getBufferLevelMs * 1000
    let taf := data.videoData.segmentDuration * 1000
    let est : D ← predict data.throughput 5
    let currRate ← data.videoData.bitrate preQuality
    let rUp := levelUp ratesSize preQuality
    let rateUp ← data.videoData.bitrate rUp
    if a.FastStart data preQuality currRate est then
      let (quality, delay) := fastStart bT taf preQuality rUp rateUp est
      some ({ nextQuality := quality, nextDownloadDelay := delay }, a)
    else
      let (quality, delay) := steady bT taf ratesSize preQuality rUp (levelDown preQuality)
        currRate rateUp est
      some ({ nextQuality := quality, nextDownloadDelay := delay },
        { a with runningFastStart := false })

end TobascoAlgorithm

/-! ## FDASH -/

/-- The state of FDASH. -/
structure FdashAlgorithm where
  targetBuffer : ℤ := 20000

namespace FdashAlgorithm

/-- How far the buffer is `slow`, `ok` and `fast`. -/
def bufferMembership (t currDt : D) : D × D × D :=
  if currDt < const 2 * t / const 3 then (const 1, const 0, const 0)
  else if currDt < t then
    (const 1 - const 1 / (t / const 3) * (currDt - const 2 * t / const 3),
      const 1 / (t / const 3) * (currDt - const 2 * t / const 3), const 0)
  else if currDt < const 4 * t then
    (const 0, const 1 - const 1 / (const 3 * t) * (currDt - t),
      const 1 / (const 3 * t) * (currDt - t))
  else (const 0, const 0, const 1)

/-- How far it is `falling`, `steady` and `rising`. -/
def diffMembership (t diff : D) : D × D × D :=
  if diff < const (-2) * t / const 3 then (const 1, const 0, const 0)
  else if diff < const 0 then
    (const 1 - const 1 / (const 2 * t / const 3) * (diff + const 2 * t / const 3),
      const 1 / (const 2 * t / const 3) * (diff + const 2 * t / const 3), const 0)
  else if diff < const 4 * t then
    (const 0, const 1 - const 1 / (const 4 * t) * diff, const 1 / (const 4 * t) * diff)
  else (const 0, const 0, const 1)

variable [SquareRoot D]

/-- The controller: the nine rules, what they amount to, and its output. -/
def output (t currDt diff : D) : D :=
  let (slow, ok, fast) := bufferMembership t currDt
  let (falling, steady, rising) := diffMembership t diff
  let r1 := minOf slow falling
  let r2 := minOf ok falling
  let r3 := minOf fast falling
  let r4 := minOf slow steady
  let r5 := minOf ok steady
  let r6 := minOf fast steady
  let r7 := minOf slow rising
  let r8 := minOf ok rising
  let r9 := minOf fast rising
  let p2 := SquareRoot.sqrt (r9 * r9)
  let p1 := SquareRoot.sqrt (r6 * r6 + r8 * r8)
  let z := SquareRoot.sqrt (r3 * r3 + r5 * r5 + r7 * r7)
  let n1 := SquareRoot.sqrt (r2 * r2 + r4 * r4)
  let n2 := SquareRoot.sqrt (r1 * r1)
  (n2 * const (1 / 4) + n1 * const (1 / 2) + z * const 1 + p1 * const 2 + p2 * const 4) /
    (n2 + n1 + z + p1 + p2)

/-- The last level whose bitrate is below the rate wanted, or the current one. -/
def candidateLevel (videoData : VideoData) (result : D) (preQuality : ℤ) : Option ℤ :=
  (List.range videoData.averageBitrate.length).foldlM (fun quality i => do
    let rate ← videoData.bitrate i
    some (if result > rate then (i : ℤ) else quality)) preQuality

/-- The buffered playtime in a minute, at a bitrate. -/
def levelIn60 (currDt est rate : D) : D := currDt + (est / rate - const 1) * const 60

/-- A level is left only if the buffer in a minute says so too. -/
def guardedLevel (videoData : VideoData) (t currDt est : D) (quality preQuality : ℤ) :
    Option ℤ := do
  let rate ← videoData.bitrate quality
  let preRate ← videoData.bitrate preQuality
  if rate > preRate then
    some (if levelIn60 currDt est rate < t then preQuality else quality)
  else if rate < preRate then
    some (if levelIn60 currDt est rate > t then preQuality else quality)
  else some quality

/-- The wait, at the highest level: what is buffered beyond the target and the time to
    download a segment. -/
def delay (videoData : VideoData) (t currDt est : D) (quality : ℤ) : Option Time :=
  if quality = videoData.ratesSize - 1 then do
    let rate ← videoData.bitrate quality
    let timeToDownload := rate * ofInt videoData.segmentDuration / const 1000 / est
    let sleepTime := currDt - t - timeToDownload
    some (if sleepTime > const 0 then fromMilliseconds (Double.trunc (sleepTime * const 1000))
      else 0)
  else some 0

/-- `FdashAlgorithm::GetNextQuality`. -/
def getNextQuality (D : Type) [Add D] [Sub D] [Mul D] [Div D] [LT D] [LE D]
    [DecidableLT D] [DecidableLE D] [Double D] [SquareRoot D] (a : FdashAlgorithm)
    (data : ClientData) (preQuality : ℤ) (segmentCount : ℕ) :
    Option (AlgorithmReply × FdashAlgorithm) :=
  if segmentCount = 0 then some ({}, a)
  else do
    let t : D := ofInt a.targetBuffer / const 1000
    let currDt : D := ofInt data.getBufferLevelMs / const 1000
    let diff : D := ofInt data.getBufferDiffMs / const 1000
    let est : D ← predict data.throughput 5
    let candidate ← candidateLevel data.videoData (output t currDt diff * est) preQuality
    let quality ← guardedLevel data.videoData t currDt est candidate preQuality
    let delay ← delay data.videoData t currDt est quality
    some ({ nextQuality := quality, nextDownloadDelay := delay }, a)

end FdashAlgorithm

/-! ## SFTM -/

/-- The state of SFTM. -/
structure SftmAlgorithm where
  targetBuffer : ℤ := 20000
  rsftExceeded : Bool := false

namespace SftmAlgorithm

/-- `std::numeric_limits<double>::max()` -/
def maxDouble : ℚ := 2 ^ 1024 - 2 ^ 971

/-- The step from one level to another, relative to a bitrate. -/
def relativeStep (videoData : VideoData) (high low base : ℤ) : Option D := do
  let rateHigh ← videoData.bitrate high
  let rateLow ← videoData.bitrate low
  let rateBase ← videoData.bitrate base
  some ((rateHigh - rateLow) / rateBase)

/-- The largest step up, relative to the lower bitrate. -/
def largestStepUp (videoData : VideoData) : Option D :=
  (List.range (videoData.averageBitrate.length - 1)).foldlM (fun emax (i : ℕ) => do
    let e ← relativeStep videoData (i + 1) i i
    some (maxOf emax e)) (const 0)

/-- The smallest step down, relative to the higher bitrate. -/
def smallestStepDown (videoData : VideoData) : Option D :=
  (List.range' 1 (videoData.averageBitrate.length - 1)).foldlM (fun emin (i : ℕ) => do
    let e ← relativeStep videoData i (i - 1) i
    some (minOf emin e)) (const maxDouble)

/-- The levels below the current one, up to the first whose bitrate is enough. -/
def switchDown (videoData : VideoData) (wanted : D) : List ℕ → ℤ → Option ℤ
  | [], quality => some quality
  | i :: is, quality => do
    let rate ← videoData.bitrate i
    if wanted ≤ rate then some quality else switchDown videoData wanted is i

/-- The remaining time to fetch a segment, and whether it exceeded its bound. -/
def fetchTime (a : SftmAlgorithm) (data : ClientData) (segmentCount : ℕ) : D × Bool :=
  let msd : D := ofInt data.videoData.segmentDuration
  let tsNs := ofInt segmentCount * msd
  let tsO : D := ofInt ((data.playedFrames * 1000 : ℤ).tdiv kFramesPerSecond)
  let rsft := tsNs - tsO - ofInt a.targetBuffer
  let rsftS := const (3 / 4) * msd
  if rsft < rsftS ∧ a.rsftExceeded = false then (rsftS, a.rsftExceeded) else (rsft, true)

/-- The level of the next segment. -/
def nextLevel (videoData : VideoData) (sftm : D) (rateInd : ℤ) : Option ℤ := do
  let ratesSize := videoData.ratesSize
  let ecU ← if rateInd < ratesSize - 1 then relativeStep videoData (rateInd + 1) rateInd rateInd
    else some (const maxDouble)
  let emaxU ← largestStepUp videoData
  let eU := minOf emaxU (const 2 * ecU)
  let ecD ← if rateInd > 0 then relativeStep videoData rateInd (rateInd - 1) rateInd
    else some (const 1)
  let eminD ← smallestStepDown videoData
  let eD := maxOf (const 2 * eminD) ecD
  if sftm > const 1 + eU ∧ rateInd < ratesSize - 1 then some (rateInd + 1)
  else if sftm < const 1 - eD ∧ rateInd ≠ 0 then do
    let rate ← videoData.bitrate rateInd
    switchDown videoData (sftm * rate) (List.range rateInd.toNat) rateInd
  else some rateInd

/-- The wait: what is buffered beyond a segment of the highest bitrate at the lowest. -/
def delay (data : ClientData) (bMax bMin : D) : Time :=
  let tId := ofInt data.getBufferLevelMs - ofInt data.videoData.segmentDuration * bMax / bMin
  if tId > const 0 then fromMilliseconds (Double.trunc tId) else 0

/-- `SftmAlgorithm::GetNextQuality`. -/
def getNextQuality (D : Type) [Add D] [Sub D] [Mul D] [Div D] [LT D] [LE D]
    [DecidableLT D] [DecidableLE D] [Double D] (a : SftmAlgorithm) (data : ClientData)
    (preQuality : ℤ) (segmentCount : ℕ) : Option (AlgorithmReply × SftmAlgorithm) :=
  if segmentCount = 0 then some ({}, a)
  else do
    let sft ← lastDownloadTime data.throughput
    let (rsft, exceeded) := a.fetchTime (D := D) data segmentCount
    let sftm : D := minOf (ofInt data.videoData.segmentDuration) rsft / ofInt sft
    let quality ← nextLevel data.videoData sftm preQuality
    let bMax : D ← data.videoData.bitrate (data.videoData.ratesSize - 1)
    let bMin : D ← data.videoData.bitrate 0
    some ({ nextQuality := quality, nextDownloadDelay := delay data bMax bMin },
      { a with rsftExceeded := exceeded })

end SftmAlgorithm

end

section

variable {K : Type} [Field K] [LinearOrder K] [IsStrictOrderedRing K] [FloorRing K]
  [ExactDouble K]

theorem const_eq (q : ℚ) : (const q : K) = q := ExactDouble.ofRat_eq q

end

end DashDim
