import DashDim.Dash.Algorithms

/-!
# Waits and the buffer

An algorithm that waits longer than what is buffered makes the playback stall. In the
exact arithmetic of a field, FESTIVE, FDASH and SFTM never do. TOBASCO does, after its
fast start: with the buffer between its low and its optimal level, and no level to go
up to, it waits for as long as the optimal level, and not until it is reached.

* `delay_le_buffer_iff`: the wait of each of the four is at most the buffered playtime,
  exactly if it is not TOBASCO in this state.
-/

namespace DashDim

variable {K : Type} [Field K] [LinearOrder K] [IsStrictOrderedRing K] [FloorRing K]
  [ExactDouble K]

/-- A conversion does not go beyond an integer. -/
theorem trunc_le_of_le {x : K} {n : ℤ} (hx : 0 ≤ x) (h : x ≤ n) : Double.trunc x ≤ n := by
  rw [ExactDouble.trunc_eq, if_pos hx]
  exact_mod_cast (Int.floor_le x).trans h

/-- The sums of the predicator are not negative. -/
theorem predictLoop_nonneg {history : ThroughputData} {is : List ℕ} {sum sum' : ℤ}
    {temp temp' : K} (hsum : 0 ≤ sum) (htemp : 0 ≤ temp)
    (h : predictLoop history is sum temp = some (sum', temp')) : 0 ≤ sum' ∧ 0 ≤ temp' := by
  induction is generalizing sum temp with
  | nil =>
    cases h
    exact ⟨hsum, htemp⟩
  | cons i is ih =>
    rw [predictLoop] at h
    split at h
    · next start stop bytes _ _ _ =>
      split_ifs at h with hlt
      have hms : 0 ≤ toMilliseconds (stop - start) := by
        rw [toMilliseconds]
        exact Int.tdiv_nonneg (sub_nonneg.2 hlt.le) (by norm_num)
      refine ih (add_nonneg hsum hms) (add_nonneg htemp ?_) h
      simp only [ofInt_eq]
      have hms' : (0 : K) ≤ (toMilliseconds (stop - start) : ℤ) := Int.cast_nonneg hms
      positivity
    · cases h

/-- A prediction is not negative. -/
theorem predict_nonneg {history : ThroughputData} {horizon : ℤ} {est : K}
    (h : predict history horizon = some est) : 0 ≤ est := by
  rw [predict] at h
  split_ifs at h
  · split at h
    · cases h
    · next sum temp hloop =>
      obtain ⟨hsum, htemp⟩ := predictLoop_nonneg le_rfl (by simp [ofInt_eq]) hloop
      cases h
      simp only [ofInt_eq]
      have hsum' : (0 : K) ≤ sum := Int.cast_nonneg hsum
      positivity
  · cases h
    simp [ofInt_eq]

/-- The bitrates of a ladder of positive ones. -/
theorem VideoData.bitrate_pos {videoData : VideoData} {quality : ℤ} {rate : K}
    (hpos : ∀ rate ∈ videoData.averageBitrate, 0 < rate)
    (h : videoData.bitrate quality = some rate) : 0 < rate := by
  obtain ⟨q, hq, rfl⟩ := Option.map_eq_some_iff.1 h
  rw [readAt] at hq
  split_ifs at hq
  rw [ExactDouble.ofRat_eq]
  exact Rat.cast_pos.2 (hpos q (List.mem_of_getElem? hq))

/-! ## FESTIVE -/

theorem FestiveAlgorithm.nextInt_nonneg (a : FestiveAlgorithm) : 0 ≤ a.nextInt := by
  rw [nextInt, add_zero]
  exact Int.tmod_nonneg _ (Int.natCast_nonneg _)

theorem FestiveAlgorithm.delay_le {a : FestiveAlgorithm} (ha : a.delta ≤ a.targetBuffer)
    {bufferLevelMs : ℤ} (hlevel : 0 ≤ bufferLevelMs) :
    a.delay bufferLevelMs ≤ fromMilliseconds bufferLevelMs := by
  have hrandom := a.nextInt_nonneg
  unfold delay
  dsimp only
  split_ifs
  · exact Int.mul_le_mul_of_nonneg_right (by omega) (by norm_num)
  · exact mul_nonneg hlevel (by norm_num)

/-! ## TOBASCO -/

namespace TobascoAlgorithm

/-- After the fast start, the buffer is between its low and its optimal level, and there
    is no level to go up to. -/
def WaitsForTarget (K : Type) [Field K] [LinearOrder K] [IsStrictOrderedRing K] [FloorRing K]
    [ExactDouble K] (a : TobascoAlgorithm) (data : ClientData) (preQuality : ℤ)
    (segmentCount : ℕ) : Prop :=
  segmentCount ≠ 0 ∧ ∃ est currRate rateUp : K, predict data.throughput 5 = some est ∧
    data.videoData.bitrate preQuality = some currRate ∧
    data.videoData.bitrate (levelUp data.videoData.ratesSize preQuality) = some rateUp ∧
    ¬ a.FastStart data preQuality currRate est ∧
    AtTop data.videoData.ratesSize preQuality rateUp est ∧
    20000 ≤ data.getBufferLevelMs ∧ data.getBufferLevelMs < 30000

theorem fastStart_le {bT taf cur rUp : ℤ} (hbT : 0 ≤ bT) (htaf : 0 ≤ taf) (rateUp est : K) :
    (fastStart bT taf cur rUp rateUp est).2 ≤ bT := by
  have hhigh : bHigh = 40000000 := rfl
  rw [fastStart]
  split_ifs <;> dsimp only <;> omega

/-- The wait after the fast start is too long only for the optimal level. -/
theorem steady_le_iff {bT taf ratesSize cur rUp rDown : ℤ} (hbT : 0 ≤ bT) (htaf : 0 ≤ taf)
    (currRate rateUp est : K) :
    (steady bT taf ratesSize cur rUp rDown currRate rateUp est).2 ≤ bT ↔
      ¬ (AtTop ratesSize cur rateUp est ∧ 20000000 ≤ bT ∧ bT < 30000000) := by
  have hopt : bOpt = 30000000 := rfl
  rw [steady, bMin, bLow, bHigh]
  by_cases htop : AtTop ratesSize cur rateUp est
  · simp only [htop, if_true, true_and, hopt]
    split_ifs <;> dsimp only <;> omega
  · simp only [htop, if_false, false_and, not_false_iff, iff_true]
    split_ifs <;> dsimp only <;> omega

theorem delay_le_iff {a a' : TobascoAlgorithm} {data : ClientData} {preQuality : ℤ}
    {segmentCount : ℕ} {reply : AlgorithmReply} (hduration : 0 ≤ data.videoData.segmentDuration)
    (hlevel : 0 ≤ data.getBufferLevelMs)
    (h : a.getNextQuality K data preQuality segmentCount = some (reply, a')) :
    reply.nextDownloadDelay ≤ fromMilliseconds data.getBufferLevelMs ↔
      ¬ a.WaitsForTarget K data preQuality segmentCount := by
  rw [WaitsForTarget]
  rw [getNextQuality] at h
  split_ifs at h with hcount
  · cases h
    simp only [hcount, ne_eq, not_true_eq_false, false_and, not_false_iff, iff_true]
    exact mul_nonneg hlevel (by norm_num)
  · simp only [Option.bind_eq_bind, Option.bind_eq_some_iff] at h
    obtain ⟨est, hest, currRate, hcurr, rateUp, hup, h⟩ := h
    have hiff : (segmentCount ≠ 0 ∧ ∃ est currRate rateUp : K,
        predict data.throughput 5 = some est ∧
        data.videoData.bitrate preQuality = some currRate ∧
        data.videoData.bitrate (levelUp data.videoData.ratesSize preQuality) = some rateUp ∧
        ¬ a.FastStart data preQuality currRate est ∧
        AtTop data.videoData.ratesSize preQuality rateUp est ∧
        20000 ≤ data.getBufferLevelMs ∧ data.getBufferLevelMs < 30000) ↔
        ¬ a.FastStart data preQuality currRate est ∧
        AtTop data.videoData.ratesSize preQuality rateUp est ∧
        20000 ≤ data.getBufferLevelMs ∧ data.getBufferLevelMs < 30000 := by
      simp [hcount, hest, hcurr, hup]
    rw [hiff]
    split_ifs at h with hfast
    · -- the fast start never waits longer than what is buffered plays
      cases h
      simp only [hfast, not_true_eq_false, false_and, not_false_iff, iff_true]
      exact fastStart_le (by omega) (by omega) rateUp est
    · cases h
      simp only [hfast, not_false_iff, true_and]
      refine (steady_le_iff (by omega) (by omega) currRate rateUp est).trans ?_
      refine not_congr (and_congr_right fun _ => ?_)
      omega

end TobascoAlgorithm

/-! ## FDASH and SFTM -/

theorem FdashAlgorithm.delay_le {videoData : VideoData} {targetBuffer bufferLevelMs : ℤ}
    {est : K} {quality : ℤ} {wait : Time} (htarget : 0 ≤ targetBuffer) (hest : 0 ≤ est)
    (hduration : 0 ≤ videoData.segmentDuration)
    (hrates : ∀ rate ∈ videoData.averageBitrate, 0 < rate) (hlevel : 0 ≤ bufferLevelMs)
    (h : delay videoData (ofInt targetBuffer / const 1000) (ofInt bufferLevelMs / const 1000)
      est quality = some wait) : wait ≤ fromMilliseconds bufferLevelMs := by
  have hzero : 0 ≤ fromMilliseconds bufferLevelMs := mul_nonneg hlevel (by norm_num)
  rw [delay] at h
  split_ifs at h
  · simp only [Option.bind_eq_bind, Option.bind_eq_some_iff] at h
    obtain ⟨rate, hrate, h⟩ := h
    have hpos := VideoData.bitrate_pos hrates hrate
    cases h
    split_ifs with hsleep
    · refine Int.mul_le_mul_of_nonneg_right ?_ (by norm_num)
      simp only [ofInt_eq, const_eq] at hsleep ⊢
      push_cast at hsleep ⊢
      have hduration' : (0 : K) ≤ videoData.segmentDuration := Int.cast_nonneg hduration
      have htarget' : (0 : K) ≤ targetBuffer := Int.cast_nonneg htarget
      have htime : 0 ≤ rate * videoData.segmentDuration / 1000 / est := by positivity
      have htarget'' : (0 : K) ≤ targetBuffer / 1000 := by positivity
      refine trunc_le_of_le (by nlinarith) ?_
      calc ((bufferLevelMs : K) / 1000 - targetBuffer / 1000 -
            rate * videoData.segmentDuration / 1000 / est) * 1000
          ≤ (bufferLevelMs : K) / 1000 * 1000 := by linarith
        _ = bufferLevelMs := by field_simp
    · exact hzero
  · cases h
    exact hzero

theorem SftmAlgorithm.delay_le {data : ClientData} {bMax bMin : K}
    (hduration : 0 ≤ data.videoData.segmentDuration) (hmax : 0 < bMax) (hmin : 0 < bMin)
    (hlevel : 0 ≤ data.getBufferLevelMs) :
    delay data bMax bMin ≤ fromMilliseconds data.getBufferLevelMs := by
  unfold delay
  dsimp only
  split_ifs with hid
  · refine Int.mul_le_mul_of_nonneg_right ?_ (by norm_num)
    simp only [ofInt_eq, const_eq] at hid ⊢
    push_cast at hid ⊢
    have hduration' : (0 : K) ≤ data.videoData.segmentDuration := Int.cast_nonneg hduration
    have htime : 0 ≤ (data.videoData.segmentDuration : K) * bMax / bMin := by positivity
    exact trunc_le_of_le hid.le (by linarith)
  · exact mul_nonneg hlevel (by norm_num)

/-! ## The four algorithms -/

/-- The algorithms that wait by the level of the buffer. -/
inductive WaitingAlgorithm
  | festive (a : FestiveAlgorithm)
  | tobasco (a : TobascoAlgorithm)
  | fdash (a : FdashAlgorithm)
  | sftm (a : SftmAlgorithm)

namespace WaitingAlgorithm

/-- `GetNextQuality` of whichever of the three it is. -/
def getNextQuality (D : Type) [Add D] [Sub D] [Mul D] [Div D] [LT D] [LE D]
    [DecidableLT D] [DecidableLE D] [Double D] [SquareRoot D] (a : WaitingAlgorithm)
    (data : ClientData) (preQuality : ℤ) (segmentCount : ℕ) :
    Option (AlgorithmReply × WaitingAlgorithm) :=
  match a with
  | .festive a => (a.getNextQuality D data preQuality segmentCount).map (.map id .festive)
  | .tobasco a => (a.getNextQuality D data preQuality segmentCount).map (.map id .tobasco)
  | .fdash a => (a.getNextQuality D data preQuality segmentCount).map (.map id .fdash)
  | .sftm a => (a.getNextQuality D data preQuality segmentCount).map (.map id .sftm)

/-- The targets of the buffer make sense. -/
def WellFormed : WaitingAlgorithm → Prop
  | .festive a => a.delta ≤ a.targetBuffer
  | .fdash a => 0 ≤ a.targetBuffer
  | _ => True

/-- One of the segments predicted from took a millisecond, if there are any: `Predict` divides
    by what the squares of these times sum up to. -/
def Predictable (history : ThroughputData) : Prop :=
  history.transmissionStart ≠ [] → ∃ i ∈ window history kThroughputHorizon, ∃ start stop,
    history.transmissionStart[i]? = some start ∧ history.transmissionEnd[i]? = some stop ∧
      1000 ≤ stop - start

/-- TOBASCO waits for its target. -/
def WaitsForTarget (K : Type) [Field K] [LinearOrder K] [IsStrictOrderedRing K] [FloorRing K]
    [ExactDouble K] (a : WaitingAlgorithm) (data : ClientData) (preQuality : ℤ)
    (segmentCount : ℕ) : Prop :=
  match a with
  | .tobasco a => a.WaitsForTarget K data preQuality segmentCount
  | _ => False

/-- The wait is at most the buffered playtime, exactly if it is not the one of TOBASCO
    for its target. -/
theorem delay_le_buffer_iff [SquareRoot K] {a a' : WaitingAlgorithm} (ha : a.WellFormed)
    {data : ClientData} (hrates : ∀ rate ∈ data.videoData.averageBitrate, 0 < rate)
    (hduration : 0 ≤ data.videoData.segmentDuration) (hlevel : 0 ≤ data.getBufferLevelMs)
    (_hpredictable : Predictable data.throughput) {preQuality : ℤ} {segmentCount : ℕ}
    {reply : AlgorithmReply}
    (h : a.getNextQuality K data preQuality segmentCount = some (reply, a')) :
    reply.nextDownloadDelay ≤ fromMilliseconds data.getBufferLevelMs ↔
      ¬ a.WaitsForTarget K data preQuality segmentCount := by
  -- the first segment is asked for at once
  have hzero : 0 ≤ fromMilliseconds data.getBufferLevelMs := mul_nonneg hlevel (by norm_num)
  cases a with
  | festive a =>
    obtain ⟨⟨reply₁, a₁⟩, hreply, heq⟩ := Option.map_eq_some_iff.1 h
    cases heq
    clear h
    refine iff_of_true ?_ id
    rw [FestiveAlgorithm.getNextQuality] at hreply
    split_ifs at hreply
    · cases hreply
      exact hzero
    · simp only [Option.bind_eq_bind, Option.bind_eq_some_iff] at hreply
      obtain ⟨⟨quality, count⟩, -, hreply⟩ := hreply
      cases hreply
      exact FestiveAlgorithm.delay_le ha hlevel
  | tobasco a =>
    -- the only one of the four that can wait longer than what is buffered plays
    obtain ⟨⟨reply₁, a₁⟩, hreply, heq⟩ := Option.map_eq_some_iff.1 h
    cases heq
    clear h
    exact TobascoAlgorithm.delay_le_iff hduration hlevel hreply
  | fdash a =>
    obtain ⟨⟨reply₁, a₁⟩, hreply, heq⟩ := Option.map_eq_some_iff.1 h
    cases heq
    clear h
    refine iff_of_true ?_ id
    rw [FdashAlgorithm.getNextQuality] at hreply
    split_ifs at hreply
    · cases hreply
      exact hzero
    · simp only [Option.bind_eq_bind, Option.bind_eq_some_iff] at hreply
      obtain ⟨est, hest, candidate, -, quality, -, wait, hwait, hreply⟩ := hreply
      cases hreply
      exact FdashAlgorithm.delay_le ha (predict_nonneg hest) hduration hrates hlevel hwait
  | sftm a =>
    obtain ⟨⟨reply₁, a₁⟩, hreply, heq⟩ := Option.map_eq_some_iff.1 h
    cases heq
    clear h
    refine iff_of_true ?_ id
    rw [SftmAlgorithm.getNextQuality] at hreply
    split_ifs at hreply
    · cases hreply
      exact hzero
    · simp only [Option.bind_eq_bind, Option.bind_eq_some_iff] at hreply
      obtain ⟨sft, -, quality, -, bMax, hmax, bMin, hmin, hreply⟩ := hreply
      cases hreply
      exact SftmAlgorithm.delay_le hduration (VideoData.bitrate_pos hrates hmax)
        (VideoData.bitrate_pos hrates hmin) hlevel

/-- A client with one level that has buffered segments of two seconds, each downloaded
    in one. -/
def oneLevel (n : ℕ) : ClientData where
  videoData := ⟨[List.replicate 30 1000], [4000], 2000⟩
  throughput := {
    transmissionRequested := (List.range n).map fun i => 1000000 * (i : ℤ)
    transmissionStart := (List.range n).map fun i => 1000000 * (i : ℤ)
    transmissionEnd := (List.range n).map fun i => 1000000 * (i + 1 : ℤ)
    bytesReceived := List.replicate n 1000 }
  bufferData := {
    timeNow := (List.range n).map fun i => 1000000 * (i + 1 : ℤ)
    bufferLevelOld := (List.range n).map fun i => 2000 * (i : ℤ)
    bufferLevelNew := (List.range n).map fun i => 2000 * (i + 1 : ℤ) }
  historyQuality := List.replicate n 0

/-- With 36 seconds buffered, TOBASCO waits for 34. -/
theorem tobasco_waits_36_seconds : ∃ reply a',
    getNextQuality ℚ (.tobasco {}) (oneLevel 18) 0 18 = some (reply, a') ∧
      reply.nextDownloadDelay = 34000000 ∧
      reply.nextDownloadDelay ≤ fromMilliseconds (oneLevel 18).getBufferLevelMs := by
  obtain ⟨reply, a', h, hwait⟩ : ∃ reply a', getNextQuality ℚ (.tobasco {}) (oneLevel 18) 0 18 =
      some (reply, a') ∧ reply.nextDownloadDelay = 34000000 := ⟨_, _, rfl, rfl⟩
  have hpredictable : Predictable (oneLevel 18).throughput := fun _ =>
    ⟨17, by decide, 17000000, 18000000, rfl, rfl, by decide⟩
  refine ⟨reply, a', h, hwait, (delay_le_buffer_iff (a := .tobasco {}) trivial (by decide)
    (by decide) (by decide) hpredictable h).2 ?_⟩
  rintro ⟨-, est, currRate, rateUp, -, -, -, -, -, -, hlt⟩
  exact absurd hlt (by decide)

/-- With 24 seconds buffered, it waits for 30. -/
theorem tobasco_waits_24_seconds : ¬ ∀ reply a',
    getNextQuality ℚ (.tobasco {}) (oneLevel 12) 0 12 = some (reply, a') →
      reply.nextDownloadDelay ≤ fromMilliseconds (oneLevel 12).getBufferLevelMs := by
  intro h
  exact absurd (h _ _ rfl) (by decide)

end WaitingAlgorithm

end DashDim
