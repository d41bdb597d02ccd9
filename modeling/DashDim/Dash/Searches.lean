import DashDim.Dash.Playable
import DashDim.Dash.Gradual
import DashDim.Lib.Search

/-!
# What the searches find

Each algorithm looks for the highest level whose bitrate is small enough, and takes the
lowest level if there is none. The searches differ in where they begin and end, and in what
they have when nothing was found.

* PANDA does not look at the highest level (`findLargest_iff`);
* FDASH and SFTM keep the current level when nothing was found (`candidateLevel_iff`,
  `getNextQuality_down_iff`);
* RAAHS goes on below the lowest level, at the largest index there is
  (`switchDown_iff`).
-/

namespace DashDim

section

variable {D : Type} [Add D] [Sub D] [Mul D] [Div D] [LT D] [LE D]
  [DecidableLT D] [DecidableLE D] [Double D] {videoData : VideoData}

/-- The bitrate of a level is below this. -/
def VideoData.Below (videoData : VideoData) (x : D) (i : ℕ) : Prop :=
  ∃ rate, videoData.bitrate i = some rate ∧ rate < x

omit [Add D] [Sub D] [Mul D] [Div D] [LE D] [DecidableLT D] [DecidableLE D] in
theorem VideoData.below_iff {x rate : D} {i : ℕ} (h : videoData.bitrate i = some rate) :
    videoData.Below x i ↔ rate < x := by
  constructor
  · rintro ⟨rate', hrate, hlt⟩
    cases h.symm.trans hrate
    exact hlt
  · exact fun hlt => ⟨rate, h, hlt⟩

theorem VideoData.exists_bitrate (D : Type) [Double D] (videoData : VideoData) {i : ℕ}
    (h : i < videoData.averageBitrate.length) : ∃ rate : D, videoData.bitrate i = some rate := by
  rw [bitrate, readAt, if_neg (by omega), Int.toNat_natCast, List.getElem?_eq_getElem h]
  exact ⟨_, rfl⟩

/-! ## PANDA -/

namespace PandaAlgorithm

/-- The bitrate of a level, in Mbps, is small enough for this bandwidth. -/
def Fits (videoData : VideoData) (smoothBw delta : D) (i : ℕ) : Prop :=
  ∃ rate, videoData.bitrate i = some rate ∧ rate / const 1000000 ≤ smoothBw - delta

omit [Add D] [Mul D] [LT D] [DecidableLT D]

/-- The search is over all levels but the highest. -/
theorem findLargest_greatestOr (videoData : VideoData) (smoothBw delta : D) :
    ∃ l, findLargest videoData smoothBw delta = some l ∧
      GreatestOr (Fits videoData smoothBw delta) (videoData.averageBitrate.length - 1) 0 l := by
  -- each index of the loop has a bitrate, so the loop does not fail
  refine foldlM_greatestOr (fun i hi s => ?_) 0
  obtain ⟨rate, hrate⟩ := videoData.exists_bitrate D (i := i) (by omega)
  rw [hrate]
  by_cases hle : rate / const 1000000 ≤ smoothBw - delta
  · refine .inl ⟨?_, rate, hrate, hle⟩
    rw [Option.bind_eq_bind, Option.bind_some, if_pos hle]
  · refine .inr ⟨?_, ?_⟩
    · rw [Option.bind_eq_bind, Option.bind_some, if_neg hle]
    · rintro ⟨rate', hrate', hle'⟩
      cases hrate.symm.trans hrate'
      exact hle hle'

/-- It finds the highest level that fits, or the lowest, exactly if the highest of the ladder
    does not fit or is the only one. -/
theorem findLargest_iff (videoData : VideoData) (smoothBw delta : D)
    (hn : 1 ≤ videoData.averageBitrate.length) :
    ∃ l, findLargest videoData smoothBw delta = some l ∧
      (GreatestOr (Fits videoData smoothBw delta) videoData.averageBitrate.length 0 l ↔
        videoData.averageBitrate.length = 1 ∨
          ¬Fits videoData smoothBw delta (videoData.averageBitrate.length - 1)) := by
  obtain ⟨l, hl, hgreatest⟩ := findLargest_greatestOr videoData smoothBw delta
  refine ⟨l, hl, ?_⟩
  -- one level more than what the loop looks at
  have hiff := hgreatest.succ_iff
  rw [Nat.sub_add_cancel hn] at hiff
  rw [hiff, Nat.sub_eq_zero_iff_le]
  exact or_congr_left ⟨fun hle => le_antisymm hle hn, fun heq => heq.le⟩

/-- Levels of 1, 2 and 3 Mbps. -/
def threeMbps : VideoData := ⟨[[125000], [250000], [375000]], [1000000, 2000000, 3000000], 1000⟩

/-- At 3 Mbps or less the highest one does not fit, for the distance that is kept. -/
theorem findLargest_three_mbps : ∃ l, findLargest threeMbps (3 : ℚ) (3 / 10) = some l ∧
    GreatestOr (Fits threeMbps (3 : ℚ) (3 / 10)) 3 0 l := by
  obtain ⟨l, hl, hiff⟩ := findLargest_iff threeMbps (3 : ℚ) (3 / 10) (by decide)
  refine ⟨l, hl, hiff.2 (.inr ?_)⟩
  rintro ⟨rate, hrate, hle⟩
  cases hrate
  revert hle
  with_unfolding_all decide

/-- At 10 Mbps it fits, and is not found. -/
theorem findLargest_misses_top : findLargest threeMbps (10 : ℚ) (3 / 10) = some 1 ∧
    ¬GreatestOr (Fits threeMbps (10 : ℚ) (3 / 10)) 3 0 1 := by
  refine ⟨by with_unfolding_all decide, ?_⟩
  have htop : Fits threeMbps (10 : ℚ) (3 / 10) 2 := ⟨3000000, rfl, by with_unfolding_all decide⟩
  rintro (⟨i, hi, -, hmax, heq⟩ | ⟨hnone, -⟩)
  · exact hmax 2 (by omega) (by norm_num) htop
  · exact hnone 2 (by norm_num) htop

end PandaAlgorithm

/-! ## FDASH -/

namespace FdashAlgorithm

omit [Add D] [Sub D] [Mul D] [Div D] [LE D] [DecidableLE D]

theorem candidateLevel_greatestOr (videoData : VideoData) (result : D) (preQuality : ℤ) :
    ∃ l, candidateLevel videoData result preQuality = some l ∧
      GreatestOr (videoData.Below result) videoData.averageBitrate.length preQuality l := by
  have hlevels : ((do let i ← List.range videoData.averageBitrate.length; pure (i : ℤ)) : List ℤ) =
      (List.range videoData.averageBitrate.length).map Nat.cast := by
    rw [List.map_eq_flatMap]
    rfl
  rw [candidateLevel, hlevels, List.foldlM_map]
  refine foldlM_greatestOr (fun i hi s => ?_) preQuality
  obtain ⟨rate, hrate⟩ := videoData.exists_bitrate D hi
  rw [hrate, VideoData.below_iff hrate]
  by_cases hlt : rate < result
  · exact .inl ⟨by rw [Option.bind_eq_bind, Option.bind_some, if_pos hlt], hlt⟩
  · exact .inr ⟨by rw [Option.bind_eq_bind, Option.bind_some, if_neg hlt], hlt⟩

/-- The candidate is the highest level whose bitrate is below what is wanted, or the lowest,
    exactly if there is such a level or the current level is the lowest. -/
theorem candidateLevel_iff (videoData : VideoData) (result : D) (preQuality : ℤ) :
    ∃ l, candidateLevel videoData result preQuality = some l ∧
      (GreatestOr (videoData.Below result) videoData.averageBitrate.length 0 l ↔
        (∃ i < videoData.averageBitrate.length, videoData.Below result i) ∨ preQuality = 0) := by
  obtain ⟨l, hl, hgreatest⟩ := candidateLevel_greatestOr videoData result preQuality
  exact ⟨l, hl, hgreatest.default_iff⟩

/-- Two levels, of 100 and 200 bits per second. -/
def twoLevels : VideoData := ⟨[[13], [25]], [100, 200], 1000⟩

/-- Nothing is buffered, and the bandwidth is that of the lowest level: half of it is wanted,
    and the candidate is the highest one. -/
theorem candidateLevel_stays_high :
    candidateLevel twoLevels (output 20 0 0 * 100 : ℚ) 1 = some 1 ∧
      ¬GreatestOr (twoLevels.Below (output 20 0 0 * 100 : ℚ)) 2 0 1 := by
  have hhalf : (output 20 0 0 : ℚ) = 1 / 2 := by with_unfolding_all decide
  rw [hhalf]
  refine ⟨by with_unfolding_all decide, ?_⟩
  rintro (⟨i, hi, ⟨rate, hrate, hlt⟩, -, heq⟩ | ⟨-, heq⟩)
  · obtain rfl : i = 1 := by omega
    cases hrate
    revert hlt
    with_unfolding_all decide
  · exact absurd heq one_ne_zero

end FdashAlgorithm

/-! ## FESTIVE -/

namespace FestiveAlgorithm

/-- The bitrate of a level is at most this. -/
def AtMost (videoData : VideoData) (x : D) (i : ℕ) : Prop :=
  ∃ rate, videoData.bitrate i = some rate ∧ rate ≤ x

omit [Add D] [Sub D] [Mul D] [Div D] [LT D] [DecidableLT D] in
/-- The search is over all levels, from the top. -/
theorem targetLevel_greatestOr (videoData : VideoData) (x : D) {i : ℕ}
    (hi : i ≤ videoData.averageBitrate.length)
    (bTarget : ℤ) : ∃ l, targetLevel videoData x i bTarget = some l ∧
      GreatestOr (AtMost videoData x) i (if i = 0 then bTarget else 0) l := by
  induction i generalizing bTarget with
  | zero => exact ⟨bTarget, rfl, .zero _ _⟩
  | succ i ih =>
    obtain ⟨rate, hrate⟩ := videoData.exists_bitrate D hi
    rw [targetLevel, hrate, Option.bind_eq_bind, Option.bind_some, if_neg (Nat.succ_ne_zero i)]
    split_ifs with hle
    · exact ⟨i, rfl, .succ_of_pos ⟨rate, hrate, hle⟩ 0⟩
    · -- too high: what it has now is this level, and at the end that is the lowest
      obtain ⟨l, hl, hgreatest⟩ := ih (by omega) (i : ℤ)
      have hdefault : (if i = 0 then (i : ℤ) else 0) = 0 := by
        split_ifs with hzero
        · rw [hzero, Nat.cast_zero]
        · rfl
      rw [hdefault] at hgreatest
      refine ⟨l, hl, hgreatest.succ_of_neg ?_⟩
      rintro ⟨rate', hrate', hle'⟩
      cases hrate.symm.trans hrate'
      exact hle hle'

theorem countChanges_isSome {historyQuality : List ℤ} {is : List ℕ}
    (his : ∀ i ∈ is, i + 1 < historyQuality.length) (n : ℕ) :
    ∃ n', countChanges historyQuality is n = some n' := by
  induction is generalizing n with
  | nil => exact ⟨n, rfl⟩
  | cons i is ih =>
    have hi := his i List.mem_cons_self
    rw [countChanges, List.getElem?_eq_getElem (by omega), List.getElem?_eq_getElem hi]
    exact ih (fun j hj => his j (List.mem_cons_of_mem i hj)) _

omit [LE D] [DecidableLE D] in
/-- The scores of two levels read the history and the ladder where there are values. -/
theorem calculateCombineScore_isSome (a : FestiveAlgorithm) {b bRef : ℤ}
    (hb : videoData.InLadder b) (hbRef : videoData.InLadder bRef) (bCur : ℤ)
    (predictBandwidth : D) (historyQuality : List ℤ) :
    ∃ score, a.calculateCombineScore videoData b bRef bCur predictBandwidth historyQuality =
      some score := by
  obtain ⟨rate, hrate⟩ := hb.exists_bitrate (D := D)
  obtain ⟨rateRef, hrateRef⟩ := hbRef.exists_bitrate (D := D)
  have hindices : ∀ i ∈ List.range' ((historyQuality.length : ℤ) - a.horizon).toNat
      (historyQuality.length - 1 - ((historyQuality.length : ℤ) - a.horizon).toNat),
      i + 1 < historyQuality.length := by
    intro i hi
    rw [List.mem_range'_1] at hi
    omega
  obtain ⟨n, hn⟩ := countChanges_isSome hindices 0
  rw [calculateCombineScore, calculateStabilityScore, calculateEfficiencyScore, hrate, hrateRef]
  simp only [hn, Option.bind_eq_bind, Option.bind_some]
  exact ⟨_, rfl⟩

/-- The level of reference is next to the current one, if the threshold of this one is in its
    table. -/
theorem referenceLevel_near (a : FestiveAlgorithm) {bTarget bCur : ℤ} (htarget : 0 ≤ bTarget)
    (hcur : 0 ≤ bCur) (hthreshold : bTarget > bCur → bCur < 10) :
    ∃ bRef count, a.referenceLevel bTarget bCur = some (bRef, count) ∧ 0 ≤ bRef ∧
      bCur - 1 ≤ bRef ∧ bRef ≤ bCur + 1 := by
  rw [referenceLevel]
  split_ifs with hup hdown
  · have hlt := hthreshold hup
    have hlen : bCur.toNat < kSwitchUpThreshold.length := by
      rw [show kSwitchUpThreshold.length = 10 from rfl]
      omega
    have hread : readAt kSwitchUpThreshold bCur = some kSwitchUpThreshold[bCur.toNat] := by
      rw [readAt, if_neg (by omega)]
      exact List.getElem?_eq_getElem hlen
    rw [hread, Option.bind_eq_bind, Option.bind_some]
    refine ⟨_, _, rfl, ?_⟩
    split_ifs <;> omega
  · exact ⟨bCur - 1, 0, rfl, by omega, le_rfl, by omega⟩
  · exact ⟨bCur, 0, rfl, hcur, by omega, by omega⟩

/-- A call replies the current level or one next to it, if the level of reference has a
    threshold. -/
theorem nextLevel_near (a : FestiveAlgorithm) {data : ClientData} {pre : ℕ} {bandwidth : D}
    (hpre : pre < data.videoData.averageBitrate.length)
    (hbandwidth : predict data.throughput kThroughputHorizon = some bandwidth)
    (hthreshold : pre < 10 ∨ ∀ i, pre < i →
      ¬AtMost data.videoData (const kBandwidthScale * bandwidth) i) :
    ∃ level count, a.nextLevel D data pre = some (level, count) ∧
      data.videoData.InLadder level ∧ |level - pre| ≤ 1 := by
  have hcur : data.videoData.InLadder pre := VideoData.inLadder_natCast hpre
  obtain ⟨bTarget, htarget, hgreatest⟩ := targetLevel_greatestOr data.videoData
    (const kBandwidthScale * bandwidth) le_rfl 0
  rw [ite_self] at hgreatest
  have hnonneg : 0 ≤ bTarget := by
    rcases hgreatest with ⟨i, -, -, -, rfl⟩ | ⟨-, rfl⟩ <;> omega
  -- it goes up only if there is a reason to, and then the threshold is in its table
  have hlt : bTarget > pre → (pre : ℤ) < 10 := by
    intro hup
    obtain ⟨i, -, hi, hmost⟩ := (hgreatest.lt_iff (k := pre) (by omega)).1 hup
    rcases hthreshold with hten | hnone
    · exact_mod_cast hten
    · exact absurd hmost (hnone i hi)
  obtain ⟨bRef, count, href, hzero, hlow, hhigh⟩ :=
    a.referenceLevel_near hnonneg (by omega : (0 : ℤ) ≤ pre) hlt
  rw [nextLevel, hbandwidth]
  simp only [Option.bind_eq_bind, Option.bind_some, affordableLevel, htarget, href]
  -- the level of reference, within the ladder
  generalize hclamp : (if (if bRef > data.videoData.ratesSize - 1 then
    data.videoData.ratesSize - 1 else bRef) < 0 then 0 else if bRef >
      data.videoData.ratesSize - 1 then data.videoData.ratesSize - 1 else bRef) = level
  have hlevel : data.videoData.InLadder level ∧ |level - pre| ≤ 1 := by
    have htop := hcur.2
    rw [VideoData.InLadder, abs_le]
    split_ifs at hclamp <;> omega
  have hstay : data.videoData.InLadder pre ∧ |(pre : ℤ) - pre| ≤ 1 := by
    refine ⟨hcur, ?_⟩
    rw [sub_self, abs_zero]
    exact zero_le_one
  by_cases hne : level ≠ pre
  · -- the scores decide between the two levels
    obtain ⟨scoreCur, hscoreCur⟩ := a.calculateCombineScore_isSome hcur hlevel.1 pre bandwidth
      data.historyQuality
    obtain ⟨scoreRef, hscoreRef⟩ := a.calculateCombineScore_isSome hlevel.1 hlevel.1 pre
      bandwidth data.historyQuality
    rw [if_pos hne, hscoreCur, hscoreRef]
    simp only [Option.bind_some]
    split_ifs
    · exact ⟨_, _, rfl, hstay⟩
    · exact ⟨_, _, rfl, hlevel⟩
    · exact ⟨_, _, rfl, hlevel⟩
  · rw [if_neg hne]
    exact ⟨_, _, rfl, hstay⟩

/-- Above the table of the thresholds, a call that wants to go up reads outside of it. -/
theorem nextLevel_fails (a : FestiveAlgorithm) {data : ClientData} {pre : ℕ} {bandwidth : D}
    (hbandwidth : predict data.throughput kThroughputHorizon = some bandwidth) (hten : 10 ≤ pre)
    {i : ℕ} (hi : pre < i)
    (hmost : AtMost data.videoData (const kBandwidthScale * bandwidth) i) :
    a.nextLevel D data pre = none := by
  obtain ⟨bTarget, htarget, hgreatest⟩ := targetLevel_greatestOr data.videoData
    (const kBandwidthScale * bandwidth) le_rfl 0
  rw [ite_self] at hgreatest
  have hlen : i < data.videoData.averageBitrate.length := by
    obtain ⟨rate, hrate, -⟩ := hmost
    obtain ⟨q, hread, -⟩ := Option.map_eq_some_iff.1 hrate
    rw [readAt, if_neg (by omega), Int.toNat_natCast] at hread
    exact (List.getElem?_eq_some_iff.1 hread).1
  have hup := (hgreatest.lt_iff (k := pre) (by omega)).2 ⟨i, hlen, hi, hmost⟩
  have hread : readAt kSwitchUpThreshold pre = none := by
    rw [readAt, if_neg (by omega), Int.toNat_natCast]
    exact List.getElem?_eq_none hten
  rw [nextLevel, hbandwidth]
  simp only [Option.bind_eq_bind, Option.bind_some, affordableLevel, htarget]
  rw [referenceLevel, if_pos hup, hread]
  rfl

/-- The reply is a level of the ladder that is the current one or next to it, and all reads are
    within the tables, exactly if the current level has a threshold or there is no reason to
    go up; before the first segment the reply is the lowest level. -/
theorem getNextQuality_near_iff (a : FestiveAlgorithm) {data : ClientData} {pre : ℕ}
    {bandwidth : D} (hpre : pre < data.videoData.averageBitrate.length)
    (hbandwidth : predict data.throughput kThroughputHorizon = some bandwidth)
    (segmentCount : ℕ) :
    (∃ reply a', a.getNextQuality D data pre segmentCount = some (reply, a') ∧
      data.videoData.InLadder reply.nextQuality ∧ |reply.nextQuality - pre| ≤ 1) ↔
      if segmentCount = 0 then pre ≤ 1
      else pre < 10 ∨ ∀ i, pre < i →
        ¬AtMost data.videoData (const kBandwidthScale * bandwidth) i := by
  rw [getNextQuality]
  split_ifs with hcount
  · constructor
    · rintro ⟨reply, a', heq, -, hnear⟩
      cases heq
      rw [abs_le] at hnear
      dsimp only at hnear
      omega
    · intro hle
      refine ⟨_, _, rfl, VideoData.inLadder_zero (by omega), ?_⟩
      rw [abs_le]
      dsimp only
      omega
  · constructor
    · rintro ⟨reply, a', heq, -⟩
      by_contra hcond
      push Not at hcond
      obtain ⟨hten, i, hi, hmost⟩ := hcond
      rw [nextLevel_fails a hbandwidth hten hi hmost] at heq
      cases heq
    · intro hcond
      obtain ⟨level, count, hlevel, hnear⟩ := a.nextLevel_near hpre hbandwidth hcond
      rw [hlevel]
      exact ⟨_, _, rfl, hnear⟩

/-- Twelve levels, and a throughput that is enough for each. -/
def twelveLevels : ClientData where
  videoData := ⟨[], [1, 2, 3, 4, 5, 6, 7, 8, 9, 10, 11, 12], 1000⟩
  throughput := threeLevels.throughput

theorem getNextQuality_near_zero : ∃ reply a',
    (FestiveAlgorithm.new 20000 5 0 fun _ => 0).getNextQuality ℚ twelveLevels (0 : ℕ) 1 =
        some (reply, a') ∧
      twelveLevels.videoData.InLadder reply.nextQuality ∧ |reply.nextQuality - (0 : ℕ)| ≤ 1 :=
  have hbandwidth : predict twelveLevels.throughput kThroughputHorizon = some (80000 : ℚ) := by
    with_unfolding_all decide
  (getNextQuality_near_iff _ (by decide) hbandwidth 1).2 (.inl (by decide))

/-- At the eleventh level, the threshold that it reads is not there. -/
theorem getNextQuality_eleventh :
    ((FestiveAlgorithm.new 20000 5 0 fun _ => 0).getNextQuality ℚ twelveLevels 10 1).isNone ∧
      (predict twelveLevels.throughput kThroughputHorizon : Option ℚ) = some 80000 := by
  with_unfolding_all decide

end FestiveAlgorithm

end

/-! ## Ladders that go up -/

/-- The bitrates are positive, and each is above the one before it. -/
structure VideoData.Increasing (videoData : VideoData) : Prop where
  positive : ∀ rate ∈ videoData.averageBitrate, 0 < rate
  sorted : videoData.averageBitrate.Pairwise (· < ·)

section

variable {K : Type} [Field K] [LinearOrder K] [IsStrictOrderedRing K] [FloorRing K]
  [ExactDouble K] {videoData : VideoData}

/-- The bitrate of a level is in the table. -/
theorem VideoData.bitrate_eq_some {i : ℤ} {rate : K} (h : videoData.bitrate i = some rate) :
    ∃ k : ℕ, i = k ∧ ∃ q, videoData.averageBitrate[k]? = some q ∧ rate = q := by
  obtain ⟨q, hread, rfl⟩ := Option.map_eq_some_iff.1 h
  rw [readAt] at hread
  split_ifs at hread
  exact ⟨i.toNat, by omega, q, hread, ExactDouble.ofRat_eq q⟩

theorem VideoData.lt_length_of_bitrate {i : ℕ} {rate : K}
    (h : videoData.bitrate i = some rate) : i < videoData.averageBitrate.length := by
  obtain ⟨k, hk, q, hq, -⟩ := VideoData.bitrate_eq_some h
  have hlt := (List.getElem?_eq_some_iff.1 hq).1
  omega

theorem VideoData.Increasing.bitrate_pos (h : videoData.Increasing) {i : ℤ} {rate : K}
    (hrate : videoData.bitrate i = some rate) : 0 < rate := by
  obtain ⟨k, -, q, hk, rfl⟩ := VideoData.bitrate_eq_some hrate
  exact Rat.cast_pos.2 (h.positive q (List.mem_of_getElem? hk))

theorem VideoData.Increasing.bitrate_lt (h : videoData.Increasing) {i j : ℤ} {rate rate' : K}
    (hrate : videoData.bitrate i = some rate) (hrate' : videoData.bitrate j = some rate')
    (hlt : i < j) : rate < rate' := by
  obtain ⟨k, rfl, q, hk, rfl⟩ := VideoData.bitrate_eq_some hrate
  obtain ⟨k', rfl, q', hk', rfl⟩ := VideoData.bitrate_eq_some hrate'
  obtain ⟨hlen, rfl⟩ := List.getElem?_eq_some_iff.1 hk
  obtain ⟨hlen', rfl⟩ := List.getElem?_eq_some_iff.1 hk'
  exact Rat.cast_lt.2 (List.pairwise_iff_getElem.1 h.sorted k k' hlen hlen' (by omega))

theorem VideoData.Increasing.bitrate_le (h : videoData.Increasing) {i j : ℤ} {rate rate' : K}
    (hrate : videoData.bitrate i = some rate) (hrate' : videoData.bitrate j = some rate')
    (hle : i ≤ j) : rate ≤ rate' := by
  rcases hle.lt_or_eq with hlt | rfl
  · exact (h.bitrate_lt hrate hrate' hlt).le
  · cases hrate.symm.trans hrate'
    exact le_rfl

/-- A segment is complete, if one took some time. -/
theorem transmissionEnd_pos {history : ThroughputData} {ms : ℤ}
    (h : lastDownloadTime history = some ms) : history.transmissionEnd.length > 0 := by
  refine List.length_pos_iff.2 fun hnil => ?_
  rw [lastDownloadTime, hnil] at h
  cases hstart : history.transmissionStart.getLast? <;> rw [hstart] at h <;> cases h

/-- A level below one that is low enough is low enough. -/
theorem VideoData.Increasing.below (h : videoData.Increasing) {x : K} {i j : ℕ} (hle : i ≤ j)
    (hj : videoData.Below x j) : videoData.Below x i := by
  obtain ⟨rate', hrate', hlt⟩ := hj
  obtain ⟨rate, hrate⟩ :=
    videoData.exists_bitrate K (hle.trans_lt (VideoData.lt_length_of_bitrate hrate'))
  exact ⟨rate, hrate, (h.bitrate_le hrate hrate' (by omega)).trans_lt hlt⟩

/-! ## SFTM -/

namespace SftmAlgorithm

theorem largestStepUp_nonneg : ∃ e : K, largestStepUp videoData = some e ∧ 0 ≤ e := by
  refine exists_foldlM (P := fun e : K => 0 ≤ e) (fun i hi emax hemax => ?_)
    (by rw [const_eq, Rat.cast_zero])
  rw [List.mem_range] at hi
  have hlow : videoData.InLadder i := VideoData.inLadder_natCast (by omega)
  have hhigh : videoData.InLadder ((i + 1 : ℕ) : ℤ) := VideoData.inLadder_natCast (by omega)
  obtain ⟨e, he⟩ := relativeStep_isSome (D := K) hhigh hlow hlow
  rw [Nat.cast_succ] at he
  rw [he]
  refine ⟨_, rfl, ?_⟩
  rw [maxOf]
  split_ifs with hgt
  · exact hemax.trans hgt.le
  · exact hemax

/-- The step between two levels. -/
theorem relativeStep_pos (h : videoData.Increasing) {high low base : ℤ} {e : K}
    (he : relativeStep videoData high low base = some e) (hlt : low < high) : 0 < e := by
  simp only [relativeStep, Option.bind_eq_bind, Option.bind_eq_some_iff] at he
  obtain ⟨rateHigh, hhigh, rateLow, hlow, rateBase, hbase, heq⟩ := he
  cases heq
  exact div_pos (sub_pos.2 (h.bitrate_lt hlow hhigh hlt)) (h.bitrate_pos hbase)

/-- The search goes up to the first level that is too high, and so finds the last that is
    not. -/
theorem switchDown_greatestOr (h : videoData.Increasing) {wanted : K} {k m : ℕ}
    (hm : k + m ≤ videoData.averageBitrate.length) {quality d : ℤ}
    (hquality : GreatestOr (videoData.Below wanted) k d quality) :
    ∃ l, switchDown videoData wanted (List.range' k m) quality = some l ∧
      GreatestOr (videoData.Below wanted) (k + m) d l := by
  induction m generalizing k quality with
  | zero => exact ⟨quality, rfl, hquality⟩
  | succ m ih =>
    obtain ⟨rate, hrate⟩ := videoData.exists_bitrate K (i := k) (by omega)
    rw [List.range'_succ, switchDown, hrate, Option.bind_eq_bind, Option.bind_some]
    split_ifs with hhigh
    · -- the levels above this one are too high as well
      refine ⟨quality, rfl, hquality.extend (Nat.le_add_right k _) fun j hle _ hbelow => ?_⟩
      exact absurd ((VideoData.below_iff hrate).1 (h.below hle hbelow)) (not_lt.2 hhigh)
    · have hnext : GreatestOr (videoData.Below wanted) (k + 1) d k :=
        .succ_of_pos ((VideoData.below_iff hrate).2 (not_le.1 hhigh)) d
      have hsum : k + 1 + m = k + (m + 1) := by omega
      rw [← hsum]
      exact ih (by omega) hnext

/-- What is left of the time to fetch a segment, relative to what the last one took. It is a
    ratio only if the last one took some time. -/
def timeRatio (D : Type) [Add D] [Sub D] [Mul D] [Div D] [LT D] [LE D]
    [DecidableLT D] [DecidableLE D] [Double D] (a : SftmAlgorithm) (data : ClientData)
    (segmentCount : ℕ) (sft : ℤ) : D :=
  minOf (ofInt data.videoData.segmentDuration) (a.fetchTime (D := D) data segmentCount).1 /
    ofInt sft

/-- The ratio is so low that the level is left downwards. -/
def SwitchesDown (videoData : VideoData) (sftm : K) (rateInd : ℤ) : Prop :=
  ∃ ecD eminD, relativeStep videoData rateInd (rateInd - 1) rateInd = some ecD ∧
    smallestStepDown videoData = some eminD ∧
    sftm < const 1 - maxOf (const 2 * eminD) ecD

/-- Then the search is over the levels below, and has the current level if it finds none. -/
theorem nextLevel_down (h : videoData.Increasing) {sftm rate : K} {c : ℕ} (hc : 0 < c)
    (hrate : videoData.bitrate c = some rate) (hdown : SwitchesDown videoData sftm c) :
    ∃ l, nextLevel videoData sftm c = some l ∧
      GreatestOr (videoData.Below (sftm * rate)) c c l := by
  obtain ⟨ecD, eminD, hecD, heminD, hlt⟩ := hdown
  have hlen := VideoData.lt_length_of_bitrate hrate
  have hlevel : videoData.InLadder c := VideoData.inLadder_natCast hlen
  obtain ⟨⟨ecU, hecU⟩, -⟩ := currentSteps_isSome (D := K) hlevel
  obtain ⟨emaxU, hemaxU, hnonneg⟩ : ∃ e : K, largestStepUp videoData = some e ∧ 0 ≤ e :=
    largestStepUp_nonneg
  have hposD := relativeStep_pos h hecD (by omega)
  have hltone : sftm < const 1 := by
    refine hlt.trans_le (sub_le_self _ ?_)
    rw [maxOf]
    split_ifs with hgt
    · exact hposD.le
    · exact hposD.le.trans (not_lt.1 hgt)
  -- the steps up are not negative, so that it does not switch up
  have hup : ¬(sftm > const 1 + minOf emaxU (const 2 * ecU) ∧
      (c : ℤ) < videoData.ratesSize - 1) := by
    rintro ⟨hgt, htop⟩
    rw [if_pos htop] at hecU
    have hposU := relativeStep_pos h hecU (by omega)
    have hmin : (0 : K) ≤ minOf emaxU (const 2 * ecU) := by
      rw [minOf, const_eq]
      split_ifs
      · have htwo : (0 : K) ≤ (2 : ℚ) := by norm_num
        exact mul_nonneg htwo hposU.le
      · exact hnonneg
    linarith
  rw [nextLevel_eq, hecU, hemaxU, if_pos (by omega), hecD, heminD, hrate]
  simp only [Option.bind_some]
  rw [if_neg hup, if_pos ⟨hlt, by omega⟩, Int.toNat_natCast, List.range_eq_range']
  obtain ⟨l, hl, hgreatest⟩ := switchDown_greatestOr h (k := 0) (m := c) (by omega)
    (GreatestOr.zero (videoData.Below (sftm * rate)) c)
  rw [Nat.zero_add] at hgreatest
  exact ⟨l, hl, hgreatest⟩

/-- After a segment that took some time: the level it switches down to is the highest one
    below whose bitrate is small enough, or the lowest, exactly if the lowest bitrate is small
    enough. -/
theorem getNextQuality_down_iff (a : SftmAlgorithm) {data : ClientData} {c segmentCount : ℕ}
    {sft : ℤ} {rate lowest : K} (h : data.videoData.Increasing) (hc : 0 < c)
    (hrate : data.videoData.bitrate c = some rate)
    (hlowest : data.videoData.bitrate 0 = some lowest) (hcount : segmentCount ≠ 0)
    (hsft : lastDownloadTime data.throughput = some sft) (_hpos : 0 < sft)
    (hdown : SwitchesDown data.videoData (a.timeRatio K data segmentCount sft) c) :
    ∃ reply a', a.getNextQuality K data c segmentCount = some (reply, a') ∧
      (GreatestOr (data.videoData.Below (a.timeRatio K data segmentCount sft * rate)) c 0
          reply.nextQuality ∧ reply.nextQuality < c ↔
        lowest < a.timeRatio K data segmentCount sft * rate) := by
  obtain ⟨l, hl, hgreatest⟩ := nextLevel_down h hc hrate hdown
  have hlen := VideoData.lt_length_of_bitrate hrate
  have htop : data.videoData.InLadder (data.videoData.ratesSize - 1) := by
    rw [VideoData.InLadder, VideoData.ratesSize]
    omega
  obtain ⟨bMax, hmax⟩ := htop.exists_bitrate (D := K)
  rw [getNextQuality, if_neg hcount]
  simp only [timeRatio] at hl hgreatest ⊢
  simp only [hsft, hmax, hlowest, hl, Option.bind_eq_bind, Option.bind_some]
  refine ⟨_, _, rfl, ?_⟩
  dsimp only
  constructor
  · -- a level was found below, so that the lowest, which is below it, fits too
    rintro ⟨hzero, -⟩
    rcases hgreatest.default_iff.1 hzero with ⟨i, hi, hbelow⟩ | heq
    · exact (VideoData.below_iff hlowest).1 (h.below (Nat.zero_le i) hbelow)
    · omega
  · intro hlt
    have hfound := (VideoData.below_iff (i := 0) hlowest).2 hlt
    have hzero := (hgreatest.default_iff (e := 0)).2 (.inl ⟨0, hc, hfound⟩)
    refine ⟨hzero, ?_⟩
    rcases hzero with ⟨i, hi, -, -, heq⟩ | ⟨hnone, -⟩
    · omega
    · exact absurd hfound (hnone 0 hc)

/-- Three levels, the lower two close to each other. -/
def closeLevels : VideoData := ⟨[[125], [138], [250]], [1000, 1100, 2000], 1000⟩

theorem increasing_closeLevels : closeLevels.Increasing := ⟨by decide, by decide⟩

/-- One segment is complete, and took so long. -/
def slowSegment (duration : Time) : ClientData where
  videoData := closeLevels
  throughput := {
    transmissionRequested := [0]
    transmissionStart := [0]
    transmissionEnd := [duration]
    bytesReceived := [250] }

theorem switchesDown_slowSegment (duration : Time) (sft : ℤ)
    (h : (({} : SftmAlgorithm).timeRatio ℚ (slowSegment duration) 1 sft) < 11 / 20) :
    SwitchesDown closeLevels (({} : SftmAlgorithm).timeRatio ℚ (slowSegment duration) 1 sft)
      (2 : ℕ) := by
  have hstep :
      relativeStep closeLevels ((2 : ℕ) : ℤ) ((2 : ℕ) - 1) (2 : ℕ) = some (9 / 20 : ℚ) := by
    with_unfolding_all decide
  have hmin : smallestStepDown closeLevels = some (1 / 11 : ℚ) := by decide +kernel
  have hbound : const 1 - maxOf (const 2 * (1 / 11)) (9 / 20) = (11 / 20 : ℚ) := by
    with_unfolding_all decide
  exact ⟨_, _, hstep, hmin, hbound ▸ h⟩

/-- It took 1.4 seconds: the lowest level is still small enough. -/
theorem getNextQuality_down_slow : ∃ reply a',
    ({} : SftmAlgorithm).getNextQuality ℚ (slowSegment 1400000) (2 : ℕ) 1 = some (reply, a') ∧
      (GreatestOr ((slowSegment 1400000).videoData.Below
          (({} : SftmAlgorithm).timeRatio ℚ (slowSegment 1400000) 1 1400 * 2000)) 2 0
          reply.nextQuality ∧ reply.nextQuality < (2 : ℕ) ↔
        1000 < ({} : SftmAlgorithm).timeRatio ℚ (slowSegment 1400000) 1 1400 * 2000) :=
  getNextQuality_down_iff {} increasing_closeLevels (by decide) rfl rfl (by decide) rfl
    (by decide) (switchesDown_slowSegment 1400000 1400 (by with_unfolding_all decide))

/-- It took two seconds: it is to switch down, and stays at the highest level. -/
theorem getNextQuality_down_stays :
    SwitchesDown closeLevels (({} : SftmAlgorithm).timeRatio ℚ (slowSegment 2000000) 1 2000)
      (2 : ℕ) ∧
    (({} : SftmAlgorithm).getNextQuality ℚ (slowSegment 2000000) 2 1).map
      (fun p => p.1.nextQuality) = some 2 ∧
    ¬GreatestOr (closeLevels.Below
      (({} : SftmAlgorithm).timeRatio ℚ (slowSegment 2000000) 1 2000 * 2000)) 2 0 2 := by
  refine ⟨switchesDown_slowSegment 2000000 2000 (by with_unfolding_all decide), by decide +kernel,
    ?_⟩
  rintro (⟨i, hi, -, -, heq⟩ | ⟨-, heq⟩)
  · omega
  · exact absurd heq two_ne_zero

end SftmAlgorithm

/-! ## OSMP -/

namespace OsmpAlgorithm

/-- The bitrate of a level is at most that of another one, times a ratio. -/
def Sustains (videoData : VideoData) (r : K) (l l' : ℕ) : Prop :=
  ∃ rate rate', videoData.bitrate l = some rate ∧ videoData.bitrate l' = some rate' ∧
    rate' ≤ r * rate

theorem sustains_iff {r rate rate' : K} {l l' : ℕ} (hrate : videoData.bitrate l = some rate)
    (hrate' : videoData.bitrate l' = some rate') :
    Sustains videoData r l l' ↔ rate' ≤ r * rate := by
  constructor
  · rintro ⟨x, x', hx, hx', hle⟩
    cases hrate.symm.trans hx
    cases hrate'.symm.trans hx'
    exact hle
  · exact fun hle => ⟨rate, rate', hrate, hrate', hle⟩

/-- The level moves as the ratio says: down if a segment took longer than it plays, and else
    up, but only to a level that this ratio sustains. -/
def Follows (videoData : VideoData) (r : K) (l l' : ℕ) : Prop :=
  (r < 1 → l' ≤ l) ∧ (1 ≤ r → l ≤ l' ∧ Sustains videoData r l l')

/-- Going up ends at the top, or where the next level is too much. Each level on the way was
    not too much for the one before. -/
theorem goUp_eq (videoData : VideoData) (r : K) {rate : K} (hpos : 0 < rate) (rounds : ℕ) {k : ℕ}
    (hlt : k + 1 < videoData.averageBitrate.length)
    (hrounds : videoData.averageBitrate.length ≤ k + 1 + rounds) :
    ∃ l' : ℕ, goUp videoData r rate (videoData.ratesSize - 1) rounds k = some (l' : ℤ) ∧
      k < l' ∧ l' < videoData.averageBitrate.length ∧
      (l' + 1 = videoData.averageBitrate.length ∨
        ∃ next, videoData.bitrate ((l' : ℤ) + 1) = some next ∧ r * rate < next) ∧
      (l' = k + 1 ∨ ∃ rate', videoData.bitrate l' = some rate' ∧ rate' ≤ r * rate) := by
  induction rounds generalizing k with
  | zero => omega
  | succ rounds ih =>
    rw [goUp]
    split_ifs with htop
    · rw [VideoData.ratesSize] at htop
      exact ⟨k + 1, by rw [Nat.cast_succ], Nat.lt_succ_self k, hlt, .inl (by omega), .inl rfl⟩
    · rw [VideoData.ratesSize] at htop
      have hlevel : videoData.InLadder ((k + 1 + 1 : ℕ) : ℤ) :=
        VideoData.inLadder_natCast (by omega)
      obtain ⟨next, hnext⟩ := hlevel.exists_bitrate (D := K)
      have hcast : ((k + 1 + 1 : ℕ) : ℤ) = (k : ℤ) + 1 + 1 := by push_cast; rfl
      rw [hcast] at hnext
      rw [hnext, Option.bind_eq_bind, Option.bind_some]
      split_ifs with hmuch
      · refine ⟨k + 1, by rw [Nat.cast_succ], Nat.lt_succ_self k, hlt, .inr ⟨next, ?_, ?_⟩,
          .inl rfl⟩
        · rw [Nat.cast_succ, hnext]
        · exact (lt_div_iff₀ hpos).1 hmuch
      · -- the next one is not too much, which is what is said of it if the way ends there
        obtain ⟨l', hl', hgt, hlen, hstop, hway⟩ := ih (k := k + 1) (by omega) (by omega)
        rw [Nat.cast_succ] at hl'
        refine ⟨l', hl', by omega, hlen, hstop, .inr ?_⟩
        rcases hway with rfl | hway
        · refine ⟨next, ?_, (div_le_iff₀ hpos).1 (not_lt.1 hmuch)⟩
          rw [hcast, hnext]
        · exact hway

/-- Above the lowest level, and when a segment took no longer than it plays, it does go up. -/
theorem goesUp_eq (h : videoData.Increasing) {r : K} (hr : 1 ≤ r) {l : ℕ}
    (hl : l < videoData.averageBitrate.length) : goesUp videoData r l = some true := by
  rw [goesUp]
  split_ifs with hzero
  · rfl
  · have hlevel : videoData.InLadder l := VideoData.inLadder_natCast hl
    have hbelow : videoData.InLadder ((l : ℤ) - 1) := ⟨by omega, by have := hlevel.2; omega⟩
    obtain ⟨rate, hrate⟩ := hlevel.exists_bitrate (D := K)
    obtain ⟨rateBelow, hrateBelow⟩ := hbelow.exists_bitrate (D := K)
    have hratio : const 1 * rateBelow / rate < r := by
      rw [const_eq, Rat.cast_one, one_mul]
      refine lt_of_lt_of_le ?_ hr
      rw [div_lt_one (h.bitrate_pos hrate)]
      exact h.bitrate_lt hrateBelow hrate (by omega)
    rw [ratioBelow, hrateBelow, hrate]
    exact congrArg some (decide_eq_true hratio)

theorem sustains_self (h : videoData.Increasing) {r : K} (hr : 1 ≤ r) {l : ℕ}
    (hl : l < videoData.averageBitrate.length) : Sustains videoData r l l := by
  obtain ⟨rate, hrate⟩ := videoData.exists_bitrate K hl
  exact ⟨rate, rate, hrate, hrate, le_mul_of_one_le_left (h.bitrate_pos hrate).le hr⟩

/-- Below the top, it goes up to a level that is not below the current one. From any level but
    the lowest this level is sustained, and from the lowest if the next one is. -/
theorem nextLevel_up (h : videoData.Increasing) {r : K} (hr : 1 ≤ r) {l : ℕ}
    (hl : l + 1 < videoData.averageBitrate.length) :
    ∃ l' : ℕ, nextLevel videoData r l = some (l' : ℤ) ∧
      l' < videoData.averageBitrate.length ∧ l ≤ l' ∧
      (Sustains videoData r l l' ↔ (l = 0 → Sustains videoData r 0 1)) := by
  obtain ⟨rate, hrate⟩ := videoData.exists_bitrate K (i := l) (by omega)
  have hpos := h.bitrate_pos hrate
  have hone : ¬r < const 1 := by
    rw [const_eq, Rat.cast_one]
    exact not_lt.2 hr
  have htop : (l : ℤ) < videoData.ratesSize - 1 := by
    rw [VideoData.ratesSize]
    omega
  obtain ⟨l', hl', hgt, hlen, hstop, hway⟩ := goUp_eq videoData r hpos
    (videoData.ratesSize - 1).toNat (k := 0) (by omega) (by rw [VideoData.ratesSize]; omega)
  -- the way begins at the lowest level, and what stops it is above the current one
  have hle : l ≤ l' := by
    rcases hstop with hend | ⟨next, hnext, hmuch⟩
    · omega
    · by_contra hbelow
      have hmono := h.bitrate_le hnext hrate (by omega)
      exact absurd ((le_mul_of_one_le_left hpos.le hr).trans_lt hmuch) (not_lt.2 hmono)
  obtain ⟨rate', hrate'⟩ := videoData.exists_bitrate K hlen
  refine ⟨l', ?_, hlen, hle, ?_⟩
  · rw [nextLevel, if_neg hone, if_pos htop, goesUp_eq h hr (by omega)]
    simp only [Option.bind_eq_bind, Option.bind_some, if_true, hrate]
    exact hl'
  rw [sustains_iff hrate hrate']
  rcases hway with rfl | ⟨rate'', hrate'', hsustained⟩
  · -- one level up from the lowest, or none
    rcases Nat.eq_zero_or_pos l with rfl | hlpos
    · rw [← sustains_iff hrate hrate']
      exact ⟨fun hs _ => hs, fun hs => hs rfl⟩
    · obtain rfl : l = 0 + 1 := by omega
      cases hrate.symm.trans hrate'
      exact iff_of_true (le_mul_of_one_le_left hpos.le hr) fun heq => absurd heq (by omega)
  · cases hrate'.symm.trans hrate''
    refine iff_of_true hsustained ?_
    rintro rfl
    obtain ⟨rate₁, hrate₁⟩ := videoData.exists_bitrate K (i := 1) (by omega)
    exact (sustains_iff hrate hrate₁).2
      ((h.bitrate_le hrate₁ hrate' (by omega)).trans hsustained)

/-- The level does what the ratio says exactly if it is not left at the top, where it falls to
    the lowest, or from the lowest to one that is not sustained. -/
theorem nextLevel_follows_iff (h : videoData.Increasing) (r : K) {l : ℕ}
    (hl : l < videoData.averageBitrate.length) :
    ∃ l' : ℕ, nextLevel videoData r l = some (l' : ℤ) ∧
      l' < videoData.averageBitrate.length ∧
      (Follows videoData r l l' ↔
        (1 ≤ r → (l + 1 = videoData.averageBitrate.length → l = 0) ∧
          (l = 0 → 1 < videoData.averageBitrate.length → Sustains videoData r 0 1))) := by
  rcases lt_or_ge r 1 with hslow | hr
  · -- too slow: each of the branches goes down, or is at the lowest level
    have hdown : ∀ l' ≤ l, Follows videoData r l l' := fun l' hle =>
      ⟨fun _ => hle, fun hr => absurd hslow (not_lt.2 hr)⟩
    have hcond : ∀ p : Prop, 1 ≤ r → p := fun p hr => absurd hslow (not_lt.2 hr)
    have hone : r < const 1 := by rwa [const_eq, Rat.cast_one]
    rw [nextLevel, if_pos hone]
    split_ifs with hpos
    · obtain ⟨ratio, hratio⟩ := ratioBelow_isSome (D := K) (VideoData.inLadder_natCast hl) hpos
      rw [hratio, Option.bind_eq_bind, Option.bind_some]
      split_ifs
      · exact ⟨0, rfl, by omega, iff_of_true (hdown 0 (Nat.zero_le l)) (hcond _)⟩
      · refine ⟨l - 1, ?_, by omega, iff_of_true (hdown _ (Nat.sub_le l 1)) (hcond _)⟩
        rw [Nat.cast_pred (by omega)]
    · exact ⟨0, rfl, by omega, iff_of_true (hdown 0 (Nat.zero_le l)) (hcond _)⟩
  · rcases Nat.lt_or_ge (l + 1) videoData.averageBitrate.length with hbelow | htop
    · -- only at the lowest level does the code go up without a look at the rate
      obtain ⟨l', hl', hlen, hle, hsustains⟩ := nextLevel_up h hr hbelow
      refine ⟨l', hl', hlen, ?_⟩
      constructor
      · intro hfollows _
        exact ⟨fun heq => absurd heq hbelow.ne, fun hzero _ => hsustains.1 (hfollows.2 hr).2 hzero⟩
      · intro hcond
        refine ⟨fun hslow => absurd hslow (not_lt.2 hr), fun _ => ⟨hle, hsustains.2 ?_⟩⟩
        exact fun hzero => (hcond hr).2 hzero (by omega)
    · -- the top, where the code has no branch of its own
      have hone : ¬r < const 1 := by
        rw [const_eq, Rat.cast_one]
        exact not_lt.2 hr
      have hmax : ¬(l : ℤ) < videoData.ratesSize - 1 := by
        rw [VideoData.ratesSize]
        omega
      refine ⟨0, by rw [nextLevel, if_neg hone, if_neg hmax, Nat.cast_zero], by omega, ?_⟩
      constructor
      · intro hfollows _
        have hzero : l = 0 := Nat.le_zero.1 (hfollows.2 hr).1
        exact ⟨fun _ => hzero, fun _ hmore => absurd hmore (by omega)⟩
      · intro hcond
        obtain rfl := (hcond hr).1 (by omega)
        exact ⟨fun _ => le_rfl, fun _ => ⟨le_rfl, sustains_self h hr hl⟩⟩

/-- The reply, for the ratio of the time a segment plays to what the last one took: at the top
    it is the lowest level, and from the lowest it is another one even if none is
    sustained. -/
theorem getNextQuality_follows_iff (a : OsmpAlgorithm) {data : ClientData} {l segmentCount : ℕ}
    {ms : ℤ} {r : K} (h : data.videoData.Increasing)
    (hl : l < data.videoData.averageBitrate.length) (hcount : segmentCount ≠ 0)
    (hms : lastDownloadTime data.throughput = some ms) (hpos : 0 < ms)
    (hr : data.videoData.segmentDuration = r * ms) :
    ∃ l' : ℕ, a.getNextQuality K data l segmentCount = some ({ nextQuality := l' }, a) ∧
      l' < data.videoData.averageBitrate.length ∧
      (Follows data.videoData r l l' ↔
        (1 ≤ r → (l + 1 = data.videoData.averageBitrate.length → l = 0) ∧
          (l = 0 → 1 < data.videoData.averageBitrate.length →
            Sustains data.videoData r 0 1))) := by
  obtain ⟨l', hl', hlen, hiff⟩ := nextLevel_follows_iff h r hl
  refine ⟨l', ?_, hlen, hiff⟩
  have hratio : (data.videoData.segmentDuration : K) / ms = r := by
    rw [hr, mul_div_cancel_right₀ r (Int.cast_ne_zero.2 hpos.ne')]
  rw [getNextQuality, if_neg hcount, if_pos (transmissionEnd_pos hms), hms]
  simp only [Option.bind_eq_bind, Option.bind_some, const_eq, Rat.cast_one, one_mul, ofInt_eq,
    hratio, hl']

/-- The last segment of a ladder took this long. -/
def lastSegment (videoData : VideoData) (duration : Time) : ClientData where
  videoData := videoData
  throughput := {
    transmissionRequested := [0]
    transmissionStart := [0]
    transmissionEnd := [duration]
    bytesReceived := [250] }

theorem increasing_threeMbps : PandaAlgorithm.threeMbps.Increasing :=
  ⟨by decide, by decide⟩

/-- From the level in the middle, twice as fast as it plays. -/
theorem getNextQuality_follows_middle : ∃ l' : ℕ,
    OsmpAlgorithm.getNextQuality ℚ {} (lastSegment PandaAlgorithm.threeMbps 500000) (1 : ℕ) 1 =
        some ({ nextQuality := l' }, {}) ∧ l' < 3 ∧
      (Follows PandaAlgorithm.threeMbps (2 : ℚ) 1 l' ↔
        ((1 : ℚ) ≤ 2 → (1 + 1 = 3 → 1 = 0) ∧
          (1 = 0 → 1 < 3 → Sustains PandaAlgorithm.threeMbps (2 : ℚ) 0 1))) :=
  have htime : lastDownloadTime (lastSegment PandaAlgorithm.threeMbps 500000).throughput =
      some 500 := rfl
  getNextQuality_follows_iff {} (l := 1) increasing_threeMbps (by decide) one_ne_zero htime
    (by decide) (by with_unfolding_all decide)

/-- From the highest level, it goes down to the lowest. -/
theorem getNextQuality_falls :
    ((OsmpAlgorithm.getNextQuality ℚ {} (lastSegment PandaAlgorithm.threeMbps 500000) 2 1).map
      fun p => p.1.nextQuality) = some 0 ∧ ¬Follows PandaAlgorithm.threeMbps (2 : ℚ) 2 0 := by
  refine ⟨by with_unfolding_all decide, fun hfollows => ?_⟩
  have hup := (hfollows.2 one_le_two).1
  omega

end OsmpAlgorithm

/-! ## RAAHS -/

namespace RaahsAlgorithm

theorem ofNat_succ_sub_one (k : ℕ) : UInt32.ofNat (k + 1) - 1 = UInt32.ofNat k := by
  rw [UInt32.ofNat_add]
  exact UInt32.add_sub_cancel _ _

theorem toNat_ofNat {k : ℕ} (h : k < 2 ^ 31) : (UInt32.ofNat k).toNat = k :=
  UInt32.toNat_ofNat_of_lt' (h.trans (by decide))

theorem toInt_ofNat {k : ℕ} (h : k < 2 ^ 31) : (UInt32.ofNat k).toBitVec.toInt = k := by
  have hnat : (UInt32.ofNat k).toBitVec.toNat = k := toNat_ofNat h
  rw [BitVec.toInt_eq_toNat_of_lt (by rw [hnat]; omega), hnat]

/-- The search begins below the current level; below the lowest, this is the largest index. -/
theorem ofInt_sub_one (c : ℕ) : UInt32.ofInt ((c : ℤ) - 1) = UInt32.ofNat c - 1 := by
  cases c with
  | zero => decide
  | succ k =>
    have hpred : ((k + 1 : ℕ) : ℤ) - 1 = k := by omega
    have hmod : ((k : ℤ) % 2 ^ 32).toNat = k % 2 ^ 32 := by omega
    rw [hpred, ofNat_succ_sub_one, UInt32.ofInt, hmod, UInt32.ofNat_mod_size]

section

variable {D : Type} [Add D] [Sub D] [Mul D] [Div D] [LT D] [LE D]
  [DecidableLT D] [DecidableLE D] [Double D] {videoData : VideoData} {wanted : D}

omit [Add D] [Sub D] [Mul D] [Div D] [LE D] [DecidableLE D] in
/-- A round reads the table at its index, whatever it finds. -/
theorem mem_searchDown (videoData : VideoData) (wanted : D) (rounds : ℕ) (i : UInt32) :
    i.toNat ∈ (searchDown videoData wanted (rounds + 1) i).1 := by
  rw [searchDown, if_pos (UInt32.zero_le)]
  split
  · exact List.mem_singleton_self _
  · split_ifs
    · exact List.mem_singleton_self _
    · exact List.mem_cons_self

omit [Add D] [Sub D] [Mul D] [Div D] [LE D] [DecidableLE D] in
/-- A round at a level. -/
theorem searchDown_succ {rate : D} {k : ℕ} (hk : k < 2 ^ 31)
    (hrate : videoData.bitrate k = some rate) (rounds : ℕ) :
    searchDown videoData wanted (rounds + 1) (UInt32.ofNat (k + 1) - 1) =
      if rate < wanted then ([k], some (k : ℤ))
      else
        (k :: (searchDown videoData wanted rounds (UInt32.ofNat k - 1)).1,
          (searchDown videoData wanted rounds (UInt32.ofNat k - 1)).2) := by
  rw [searchDown, if_pos (UInt32.zero_le), ofNat_succ_sub_one, toNat_ofNat hk, hrate,
    toInt_ofNat hk]

omit [Add D] [Sub D] [Mul D] [Div D] [LE D] [DecidableLE D] in
/-- If one of the levels below matches, the search ends at the highest of them. -/
theorem searchDown_found {k rounds : ℕ} (hk : k < 2 ^ 31)
    (hlen : k ≤ videoData.averageBitrate.length) (hrounds : k ≤ rounds)
    (hfound : ∃ i < k, videoData.Below wanted i) (d : ℤ) :
    ∃ l, (searchDown videoData wanted rounds (UInt32.ofNat k - 1)).2 = some l ∧
      GreatestOr (videoData.Below wanted) k d l ∧
      ∀ i ∈ (searchDown videoData wanted rounds (UInt32.ofNat k - 1)).1, i < k := by
  induction k generalizing rounds with
  | zero =>
    obtain ⟨i, hi, -⟩ := hfound
    exact absurd hi (Nat.not_lt_zero i)
  | succ k ih =>
    obtain ⟨rounds, rfl⟩ : ∃ r, rounds = r + 1 := ⟨rounds - 1, by omega⟩
    obtain ⟨rate, hrate⟩ := videoData.exists_bitrate D (i := k) (by omega)
    rw [searchDown_succ (by omega) hrate]
    have hbelow := VideoData.below_iff (x := wanted) hrate
    split_ifs with hlt
    · refine ⟨k, rfl, .succ_of_pos (hbelow.2 hlt) d, fun i hi => ?_⟩
      rw [List.mem_singleton.1 hi]
      exact Nat.lt_succ_self k
    · have hpass : ¬videoData.Below wanted k := fun hb => hlt (hbelow.1 hb)
      have hlower : ∃ i < k, videoData.Below wanted i := by
        obtain ⟨i, hi, hb⟩ := hfound
        rcases Nat.lt_succ_iff_lt_or_eq.1 hi with hik | rfl
        · exact ⟨i, hik, hb⟩
        · exact absurd hb hpass
      obtain ⟨l, hl, hgreatest, hreads⟩ :=
        ih (by omega) (by omega) (Nat.le_of_succ_le_succ hrounds) hlower
      refine ⟨l, hl, hgreatest.succ_of_neg hpass, fun i hi => ?_⟩
      rcases List.mem_cons.1 hi with rfl | hi
      · exact Nat.lt_succ_self i
      · exact (hreads i hi).trans (Nat.lt_succ_self k)

omit [Add D] [Sub D] [Mul D] [Div D] [LE D] [DecidableLE D] in
/-- If none does, the search goes on at the largest index there is. -/
theorem searchDown_wraps {k rounds : ℕ} (hk : k < 2 ^ 31)
    (hlen : k ≤ videoData.averageBitrate.length) (hrounds : k < rounds)
    (hnone : ∀ i < k, ¬videoData.Below wanted i) :
    2 ^ 32 - 1 ∈ (searchDown videoData wanted rounds (UInt32.ofNat k - 1)).1 := by
  induction k generalizing rounds with
  | zero =>
    -- the index before the lowest level is the largest one, and is not below zero
    obtain ⟨rounds, rfl⟩ : ∃ r, rounds = r + 1 := ⟨rounds - 1, by omega⟩
    exact mem_searchDown videoData wanted rounds (UInt32.ofNat 0 - 1)
  | succ k ih =>
    obtain ⟨rounds, rfl⟩ : ∃ r, rounds = r + 1 := ⟨rounds - 1, by omega⟩
    obtain ⟨rate, hrate⟩ := videoData.exists_bitrate D (i := k) (by omega)
    have hpass : ¬rate < wanted := fun hlt =>
      hnone k (Nat.lt_succ_self k) ((VideoData.below_iff hrate).2 hlt)
    rw [searchDown_succ (by omega) hrate, if_neg hpass]
    exact List.mem_cons_of_mem _
      (ih (by omega) (by omega) (Nat.lt_of_succ_lt_succ hrounds) fun i hi => hnone i (by omega))

end

section

variable {K : Type} [Field K] [LinearOrder K] [IsStrictOrderedRing K] [FloorRing K]
  [ExactDouble K] {videoData : VideoData}

/-- Below the factor to switch down, the level is what the search comes to. -/
theorem nextLevel_down (hne : videoData.averageBitrate.length ≠ 0) {mi : K}
    (hdown : mi < const gammaD) (c : ℤ) :
    nextLevel videoData mi c = (switchDown videoData mi c).2 := by
  obtain ⟨e, he, hnonneg⟩ : ∃ e : K, SftmAlgorithm.largestStepUp videoData = some e ∧ 0 ≤ e :=
    SftmAlgorithm.largestStepUp_nonneg
  -- the factor is below one, so that it is not in the range to switch up
  have hup : ¬mi > const 1 + e := by
    rw [const_eq, Rat.cast_one]
    have hone : (const gammaD : K) < 1 := by
      rw [const_eq, ← Rat.cast_one]
      exact Rat.cast_lt.2 (by with_unfolding_all decide)
    linarith
  rw [nextLevel, epsilon, if_neg hne, he, Option.bind_eq_bind, Option.bind_some, if_neg hup,
    if_pos hdown]

/-- The search of a call ends with the highest level below whose bitrate is small enough, or
    the lowest, and reads the bitrates of the levels below only, exactly if one of these is
    small enough. -/
theorem getNextQuality_search_iff (a : RaahsAlgorithm) {data : ClientData} {c segmentCount : ℕ}
    {ms : ℤ} {mi rate : K} (hc : c < 2 ^ 31) (hrate : data.videoData.bitrate c = some rate)
    (hcount : segmentCount ≠ 0) (hms : lastDownloadTime data.throughput = some ms)
    (hpos : 0 < ms) (hmi : data.videoData.segmentDuration = mi * ms)
    (hdown : mi < const gammaD) :
    ((∃ reply, a.getNextQuality K data c segmentCount = some (reply, a) ∧
        GreatestOr (data.videoData.Below (mi * rate)) c 0 reply.nextQuality) ∧
      ∀ i ∈ (switchDown data.videoData mi c).1, i < c) ↔
      ∃ i < c, data.videoData.Below (mi * rate) i := by
  have hlen := VideoData.lt_length_of_bitrate hrate
  have hsearch : switchDown data.videoData mi c =
      searchDown data.videoData (mi * rate) (2 ^ 32) (UInt32.ofNat c - 1) := by
    rw [switchDown, hrate, ofInt_sub_one]
  constructor
  · rintro ⟨-, hreads⟩
    by_contra hnone
    push Not at hnone
    rw [hsearch] at hreads
    have hlarge := hreads _ (searchDown_wraps hc hlen.le (by omega) hnone)
    omega
  · intro hfound
    have hrounds : c ≤ 2 ^ 32 := by omega
    obtain ⟨l, hl, hgreatest, hreads⟩ := searchDown_found hc hlen.le hrounds hfound 0
    rw [← hsearch] at hl hreads
    refine ⟨?_, hreads⟩
    obtain ⟨rateMin, hrateMin⟩ : ∃ rateMin : K, data.videoData.bitrate 0 = some rateMin :=
      data.videoData.exists_bitrate K (i := 0) (by omega)
    have hratio : (data.videoData.segmentDuration : K) / ms = mi := by
      rw [hmi, mul_div_cancel_right₀ mi (Int.cast_ne_zero.2 hpos.ne')]
    rw [getNextQuality, if_neg hcount, if_pos (transmissionEnd_pos hms), hms]
    simp only [Option.bind_eq_bind, Option.bind_some, const_eq, Rat.cast_one, one_mul, ofInt_eq,
      hratio]
    rw [nextLevel_down (by omega) hdown, hl, hrate, hrateMin]
    exact ⟨_, rfl, hgreatest⟩

/-- From the highest of three levels, at half the speed it plays. -/
theorem getNextQuality_search_three : (∃ reply,
      getNextQuality ℚ {} (OsmpAlgorithm.lastSegment PandaAlgorithm.threeMbps 2000000) (2 : ℕ) 1 =
        some (reply, {}) ∧
      GreatestOr (PandaAlgorithm.threeMbps.Below (1 / 2 * 3000000 : ℚ)) 2 0 reply.nextQuality) ∧
    ∀ i ∈ (switchDown PandaAlgorithm.threeMbps (1 / 2 : ℚ) (2 : ℕ)).1, i < 2 :=
  have htime : lastDownloadTime
      (OsmpAlgorithm.lastSegment PandaAlgorithm.threeMbps 2000000).throughput = some 2000 := rfl
  (getNextQuality_search_iff {} (c := 2) (by decide) rfl one_ne_zero htime (by decide)
    (by with_unfolding_all decide) (by with_unfolding_all decide)).2
    ⟨0, by decide, 1000000, rfl, by with_unfolding_all decide⟩

/-- From the lowest, it reads at the largest index, and there is no level. -/
theorem getNextQuality_search_lowest :
    (getNextQuality ℚ {} (OsmpAlgorithm.lastSegment PandaAlgorithm.threeMbps 2000000) 0 1).isNone ∧
      (switchDown PandaAlgorithm.threeMbps (1 / 2 : ℚ) 0).1 = [2 ^ 32 - 1] := by
  with_unfolding_all decide

end

end RaahsAlgorithm

end

end DashDim
