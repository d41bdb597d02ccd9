import DashDim.Dash.Searches
import DashDim.Lib.Run

/-!
# The level and the estimate of PANDA

PANDA looks for the level that its estimate of the bandwidth allows twice, with a margin to go
up that grows with the estimate, and one to go down that does not. Between the two levels it
stays where it is (`getNextQuality_deadZone`).

The estimate follows the share of the bandwidth with a step that is the time between two
requests. With a time of five seconds or more it may go beyond what it follows, and down to
zero, by which the code divides (`smooth_pos_iff`).
-/

namespace DashDim

section

variable {K : Type} [Field K] [LinearOrder K] [IsStrictOrderedRing K] [FloorRing K]
  [ExactDouble K] {videoData : VideoData}

/-- In a ladder that goes up, the bitrates are in the order of the levels. -/
theorem VideoData.bitrate_lt_iff (h : videoData.averageBitrate.Pairwise (· < ·)) {i j : ℤ}
    {rate rate' : K} (hrate : videoData.bitrate i = some rate)
    (hrate' : videoData.bitrate j = some rate') : rate < rate' ↔ i < j := by
  obtain ⟨k, rfl, q, hk, rfl⟩ := VideoData.bitrate_eq_some hrate
  obtain ⟨k', rfl, q', hk', rfl⟩ := VideoData.bitrate_eq_some hrate'
  obtain ⟨hlen, rfl⟩ := List.getElem?_eq_some_iff.1 hk
  obtain ⟨hlen', rfl⟩ := List.getElem?_eq_some_iff.1 hk'
  have hsorted := List.pairwise_iff_getElem.1 h
  rw [Rat.cast_lt, Nat.cast_lt]
  rcases lt_trichotomy k k' with hlt | rfl | hgt
  · exact iff_of_true (hsorted k k' hlen hlen' hlt) hlt
  · exact iff_of_false (lt_irrefl _) (lt_irrefl _)
  · exact iff_of_false (hsorted k' k hlen' hlen hgt).not_gt hgt.not_gt

namespace PandaAlgorithm

/-! ## The dead zone -/

/-- A margin that is less finds a level that is not below. -/
theorem findLargest_mono (videoData : VideoData) (smoothBw : K) {delta delta' : K}
    (hle : delta' ≤ delta) :
    ∃ rUp rDown, findLargest videoData smoothBw delta = some rUp ∧
      findLargest videoData smoothBw delta' = some rDown ∧ rUp ≤ rDown := by
  obtain ⟨rUp, hup, hgreatest⟩ := findLargest_greatestOr videoData smoothBw delta
  obtain ⟨rDown, hdown, hgreatest'⟩ := findLargest_greatestOr videoData smoothBw delta'
  refine ⟨rUp, rDown, hup, hdown, hgreatest.mono hgreatest' ?_ le_rfl⟩
  rintro i - ⟨rate, hrate, hfits⟩
  exact ⟨rate, hrate, hfits.trans (sub_le_sub_left hle smoothBw)⟩

/-- The comparison of the bitrates is one of the levels. -/
theorem nextLevel_clamp (h : videoData.averageBitrate.Pairwise (· < ·)) {last rUp rDown : ℤ}
    (hlast : videoData.InLadder last) (hup : videoData.InLadder rUp)
    (hdown : videoData.InLadder rDown) (hle : rUp ≤ rDown) :
    nextLevel (D := K) videoData last rUp rDown = some (max rUp (min last rDown)) := by
  obtain ⟨rateLast, hrateLast⟩ := hlast.exists_bitrate (D := K)
  obtain ⟨rateUp, hrateUp⟩ := hup.exists_bitrate (D := K)
  obtain ⟨rateDown, hrateDown⟩ := hdown.exists_bitrate (D := K)
  rw [nextLevel, hrateLast, hrateUp, hrateDown]
  simp only [Option.bind_eq_bind, Option.bind_some, Option.some_inj]
  have hbelow : rateLast < rateUp ↔ last < rUp := VideoData.bitrate_lt_iff h hrateLast hrateUp
  have habove : rateDown < rateLast ↔ rDown < last := VideoData.bitrate_lt_iff h hrateDown hrateLast
  rw [← not_iff_not, not_lt, not_lt] at habove
  split_ifs with hlt hzone
  · rw [hbelow] at hlt
    omega
  · have hlow := mt hbelow.2 hlt
    have hhigh := habove.1 hzone.2
    omega
  · have hlow := mt hbelow.2 hlt
    have hhigh := mt habove.2 fun hhigh => hzone ⟨not_lt.1 hlt, hhigh⟩
    omega

/-- The two levels found are in order if the estimate is not negative, and the reply is the
    level between them that is next to the last one. -/
theorem getNextQuality_deadZone (a : PandaAlgorithm K) {data : ClientData} (now : Time) {t : ℕ}
    (ht : t ≠ 0) (hsorted : data.videoData.averageBitrate.Pairwise (· < ·))
    (hlast : data.videoData.InLadder a.lastVideoIndex)
    (hrequested : data.throughput.transmissionRequested ≠ [])
    (hstart : data.throughput.transmissionStart ≠ [])
    (hstop : data.throughput.transmissionEnd ≠ []) :
    ∃ reply a', a.getNextQuality K data now t = some (reply, a') ∧
      (0 ≤ a'.lastSmoothBandwidthShare → ∃ rUp rDown,
        findLargest data.videoData a'.lastSmoothBandwidthShare
            (const omega + const epsilon * a'.lastSmoothBandwidthShare) = some rUp ∧
          findLargest data.videoData a'.lastSmoothBandwidthShare (const omega) = some rDown ∧
          rUp ≤ rDown ∧ reply.nextQuality = max rUp (min a.lastVideoIndex rDown)) := by
  obtain ⟨rate, hrate⟩ := hlast.exists_bitrate (D := K)
  have hn : 0 < data.videoData.averageBitrate.length := by
    have hnonneg := hlast.1
    have htop := hlast.2
    rw [VideoData.ratesSize] at htop
    omega
  rw [getNextQuality, if_neg ht, List.getLast?_eq_some_getLast hrequested,
    List.getLast?_eq_some_getLast hstart, List.getLast?_eq_some_getLast hstop, hrate]
  simp only [Option.bind_eq_bind, Option.bind_some]
  -- the first call that measures starts from another state
  generalize ha : (if t = 1 then _ else a) = a₁
  have hlast₁ : a₁.lastVideoIndex = a.lastVideoIndex := by
    rw [← ha]
    split_ifs <;> rfl
  generalize (const (-alpha) : K) * _ * _ + _ = smooth
  obtain ⟨rUp, hup, hinUp⟩ :=
    findLargest_inLadder hn smooth (const omega + const epsilon * smooth)
  obtain ⟨rDown, hdown, hinDown⟩ := findLargest_inLadder hn smooth (const omega)
  obtain ⟨quality, hquality, hin⟩ :=
    nextLevel_inLadder (D := K) (hlast₁ ▸ hlast) hinUp hinDown
  obtain ⟨rateNext, hnext⟩ := hin.exists_bitrate (D := K)
  simp only [hup, hdown, hquality, hnext, Option.bind_some]
  refine ⟨_, _, rfl, fun hsmooth => ⟨rUp, rDown, hup, hdown, ?_⟩⟩
  dsimp only at hsmooth ⊢
  have hmargin : (const omega : K) ≤ const omega + const epsilon * smooth := by
    have hepsilon : (0 : K) ≤ const epsilon := by
      rw [const_eq, Rat.cast_nonneg, epsilon]
      norm_num
    exact le_add_of_nonneg_right (mul_nonneg hepsilon hsmooth)
  obtain ⟨rUp', rDown', hup', hdown', hle⟩ :=
    findLargest_mono data.videoData smooth hmargin
  cases hup.symm.trans hup'
  cases hdown.symm.trans hdown'
  refine ⟨hle, ?_⟩
  have hclamp := nextLevel_clamp (K := K) hsorted (hlast₁ ▸ hlast) hinUp hinDown hle
  rw [hquality] at hclamp
  rw [← hlast₁]
  exact Option.some.inj hclamp

/-- A segment of one second took 100 milliseconds. -/
def fastSegment : ClientData where
  videoData := threeMbps
  throughput := {
    transmissionRequested := [0]
    transmissionStart := [0]
    transmissionEnd := [100000]
    bytesReceived := [125000] }

theorem getNextQuality_deadZone_lowest : ∃ reply a',
    getNextQuality ℚ ⟨1, 0, 2, 2, 0⟩ fastSegment 1000000 2 = some (reply, a') ∧
      (0 ≤ a'.lastSmoothBandwidthShare → ∃ rUp rDown,
        findLargest threeMbps a'.lastSmoothBandwidthShare
            (const omega + const epsilon * a'.lastSmoothBandwidthShare) = some rUp ∧
          findLargest threeMbps a'.lastSmoothBandwidthShare (const omega) = some rDown ∧
          rUp ≤ rDown ∧ reply.nextQuality = max rUp (min 0 rDown)) :=
  getNextQuality_deadZone ⟨1, 0, 2, 2, 0⟩ 1000000 two_ne_zero (by decide)
    (VideoData.inLadder_zero (by decide)) (List.cons_ne_nil _ _) (List.cons_ne_nil _ _)
    (List.cons_ne_nil _ _)

/-! ## The estimate -/

/-- What a call measures of the last segment, in Mbps. -/
def measured (a : PandaAlgorithm K) (data : ClientData) : Option K := do
  let start ← data.throughput.transmissionStart.getLast?
  let stop ← data.throughput.transmissionEnd.getLast?
  let rate ← data.videoData.bitrate a.lastVideoIndex
  some (const 1 * rate * ofInt data.videoData.segmentDuration /
    ofInt (toMilliseconds (stop - start)) / const 1000000)

/-- The time since the last request, or what it was to be if this is more, in seconds. -/
def interrequestTime (a : PandaAlgorithm K) (data : ClientData) (now : Time) : Option K := do
  let requested ← data.throughput.transmissionRequested.getLast?
  some (if now - requested > a.lastTargetInterrequestTime then
      const 1 * ofInt (toMilliseconds (now - requested)) / const 1000
    else const 1 * ofInt (toMilliseconds a.lastTargetInterrequestTime) / const 1000)

/-- The estimate after a call. -/
def smoothed (lastSmooth share time : K) : K :=
  const (-alpha) * (lastSmooth - share) * time + lastSmooth

/-- The time is below five seconds, or the share moves so far that the estimate, which moves
    five seconds' worth of the distance to it, stays above zero. -/
def Steady (throughputMeasured lastShare lastSmooth time : K) : Prop :=
  time < 5 ∨ (time - 5) * lastSmooth <
    time * (lastShare + const kappa * time * min (const omega) (throughputMeasured - lastShare))

theorem bandwidthShare_eq (throughputMeasured lastShare time : K) :
    bandwidthShare throughputMeasured lastShare time = max 0 (lastShare +
      const kappa * time * min (const omega) (throughputMeasured - lastShare)) := by
  have hclamp : (const omega : K) - maxOf (const 0) (lastShare - throughputMeasured + const omega) =
      min (const omega) (throughputMeasured - lastShare) := by
    rw [maxOf, const_eq 0, Rat.cast_zero]
    split_ifs with hpos
    · rw [min_eq_right (by linarith)]
      ring
    · rw [min_eq_left (by linarith), sub_zero]
  rw [bandwidthShare, hclamp]
  rw [const_eq 0, Rat.cast_zero, add_comm, mul_right_comm]
  split_ifs with hneg
  · exact (max_eq_left hneg.le).symm
  · exact (max_eq_right (not_lt.1 hneg)).symm

/-- The estimate goes a fifth of the way to the share in a second, so that after five seconds
    nothing of what it was is left. -/
theorem smoothed_pos_iff {throughputMeasured lastShare lastSmooth time : K} (hpos : 0 < lastSmooth)
    (htime : 0 ≤ time) :
    0 < smoothed lastSmooth (bandwidthShare throughputMeasured lastShare time) time ↔
      Steady throughputMeasured lastShare lastSmooth time := by
  rw [Steady, bandwidthShare_eq]
  generalize lastShare + const kappa * time *
    min (const omega) (throughputMeasured - lastShare) = x
  have halpha : (const (-alpha) : K) = -(1 / 5) := by
    rw [const_eq, alpha]
    norm_num
  have hsmoothed : smoothed lastSmooth (max 0 x) time =
      ((5 - time) * lastSmooth + time * max 0 x) / 5 := by
    rw [smoothed, halpha]
    ring
  rw [hsmoothed, div_pos_iff_of_pos_right (by norm_num)]
  rcases lt_or_ge time 5 with hlt | hge
  · have hself : 0 < (5 - time) * lastSmooth := mul_pos (sub_pos.2 hlt) hpos
    have hshare : 0 ≤ time * max 0 x := mul_nonneg htime (le_max_left 0 x)
    exact iff_of_true (add_pos_of_pos_of_nonneg hself hshare) (.inl hlt)
  · have hself : 0 ≤ (time - 5) * lastSmooth := mul_nonneg (sub_nonneg.2 hge) hpos.le
    rw [or_iff_right (not_lt.2 hge)]
    rcases le_total x 0 with hneg | hnonneg
    · -- the share is zero
      have hzero : time * x ≤ 0 := mul_nonpos_of_nonneg_of_nonpos htime hneg
      rw [max_eq_left hneg, mul_zero]
      exact iff_of_false (by linarith) (by linarith)
    · rw [max_eq_right hnonneg]
      constructor <;> intro h <;> linarith

theorem interrequestTime_nonneg {a : PandaAlgorithm K} (htarget : 0 ≤ a.lastTargetInterrequestTime)
    {data : ClientData} {now : Time} {time : K} (h : a.interrequestTime data now = some time) :
    0 ≤ time := by
  have hseconds : ∀ delta : Time, 0 ≤ delta →
      (0 : K) ≤ const 1 * ofInt (toMilliseconds delta) / const 1000 := by
    intro delta hdelta
    have hms : 0 ≤ toMilliseconds delta := Int.tdiv_nonneg hdelta (by decide)
    rw [const_eq, const_eq, ofInt_eq, Rat.cast_one, one_mul]
    exact div_nonneg (Int.cast_nonneg hms) (Rat.cast_nonneg.2 (by norm_num))
  obtain ⟨requested, -, heq⟩ := Option.bind_eq_some_iff.1 h
  cases heq
  split_ifs with hlate
  · exact hseconds _ (htarget.trans hlate.le)
  · exact hseconds _ htarget

/-- What is not negative is no negative time. -/
theorem fromMilliseconds_trunc_nonneg (x : K) :
    0 ≤ fromMilliseconds (Double.trunc (maxOf (const 0) x * const 1000)) := by
  have hmax : (0 : K) ≤ maxOf (const 0) x := by
    rw [maxOf, const_eq, Rat.cast_zero]
    split_ifs with hpos
    · exact hpos.le
    · exact le_rfl
  have hscaled : 0 ≤ maxOf (const 0) x * const 1000 := by
    rw [const_eq 1000]
    exact mul_nonneg hmax (Rat.cast_nonneg.2 (by norm_num))
  rw [fromMilliseconds, ExactDouble.trunc_eq, if_pos hscaled]
  exact mul_nonneg (Int.floor_nonneg.2 hscaled) (by decide)

/-- What a call computes with, and the estimate it computes. The first call that measures
    starts from what it measures. -/
theorem getNextQuality_smooth {a a' : PandaAlgorithm K} {data : ClientData} {now : Time} {t : ℕ}
    {reply : AlgorithmReply} (ht : t ≠ 0)
    (h : a.getNextQuality K data now t = some (reply, a')) :
    ∃ m time, a.measured data = some m ∧ a.interrequestTime data now = some time ∧
      0 ≤ a'.lastTargetInterrequestTime ∧ a'.lastSmoothBandwidthShare =
        if t = 1 then smoothed m (bandwidthShare m m time) time
        else smoothed a.lastSmoothBandwidthShare (bandwidthShare m a.lastBandwidthShare time)
          time := by
  rw [getNextQuality, if_neg ht] at h
  simp only [Option.bind_eq_bind, Option.bind_eq_some_iff] at h
  obtain ⟨requested, hrequested, start, hstart, stop, hstop, rate, hrate, rUp, -, rDown, -, index,
    -, rateNext, -, heq⟩ := h
  have hmeasured : a.measured data = some (const 1 * rate *
      ofInt data.videoData.segmentDuration / ofInt (toMilliseconds (stop - start)) /
        const 1000000) := by
    rw [measured, hstart, hstop, hrate]
    rfl
  have htime : a.interrequestTime data now =
      some (if now - requested > a.lastTargetInterrequestTime then
          const 1 * ofInt (toMilliseconds (now - requested)) / const 1000
        else const 1 * ofInt (toMilliseconds a.lastTargetInterrequestTime) / const 1000) := by
    rw [interrequestTime, hrequested]
    rfl
  refine ⟨_, _, hmeasured, htime, ?_⟩
  cases heq
  by_cases hfirst : t = 1
  · simp only [if_pos hfirst]
    exact ⟨fromMilliseconds_trunc_nonneg _, rfl⟩
  · simp only [if_neg hfirst]
    exact ⟨fromMilliseconds_trunc_nonneg _, rfl⟩

/-! ### Runs -/

/-- The algorithm between two calls, and the number of the next one. -/
structure Calls (K : Type) where
  algorithm : PandaAlgorithm K
  segmentCount : ℕ

/-- The algorithm is called with the numbers of the segments in order. From the second call on
    what it measures is positive. -/
def system (allowed : Calls K → ClientData → Time → Prop) : System (Calls K) where
  init c := c.segmentCount = 0
  step c c' := ∃ data now reply, allowed c data now ∧
    (c.segmentCount ≠ 0 → ∀ m, c.algorithm.measured data = some m → 0 < m) ∧
    c.algorithm.getNextQuality K data now c.segmentCount = some (reply, c'.algorithm) ∧
    c'.segmentCount = c.segmentCount + 1

/-- The time of this call is short enough for the estimate. The first two calls start from
    what they measure. -/
def InTime (c : Calls K) (data : ClientData) (now : Time) : Prop :=
  2 ≤ c.segmentCount → ∀ m time, c.algorithm.measured data = some m →
    c.algorithm.interrequestTime data now = some time →
    Steady m c.algorithm.lastBandwidthShare c.algorithm.lastSmoothBandwidthShare time

/-- What calls in time keep. -/
structure Estimates (c : Calls K) : Prop where
  target_nonneg : c.segmentCount ≠ 0 → 0 ≤ c.algorithm.lastTargetInterrequestTime
  smooth_pos : 2 ≤ c.segmentCount → 0 < c.algorithm.lastSmoothBandwidthShare

/-- The call that starts from what it measures is always in time. -/
theorem steady_self {m time : K} (hm : 0 < m) : Steady m m m time := by
  have hstep : min (const omega) (m - m) = (0 : K) := by
    rw [sub_self, const_eq]
    exact min_eq_right (Rat.cast_nonneg.2 (by norm_num [omega]))
  refine .inr ?_
  rw [hstep, mul_zero, add_zero]
  exact mul_lt_mul_of_pos_right (sub_lt_self time (by norm_num)) hm

theorem Estimates.pos_iff {c : Calls K} (h : Estimates c) {data : ClientData} {now : Time}
    (ht : c.segmentCount ≠ 0) (hm : ∀ m, c.algorithm.measured data = some m → 0 < m)
    {reply : AlgorithmReply} {a' : PandaAlgorithm K}
    (hreply : c.algorithm.getNextQuality K data now c.segmentCount = some (reply, a')) :
    0 < a'.lastSmoothBandwidthShare ↔ InTime c data now := by
  obtain ⟨m, time, hmeasured, htime, -, hsmooth⟩ := getNextQuality_smooth ht hreply
  have hnonneg := interrequestTime_nonneg (h.target_nonneg ht) htime
  rw [hsmooth]
  by_cases hfirst : c.segmentCount = 1
  · rw [if_pos hfirst, smoothed_pos_iff (hm m hmeasured) hnonneg]
    exact iff_of_true (steady_self (hm m hmeasured)) fun hlater => by omega
  · have hlater : 2 ≤ c.segmentCount := by omega
    rw [if_neg hfirst, smoothed_pos_iff (h.smooth_pos hlater) hnonneg]
    constructor
    · rintro hsteady - m' time' hmeasured' htime'
      cases hmeasured.symm.trans hmeasured'
      cases htime.symm.trans htime'
      exact hsteady
    · exact fun hintime => hintime hlater m time hmeasured htime

theorem estimates_of_reachable {c : Calls K} (h : (system (K := K) InTime).Reachable c) :
    Estimates c := by
  refine h.invariant (P := Estimates) (fun c hinit => ?_) ?_
  · rw [system] at hinit
    exact ⟨fun hne => absurd hinit hne, fun hlater => by omega⟩
  · rintro c c' - hc ⟨data, now, reply, hintime, hm, hreply, hnext⟩
    by_cases ht : c.segmentCount = 0
    · -- the call for the first segment measures nothing
      rw [getNextQuality, if_pos ht] at hreply
      have htarget : (0 : Time) = c'.algorithm.lastTargetInterrequestTime :=
        congrArg (fun p => p.2.lastTargetInterrequestTime) (Option.some.inj hreply)
      exact ⟨fun _ => htarget.le, fun hlater => by omega⟩
    · obtain ⟨-, -, -, -, htarget, -⟩ := getNextQuality_smooth ht hreply
      exact ⟨fun _ => htarget, fun _ => (hc.pos_iff ht (hm ht) hreply).2 hintime⟩

/-- With every call in time the estimate is positive wherever the code divides by it, and the
    next call divides by a positive one exactly if it is in time too. -/
theorem estimate_pos {c : Calls K} (h : (system (K := K) InTime).Reachable c) :
    (2 ≤ c.segmentCount → 0 < c.algorithm.lastSmoothBandwidthShare) ∧
      ∀ data now reply a', c.segmentCount ≠ 0 →
        (∀ m, c.algorithm.measured data = some m → 0 < m) →
        c.algorithm.getNextQuality K data now c.segmentCount = some (reply, a') →
        (0 < a'.lastSmoothBandwidthShare ↔ InTime c data now) :=
  ⟨(estimates_of_reachable h).smooth_pos, fun _ _ _ _ ht hm hreply =>
    (estimates_of_reachable h).pos_iff ht hm hreply⟩

/-- A ladder with one level, of 1 Mbps. -/
def oneMbps : VideoData := ⟨[[125000, 125000, 125000]], [1000000], 1000⟩

/-- The first segment took 100 milliseconds. -/
def firstFast : ClientData where
  videoData := oneMbps
  throughput := {
    transmissionRequested := [0]
    transmissionStart := [0]
    transmissionEnd := [100000]
    bytesReceived := [125000] }

/-- And the second five seconds. -/
def secondSlow : ClientData where
  videoData := oneMbps
  throughput := {
    transmissionRequested := [0, 100000]
    transmissionStart := [0, 100000]
    transmissionEnd := [100000, 5100000]
    bytesReceived := [125000, 125000] }

theorem measured_fast : measured (⟨1, 0, 0, 0, 0⟩ : PandaAlgorithm ℚ) firstFast = some 10 := by
  with_unfolding_all rfl

theorem measured_slow : measured (⟨0, 0, 10, 10, 0⟩ : PandaAlgorithm ℚ) secondSlow =
    some (1 / 5) := by
  with_unfolding_all rfl

/-- After the first segment the estimate is 10 Mbps. -/
def fast : Calls ℚ := ⟨⟨0, 0, 10, 10, 0⟩, 2⟩

theorem reachable_fast {allowed : Calls ℚ → ClientData → Time → Prop}
    (h : ∀ c data now, c.segmentCount < 2 → allowed c data now) :
    (system allowed).Reachable fast := by
  have hinit : (system allowed).Reachable ⟨⟨0, 0, 0, 0, 0⟩, 0⟩ := .init rfl
  have hfirst : (system allowed).Reachable ⟨⟨1, 0, 0, 0, 0⟩, 1⟩ :=
    hinit.step ⟨{ videoData := oneMbps }, 0, {}, h _ _ _ (by decide),
      fun hne => absurd rfl hne, by with_unfolding_all rfl, rfl⟩
  refine hfirst.step ⟨firstFast, 100000, {}, h _ _ _ (by decide), fun _ m hm => ?_,
    by with_unfolding_all rfl, rfl⟩
  cases measured_fast.symm.trans hm
  norm_num

theorem estimate_pos_fast : (2 ≤ fast.segmentCount → 0 < fast.algorithm.lastSmoothBandwidthShare) ∧
    ∀ data now reply a', fast.segmentCount ≠ 0 →
      (∀ m, fast.algorithm.measured data = some m → 0 < m) →
      fast.algorithm.getNextQuality ℚ data now fast.segmentCount = some (reply, a') →
      (0 < a'.lastSmoothBandwidthShare ↔ InTime fast data now) :=
  estimate_pos (reachable_fast fun _ _ _ hlt hlater => absurd hlater (by omega))

/-- Five seconds after the request nothing is left of the estimate, and the share is none. -/
theorem estimate_zero : ∃ c, (system (K := ℚ) fun _ _ _ => True).Reachable c ∧
    2 ≤ c.segmentCount ∧ c.algorithm.lastSmoothBandwidthShare = 0 := by
  refine ⟨⟨⟨0, 0, 0, 0, 0⟩, 3⟩, ?_, by decide, rfl⟩
  refine (reachable_fast fun _ _ _ _ => trivial).step ⟨secondSlow, 5100000, {}, trivial,
    fun _ m hm => ?_, by with_unfolding_all rfl, rfl⟩
  cases measured_slow.symm.trans hm
  norm_num

end PandaAlgorithm

end

end DashDim
