import DashDim.Dash.Ladder

/-!
# Levels that can be played

Six of the algorithms reply a level of the ladder at each call, whatever their arithmetic
comes to: PANDA, TOBASCO, OSMP, FDASH, SFTM and SVAA. Three of them ask the predicator, and
it fails its check when a segment did not end after it started.

* `getNextQuality_replies`, `getNextQuality_fails`: what one call does;
* `replies_iff`: all calls of a run reply a level of the ladder, exactly if the algorithm
  does not ask the predicator, or each call is shown segments that took some time.
-/

namespace DashDim

/-- A level that has a bitrate. -/
def VideoData.InLadder (videoData : VideoData) (quality : ℤ) : Prop :=
  0 ≤ quality ∧ quality < videoData.ratesSize

/-- The segments the predicator looks at ended after they started. -/
def Timed (history : ThroughputData) : Prop :=
  ∀ i ∈ window history 5, ∀ start stop, history.transmissionStart[i]? = some start →
    history.transmissionEnd[i]? = some stop → start < stop

/-- What the client shows to the algorithm when so many segments are complete. -/
structure Maintained (t : ℕ) (history : ThroughputData) : Prop where
  requested_length : history.transmissionRequested.length = t
  start_length : history.transmissionStart.length = t
  end_length : history.transmissionEnd.length = t
  bytes_length : history.bytesReceived.length = t

/-- A loop over a list has a result, if each round has. -/
theorem exists_foldlM {σ ι : Type} {P : σ → Prop} {f : σ → ι → Option σ} {l : List ι}
    (hf : ∀ i ∈ l, ∀ s, P s → ∃ s', f s i = some s' ∧ P s') {s : σ} (h : P s) :
    ∃ s', l.foldlM f s = some s' ∧ P s' := by
  induction l generalizing s with
  | nil => exact ⟨s, rfl, h⟩
  | cons i l ih =>
    obtain ⟨s₁, heq, h₁⟩ := hf i List.mem_cons_self s h
    rw [List.foldlM_cons, heq]
    exact ih (fun j hj => hf j (List.mem_cons_of_mem i hj)) h₁

section

variable {D : Type} [Add D] [Sub D] [Mul D] [Div D] [LT D] [LE D]
  [DecidableLT D] [DecidableLE D] [Double D] {videoData : VideoData}

/-! ## Reading the ladder -/

omit [Add D] [Sub D] [Mul D] [Div D] [LT D] [LE D] [DecidableLT D] [DecidableLE D] in
theorem VideoData.InLadder.exists_bitrate {quality : ℤ} (h : videoData.InLadder quality) :
    ∃ rate : D, videoData.bitrate quality = some rate := by
  obtain ⟨hzero, hlt⟩ := h
  rw [ratesSize] at hlt
  rw [bitrate, readAt, if_neg (by omega), List.getElem?_eq_getElem (by omega)]
  exact ⟨_, rfl⟩

theorem VideoData.inLadder_natCast {i : ℕ} (h : i < videoData.averageBitrate.length) :
    videoData.InLadder i := by
  refine ⟨Int.natCast_nonneg i, ?_⟩
  rw [ratesSize]
  omega

/-- The lowest level. -/
theorem VideoData.inLadder_zero (hn : 0 < videoData.averageBitrate.length) :
    videoData.InLadder 0 := VideoData.inLadder_natCast hn

/-! ## The predicator -/

omit [Sub D] [LT D] [LE D] [DecidableLT D] [DecidableLE D] in
theorem predictLoop_isSome_iff {history : ThroughputData} {t : ℕ} (h : Maintained t history)
    (is : List ℕ) (his : ∀ i ∈ is, i < t) (sum : ℤ) (temp : D) :
    (∃ res, predictLoop history is sum temp = some res) ↔
      ∀ i ∈ is, ∀ start stop, history.transmissionStart[i]? = some start →
        history.transmissionEnd[i]? = some stop → start < stop := by
  induction is generalizing sum temp with
  | nil => exact iff_of_true ⟨_, rfl⟩ fun i hi => absurd hi List.not_mem_nil
  | cons i is ih =>
    have hi := his i List.mem_cons_self
    have hstart := List.getElem?_eq_getElem (h.start_length.symm ▸ hi)
    have hstop := List.getElem?_eq_getElem (h.end_length.symm ▸ hi)
    have hbytes := List.getElem?_eq_getElem (h.bytes_length.symm ▸ hi)
    rw [predictLoop, hstart, hstop, hbytes]
    dsimp only
    split_ifs with hlt
    · rw [ih fun j hj => his j (List.mem_cons_of_mem i hj), List.forall_mem_cons]
      refine ⟨fun hall => ⟨?_, hall⟩, And.right⟩
      intro start stop hs he
      rw [hstart] at hs
      rw [hstop] at he
      cases hs
      cases he
      exact hlt
    · refine iff_of_false (fun hres => ?_) fun hall => hlt ?_
      · obtain ⟨res, hres⟩ := hres
        cases hres
      · exact hall i List.mem_cons_self _ _ hstart hstop

omit [Sub D] [LT D] [LE D] [DecidableLT D] [DecidableLE D] in
theorem predict_isSome_iff {history : ThroughputData} {t : ℕ} (h : Maintained t history)
    (ht : 0 < t) : (∃ est : D, predict history 5 = some est) ↔ Timed history := by
  rw [predict, if_pos (by rw [h.start_length]; exact ht)]
  have hloop := predictLoop_isSome_iff (D := D) h (window history 5)
    (fun i hi => h.start_length ▸ window_lt hi) 0 (ofInt 0)
  rw [Timed, ← hloop]
  cases hres : predictLoop (D := D) history (window history 5) 0 (ofInt 0) with
  | none =>
    refine iff_of_false (fun hest => ?_) fun hsome => ?_
    · obtain ⟨est, hest⟩ := hest
      cases hest
    · obtain ⟨res, hsome⟩ := hsome
      cases hsome
  | some res => exact iff_of_true ⟨_, rfl⟩ ⟨_, rfl⟩

/-- Of a history that is not empty, there is a last segment. -/
theorem Maintained.exists_last {history : ThroughputData} {t : ℕ} (h : Maintained t history)
    (ht : 0 < t) : ∃ requested start stop,
      history.transmissionRequested.getLast? = some requested ∧
      history.transmissionStart.getLast? = some start ∧
      history.transmissionEnd.getLast? = some stop := by
  have hlast : ∀ l : List Time, l.length = t → ∃ time, l.getLast? = some time := by
    intro l hl
    exact ⟨_, List.getLast?_eq_some_getLast (List.length_pos_iff.1 (hl ▸ ht))⟩
  obtain ⟨requested, hrequested⟩ := hlast _ h.requested_length
  obtain ⟨start, hstart⟩ := hlast _ h.start_length
  obtain ⟨stop, hstop⟩ := hlast _ h.end_length
  exact ⟨requested, start, stop, hrequested, hstart, hstop⟩

theorem Maintained.exists_lastDownloadTime {history : ThroughputData} {t : ℕ}
    (h : Maintained t history) (ht : 0 < t) : ∃ ms, lastDownloadTime history = some ms := by
  obtain ⟨-, start, stop, -, hstart, hstop⟩ := h.exists_last ht
  exact ⟨_, by rw [lastDownloadTime, hstart, hstop]⟩

/-! ## PANDA -/

namespace PandaAlgorithm

omit [Add D] [Mul D] [LT D] [DecidableLT D] in
theorem findLargest_inLadder (hn : 0 < videoData.averageBitrate.length) (smoothBw delta : D) :
    ∃ quality, findLargest videoData smoothBw delta = some quality ∧
      videoData.InLadder quality := by
  refine exists_foldlM (P := videoData.InLadder) (fun i hi quality hquality => ?_)
    (VideoData.inLadder_zero hn)
  rw [List.mem_range] at hi
  have hlevel : videoData.InLadder i := VideoData.inLadder_natCast (by omega)
  obtain ⟨rate, hrate⟩ := hlevel.exists_bitrate (D := D)
  rw [hrate]
  refine ⟨_, rfl, ?_⟩
  split_ifs
  · exact hlevel
  · exact hquality

omit [Add D] [Sub D] [Mul D] [Div D] in
theorem nextLevel_inLadder {last rUp rDown : ℤ} (hlast : videoData.InLadder last)
    (hup : videoData.InLadder rUp) (hdown : videoData.InLadder rDown) :
    ∃ quality, nextLevel (D := D) videoData last rUp rDown = some quality ∧
      videoData.InLadder quality := by
  obtain ⟨rateLast, hrateLast⟩ := hlast.exists_bitrate (D := D)
  obtain ⟨rateUp, hrateUp⟩ := hup.exists_bitrate (D := D)
  obtain ⟨rateDown, hrateDown⟩ := hdown.exists_bitrate (D := D)
  rw [nextLevel, hrateLast, hrateUp, hrateDown]
  refine ⟨_, rfl, ?_⟩
  split_ifs
  · exact hup
  · exact hlast
  · exact hdown

theorem replies (a : PandaAlgorithm D) {data : ClientData} (now : Time) {t : ℕ}
    (hn : 0 < data.videoData.averageBitrate.length)
    (hhistory : 0 < t → Maintained t data.throughput)
    (hlast : 0 < t → data.videoData.InLadder a.lastVideoIndex) :
    ∃ reply a', a.getNextQuality D data now t = some (reply, a') ∧
      data.videoData.InLadder reply.nextQuality ∧ data.videoData.InLadder a'.lastVideoIndex := by
  rw [getNextQuality]
  by_cases ht : t = 0
  · rw [if_pos ht]
    exact ⟨_, _, rfl, VideoData.inLadder_zero hn, VideoData.inLadder_zero hn⟩
  · have hpos := Nat.pos_of_ne_zero ht
    obtain ⟨requested, start, stop, hrequested, hstart, hstop⟩ := (hhistory hpos).exists_last hpos
    obtain ⟨rate, hrate⟩ := (hlast hpos).exists_bitrate (D := D)
    rw [if_neg ht, hrequested, hstart, hstop, hrate]
    simp only [Option.bind_eq_bind, Option.bind_some]
    -- the state in the first call that measures is another one
    generalize ha : (if t = 1 then _ else a) = a₁
    have hlast₁ : a₁.lastVideoIndex = a.lastVideoIndex := by
      rw [← ha]
      split_ifs <;> rfl
    generalize (const (-alpha) : D) * _ * _ + _ = smooth
    obtain ⟨rUp, hup, hinUp⟩ :=
      findLargest_inLadder hn smooth (const omega + const epsilon * smooth)
    obtain ⟨rDown, hdown, hinDown⟩ := findLargest_inLadder hn smooth (const omega)
    obtain ⟨quality, hquality, hin⟩ :=
      nextLevel_inLadder (D := D) (hlast₁ ▸ hlast hpos) hinUp hinDown
    obtain ⟨rateNext, hnext⟩ := hin.exists_bitrate (D := D)
    simp only [hup, hdown, hquality, hnext, Option.bind_some]
    exact ⟨_, _, rfl, hin, hin⟩

end PandaAlgorithm

/-! ## OSMP -/

namespace OsmpAlgorithm

omit [Add D] [Sub D] [Mul D] [LE D] [DecidableLE D] in
/-- Going up from a level below the top ends at a level. -/
theorem goUp_inLadder (rDownload rateCur : D) {rounds : ℕ} {lNxt : ℤ} (hzero : 0 ≤ lNxt)
    (hlt : lNxt < videoData.ratesSize - 1) (hrounds : videoData.ratesSize - 1 - lNxt ≤ rounds) :
    ∃ quality, goUp videoData rDownload rateCur (videoData.ratesSize - 1) rounds lNxt =
      some quality ∧ videoData.InLadder quality := by
  induction rounds generalizing lNxt with
  | zero => omega
  | succ rounds ih =>
    rw [goUp]
    split_ifs with htop
    · exact ⟨_, rfl, by omega, by omega⟩
    · have hnext : videoData.InLadder (lNxt + 1 + 1) := ⟨by omega, by omega⟩
      obtain ⟨rate, hrate⟩ := hnext.exists_bitrate (D := D)
      rw [hrate]
      simp only [Option.bind_eq_bind, Option.bind_some]
      split_ifs
      · exact ⟨_, rfl, by omega, by omega⟩
      · exact ih (by omega) (by omega) (by push_cast at hrounds; omega)

omit [Add D] [Sub D] [LT D] [LE D] [DecidableLT D] [DecidableLE D] in
theorem ratioBelow_isSome {lCur : ℤ} (hcur : videoData.InLadder lCur) (hpos : 0 < lCur) :
    ∃ ratio : D, ratioBelow videoData lCur = some ratio := by
  have hbelow : videoData.InLadder (lCur - 1) := by
    obtain ⟨-, hlt⟩ := hcur
    exact ⟨by omega, by omega⟩
  obtain ⟨rateBelow, hrateBelow⟩ := hbelow.exists_bitrate (D := D)
  obtain ⟨rateCur, hrateCur⟩ := hcur.exists_bitrate (D := D)
  rw [ratioBelow, hrateBelow, hrateCur]
  exact ⟨_, rfl⟩

omit [Add D] [Sub D] [LE D] [DecidableLE D] in
theorem goesUp_isSome (rDownload : D) {lCur : ℤ} (hcur : videoData.InLadder lCur) :
    ∃ up, goesUp videoData rDownload lCur = some up := by
  rw [goesUp]
  split_ifs with hzero
  · exact ⟨true, rfl⟩
  · obtain ⟨ratio, hratio⟩ := ratioBelow_isSome (D := D) hcur (by have := hcur.1; omega)
    rw [hratio]
    exact ⟨_, rfl⟩

omit [Add D] [Sub D] [LE D] [DecidableLE D] in
theorem nextLevel_inLadder (rDownload : D) {lCur : ℤ} (hcur : videoData.InLadder lCur) :
    ∃ quality, nextLevel videoData rDownload lCur = some quality ∧
      videoData.InLadder quality := by
  obtain ⟨hzero, hlt⟩ := hcur
  have hlowest : videoData.InLadder 0 := ⟨le_rfl, by omega⟩
  rw [nextLevel]
  split_ifs with hslow hpos htop
  · obtain ⟨ratio, hratio⟩ := ratioBelow_isSome (D := D) ⟨hzero, hlt⟩ hpos
    rw [hratio]
    refine ⟨_, rfl, ?_⟩
    split_ifs
    · exact hlowest
    · exact ⟨by omega, by omega⟩
  · exact ⟨0, rfl, hlowest⟩
  · obtain ⟨up, hup⟩ := goesUp_isSome rDownload ⟨hzero, hlt⟩
    obtain ⟨rateCur, hrateCur⟩ := VideoData.InLadder.exists_bitrate (D := D) ⟨hzero, hlt⟩
    rw [hup, hrateCur]
    simp only [Option.bind_eq_bind, Option.bind_some]
    split_ifs
    · exact goUp_inLadder rDownload rateCur le_rfl (by omega) (by omega)
    · exact ⟨0, rfl, hlowest⟩
  · exact ⟨0, rfl, hlowest⟩

theorem replies (a : OsmpAlgorithm) {data : ClientData} {preQuality : ℤ} {t : ℕ}
    (hpre : data.videoData.InLadder preQuality)
    (hhistory : 0 < t → Maintained t data.throughput) :
    ∃ reply a', a.getNextQuality D data preQuality t = some (reply, a') ∧
      data.videoData.InLadder reply.nextQuality := by
  obtain ⟨hzero, hlt⟩ := hpre
  have hlowest : data.videoData.InLadder 0 := ⟨le_rfl, by omega⟩
  rw [getNextQuality]
  split_ifs with ht hsome
  · exact ⟨_, _, rfl, hlowest⟩
  · have hpos := Nat.pos_of_ne_zero ht
    obtain ⟨downloadTime, htime⟩ := (hhistory hpos).exists_lastDownloadTime hpos
    rw [htime]
    simp only [Option.bind_eq_bind, Option.bind_some]
    obtain ⟨quality, hquality, hin⟩ := nextLevel_inLadder (const 1 *
      ofInt data.videoData.segmentDuration / (const 1 * ofInt downloadTime) : D) ⟨hzero, hlt⟩
    rw [hquality]
    exact ⟨_, _, rfl, hin⟩
  · exact ⟨_, _, rfl, hlowest⟩

end OsmpAlgorithm

/-! ## TOBASCO -/

namespace TobascoAlgorithm

theorem levelUp_inLadder {cur : ℤ} (hcur : videoData.InLadder cur) :
    videoData.InLadder (levelUp videoData.ratesSize cur) := by
  obtain ⟨hzero, hlt⟩ := hcur
  rw [levelUp]
  split_ifs
  · exact ⟨by omega, by omega⟩
  · exact ⟨hzero, hlt⟩

theorem levelDown_inLadder {cur : ℤ} (hcur : videoData.InLadder cur) :
    videoData.InLadder (levelDown cur) := by
  obtain ⟨hzero, hlt⟩ := hcur
  rw [levelDown]
  split_ifs
  · exact ⟨by omega, by omega⟩
  · exact ⟨hzero, hlt⟩

omit [Add D] [Sub D] [Div D] [LT D] [DecidableLT D] in
theorem fastStart_inLadder {cur rUp : ℤ} (hcur : videoData.InLadder cur)
    (hup : videoData.InLadder rUp) (bT taf : ℤ) (rateUp est : D) :
    videoData.InLadder (fastStart bT taf cur rUp rateUp est).1 := by
  rw [fastStart]
  split_ifs
  all_goals first | exact hup | exact hcur

omit [Add D] [Sub D] [Div D] [LT D] [DecidableLT D] in
theorem steady_inLadder {cur rUp rDown : ℤ} (hcur : videoData.InLadder cur)
    (hup : videoData.InLadder rUp) (hdown : videoData.InLadder rDown) (bT taf : ℤ)
    (currRate rateUp est : D) :
    videoData.InLadder (steady bT taf videoData.ratesSize cur rUp rDown currRate rateUp est).1 := by
  have hlowest : videoData.InLadder 0 := ⟨le_rfl, hcur.1.trans_lt hcur.2⟩
  rw [steady]
  split_ifs
  · exact hlowest
  · exact hdown
  · exact hcur
  · exact hcur
  · exact hcur
  · exact hcur
  · exact hup

theorem replies (a : TobascoAlgorithm) {data : ClientData} {preQuality : ℤ} {t : ℕ}
    (hpre : data.videoData.InLadder preQuality)
    (hest : t ≠ 0 → ∃ est : D, predict data.throughput 5 = some est) :
    ∃ reply a', a.getNextQuality D data preQuality t = some (reply, a') ∧
      data.videoData.InLadder reply.nextQuality := by
  rw [getNextQuality]
  by_cases ht : t = 0
  · rw [if_pos ht]
    exact ⟨_, _, rfl, le_rfl, hpre.1.trans_lt hpre.2⟩
  · obtain ⟨est, hest⟩ := hest ht
    have hup := levelUp_inLadder hpre
    obtain ⟨currRate, hcurr⟩ := hpre.exists_bitrate (D := D)
    obtain ⟨rateUp, hrateUp⟩ := hup.exists_bitrate (D := D)
    rw [if_neg ht]
    simp only [hest, hcurr, hrateUp, Option.bind_eq_bind, Option.bind_some]
    split_ifs
    · exact ⟨_, _, rfl, fastStart_inLadder hpre hup _ _ _ _⟩
    · exact ⟨_, _, rfl, steady_inLadder hpre hup (levelDown_inLadder hpre) _ _ _ _ _⟩

theorem fails (a : TobascoAlgorithm) {data : ClientData} (preQuality : ℤ) {t : ℕ} (ht : t ≠ 0)
    (hest : predict (D := D) data.throughput 5 = none) :
    a.getNextQuality D data preQuality t = none := by
  rw [getNextQuality, if_neg ht, hest]
  rfl

end TobascoAlgorithm

/-! ## FDASH -/

namespace FdashAlgorithm

omit [Add D] [Sub D] [Mul D] [Div D] [LE D] [DecidableLE D] in
theorem candidateLevel_inLadder (result : D) {preQuality : ℤ}
    (hpre : videoData.InLadder preQuality) :
    ∃ quality, candidateLevel videoData result preQuality = some quality ∧
      videoData.InLadder quality := by
  refine exists_foldlM (P := videoData.InLadder) (fun i hi quality hquality => ?_) hpre
  simp only [List.bind_eq_flatMap, List.pure_def, List.mem_flatMap, List.mem_singleton] at hi
  obtain ⟨j, hj, rfl⟩ := hi
  have hlevel := VideoData.inLadder_natCast (List.mem_range.1 hj)
  obtain ⟨rate, hrate⟩ := hlevel.exists_bitrate (D := D)
  rw [hrate]
  refine ⟨_, rfl, ?_⟩
  split_ifs
  · exact hlevel
  · exact hquality

omit [LE D] [DecidableLE D] in
theorem guardedLevel_inLadder (t currDt est : D) {quality preQuality : ℤ}
    (hquality : videoData.InLadder quality) (hpre : videoData.InLadder preQuality) :
    ∃ guarded, guardedLevel videoData t currDt est quality preQuality = some guarded ∧
      videoData.InLadder guarded := by
  obtain ⟨rate, hrate⟩ := hquality.exists_bitrate (D := D)
  obtain ⟨preRate, hpreRate⟩ := hpre.exists_bitrate (D := D)
  rw [guardedLevel, hrate, hpreRate]
  simp only [Option.bind_eq_bind, Option.bind_some]
  split_ifs
  · exact ⟨_, rfl, hpre⟩
  · exact ⟨_, rfl, hquality⟩
  · exact ⟨_, rfl, hpre⟩
  · exact ⟨_, rfl, hquality⟩
  · exact ⟨_, rfl, hquality⟩

omit [Add D] [LE D] [DecidableLE D] in
theorem delay_isSome (t currDt est : D) {quality : ℤ} (hquality : videoData.InLadder quality) :
    ∃ wait, delay videoData t currDt est quality = some wait := by
  obtain ⟨rate, hrate⟩ := hquality.exists_bitrate (D := D)
  rw [delay, hrate]
  split_ifs
  · exact ⟨_, rfl⟩
  · exact ⟨_, rfl⟩

variable [SquareRoot D]

theorem replies (a : FdashAlgorithm) {data : ClientData} {preQuality : ℤ} {t : ℕ}
    (hpre : data.videoData.InLadder preQuality)
    (hest : t ≠ 0 → ∃ est : D, predict data.throughput 5 = some est) :
    ∃ reply a', a.getNextQuality D data preQuality t = some (reply, a') ∧
      data.videoData.InLadder reply.nextQuality := by
  rw [getNextQuality]
  by_cases ht : t = 0
  · rw [if_pos ht]
    exact ⟨_, _, rfl, le_rfl, hpre.1.trans_lt hpre.2⟩
  · obtain ⟨est, hest⟩ := hest ht
    rw [if_neg ht]
    simp only [hest, Option.bind_eq_bind, Option.bind_some]
    obtain ⟨candidate, hcandidate, hin⟩ := candidateLevel_inLadder
      (output (ofInt a.targetBuffer / const 1000) (ofInt data.getBufferLevelMs / const 1000)
        (ofInt data.getBufferDiffMs / const 1000) * est) hpre
    obtain ⟨quality, hquality, hin⟩ := guardedLevel_inLadder
      (ofInt a.targetBuffer / const 1000) (ofInt data.getBufferLevelMs / const 1000) est hin hpre
    obtain ⟨wait, hwait⟩ := delay_isSome (ofInt a.targetBuffer / const 1000)
      (ofInt data.getBufferLevelMs / const 1000) est hin
    simp only [hcandidate, hquality, hwait, Option.bind_some]
    exact ⟨_, _, rfl, hin⟩

theorem fails (a : FdashAlgorithm) {data : ClientData} (preQuality : ℤ) {t : ℕ} (ht : t ≠ 0)
    (hest : predict (D := D) data.throughput 5 = none) :
    a.getNextQuality D data preQuality t = none := by
  rw [getNextQuality, if_neg ht, hest]
  rfl

end FdashAlgorithm

/-! ## SFTM -/

namespace SftmAlgorithm

omit [Add D] [Mul D] [LT D] [LE D] [DecidableLT D] [DecidableLE D] in
theorem relativeStep_isSome {high low base : ℤ} (hhigh : videoData.InLadder high)
    (hlow : videoData.InLadder low) (hbase : videoData.InLadder base) :
    ∃ e : D, relativeStep videoData high low base = some e := by
  obtain ⟨rateHigh, hrateHigh⟩ := hhigh.exists_bitrate (D := D)
  obtain ⟨rateLow, hrateLow⟩ := hlow.exists_bitrate (D := D)
  obtain ⟨rateBase, hrateBase⟩ := hbase.exists_bitrate (D := D)
  rw [relativeStep, hrateHigh, hrateLow, hrateBase]
  exact ⟨_, rfl⟩

omit [Add D] [Mul D] [LE D] [DecidableLE D] in
theorem largestStepUp_isSome : ∃ e : D, largestStepUp videoData = some e := by
  have hround : ∀ i ∈ List.range (videoData.averageBitrate.length - 1), ∀ emax : D, True →
      ∃ emax', (do
        let e ← relativeStep videoData ((i : ℤ) + 1) i i
        some (maxOf emax e)) = some emax' ∧ True := by
    intro i hi emax _
    rw [List.mem_range] at hi
    have hlow : videoData.InLadder i := VideoData.inLadder_natCast (by omega)
    have hhigh : videoData.InLadder ((i + 1 : ℕ) : ℤ) := VideoData.inLadder_natCast (by omega)
    obtain ⟨e, he⟩ := relativeStep_isSome (D := D) hhigh hlow hlow
    rw [Nat.cast_succ] at he
    rw [he]
    exact ⟨_, rfl, trivial⟩
  obtain ⟨e, he, -⟩ := exists_foldlM hround (s := const 0) trivial
  exact ⟨e, he⟩

omit [Add D] [Mul D] [LE D] [DecidableLE D] in
theorem smallestStepDown_isSome : ∃ e : D, smallestStepDown videoData = some e := by
  have hround : ∀ i ∈ List.range' 1 (videoData.averageBitrate.length - 1), ∀ emin : D, True →
      ∃ emin', (do
        let e ← relativeStep videoData i ((i : ℤ) - 1) i
        some (minOf emin e)) = some emin' ∧ True := by
    intro i hi emin _
    rw [List.mem_range'_1] at hi
    have hhigh : videoData.InLadder i := VideoData.inLadder_natCast (by omega)
    have hlow : videoData.InLadder ((i : ℤ) - 1) := by
      obtain ⟨-, hlt⟩ := hhigh
      exact ⟨by omega, by omega⟩
    obtain ⟨e, he⟩ := relativeStep_isSome (D := D) hhigh hlow hhigh
    rw [he]
    exact ⟨_, rfl, trivial⟩
  obtain ⟨e, he, -⟩ := exists_foldlM hround (s := const maxDouble) trivial
  exact ⟨e, he⟩

omit [Add D] [Sub D] [Mul D] [Div D] [LT D] [DecidableLT D] in
theorem switchDown_inLadder (wanted : D) {is : List ℕ}
    (his : ∀ i ∈ is, i < videoData.averageBitrate.length) {quality : ℤ}
    (hquality : videoData.InLadder quality) :
    ∃ quality', switchDown videoData wanted is quality = some quality' ∧
      videoData.InLadder quality' := by
  induction is generalizing quality with
  | nil => exact ⟨quality, rfl, hquality⟩
  | cons i is ih =>
    have hlevel := VideoData.inLadder_natCast (his i List.mem_cons_self)
    obtain ⟨rate, hrate⟩ := hlevel.exists_bitrate (D := D)
    rw [switchDown, hrate]
    simp only [Option.bind_eq_bind, Option.bind_some]
    split_ifs
    · exact ⟨quality, rfl, hquality⟩
    · exact ih (fun j hj => his j (List.mem_cons_of_mem i hj)) hlevel

omit [Add D] [Mul D] [LT D] [LE D] [DecidableLT D] [DecidableLE D] in
/-- The steps from the current level. -/
theorem currentSteps_isSome {rateInd : ℤ} (hind : videoData.InLadder rateInd) :
    (∃ ecU : D, (if rateInd < videoData.ratesSize - 1 then
        relativeStep videoData (rateInd + 1) rateInd rateInd else some (const maxDouble)) =
          some ecU) ∧
      ∃ ecD : D, (if rateInd > 0 then relativeStep videoData rateInd (rateInd - 1) rateInd
        else some (const 1)) = some ecD := by
  obtain ⟨hzero, hlt⟩ := hind
  constructor
  · split_ifs
    · exact relativeStep_isSome ⟨by omega, by omega⟩ ⟨hzero, hlt⟩ ⟨hzero, hlt⟩
    · exact ⟨_, rfl⟩
  · split_ifs
    · exact relativeStep_isSome ⟨hzero, hlt⟩ ⟨by omega, by omega⟩ ⟨hzero, hlt⟩
    · exact ⟨_, rfl⟩

/-- The choice of the level, for the steps from the current one and those of the ladder. -/
theorem nextLevel_eq (videoData : VideoData) (sftm : D) (rateInd : ℤ) :
    nextLevel videoData sftm rateInd =
      (if rateInd < videoData.ratesSize - 1 then
        relativeStep videoData (rateInd + 1) rateInd rateInd else some (const maxDouble)).bind
      fun ecU => (largestStepUp videoData).bind fun emaxU =>
      (if rateInd > 0 then relativeStep videoData rateInd (rateInd - 1) rateInd
        else some (const 1)).bind fun ecD => (smallestStepDown videoData).bind fun eminD =>
      if sftm > const 1 + minOf emaxU (const 2 * ecU) ∧ rateInd < videoData.ratesSize - 1 then
        some (rateInd + 1)
      else if sftm < const 1 - maxOf (const 2 * eminD) ecD ∧ rateInd ≠ 0 then
        (videoData.bitrate rateInd).bind fun rate =>
          switchDown videoData (sftm * rate) (List.range rateInd.toNat) rateInd
      else some rateInd := by
  by_cases hup : rateInd < videoData.ratesSize - 1
  · by_cases hdown : rateInd > 0
    · simp only [nextLevel, if_pos hup, if_pos hdown]
      rfl
    · simp only [nextLevel, if_pos hup, if_neg hdown]
      rfl
  · by_cases hdown : rateInd > 0
    · simp only [nextLevel, if_neg hup, if_pos hdown]
      rfl
    · simp only [nextLevel, if_neg hup, if_neg hdown]
      rfl

theorem nextLevel_inLadder (sftm : D) {rateInd : ℤ} (hind : videoData.InLadder rateInd) :
    ∃ quality, nextLevel videoData sftm rateInd = some quality ∧
      videoData.InLadder quality := by
  obtain ⟨⟨ecU, hecU⟩, ecD, hecD⟩ := currentSteps_isSome (D := D) hind
  obtain ⟨emaxU, hemaxU⟩ : ∃ e : D, largestStepUp videoData = some e := largestStepUp_isSome
  obtain ⟨eminD, heminD⟩ : ∃ e : D, smallestStepDown videoData = some e :=
    smallestStepDown_isSome
  obtain ⟨rate, hrate⟩ := hind.exists_bitrate (D := D)
  rw [nextLevel_eq, hecU, hemaxU, hecD, heminD, hrate]
  simp only [Option.bind_some]
  obtain ⟨hzero, hlt⟩ := hind
  split_ifs with hup hdown
  · exact ⟨_, rfl, by omega, by omega⟩
  · refine switchDown_inLadder _ (fun i hi => ?_) ⟨hzero, hlt⟩
    rw [List.mem_range] at hi
    rw [VideoData.ratesSize] at hlt
    omega
  · exact ⟨_, rfl, hzero, hlt⟩

theorem replies (a : SftmAlgorithm) {data : ClientData} {preQuality : ℤ} {t : ℕ}
    (hpre : data.videoData.InLadder preQuality)
    (hhistory : 0 < t → Maintained t data.throughput) :
    ∃ reply a', a.getNextQuality D data preQuality t = some (reply, a') ∧
      data.videoData.InLadder reply.nextQuality := by
  have hpos : 0 < data.videoData.ratesSize := hpre.1.trans_lt hpre.2
  rw [getNextQuality]
  by_cases ht : t = 0
  · rw [if_pos ht]
    exact ⟨_, _, rfl, le_rfl, hpos⟩
  · have htime := Nat.pos_of_ne_zero ht
    obtain ⟨sft, hsft⟩ := (hhistory htime).exists_lastDownloadTime htime
    have htop : data.videoData.InLadder (data.videoData.ratesSize - 1) := ⟨by omega, by omega⟩
    obtain ⟨bMax, hmax⟩ := htop.exists_bitrate (D := D)
    obtain ⟨bMin, hmin⟩ := VideoData.InLadder.exists_bitrate (D := D) ⟨le_rfl, hpos⟩
    rw [if_neg ht]
    simp only [hsft, hmax, hmin, Option.bind_eq_bind, Option.bind_some]
    obtain ⟨quality, hquality, hin⟩ := nextLevel_inLadder (minOf
      (ofInt data.videoData.segmentDuration) (a.fetchTime (D := D) data t).1 / ofInt sft) hpre
    rw [hquality]
    exact ⟨_, _, rfl, hin⟩

end SftmAlgorithm

/-! ## SVAA -/

namespace SvaaAlgorithm

omit [Add D] [Sub D] [Mul D] [Div D] [LE D] [DecidableLE D] in
theorem findLevel_inLadder (tK : D) {i : ℕ} (hi : i < videoData.averageBitrate.length) :
    ∃ quality, findLevel videoData tK i = some quality ∧ videoData.InLadder quality := by
  induction i with
  | zero =>
    have hlowest := VideoData.inLadder_zero hi
    obtain ⟨rate, hrate⟩ := hlowest.exists_bitrate (D := D)
    rw [findLevel, hrate]
    exact ⟨0, rfl, hlowest⟩
  | succ i ih =>
    have hlevel := VideoData.inLadder_natCast hi
    rw [Nat.cast_succ] at hlevel
    obtain ⟨rate, hrate⟩ := hlevel.exists_bitrate (D := D)
    rw [findLevel, hrate]
    simp only [Option.bind_eq_bind, Option.bind_some]
    split_ifs
    · exact ih (Nat.lt_of_succ_lt hi)
    · exact ⟨_, rfl, hlevel⟩

variable [Exponential D]

theorem replies (a : SvaaAlgorithm) {data : ClientData} {preQuality : ℤ} {t : ℕ}
    (hpre : data.videoData.InLadder preQuality)
    (hest : t ≠ 0 → ∃ est : D, predict data.throughput 5 = some est) :
    ∃ reply a', a.getNextQuality D data preQuality t = some (reply, a') ∧
      data.videoData.InLadder reply.nextQuality := by
  have hpos : 0 < data.videoData.ratesSize := hpre.1.trans_lt hpre.2
  rw [getNextQuality]
  by_cases ht : t = 0
  · rw [if_pos ht]
    exact ⟨_, _, rfl, le_rfl, hpos⟩
  · obtain ⟨est, hest⟩ := hest ht
    obtain ⟨currRate, hcurr⟩ := hpre.exists_bitrate (D := D)
    have hlen : data.videoData.averageBitrate.length - 1 <
        data.videoData.averageBitrate.length := by
      rw [VideoData.ratesSize] at hpos
      omega
    obtain ⟨quality, hquality, hin⟩ := findLevel_inLadder est hlen
    rw [if_neg ht]
    simp only [hest, hcurr, hquality, Option.bind_eq_bind, Option.bind_some]
    split_ifs
    · exact ⟨_, _, rfl, hin⟩
    · exact ⟨_, _, rfl, hin⟩
    · exact ⟨_, _, rfl, hpre⟩
    · exact ⟨_, _, rfl, hpre⟩
    · exact ⟨_, _, rfl, hpre⟩

theorem fails (a : SvaaAlgorithm) {data : ClientData} (preQuality : ℤ) {t : ℕ} (ht : t ≠ 0)
    (hest : predict (D := D) data.throughput 5 = none) :
    a.getNextQuality D data preQuality t = none := by
  rw [getNextQuality, if_neg ht, hest]
  rfl

end SvaaAlgorithm

/-! ## The six algorithms -/

/-- One of the six, with its state. -/
inductive LevelAlgorithm (D : Type)
  | panda (a : PandaAlgorithm D)
  | tobasco (a : TobascoAlgorithm)
  | osmp (a : OsmpAlgorithm)
  | fdash (a : FdashAlgorithm)
  | sftm (a : SftmAlgorithm)
  | svaa (a : SvaaAlgorithm)

namespace LevelAlgorithm

variable [SquareRoot D] [Exponential D]

/-- `GetNextQuality` of whichever algorithm it is. -/
def getNextQuality (data : ClientData) (now : Time) (preQuality : ℤ) (segmentCount : ℕ) :
    LevelAlgorithm D → Option (AlgorithmReply × LevelAlgorithm D)
  | panda a => (a.getNextQuality D data now segmentCount).map (Prod.map id panda)
  | tobasco a => (a.getNextQuality D data preQuality segmentCount).map (Prod.map id tobasco)
  | osmp a => (a.getNextQuality D data preQuality segmentCount).map (Prod.map id osmp)
  | fdash a => (a.getNextQuality D data preQuality segmentCount).map (Prod.map id fdash)
  | sftm a => (a.getNextQuality D data preQuality segmentCount).map (Prod.map id sftm)
  | svaa a => (a.getNextQuality D data preQuality segmentCount).map (Prod.map id svaa)

/-- It asks the predicator, with each call but the first. -/
def Predicts : LevelAlgorithm D → Prop
  | tobasco _ | fdash _ | svaa _ => True
  | panda _ | osmp _ | sftm _ => False

/-- The level it has in its own state, once it has replied one, is in the ladder. -/
def Ready (videoData : VideoData) (t : ℕ) : LevelAlgorithm D → Prop
  | panda a => 0 < t → videoData.InLadder a.lastVideoIndex
  | _ => True

/-- The level of the last reply and the algorithm, before a call. The first call is told
    level zero, each other the level of the last reply. -/
def played (a : LevelAlgorithm D) (data : ℕ → ClientData) (now : ℕ → Time) :
    ℕ → Option (ℤ × LevelAlgorithm D)
  | 0 => some (0, a)
  | t + 1 => do
    let (preQuality, a) ← played a data now t
    let (reply, a) ← a.getNextQuality (data t) (now t) preQuality t
    some (reply.nextQuality, a)

omit [Add D] [Sub D] [Mul D] [Div D] [LT D] [LE D] [DecidableLT D] [DecidableLE D] [Double D]
  [SquareRoot D] [Exponential D] in
/-- A reply of one of them, as one of the six. -/
theorem exists_map {α : Type} {f : α → LevelAlgorithm D} {x : Option (AlgorithmReply × α)}
    {P : AlgorithmReply → Prop} {Q : LevelAlgorithm D → Prop}
    (h : ∃ reply a', x = some (reply, a') ∧ P reply ∧ Q (f a')) :
    ∃ reply a', x.map (Prod.map id f) = some (reply, a') ∧ P reply ∧ Q a' := by
  obtain ⟨reply, a', rfl, hP, hQ⟩ := h
  exact ⟨reply, f a', rfl, hP, hQ⟩

/-- A call replies a level of the ladder, if what it is shown took some time. -/
theorem getNextQuality_replies (a : LevelAlgorithm D) {data : ClientData} (now : Time)
    {preQuality : ℤ} {t : ℕ} (hpre : data.videoData.InLadder preQuality)
    (hready : a.Ready data.videoData t) (hhistory : 0 < t → Maintained t data.throughput)
    (htimed : a.Predicts → 0 < t → Timed data.throughput) :
    ∃ reply a', a.getNextQuality data now preQuality t = some (reply, a') ∧
      data.videoData.InLadder reply.nextQuality ∧
      (a'.Ready data.videoData (t + 1) ∧ (a'.Predicts ↔ a.Predicts)) := by
  have hest : a.Predicts → t ≠ 0 → ∃ est : D, predict data.throughput 5 = some est := by
    intro hpredicts ht
    have hpos := Nat.pos_of_ne_zero ht
    exact (predict_isSome_iff (hhistory hpos) hpos).2 (htimed hpredicts hpos)
  cases a with
  | panda a =>
    have hn : 0 < data.videoData.averageBitrate.length := by
      obtain ⟨hzero, hlt⟩ := hpre
      rw [VideoData.ratesSize] at hlt
      omega
    obtain ⟨reply, a', heq, hin, hlast⟩ := a.replies now hn hhistory hready
    exact exists_map ⟨reply, a', heq, hin, fun _ => hlast, Iff.rfl⟩
  | tobasco a =>
    obtain ⟨reply, a', heq, hin⟩ := a.replies (D := D) hpre (hest trivial)
    exact exists_map ⟨reply, a', heq, hin, trivial, Iff.rfl⟩
  | osmp a =>
    obtain ⟨reply, a', heq, hin⟩ := a.replies (D := D) hpre hhistory
    exact exists_map ⟨reply, a', heq, hin, trivial, Iff.rfl⟩
  | fdash a =>
    obtain ⟨reply, a', heq, hin⟩ := a.replies (D := D) hpre (hest trivial)
    exact exists_map ⟨reply, a', heq, hin, trivial, Iff.rfl⟩
  | sftm a =>
    obtain ⟨reply, a', heq, hin⟩ := a.replies (D := D) hpre hhistory
    exact exists_map ⟨reply, a', heq, hin, trivial, Iff.rfl⟩
  | svaa a =>
    obtain ⟨reply, a', heq, hin⟩ := a.replies (D := D) hpre (hest trivial)
    exact exists_map ⟨reply, a', heq, hin, trivial, Iff.rfl⟩

/-- A call that asks the predicator has no reply, if some of what it is shown took no time. -/
theorem getNextQuality_fails (a : LevelAlgorithm D) {data : ClientData} (now : Time)
    (preQuality : ℤ) {t : ℕ} (ht : 0 < t) (hpredicts : a.Predicts)
    (hhistory : Maintained t data.throughput) (huntimed : ¬ Timed data.throughput) :
    a.getNextQuality data now preQuality t = none := by
  have hest : predict (D := D) data.throughput 5 = none := by
    rw [Option.eq_none_iff_forall_ne_some]
    exact fun est heq => huntimed ((predict_isSome_iff hhistory ht).1 ⟨est, heq⟩)
  cases a with
  | panda a => exact hpredicts.elim
  | tobasco a => rw [getNextQuality, a.fails preQuality ht.ne' hest, Option.map_none]
  | osmp a => exact hpredicts.elim
  | fdash a => rw [getNextQuality, a.fails preQuality ht.ne' hest, Option.map_none]
  | sftm a => exact hpredicts.elim
  | svaa a => rw [getNextQuality, a.fails preQuality ht.ne' hest, Option.map_none]

/-! ## All calls of a run -/

variable {a : LevelAlgorithm D} {data : ℕ → ClientData} {now : ℕ → Time}

variable (now) in
/-- Before each call the level of the last reply is in the ladder, as long as the calls are
    shown what took some time. -/
theorem played_inLadder (hladder : ∀ t, (data t).videoData = videoData)
    (hn : 0 < videoData.averageBitrate.length)
    (hhistory : ∀ t, 0 < t → Maintained t (data t).throughput) {t : ℕ}
    (htimed : a.Predicts → ∀ s, 0 < s → s < t → Timed (data s).throughput) :
    ∃ quality a', a.played data now t = some (quality, a') ∧ videoData.InLadder quality ∧
      a'.Ready videoData t ∧ (a'.Predicts ↔ a.Predicts) := by
  induction t with
  | zero =>
    refine ⟨0, a, rfl, VideoData.inLadder_zero hn, ?_, Iff.rfl⟩
    cases a
    case panda a => exact fun h => absurd h (lt_irrefl 0)
    all_goals trivial
  | succ t ih =>
    obtain ⟨quality, a₁, heq, hin, hready, hpredicts⟩ :=
      ih fun h s hs hlt => htimed h s hs (Nat.lt_succ_of_lt hlt)
    have hlevels := hladder t
    obtain ⟨reply, a', hreply, hin', hready', hsame⟩ := a₁.getNextQuality_replies (now t)
      (hlevels ▸ hin) (hlevels ▸ hready) (hhistory t)
      fun h hpos => htimed (hpredicts.1 h) t hpos (Nat.lt_succ_self t)
    refine ⟨reply.nextQuality, a', ?_, hlevels ▸ hin', hlevels ▸ hready', hsame.trans hpredicts⟩
    rw [played, heq]
    simp only [Option.bind_eq_bind, Option.bind_some, hreply]

/-- All calls of a run reply a level of the ladder, exactly if the algorithm does not ask the
    predicator, or the segments it looks at ended after they started. -/
theorem replies_iff (a : LevelAlgorithm D) (data : ℕ → ClientData) (now : ℕ → Time)
    (videoData : VideoData) (hladder : ∀ t, (data t).videoData = videoData)
    (hn : 0 < videoData.averageBitrate.length)
    (hhistory : ∀ t, 0 < t → Maintained t (data t).throughput) (calls : ℕ) :
    (∀ t < calls, ∃ quality a', a.played data now (t + 1) = some (quality, a') ∧
        0 ≤ quality ∧ quality < videoData.averageBitrate.length) ↔
      (a.Predicts → ∀ t, 0 < t → t < calls → Timed (data t).throughput) := by
  refine ⟨fun hreplies hpredicts t ht hlt => ?_, fun htimed t hlt => ?_⟩
  · induction t using Nat.strong_induction_on with
    | _ t ih =>
      by_contra huntimed
      obtain ⟨pre, a₁, heq, -, -, hsame⟩ := played_inLadder (a := a) now hladder hn
        hhistory fun _ s hs hst => ih s hst hs (hst.trans hlt)
      obtain ⟨quality, a', hplayed, -⟩ := hreplies t hlt
      rw [played, heq] at hplayed
      simp only [Option.bind_eq_bind, Option.bind_some, a₁.getNextQuality_fails (now t) pre ht
        (hsame.2 hpredicts) (hhistory t ht) huntimed] at hplayed
      cases hplayed
  · obtain ⟨quality, a', heq, hin, -⟩ := played_inLadder (a := a) now hladder hn hhistory
      fun h s hs hst => htimed h s hs (Nat.lt_of_lt_of_le hst hlt)
    exact ⟨quality, a', heq, hin⟩

end LevelAlgorithm

end

namespace LevelAlgorithm

/-- A table of one level. -/
def oneLevel : VideoData := ⟨[[500, 500, 500]], [4000], 1000⟩

/-- Segments that all started at once and took this long. -/
def segments (duration : Time) (t : ℕ) : ClientData where
  videoData := oneLevel
  throughput := {
    transmissionRequested := List.replicate t 0
    transmissionStart := List.replicate t 0
    transmissionEnd := List.replicate t duration
    bytesReceived := List.replicate t 500 }

theorem maintained_segments (duration : Time) (t : ℕ) :
    Maintained t (segments duration t).throughput :=
  ⟨List.length_replicate, List.length_replicate, List.length_replicate, List.length_replicate⟩

/-- With segments of a second, SVAA plays the level. -/
theorem replies_one_second : ∃ quality a', (svaa (D := ℝ) {}).played
    (segments 1000000) (fun _ => 0) 3 = some (quality, a') ∧
      0 ≤ quality ∧ quality < oneLevel.averageBitrate.length := by
  refine (replies_iff (svaa (D := ℝ) {}) (segments 1000000) (fun _ => 0) oneLevel (fun _ => rfl)
    (by decide) (fun t _ => maintained_segments _ t) 3).2 (fun _ t _ _ i _ start stop hs he => ?_)
    2 (by decide)
  rw [segments, List.getElem?_replicate] at hs he
  split_ifs at hs he
  cases hs
  cases he
  decide

/-- With a segment that took no time, TOBASCO fails. -/
theorem replies_no_time : ¬ ∀ (a : LevelAlgorithm ℝ) (data : ℕ → ClientData) (now : ℕ → Time)
    (videoData : VideoData), (∀ t, (data t).videoData = videoData) →
    0 < videoData.averageBitrate.length →
    (∀ t, 0 < t → Maintained t (data t).throughput) → ∀ t, ∃ quality a',
      a.played data now (t + 1) = some (quality, a') ∧ 0 ≤ quality ∧
        quality < videoData.averageBitrate.length := by
  intro h
  obtain ⟨quality, a', hplayed, -⟩ := h (tobasco {}) (segments 0) (fun _ => 0) oneLevel
    (fun _ => rfl) (by decide) (fun t _ => maintained_segments 0 t) 1
  have huntimed : ¬ Timed (segments 0 1).throughput := fun htimed =>
    absurd (htimed 0 (by decide) 0 0 rfl rfl) (lt_irrefl 0)
  have hfails := getNextQuality_fails (tobasco (D := ℝ) {}) 0 0 Nat.one_pos trivial
    (maintained_segments 0 1) huntimed
  have hfirst : (tobasco (D := ℝ) {}).played (segments 0) (fun _ => 0) 1 =
      some (0, tobasco {}) := rfl
  rw [played, hfirst] at hplayed
  simp only [Option.bind_eq_bind, Option.bind_some, hfails] at hplayed
  cases hplayed

end LevelAlgorithm

end DashDim
