import DashDim.Dash.Algorithms

/-!
# Going up slowly

FESTIVE goes up one level at a time, and from a level only after as many calls in a row
have wanted to as its number says, and one more. A counter counts these calls: it is reset
when a call wants to go down or to stay, and when a level is left upwards. A call that wants
to go up, but does not for its score, counts too.

* `nextLevel_cases`: what a call does to the level and the counter;
* `Confirmed`: the calls that the counter counts were all at the present level, and wanted
  to go up;
* `up_confirmed`: a call that goes up is the last of them.
-/

namespace DashDim

namespace FestiveAlgorithm

variable {D : Type} [Add D] [Sub D] [Mul D] [Div D] [LT D] [LE D]
  [DecidableLT D] [DecidableLE D] [Double D]

/-- The constructor -/
def new (target horizon delta : ℤ) (random : ℕ → ℕ) : FestiveAlgorithm :=
  { targetBuffer := target, horizon := horizon, delta := delta, random := random }

/-- The level that a call wants to go to, if it computes one. -/
def wantedLevel (D : Type) [Add D] [Sub D] [Mul D] [Div D] [LT D] [LE D]
    [DecidableLT D] [DecidableLE D] [Double D] (data : ClientData) : Option ℤ := do
  let predictBandwidth : D ← predict data.throughput kThroughputHorizon
  affordableLevel data.videoData predictBandwidth

/-- The level that is replied before a call, and the algorithm: each call is shown the reply
    of the one before it. -/
def before (D : Type) [Add D] [Sub D] [Mul D] [Div D] [LT D] [LE D]
    [DecidableLT D] [DecidableLE D] [Double D] (a : FestiveAlgorithm) (preQuality : ℤ)
    (data : ℕ → ClientData) : ℕ → Option (ℤ × FestiveAlgorithm)
  | 0 => some (preQuality, a)
  | t + 1 => do
    let (preQuality, a) ← before D a preQuality data t
    let (reply, a) ← a.getNextQuality D (data t) preQuality t
    some (reply.nextQuality, a)

omit [Add D] [Sub D] [Mul D] [Div D] [LT D] [DecidableLT D] in
/-- The level wanted is in the table, if there is one. -/
theorem targetLevel_lt {videoData : VideoData} {tempBitrate : D} {i : ℕ} {bTarget wanted : ℤ}
    (hpos : 0 < i) (h : targetLevel videoData tempBitrate i bTarget = some wanted) :
    wanted < i := by
  induction i generalizing bTarget with
  | zero => exact absurd hpos (lt_irrefl 0)
  | succ i ih =>
    rw [targetLevel, Option.bind_eq_bind, Option.bind_eq_some_iff] at h
    obtain ⟨rate, -, h⟩ := h
    split_ifs at h
    · cases h
      omega
    · rcases Nat.eq_zero_or_pos i with rfl | hi
      · cases h
        omega
      · have hlt := ih hi h
        omega

omit [Add D] [Sub D] [Mul D] [Div D] [LT D] [DecidableLT D] in
theorem targetLevel_le {videoData : VideoData} {tempBitrate : D} {wanted : ℤ}
    (h : targetLevel videoData tempBitrate videoData.averageBitrate.length 0 = some wanted) :
    wanted ≤ max (videoData.ratesSize - 1) 0 := by
  rcases Nat.eq_zero_or_pos videoData.averageBitrate.length with hnil | hpos
  · rw [hnil, targetLevel] at h
    cases h
    exact le_max_right _ _
  · have hlt := targetLevel_lt hpos h
    exact le_max_of_le_left (by rw [VideoData.ratesSize]; omega)

/-- The thresholds are the levels. -/
theorem readAt_kSwitchUpThreshold {k : ℕ} {threshold : ℤ}
    (h : readAt kSwitchUpThreshold k = some threshold) : threshold = k := by
  have hlevels : kSwitchUpThreshold = (List.range 10).map Nat.cast := by decide
  rw [readAt, if_neg (by omega), Int.toNat_natCast, hlevels, List.getElem?_map,
    Option.map_eq_some_iff] at h
  obtain ⟨level, hlevel, rfl⟩ := h
  obtain ⟨-, rfl⟩ := List.getElem?_eq_some_iff.1 hlevel
  rw [List.getElem_range]

/-- A call resets the counter, and if it goes up, enough calls have been counted; or it
    stays, and is counted. -/
theorem nextLevel_cases {a : FestiveAlgorithm} {data : ClientData} {bCur quality count : ℤ}
    (h : a.nextLevel D data bCur = some (quality, count)) :
    count = 0 ∧ (∀ k : ℕ, bCur = k → quality = k + 1 →
        k ≤ a.switchUpCount ∧ ∃ wanted, wantedLevel D data = some wanted ∧ k < wanted) ∨
      quality = bCur ∧ count = a.switchUpCount + 1 ∧
        ∃ wanted, wantedLevel D data = some wanted ∧ bCur < wanted := by
  simp only [nextLevel, Option.bind_eq_bind, Option.bind_eq_some_iff] at h
  obtain ⟨predictBandwidth, hpredict, wanted, hwanted, ⟨bRef, switchUpCount⟩, href, h⟩ := h
  have hle := targetLevel_le hwanted
  have hwants : wantedLevel D data = some wanted := by
    rw [wantedLevel, hpredict]
    exact hwanted
  -- the level is the current one, or that of reference
  have hquality : quality = bCur ∧ count = switchUpCount ∨
      quality = max (min bRef (data.videoData.ratesSize - 1)) 0 ∧ quality ≠ bCur ∧
        count = if quality > bCur then 0 else switchUpCount := by
    have hclamp : (if (if bRef > data.videoData.ratesSize - 1 then data.videoData.ratesSize - 1
        else bRef) < 0 then 0 else if bRef > data.videoData.ratesSize - 1 then
          data.videoData.ratesSize - 1 else bRef) =
        max (min bRef (data.videoData.ratesSize - 1)) 0 := by
      split_ifs <;> omega
    simp only [hclamp] at h
    by_cases hne : max (min bRef (data.videoData.ratesSize - 1)) 0 ≠ bCur
    · rw [if_pos hne] at h
      obtain ⟨scoreCur, -, h⟩ := Option.bind_eq_some_iff.1 h
      obtain ⟨scoreRef, -, h⟩ := Option.bind_eq_some_iff.1 h
      by_cases hscore : scoreCur ≤ scoreRef
      · rw [if_pos hscore] at h
        cases h
        exact .inl ⟨rfl, rfl⟩
      · rw [if_neg hscore] at h
        cases h
        exact .inr ⟨rfl, hne, rfl⟩
    · rw [if_neg hne] at h
      cases h
      exact .inl ⟨rfl, rfl⟩
  rw [referenceLevel] at href
  split_ifs at href with hup hdown
  · -- the call wants to go up
    rw [Option.bind_eq_bind, Option.bind_eq_some_iff] at href
    obtain ⟨threshold, hthreshold, href⟩ := href
    rcases hquality with ⟨rfl, rfl⟩ | ⟨hq, hne, hcount⟩
    · cases href
      exact .inr ⟨rfl, rfl, wanted, hwants, hup⟩
    · have hgt : quality > bCur := by
        split_ifs at href <;> cases href <;> omega
      rw [if_pos hgt] at hcount
      refine .inl ⟨hcount, ?_⟩
      rintro k rfl hk
      refine ⟨?_, wanted, hwants, hup⟩
      rw [readAt_kSwitchUpThreshold hthreshold] at href
      split_ifs at href with hmore
      · omega
      · cases href
        omega
  all_goals
    cases href
    refine .inl ⟨?_, ?_⟩
    · rcases hquality with ⟨-, hcount⟩ | ⟨-, -, hcount⟩
      · exact hcount
      · rw [hcount, ite_self]
    · rintro k rfl hk
      omega

/-- What a run did before a call: the calls that the counter counts were at the present
    level, and wanted to go up. -/
def Confirmed (D : Type) [Add D] [Sub D] [Mul D] [Div D] [LT D] [LE D]
    [DecidableLT D] [DecidableLE D] [Double D] (a₀ : FestiveAlgorithm) (preQuality₀ : ℤ)
    (data : ℕ → ClientData) (t : ℕ) (preQuality count : ℤ) : Prop :=
  ∀ s : ℕ, (t : ℤ) - count ≤ s → s < t → 0 < s ∧ ∃ a wanted,
    before D a₀ preQuality₀ data s = some (preQuality, a) ∧
      wantedLevel D (data s) = some wanted ∧ preQuality < wanted

section run

variable {a₀ : FestiveAlgorithm} {preQuality₀ : ℤ} {data : ℕ → ClientData}

/-- A call that goes on counting. -/
theorem Confirmed.next {t : ℕ} {preQuality count : ℤ} {a : FestiveAlgorithm} {wanted : ℤ}
    (h : Confirmed D a₀ preQuality₀ data t preQuality count) (ht : 0 < t)
    (hbefore : before D a₀ preQuality₀ data t = some (preQuality, a))
    (hwants : wantedLevel D (data t) = some wanted) (hup : preQuality < wanted) :
    Confirmed D a₀ preQuality₀ data (t + 1) preQuality (count + 1) := by
  intro s hs hlt
  rcases Nat.lt_succ_iff_lt_or_eq.1 hlt with hlt | rfl
  · exact h s (by omega) hlt
  · exact ⟨ht, a, wanted, hbefore, hwants, hup⟩

/-- A call after the first one. -/
theorem nextLevel_of_before {t : ℕ} (ht : 0 < t) {preQuality quality : ℤ}
    {a a' : FestiveAlgorithm} (hbefore : before D a₀ preQuality₀ data t = some (preQuality, a))
    (h : before D a₀ preQuality₀ data (t + 1) = some (quality, a')) :
    a.nextLevel D (data t) preQuality = some (quality, a'.switchUpCount) := by
  simp only [before, hbefore, Option.bind_eq_bind, Option.bind_some, getNextQuality,
    if_neg ht.ne', Option.bind_eq_some_iff] at h
  obtain ⟨⟨reply, a₁⟩, ⟨⟨quality₁, count₁⟩, hnext, hreply⟩, heq⟩ := h
  cases hreply
  cases heq
  exact hnext

/-- The counter counts in every run. -/
theorem confirmed (h₀ : a₀.switchUpCount = 0) {t : ℕ} {preQuality : ℤ} {a : FestiveAlgorithm}
    (h : before D a₀ preQuality₀ data t = some (preQuality, a)) :
    Confirmed D a₀ preQuality₀ data t preQuality a.switchUpCount := by
  induction t generalizing preQuality a with
  | zero => exact fun s _ hlt => absurd hlt (Nat.not_lt_zero s)
  | succ t ih =>
    obtain ⟨⟨quality, a₁⟩, hbefore, -⟩ := Option.bind_eq_some_iff.1 h
    have hcounted := ih hbefore
    have hreset : a.switchUpCount = 0 → Confirmed D a₀ preQuality₀ data (t + 1) preQuality
        a.switchUpCount := fun hzero s hs hlt => by omega
    rcases Nat.eq_zero_or_pos t with rfl | ht
    · -- the first call replies the lowest level, and counts nothing
      cases hbefore
      simp only [before, Option.bind_eq_bind, Option.bind_some, getNextQuality, if_pos] at h
      cases h
      exact hreset h₀
    · obtain ⟨hzero, -⟩ | ⟨rfl, hcount, wanted, hwants, hup⟩ :=
        nextLevel_cases (nextLevel_of_before ht hbefore h)
      · exact hreset hzero
      · rw [hcount]
        exact hcounted.next ht hbefore hwants hup

end run

/-- A call that goes up from a level is the last of as many as the level says, and one more:
    all of them are at the level, and want to go up. -/
theorem up_confirmed (target horizon delta : ℤ) (random : ℕ → ℕ) (preQuality₀ : ℤ)
    (data : ℕ → ClientData) {t k : ℕ} {a a' : FestiveAlgorithm}
    (h : before D (.new target horizon delta random) preQuality₀ data t = some ((k : ℤ), a))
    (hup : before D (.new target horizon delta random) preQuality₀ data (t + 1) =
      some ((k : ℤ) + 1, a')) :
    k < t ∧ ∀ s, t - k ≤ s → s ≤ t → ∃ aₛ wanted,
      before D (.new target horizon delta random) preQuality₀ data s = some ((k : ℤ), aₛ) ∧
        wantedLevel D (data s) = some wanted ∧ (k : ℤ) < wanted := by
  rcases Nat.eq_zero_or_pos t with rfl | ht
  · cases h
    simp only [before, Option.bind_eq_bind, Option.bind_some, getNextQuality, if_pos] at hup
    cases hup
  · have hcounted := confirmed rfl h
    have hnext := nextLevel_cases (nextLevel_of_before ht h hup)
    rcases hnext with ⟨-, hlevel⟩ | ⟨hstay, -⟩
    · obtain ⟨hcount, wanted, hwants, hgt⟩ := hlevel k rfl rfl
      refine ⟨?_, fun s hs hle => ?_⟩
      · by_contra hlt
        have hzero := (hcounted 0 (by omega) ht).1
        exact absurd hzero (lt_irrefl 0)
      · rcases Nat.lt_or_eq_of_le hle with hlt | rfl
        · exact (hcounted s (by omega) hlt).2
        · exact ⟨a, wanted, h, hwants, hgt⟩
    · omega

/-- Three levels, and a throughput that is enough for each. -/
def threeLevels : ClientData where
  videoData := ⟨[[500], [1000], [2000]], [4000, 8000, 16000], 1000⟩
  throughput := {
    transmissionRequested := [0]
    transmissionStart := [0]
    transmissionEnd := [1000000]
    bytesReceived := [10000] }

/-- From level one it goes up with the second call at this level. -/
theorem up_confirmed_second_call : ∃ a wanted,
    before ℚ (.new 20000 5 0 fun _ => 0) 0 (fun _ => threeLevels) 2 = some (1, a) ∧
      wantedLevel ℚ threeLevels = some wanted ∧ 1 < wanted := by
  have hthird : (before ℚ (.new 20000 5 0 fun _ => 0) 0 (fun _ => threeLevels) 3).map Prod.fst =
      some 1 := by
    decide +kernel
  have hfourth : (before ℚ (.new 20000 5 0 fun _ => 0) 0 (fun _ => threeLevels) 4).map Prod.fst =
      some 2 := by
    decide +kernel
  obtain ⟨⟨_, a⟩, h, rfl⟩ := Option.map_eq_some_iff.1 hthird
  obtain ⟨⟨_, a'⟩, hup, rfl⟩ := Option.map_eq_some_iff.1 hfourth
  exact (up_confirmed (k := 1) 20000 5 0 (fun _ => 0) 0 (fun _ => threeLevels) h hup).2 2 le_rfl
    (Nat.le_succ 2)

end FestiveAlgorithm

end DashDim
