import DashDim.Dash.Predicator
import DashDim.Lib.Mean

/-!
# What is predicted

The predicator is shown when the segments began and ended and their bytes. From the last of
them, as many as the horizon says, it computes the harmonic mean of their rates, each with the
time it took as its weight (`predict_harmonic`): the bandwidth that would have taken the same
time for all of them.
-/

namespace DashDim

/-- A segment of a history: the milliseconds it took, and its bytes. -/
def segment (history : ThroughputData) (i : ℕ) : Option (ℤ × ℕ) := do
  let start ← history.transmissionStart[i]?
  let stop ← history.transmissionEnd[i]?
  let bytes ← history.bytesReceived[i]?
  some (toMilliseconds (stop - start), bytes)

/-- These are the last segments of a history, in its order. -/
def LastSegments (history : ThroughputData) (segments : List (ℤ × ℕ)) : Prop :=
  segments.length ≤ history.transmissionStart.length ∧
    List.Forall₂ (fun i s => segment history i = some s)
      (List.range' (history.transmissionStart.length - segments.length) segments.length) segments

/-- The segments that the predicator looks at are the last ones. -/
theorem window_eq {history : ThroughputData} {horizon : ℤ} {n : ℕ}
    (hn : (n : ℤ) = min horizon history.transmissionStart.length) :
    window history horizon = List.range' (history.transmissionStart.length - n) n := by
  have hstart : ((history.transmissionStart.length : ℤ) - horizon).toNat =
      history.transmissionStart.length - n := by
    omega
  rw [window, hstart]
  congr 1
  omega

section

variable {K : Type} [Field K] [LinearOrder K] [IsStrictOrderedRing K]

/-- The time that a segment took and its rate, in bits per second. -/
def timedRate (K : Type) [Field K] (s : ℤ × ℕ) : K × K := (s.1, 8000 * s.2 / s.1)

/-- The segments are the weights and values of the mean. -/
theorem timedRate_pos {segments : List (ℤ × ℕ)} (hpos : ∀ s ∈ segments, 0 < s.1 ∧ 0 < s.2) :
    ∀ p ∈ segments.map (timedRate K), 0 < p.1 ∧ 0 < p.2 := by
  intro p hp
  obtain ⟨s, hs, rfl⟩ := List.mem_map.1 hp
  have hms : (0 : K) < s.1 := Int.cast_pos.2 (hpos s hs).1
  have hbytes : (0 : K) < s.2 := Nat.cast_pos.2 (hpos s hs).2
  exact ⟨hms, div_pos (by positivity) hms⟩

variable [FloorRing K] [ExactDouble K]

/-- The loop adds up the times, and the times over the rates in another unit. -/
theorem predictLoop_eq {history : ThroughputData} {is : List ℕ} {segments : List (ℤ × ℕ)}
    (h : List.Forall₂ (fun i s => segment history i = some s) is segments)
    (hpos : ∀ s ∈ segments, 0 < s.1 ∧ 0 < s.2) (sum : ℤ) (temp : K) :
    predictLoop history is sum temp = some (sum + (segments.map Prod.fst).sum,
      temp + 1000 * ((segments.map (timedRate K)).map fun p => p.1 / p.2).sum) := by
  induction h generalizing sum temp with
  | nil => simp only [predictLoop, List.map_nil, List.sum_nil, mul_zero, add_zero]
  | @cons i s is segments hsegment _ ih =>
    simp only [segment, Option.bind_eq_bind, Option.bind_eq_some_iff] at hsegment
    obtain ⟨start, hstart, stop, hstop, bytes, hbytes, heq⟩ := hsegment
    obtain ⟨rfl⟩ := Option.some.inj heq
    obtain ⟨hms, hbytespos⟩ := hpos _ List.mem_cons_self
    dsimp only at hms hbytespos
    have hlt : start < stop :=
      sub_pos.1 (lt_of_lt_of_le (by norm_num) (toMilliseconds_pos_iff.1 hms))
    rw [predictLoop, hstart, hstop, hbytes]
    dsimp only
    rw [if_pos hlt, ih fun s hs => hpos s (List.mem_cons_of_mem _ hs)]
    have hms' : (0 : K) < toMilliseconds (stop - start) := Int.cast_pos.2 hms
    have hbytes' : (0 : K) < bytes := Nat.cast_pos.2 hbytespos
    simp only [ofInt_eq, List.map_cons, List.sum_cons, timedRate]
    refine congrArg some (Prod.ext (add_assoc _ _ _) ?_)
    push_cast
    field_simp
    ring

theorem predict_eq_harmonicMean {history : ThroughputData} {horizon : ℤ}
    {segments : List (ℤ × ℕ)} (hlast : LastSegments history segments)
    (hn : (segments.length : ℤ) = min horizon history.transmissionStart.length)
    (hpos : ∀ s ∈ segments, 0 < s.1 ∧ 0 < s.2) :
    predict history horizon = some (harmonicMean (segments.map (timedRate K))) := by
  rw [predict]
  split_ifs with hsome
  · rw [window_eq hn, predictLoop_eq hlast.2 hpos]
    have hsum : ((segments.map Prod.fst).sum : K) =
        ((segments.map (timedRate K)).map Prod.fst).sum := by
      refine (map_list_sum (Int.castRingHom K) _).trans ?_
      rw [List.map_map, List.map_map]
      rfl
    simp only [ofInt_eq, Int.cast_zero, Int.cast_one, zero_add, one_mul, hsum]
    rw [harmonicMean]
    push_cast
    rw [mul_div_mul_left _ _ (by norm_num)]
  · have hnil : segments = [] := List.length_eq_zero_iff.1 (by omega)
    rw [hnil, ofInt_eq, harmonicMean, List.map_nil, List.map_nil, List.sum_nil, Int.cast_zero,
      zero_div]

/-- The prediction is the harmonic mean of the rates of the last segments, weighted by their
    times. It lies between the lowest and the highest of these rates, and older segments do
    not change it. -/
theorem predict_harmonic {history : ThroughputData} {horizon : ℤ} {segments : List (ℤ × ℕ)}
    (hlast : LastSegments history segments)
    (hn : (segments.length : ℤ) = min horizon history.transmissionStart.length)
    (hpos : ∀ s ∈ segments, 0 < s.1 ∧ 0 < s.2) :
    predict history horizon = some (harmonicMean (segments.map (timedRate K))) ∧
      (segments ≠ [] → ∀ low high : K,
        (∀ s ∈ segments, low ≤ (timedRate K s).2 ∧ (timedRate K s).2 ≤ high) →
        low ≤ harmonicMean (segments.map (timedRate K)) ∧
          harmonicMean (segments.map (timedRate K)) ≤ high) ∧
      ∀ history' : ThroughputData, LastSegments history' segments →
        (segments.length : ℤ) = min horizon history'.transmissionStart.length →
        predict (D := K) history' horizon = predict history horizon := by
  refine ⟨predict_eq_harmonicMean hlast hn hpos, fun hne low high hbounds => ?_,
    fun history' hlast' hn' => ?_⟩
  · have hne' : segments.map (timedRate K) ≠ [] := fun hnil => hne (List.map_eq_nil_iff.1 hnil)
    have hpos' := timedRate_pos (K := K) hpos
    constructor
    · refine le_harmonicMean hne' hpos' fun p hp => ?_
      obtain ⟨s, hs, rfl⟩ := List.mem_map.1 hp
      exact (hbounds s hs).1
    · refine harmonicMean_le hne' hpos' fun p hp => ?_
      obtain ⟨s, hs, rfl⟩ := List.mem_map.1 hp
      exact (hbounds s hs).2
  · rw [predict_eq_harmonicMean hlast hn hpos, predict_eq_harmonicMean hlast' hn' hpos]

/-- Three segments, of which the last two count: 1000 bytes in a second, and as many in
    half of one. -/
def threeSegments : ThroughputData where
  transmissionRequested := [0, 3000000, 4000000]
  transmissionStart := [0, 3000000, 4000000]
  transmissionEnd := [2000000, 4000000, 4500000]
  bytesReceived := [7000, 1000, 1000]

theorem predict_threeSegments : predict (D := ℚ) threeSegments 2 =
    some (harmonicMean ([(1000, 1000), (500, 1000)].map (timedRate ℚ))) :=
  have hlast : LastSegments threeSegments [(1000, 1000), (500, 1000)] :=
    ⟨by decide, .cons rfl (.cons rfl .nil)⟩
  (predict_harmonic hlast (by decide) (by decide)).1

end

end DashDim
