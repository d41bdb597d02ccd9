import Mathlib.Data.List.Infix
import Mathlib.Order.Lattice
import Mathlib.Algebra.Order.Group.Unbundled.Int
import Mathlib.Tactic.Linarith

/-!
# The estimate of the goodput

`WindowedFilter` (`tpproxy/windowed_filter.h`) with a `MaxFilter`, as the connections keep it for
their goodput: a sample each time the alarm of the goodput goes off, at the number of these. Of
the samples it keeps three, the best, the second and the third best (`Tracks`): each better than
all that came after it, each the same as the one before or after it in time.

* `WindowedFilter.tracks_update`: what an update keeps;
* `GoodputFilter.goodput_of_run`: which sample the goodput is.
-/

namespace DashDim

/-- A sample, and when it was taken. -/
structure Sample (T : Type*) where
  sample : T
  time : ℤ
  deriving DecidableEq, Repr

/-- `WindowedFilter`: the best three samples of the window, best first. -/
structure WindowedFilter (T : Type*) where
  windowLength : ℤ
  zeroValue : T
  first : Sample T
  second : Sample T
  third : Sample T

namespace WindowedFilter

variable {T : Type*} [LinearOrder T]

/-- A filter with no sample: the zero value thrice. -/
def new (windowLength : ℤ) (zeroValue : T) (zeroTime : ℤ) : WindowedFilter T :=
  ⟨windowLength, zeroValue, ⟨zeroValue, zeroTime⟩, ⟨zeroValue, zeroTime⟩, ⟨zeroValue, zeroTime⟩⟩

variable (f : WindowedFilter T) (x : Sample T)

/-- `Reset`: the three samples are one. -/
def reset : WindowedFilter T := { f with first := x, second := x, third := x }

/-- A sample that is better than the second best or the third best. -/
def improve : WindowedFilter T :=
  if f.second.sample ≤ x.sample then { f with second := x, third := x }
  else if f.third.sample ≤ x.sample then { f with third := x }
  else f

/-- Each estimate takes the place of the one before it. -/
def promote : WindowedFilter T := { f with first := f.second, second := f.third, third := x }

/-- The best estimate is promoted once more, if it has expired as well. -/
def promoteAgain : WindowedFilter T :=
  if f.windowLength < x.time - f.first.time then
    { f with first := f.second, second := f.third }
  else f

/-- The best estimate expires; or an estimate that is the one before it is old enough for a new
    one. -/
def expire : WindowedFilter T :=
  if f.windowLength < x.time - f.first.time then (f.promote x).promoteAgain x
  else if f.second.sample = f.first.sample ∧
      f.windowLength >>> (2 : ℕ) < x.time - f.second.time then
    { f with second := x, third := x }
  else if f.third.sample = f.second.sample ∧
      f.windowLength >>> (1 : ℕ) < x.time - f.third.time then
    { f with third := x }
  else f

/-- `Update`. -/
def update : WindowedFilter T :=
  if f.first.sample = f.zeroValue ∨ f.first.sample ≤ x.sample ∨
      f.windowLength < x.time - f.third.time then f.reset x
  else (f.improve x).expire x

/-- `GetBest`. -/
def getBest : T := f.first.sample

/-! ## What the estimates are -/

/-- A sample, and those that came after it and were worse. -/
def Best (e : Sample T) (l : List (Sample T)) : Prop :=
  ∃ after, l = e :: after ∧ ∀ s ∈ after, s.sample < e.sample

/-- With the samples `h` and the last sample `x`, the estimates are samples, in this order, and
    each is better than all that came after it. -/
def Tracks (f : WindowedFilter T) (h : List (Sample T)) (x : Sample T) : Prop :=
  ∃ l₁ l₂ l₃, l₃ <:+ l₂ ∧ l₂ <:+ l₁ ∧ l₁ <:+ h ∧
    Best f.first (l₁ ++ [x]) ∧ Best f.second (l₂ ++ [x]) ∧ Best f.third (l₃ ++ [x])

variable {f x} {h l : List (Sample T)} {e y : Sample T}

theorem best_self (x : Sample T) : Best x ([] ++ [x]) := ⟨[], rfl, by simp⟩

theorem Best.append (hb : Best e l) (hx : x.sample < e.sample) : Best e (l ++ [x]) := by
  obtain ⟨after, rfl, hafter⟩ := hb
  refine ⟨after ++ [x], rfl, fun s hs => ?_⟩
  rcases List.mem_append.1 hs with hs | hs
  · exact hafter s hs
  · rwa [List.mem_singleton.1 hs]

omit [LinearOrder T] in
theorem suffix_append_singleton {l l' : List (Sample T)} (hl : l <:+ l') (x : Sample T) :
    l ++ [x] <:+ l' ++ [x] := by
  obtain ⟨pre, rfl⟩ := hl
  exact ⟨pre, by simp⟩

theorem tracks_reset (f : WindowedFilter T) (h : List (Sample T)) (x : Sample T) :
    (f.reset x).Tracks h x :=
  ⟨[], [], [], List.suffix_rfl, List.suffix_rfl, List.nil_suffix, best_self x, best_self x,
    best_self x⟩

theorem Tracks.improve (hf : f.Tracks h x) (hy : y.sample < f.first.sample) :
    (f.improve y).Tracks (h ++ [x]) y := by
  obtain ⟨l₁, l₂, l₃, h₃₂, h₂₁, h₁, hb₁, hb₂, hb₃⟩ := hf
  have hb₁' := hb₁.append hy
  have h₁' := suffix_append_singleton h₁ x
  rw [WindowedFilter.improve]
  split_ifs with hsecond hthird
  · exact ⟨_, [], [], List.suffix_rfl, List.nil_suffix, h₁', hb₁', best_self y, best_self y⟩
  · exact ⟨_, _, [], List.nil_suffix, suffix_append_singleton h₂₁ x, h₁', hb₁',
      hb₂.append (not_le.1 hsecond), best_self y⟩
  · exact ⟨_, _, _, suffix_append_singleton h₃₂ x, suffix_append_singleton h₂₁ x, h₁', hb₁',
      hb₂.append (not_le.1 hsecond), hb₃.append (not_le.1 hthird)⟩

theorem Tracks.expire (hf : f.Tracks h x) : (f.expire x).Tracks h x := by
  obtain ⟨l₁, l₂, l₃, h₃₂, h₂₁, h₁, hb₁, hb₂, hb₃⟩ := hf
  have h₂ := h₂₁.trans h₁
  rw [WindowedFilter.expire, promoteAgain]
  split_ifs
  · exact ⟨l₃, [], [], List.suffix_rfl, List.nil_suffix, h₃₂.trans h₂, hb₃, best_self x,
      best_self x⟩
  · exact ⟨l₂, l₃, [], List.nil_suffix, h₃₂, h₂, hb₂, hb₃, best_self x⟩
  · exact ⟨l₁, [], [], List.suffix_rfl, List.nil_suffix, h₁, hb₁, best_self x, best_self x⟩
  · exact ⟨l₁, l₂, [], List.nil_suffix, h₂₁, h₁, hb₁, hb₂, best_self x⟩
  · exact ⟨l₁, l₂, l₃, h₃₂, h₂₁, h₁, hb₁, hb₂, hb₃⟩

/-- An update keeps the estimates. -/
theorem tracks_update (hf : f.Tracks h x) (y : Sample T) : (f.update y).Tracks (h ++ [x]) y := by
  rw [update]
  split_ifs with hreset
  · exact tracks_reset f _ y
  · push Not at hreset
    exact (hf.improve hreset.2.1).expire

theorem windowLength_update (f : WindowedFilter T) (x : Sample T) :
    (f.update x).windowLength = f.windowLength := by
  rw [update, expire, promoteAgain, improve]
  split_ifs <;> rfl

theorem third_improve (hwindow : x.time - f.third.time ≤ f.windowLength)
    (hw : 0 ≤ f.windowLength) : x.time - (f.improve x).third.time ≤ f.windowLength := by
  rw [improve]
  split_ifs
  · simpa using hw
  · simpa using hw
  · exact hwindow

/-- The best estimate is in the window. -/
theorem first_update (f : WindowedFilter T) (x : Sample T) (hw : 0 ≤ f.windowLength) :
    x.time - (f.update x).first.time ≤ f.windowLength := by
  rw [update]
  split_ifs with hreset
  · simpa [reset] using hw
  · push Not at hreset
    have hthird := third_improve hreset.2.2 hw
    have hlength : (f.improve x).windowLength = f.windowLength := by
      rw [improve]
      split_ifs <;> rfl
    rw [← hlength] at hthird ⊢
    rw [expire, promoteAgain]
    split_ifs with hfirst hsecond
    · exact hthird
    · exact not_lt.1 hsecond
    · exact not_lt.1 hfirst
    · exact not_lt.1 hfirst
    · exact not_lt.1 hfirst

end WindowedFilter

/-- What `OnGoodputAlarm` keeps: the filter, and how often the alarm went off. -/
structure GoodputFilter (T : Type*) where
  maxGoodput : WindowedFilter T
  roundTripCount : ℤ

namespace GoodputFilter

open WindowedFilter

variable {T : Type*} [LinearOrder T]

/-- A filter over so many alarms, at the alarm zero. -/
def new (windowSize : ℤ) (zero : T) : GoodputFilter T := ⟨.new windowSize zero 0, 0⟩

/-- `OnGoodputAlarm`, for the bandwidth it measures. -/
def onGoodputAlarm (g : GoodputFilter T) (b : T) : GoodputFilter T :=
  ⟨g.maxGoodput.update ⟨b, g.roundTripCount⟩, g.roundTripCount + 1⟩

/-- The goodput in use. -/
def goodput (g : GoodputFilter T) : T := g.maxGoodput.getBest

/-- The filter after one alarm for each bandwidth. -/
def run (g : GoodputFilter T) (bs : List T) : GoodputFilter T := bs.foldl onGoodputAlarm g

/-- The samples of the first rounds. -/
def samples (bs : List T) : List (Sample T) := bs.mapIdx fun i b => ⟨b, i⟩

variable {w : ℤ} {zero : T} {bs : List T}

omit [LinearOrder T] in
theorem samples_append (bs : List T) (b : T) :
    samples (bs ++ [b]) = samples bs ++ [⟨b, bs.length⟩] := by
  simp [samples, List.mapIdx_append]

/-- After a round, the filter tracks the samples, and its best one is in the window. -/
theorem run_append (hw : 0 ≤ w) (zero : T) (bs : List T) (b : T) :
    let g := (new w zero).run (bs ++ [b])
    g.roundTripCount = bs.length + 1 ∧ g.maxGoodput.windowLength = w ∧
      g.maxGoodput.Tracks (samples bs) ⟨b, bs.length⟩ ∧
      bs.length - g.maxGoodput.first.time ≤ w := by
  induction bs using List.reverseRecOn generalizing b with
  | nil =>
    have hreset : (WindowedFilter.new w zero 0).update ⟨b, 0⟩ =
        (WindowedFilter.new w zero 0).reset ⟨b, 0⟩ := if_pos (.inl rfl)
    refine ⟨by simp [run, onGoodputAlarm, new], ?_, ?_, ?_⟩ <;>
      simp only [run, onGoodputAlarm, new, List.nil_append, List.foldl_cons, List.foldl_nil, hreset]
    · rfl
    · exact tracks_reset ..
    · simpa [reset] using hw
  | append_singleton bs c ih =>
    obtain ⟨hcount, hlength, htracks, -⟩ := ih c
    have hrun : (new w zero).run (bs ++ [c] ++ [b]) =
        ((new w zero).run (bs ++ [c])).onGoodputAlarm b := by
      rw [run, List.foldl_append]
      rfl
    rw [hrun]
    generalize (new w zero).run (bs ++ [c]) = g at hcount hlength htracks ⊢
    have htime : ((bs ++ [c]).length : ℤ) = g.roundTripCount := by simp [hcount]
    rw [htime, samples_append]
    refine ⟨rfl, ?_, tracks_update htracks _, ?_⟩
    · exact (windowLength_update ..).trans hlength
    · exact hlength ▸ first_update g.maxGoodput ⟨b, g.roundTripCount⟩ (hlength ▸ hw)

/-- The goodput is that of one of the last rounds, as many as the window has and one more, and all
    rounds after it were worse. -/
theorem goodput_of_run (hw : 0 ≤ w) (zero : T) (hbs : bs ≠ []) :
    ∃ (k : ℕ) (b : T), bs[k]? = some b ∧ ((new w zero).run bs).goodput = b ∧ bs.length ≤ k + w + 1 ∧
      ∀ j > k, ∀ b', bs[j]? = some b' → b' < b := by
  obtain ⟨bs, c, rfl⟩ := (List.eq_nil_or_concat bs).resolve_left hbs
  obtain ⟨-, -, ⟨l, l₂, l₃, -, -, ⟨pre, hpre⟩, ⟨after, hafter, hworse⟩, -⟩, hwindow⟩ :=
    run_append hw zero bs c
  rw [List.concat_eq_append]
  generalize (new w zero).run (bs ++ [c]) = g at hafter hworse hwindow ⊢
  have hsamples : samples (bs ++ [c]) = pre ++ g.maxGoodput.first :: after := by
    -- what came after the best estimate ends with the last sample
    rw [samples_append, ← hpre, List.append_assoc, hafter]
  have hget : ∀ i : ℕ, ((bs ++ [c])[i]?).map (fun b => (⟨b, i⟩ : Sample T)) =
      (pre ++ g.maxGoodput.first :: after)[i]? := fun i => by
    rw [← hsamples, samples, List.getElem?_mapIdx]
  have hfirst := hget pre.length
  rw [List.getElem?_append_right le_rfl, Nat.sub_self, List.getElem?_cons_zero,
    Option.map_eq_some_iff] at hfirst
  obtain ⟨b, hb, heq⟩ := hfirst
  refine ⟨pre.length, b, hb, ?_, ?_, fun j hj b' hb' => ?_⟩
  · rw [goodput, getBest, ← heq]
  · rw [← heq] at hwindow
    simp only [List.length_append, List.length_singleton]
    push_cast
    linarith
  · have hlater := hget j
    rw [hb', List.getElem?_append_right hj.le, Option.map_some] at hlater
    obtain ⟨i, hi⟩ := Nat.exists_eq_add_of_lt hj
    have hindex : j - pre.length = i + 1 := by omega
    rw [hindex, List.getElem?_cons_succ] at hlater
    have hless := hworse _ (List.mem_of_getElem? hlater.symm)
    rwa [← heq] at hless

theorem goodput_of_run_three : ∃ (k : ℕ) (b : ℕ), [300, 500, 400][k]? = some b ∧
    ((new 10 0).run [300, 500, 400]).goodput = b ∧ (3 : ℤ) ≤ k + 10 + 1 ∧
      ∀ j > k, ∀ b', [300, 500, 400][j]? = some b' → b' < b :=
  goodput_of_run (by decide) 0 (by simp)

end GoodputFilter

end DashDim
