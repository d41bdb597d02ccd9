import DashDim.Lib.IntervalSet
import Mathlib.Data.List.TakeWhile

/-!
# The set of offsets received

The vendored `QuicIntervalSet` (`sequencer/quic_interval_set.h`, `quic_interval.h`) keeps a set
of numbers as intervals in a `std::set`, here the list of its elements in order. It finds its
way by `upper_bound`, merges what an addition makes touch (`compact`), and takes a set away from
another by walking along both (`difference`).

* `add_eq`, `addOptimizedForAppend_eq`, `isDisjoint_eq`: these are the operations on sets of
  intervals;
* `difference_spec`: the walk ends, with the elements of the one set that are not in the other;
* `addAll_eq`, `difference_addAll`: sets put together by additions of both kinds.
-/

namespace DashDim

namespace QuicIntervalSet

variable {α : Type*} [LinearOrder α]

/-! ## Intervals -/

/-- `Empty` of an interval. -/
def isEmpty (i : α × α) : Bool := i.2 ≤ i.1

/-- `Intersects`. -/
def intersects (i j : α × α) : Bool :=
  !isEmpty i && !isEmpty j && decide (i.1 < j.2) && decide (j.1 < i.2)

/-- What is in the interval `i` and not in `j`: below and above. An interval that is not
    set is empty. -/
def intervalDifference (i j : α × α) : Option (α × α) × Option (α × α) :=
  if isEmpty i then (none, none)
  else if isEmpty j then (some i, none)
  else if i.1 < j.2 ∧ j.1 ≤ i.1 ∧ j.2 < i.2 then (none, some (j.2, i.2))
  else if j.1 < i.2 ∧ i.2 ≤ j.2 ∧ i.1 < j.1 then (some (i.1, j.1), none)
  else if i.1 < j.1 ∧ j.2 < i.2 then (some (i.1, j.1), some (j.2, i.2))
  else if j.1 ≤ i.1 ∧ i.2 ≤ j.2 then (none, none)
  else (some i, none)

/-- `IntervalLess`: by the start, and the longer one first. -/
def less (i j : α × α) : Bool := decide (i.1 < j.1) || (decide (i.1 = j.1) && decide (j.2 < i.2))

/-! ## Sets of intervals -/

/-- The intervals up to `upper_bound` of `i`. -/
def before (s : List (α × α)) (i : α × α) : List (α × α) := s.takeWhile fun j => !less i j

/-- The intervals from `upper_bound` of `i` on. -/
def after (s : List (α × α)) (i : α × α) : List (α × α) := s.dropWhile fun j => !less i j

/-- The loop of `Compact`. What is merged keeps its place in the set. -/
def compactLoop (prev : α × α) : List (α × α) → List (α × α)
  | [] => [prev]
  | it :: l =>
    if it.1 ≤ prev.2 then compactLoop (prev.1, max prev.2 it.2) l else prev :: compactLoop it l

/-- Merging intervals that overlap or touch. -/
def compact : List (α × α) → List (α × α)
  | [] => []
  | prev :: l => compactLoop prev l

/-- The interval is inserted, and what it touches is merged: from the interval before it to the
    last one that does not start behind it. -/
def add (s : List (α × α)) (i : α × α) : List (α × α) :=
  if isEmpty i then s
  else if i ∈ s then s
  else
    let left := s.takeWhile (less · i)
    let right := s.dropWhile (less · i)
    left.dropLast ++ compact (left.getLast?.toList ++ i :: before right (i.2, i.2)) ++
      after right (i.2, i.2)

/-- If the interval goes on where the last one ends, that is made longer. -/
def addOptimizedForAppend (s : List (α × α)) (i : α × α) : List (α × α) :=
  match s.getLast? with
  | none => add s i
  | some last =>
    if i.1 < last.1 ∨ last.2 < i.1 then add s i
    else if i.2 ≤ last.2 then s
    else s.dropLast ++ [(last.1, i.2)]

/-- `IsDisjoint`, by the neighbours of the interval. -/
def isDisjoint (s : List (α × α)) (i : α × α) : Bool :=
  if isEmpty i then true
  else if (after s (i.1, i.1)).head?.any fun it => decide (it.1 < i.2) then false
  else (before s (i.1, i.1)).getLast?.all fun it => decide (it.2 ≤ i.1)

/-- The loop of `FindNextIntersectingPair`: the intervals of `mine` that are skipped, what
    is left of both, and whether the first ones intersect. -/
def findNextIntersectingPair : ℕ → List (α × α) → List (α × α) →
    Option (List (α × α) × List (α × α) × List (α × α) × Bool)
  | 0, _, _ => none
  | fuel + 1, mine, theirs =>
    match mine, theirs with
    | [], theirs => some ([], [], theirs, false)
    | mine, [] => some ([], mine, [], false)
    | m :: ms, t :: ts =>
      if intersects m t then some ([], m :: ms, t :: ts, true)
      else
        -- what of `mine` does not reach `theirs`
        let skipped := (m :: ms).takeWhile fun i => i.2 ≤ t.1
        match (m :: ms).dropWhile fun i => i.2 ≤ t.1 with
        | [] => some (skipped, [], t :: ts, false)
        | m' :: ms' =>
          -- what of `theirs` does not reach `mine`
          match (t :: ts).dropWhile fun j => j.2 ≤ m'.1 with
          | [] => some (skipped, m' :: ms', [], false)
          | t' :: ts' =>
            (findNextIntersectingPair fuel (m' :: ms') (t' :: ts')).map fun p =>
              (skipped ++ p.1, p.2)

/-- The loop of `Difference`, from an interval of each set on. -/
def differenceLoop : ℕ → List (α × α) → List (α × α) → Option (List (α × α))
  | 0, _, _ => none
  | fuel + 1, mine, theirs =>
    match findNextIntersectingPair (fuel + 1) mine theirs with
    | some (skipped, m :: ms, t :: ts, true) =>
      let (lo, hi) := intervalDifference m t
      (differenceLoop fuel (hi.toList ++ ms) (t :: ts)).map fun l => skipped ++ lo.toList ++ l
    | some (skipped, mine, _, _) => some (skipped ++ mine)
    | none => none

/-- `FindIntersectionCandidate`: the intervals before it, and those from it on. -/
def candidate (s : List (α × α)) (i : α × α) : List (α × α) × List (α × α) :=
  ((before s i).dropLast, (before s i).getLast?.toList ++ after s i)

/-- Whether the spans of two sets intersect. -/
def spansIntersect (s o : List (α × α)) : Bool :=
  match s.head?, s.getLast?, o.head?, o.getLast? with
  | some a, some b, some c, some d => intersects (a.1, b.2) (c.1, d.2)
  | _, _, _, _ => false

/-- What is in `s` and not in `o`. `fuel` is how often the loops go round at most. -/
def difference (fuel : ℕ) (s o : List (α × α)) : Option (List (α × α)) :=
  if spansIntersect s o then
    match s, o with
    | first :: _, theirs :: _ =>
      let (skipped, mine) := candidate s theirs
      (differenceLoop fuel mine (candidate o first).2).map (skipped ++ ·)
    | _, _ => some s
  else some s

/-! ## What lists of intervals stand for -/

/-- An element of one of the intervals. -/
def Covers (l : List (α × α)) (x : α) : Prop := ∃ i ∈ l, i.1 ≤ x ∧ x < i.2

/-- `Valid`: the intervals are not empty, in order and apart from each other. -/
structure Valid (l : List (α × α)) : Prop where
  nonempty : ∀ i ∈ l, i.1 < i.2
  gaps : l.Pairwise fun i j => i.2 < j.1

theorem valid_intervals (s : IntervalSet α) : Valid s.intervals := ⟨s.nonempty, s.gaps⟩

variable {l l' s : List (α × α)} {i : α × α} {x : α}

@[simp] theorem not_covers_nil : ¬ Covers [] x := by
  rintro ⟨i, hi, -⟩
  exact List.not_mem_nil hi

@[simp] theorem covers_cons : Covers (i :: l) x ↔ (i.1 ≤ x ∧ x < i.2) ∨ Covers l x :=
  List.exists_mem_cons_iff ..

@[simp] theorem covers_append : Covers (l ++ l') x ↔ Covers l x ∨ Covers l' x := by
  simp only [Covers, List.mem_append, or_and_right, exists_or]

theorem isEmpty_eq_false : isEmpty i = false ↔ i.1 < i.2 := by
  rw [isEmpty, decide_eq_false_iff_not, not_le]

theorem less_iff {i j : α × α} : less i j = true ↔ i.1 < j.1 ∨ i.1 = j.1 ∧ j.2 < i.2 := by
  simp only [less, Bool.or_eq_true, Bool.and_eq_true, decide_eq_true_eq]

theorem less_false_iff {i j : α × α} :
    less i j = false ↔ j.1 < i.1 ∨ i.1 = j.1 ∧ i.2 ≤ j.2 := by
  rw [← Bool.not_eq_true, less_iff, not_or, not_lt, not_and, not_lt]
  constructor
  · rintro ⟨hle, heq⟩
    rcases hle.lt_or_eq with hlt | h
    · exact .inl hlt
    · exact .inr ⟨h.symm, heq h.symm⟩
  · rintro (hlt | ⟨h, hle⟩)
    · exact ⟨hlt.le, fun h => absurd h hlt.ne'⟩
    · exact ⟨h.ge, fun _ => hle⟩

namespace Valid

theorem append (h : Valid l) (h' : Valid l') (hgap : ∀ i ∈ l, ∀ j ∈ l', i.2 < j.1) :
    Valid (l ++ l') :=
  ⟨List.forall_mem_append.2 ⟨h.nonempty, h'.nonempty⟩,
    List.pairwise_append.2 ⟨h.gaps, h'.gaps, hgap⟩⟩

theorem left (h : Valid (l ++ l')) : Valid l :=
  ⟨(List.forall_mem_append.1 h.nonempty).1, (List.pairwise_append.1 h.gaps).1⟩

theorem right (h : Valid (l ++ l')) : Valid l' :=
  ⟨(List.forall_mem_append.1 h.nonempty).2, (List.pairwise_append.1 h.gaps).2.1⟩

theorem gap (h : Valid (l ++ l')) : ∀ i ∈ l, ∀ j ∈ l', i.2 < j.1 :=
  (List.pairwise_append.1 h.gaps).2.2

/-- What starts in order stays so. -/
theorem starts (h : Valid l) : l.Pairwise fun i j => i.1 < j.1 := by
  refine h.gaps.imp_of_mem fun hi _ hij => ?_
  exact (h.nonempty _ hi).trans hij

/-- Lists of the same elements are the same. -/
theorem ext (h : Valid l) (h' : Valid l') (hcov : ∀ x, Covers l x ↔ Covers l' x) : l = l' :=
  IntervalSet.intervals_ext h.nonempty h.gaps h'.nonempty h'.gaps hcov

end Valid

/-- Where the list is in order of a property, what is not dropped is behind it. -/
theorem forall_mem_dropWhile {β : Type*} {r : β → β → Prop} {p : β → Bool} {l : List β}
    (hl : l.Pairwise r) (hp : ∀ a b, r a b → p b = true → p a = true) :
    ∀ b ∈ l.dropWhile p, p b = false := by
  induction l with
  | nil => exact fun b hb => absurd hb List.not_mem_nil
  | cons a l ih =>
    obtain ⟨ha, hl⟩ := List.pairwise_cons.1 hl
    rw [List.dropWhile_cons]
    split_ifs with h
    · exact ih hl
    · refine List.forall_mem_cons.2 ⟨Bool.eq_false_iff.2 h, fun b hb => ?_⟩
      exact Bool.eq_false_iff.2 fun hpb => h (hp a b (ha b hb) hpb)

theorem forall_mem_takeWhile {β : Type*} {p : β → Bool} {l : List β} :
    ∀ b ∈ l.takeWhile p, p b = true := fun _ => List.mem_takeWhile_imp

theorem before_append_after (s : List (α × α)) (i : α × α) : before s i ++ after s i = s :=
  List.takeWhile_append_dropWhile ..

/-- What starts behind `upper_bound` starts behind the interval, or is a shorter one. -/
theorem mem_after (h : Valid s) {j : α × α} (hj : j ∈ after s i) : less i j = true := by
  have hdrop := forall_mem_dropWhile (p := fun j => !less i j) h.starts
    (fun a b hab hb => ?_) j hj
  · simpa using hdrop
  · simp only [Bool.not_eq_true', less_false_iff] at hb ⊢
    rcases hb with hb | ⟨hb, -⟩
    · exact .inl (hab.trans hb)
    · exact .inl (hb ▸ hab)

theorem mem_before {j : α × α} (hj : j ∈ before s i) : less i j = false := by
  simpa using forall_mem_takeWhile j hj

/-! ## Merging -/

section compact

variable {prev : α × α}

/-- What holds of the intervals, and of two that are merged, holds of the result. -/
theorem forall_mem_compactLoop {P : α × α → Prop}
    (hP : ∀ i j, P i → P j → P (i.1, max i.2 j.2)) (h : ∀ i ∈ prev :: l, P i) :
    ∀ i ∈ compactLoop prev l, P i := by
  induction l generalizing prev with
  | nil => exact h
  | cons it l ih =>
    obtain ⟨hprev, hl⟩ := List.forall_mem_cons.1 h
    obtain ⟨hit, hl'⟩ := List.forall_mem_cons.1 hl
    rw [compactLoop]
    split_ifs
    · exact ih (List.forall_mem_cons.2 ⟨hP _ _ hprev hit, hl'⟩)
    · exact List.forall_mem_cons.2 ⟨hprev, ih hl⟩

theorem covers_compactLoop (h : (prev :: l).Pairwise fun i j => i.1 ≤ j.1) :
    Covers (compactLoop prev l) x ↔ Covers (prev :: l) x := by
  induction l generalizing prev with
  | nil => rfl
  | cons it l ih =>
    obtain ⟨hprev, hl⟩ := List.pairwise_cons.1 h
    obtain ⟨hit, hl'⟩ := List.pairwise_cons.1 hl
    obtain ⟨hle, hprev⟩ := List.forall_mem_cons.1 hprev
    rw [compactLoop]
    split_ifs with htouch
    · have hmerged : ((prev.1, max prev.2 it.2) :: l).Pairwise fun i j => i.1 ≤ j.1 :=
        List.pairwise_cons.2 ⟨hprev, hl'⟩
      refine (ih hmerged).trans ?_
      rw [covers_cons, covers_cons, covers_cons, ← or_assoc]
      refine or_congr_left ?_
      dsimp only
      rw [lt_max_iff]
      constructor
      · rintro ⟨hx, hlt | hlt⟩
        · exact .inl ⟨hx, hlt⟩
        · rcases lt_or_ge x prev.2 with hx' | hx'
          · exact .inl ⟨hx, hx'⟩
          · exact .inr ⟨htouch.trans hx', hlt⟩
      · rintro (⟨hx, hlt⟩ | ⟨hx, hlt⟩)
        · exact ⟨hx, .inl hlt⟩
        · exact ⟨hle.trans hx, .inr hlt⟩
    · rw [covers_cons, covers_cons, ih hl]

theorem valid_compactLoop (hne : ∀ i ∈ prev :: l, i.1 < i.2)
    (h : (prev :: l).Pairwise fun i j => i.1 ≤ j.1) : Valid (compactLoop prev l) := by
  have hmerge : ∀ i j : α × α, i.1 < i.2 → j.1 < j.2 → i.1 < max i.2 j.2 :=
    fun i j hi _ => hi.trans_le (le_max_left _ _)
  refine ⟨forall_mem_compactLoop hmerge hne, ?_⟩
  induction l generalizing prev with
  | nil => exact List.pairwise_singleton _ _
  | cons it l ih =>
    obtain ⟨hprev, hl⟩ := List.pairwise_cons.1 h
    obtain ⟨hit, hl'⟩ := List.pairwise_cons.1 hl
    obtain ⟨hne₁, hne₂⟩ := List.forall_mem_cons.1 hne
    obtain ⟨-, hne₃⟩ := List.forall_mem_cons.1 hne₂
    rw [compactLoop]
    split_ifs with htouch
    · refine ih (List.forall_mem_cons.2 ⟨?_, hne₃⟩)
        (List.pairwise_cons.2 ⟨(List.forall_mem_cons.1 hprev).2, hl'⟩)
      exact hne₁.trans_le (le_max_left _ _)
    · refine List.pairwise_cons.2 ⟨?_, ih hne₂ hl⟩
      refine forall_mem_compactLoop (P := fun i => prev.2 < i.1) (fun _ _ hi _ => hi) ?_
      exact List.forall_mem_cons.2
        ⟨not_le.1 htouch, fun j hj => (not_le.1 htouch).trans_le (hit j hj)⟩

end compact

/-! ## Addition -/

/-- What `add` merges, between what it leaves alone. -/
theorem add_merge (left last : List (α × α)) {window rest : List (α × α)}
    (hs : Valid (left ++ last ++ window ++ rest)) (hi : i.1 < i.2)
    (hlast : ∀ j ∈ last, j.1 ≤ i.1) (hleft : ∀ j ∈ left, j.2 < i.1)
    (hwindow : ∀ j ∈ window, i.1 ≤ j.1) (hrest : ∀ j ∈ rest, i.2 < j.1) :
    Valid (left ++ compact (last ++ i :: window) ++ rest) ∧
      ∀ x, Covers (left ++ compact (last ++ i :: window) ++ rest) x ↔
        (i.1 ≤ x ∧ x < i.2) ∨ Covers (left ++ last ++ window ++ rest) x := by
  have hwin : Valid window := hs.left.right
  have hne : ∀ j ∈ last ++ i :: window, j.1 < j.2 :=
    List.forall_mem_append.2
      ⟨hs.left.left.right.nonempty, List.forall_mem_cons.2 ⟨hi, hwin.nonempty⟩⟩
  have hsorted : (last ++ i :: window).Pairwise fun i j => i.1 ≤ j.1 := by
    refine List.pairwise_append.2 ⟨hs.left.left.right.starts.imp le_of_lt,
      List.pairwise_cons.2 ⟨hwindow, hwin.starts.imp le_of_lt⟩, fun j hj k hk => ?_⟩
    rcases List.mem_cons.1 hk with rfl | hk
    · exact hlast j hj
    · exact (hlast j hj).trans (hwindow k hk)
  have hbelow : ∀ d ∈ left, ∀ j ∈ last ++ i :: window, d.2 < j.1 := by
    intro d hd j hj
    rcases List.mem_append.1 hj with hj | hj
    · exact hs.left.left.gap d hd j hj
    · rcases List.mem_cons.1 hj with rfl | hj
      · exact hleft d hd
      · exact hs.left.gap d (List.mem_append_left _ hd) j hj
  have habove : ∀ e ∈ rest, ∀ j ∈ last ++ i :: window, j.2 < e.1 := by
    intro e he j hj
    rcases List.mem_append.1 hj with hj | hj
    · exact hs.gap j (List.mem_append_left _ (List.mem_append_right _ hj)) e he
    · rcases List.mem_cons.1 hj with rfl | hj
      · exact hrest e he
      · exact hs.gap j (List.mem_append_right _ hj) e he
  obtain ⟨prev, l, hcons⟩ : ∃ prev l, last ++ i :: window = prev :: l :=
    List.exists_cons_of_ne_nil (List.append_ne_nil_of_right_ne_nil _ (List.cons_ne_nil _ _))
  rw [hcons] at hne hsorted hbelow habove ⊢
  rw [compact]
  have hcompact := valid_compactLoop hne hsorted
  constructor
  · refine (hs.left.left.left.append hcompact fun d hd => ?_).append hs.right fun j hj e he => ?_
    · exact forall_mem_compactLoop (P := fun j => d.2 < j.1) (fun _ _ hj _ => hj) (hbelow d hd)
    · rcases List.mem_append.1 hj with hj | hj
      · exact hs.gap j (List.mem_append_left _ (List.mem_append_left _ hj)) e he
      · exact forall_mem_compactLoop (P := fun j => j.2 < e.1) (fun _ _ hj hk => max_lt hj hk)
          (habove e he) j hj
  · intro x
    simp only [covers_append, covers_compactLoop hsorted, ← hcons, covers_cons]
    tauto


/-- An addition adds the elements of the interval. -/
theorem add_spec (hs : Valid s) (i : α × α) :
    Valid (add s i) ∧ ∀ x, Covers (add s i) x ↔ (i.1 ≤ x ∧ x < i.2) ∨ Covers s x := by
  rw [add]
  split_ifs with hempty hmem
  · refine ⟨hs, fun x => ⟨.inr, ?_⟩⟩
    rintro (⟨hx, hlt⟩ | hx)
    · exact absurd (hx.trans_lt hlt) (not_lt.2 (of_decide_eq_true hempty))
    · exact hx
  · refine ⟨hs, fun x => ⟨.inr, ?_⟩⟩
    rintro (hx | hx)
    · exact ⟨i, hmem, hx⟩
    · exact hx
  · have hi : i.1 < i.2 := isEmpty_eq_false.1 (Bool.eq_false_iff.2 hempty)
    have hsplit : s.takeWhile (less · i) ++ s.dropWhile (less · i) = s :=
      List.takeWhile_append_dropWhile
    have hleft : ∀ j ∈ s.takeWhile (less · i), j.1 ≤ i.1 := by
      intro j hj
      have hless := forall_mem_takeWhile (p := (less · i)) j hj
      rcases less_iff.1 hless with h | ⟨h, -⟩
      · exact h.le
      · exact h.le
    have hright : ∀ j ∈ s.dropWhile (less · i), i.1 ≤ j.1 := by
      intro j hj
      have hj' := forall_mem_dropWhile (p := (less · i)) hs.starts
        (fun a b hab hb => ?_) j hj
      · rcases less_false_iff.1 hj' with h | ⟨h, -⟩
        · exact h.le
        · exact h.ge
      · rw [less_iff] at hb ⊢
        rcases hb with h | ⟨h, -⟩
        · exact .inl (hab.trans h)
        · exact .inl (hab.trans_eq h)
    generalize s.takeWhile (less · i) = left at hsplit hleft ⊢
    generalize s.dropWhile (less · i) = right at hsplit hright ⊢
    subst hsplit
    have hwindow : ∀ j ∈ before right (i.2, i.2), i.1 ≤ j.1 := fun j hj =>
      hright j ((List.takeWhile_prefix _).subset hj)
    have hrest : ∀ j ∈ after right (i.2, i.2), i.2 < j.1 := by
      intro j hj
      rcases less_iff.1 (mem_after hs.right hj) with h | ⟨h, hlt⟩
      · exact h
      · have hne := hs.right.nonempty j ((List.dropWhile_suffix _).subset hj)
        exact absurd (hne.trans hlt) (not_lt.2 h.le)
    rcases List.eq_nil_or_concat left with rfl | ⟨left, last, rfl⟩
    · rw [← before_append_after right (i.2, i.2), ← List.append_assoc] at hs
      have hmerge := add_merge [] [] hs hi
        (fun j hj => absurd hj List.not_mem_nil) (fun j hj => absurd hj List.not_mem_nil)
        hwindow hrest
      simp only [List.nil_append, before_append_after] at hmerge
      exact hmerge
    · rw [List.concat_eq_append] at hs hleft ⊢
      dsimp only
      rw [List.dropLast_concat, List.getLast?_concat, Option.toList_some]
      have hlast := hleft last (List.mem_append_right _ (List.mem_singleton_self last))
      have hgap := hs.left.gap
      rw [← before_append_after right (i.2, i.2), ← List.append_assoc] at hs
      have hmerge := add_merge left [last] hs hi
        (fun j hj => by rw [List.mem_singleton.1 hj]; exact hlast)
        (fun j hj => (hgap j hj last (List.mem_singleton_self last)).trans_le hlast) hwindow hrest
      rw [List.append_assoc _ (before right _), before_append_after] at hmerge
      exact hmerge

/-- `Add` is the addition of an interval to a set. -/
theorem add_eq (s : IntervalSet α) (i : α × α) : add s.intervals i = (s.add i.1 i.2).intervals := by
  obtain ⟨hvalid, hcov⟩ := add_spec (valid_intervals s) i
  exact hvalid.ext (valid_intervals _) fun x => (hcov x).trans IntervalSet.mem_add.symm

/-- So is `AddOptimizedForAppend`. -/
theorem addOptimizedForAppend_eq (s : IntervalSet α) (i : α × α) :
    addOptimizedForAppend s.intervals i = (s.add i.1 i.2).intervals := by
  rw [← add_eq]
  have hadd := add_spec (valid_intervals s) i
  have hs := valid_intervals s
  generalize s.intervals = l at hadd hs ⊢
  rw [addOptimizedForAppend]
  rcases List.eq_nil_or_concat l with rfl | ⟨l, last, rfl⟩
  · rfl
  rw [List.concat_eq_append] at hadd hs ⊢
  rw [List.getLast?_concat]
  dsimp only
  split_ifs with hapart hle
  · rfl
  · -- nothing is added
    refine hs.ext hadd.1 fun x => ?_
    rw [hadd.2 x]
    refine ⟨.inr, ?_⟩
    rintro (⟨hx, hlt⟩ | hx)
    · rw [not_or, not_lt, not_lt] at hapart
      exact ⟨last, List.mem_append_right _ (List.mem_singleton_self last), hapart.1.trans hx,
        hlt.trans_le hle⟩
    · exact hx
  · rw [not_or, not_lt, not_lt] at hapart
    rw [not_le] at hle
    rw [List.dropLast_concat]
    have hlast := hs.right.nonempty last (List.mem_singleton_self last)
    have hvalid : Valid (l ++ [(last.1, i.2)]) := by
      refine hs.left.append ⟨?_, List.pairwise_singleton _ _⟩ fun j hj k hk => ?_
      · intro j hj
        rw [List.mem_singleton.1 hj]
        exact hlast.trans hle
      · rw [List.mem_singleton.1 hk]
        exact hs.gap j hj last (List.mem_singleton_self last)
    refine hvalid.ext hadd.1 fun x => ?_
    rw [hadd.2 x]
    simp only [covers_append, covers_cons, not_covers_nil, or_false]
    constructor
    · rintro (hx | ⟨hx, hlt⟩)
      · exact .inr (.inl hx)
      · rcases lt_or_ge x last.2 with hx' | hx'
        · exact .inr (.inr ⟨hx, hx'⟩)
        · exact .inl ⟨hapart.2.trans hx', hlt⟩
    · rintro (⟨hx, hlt⟩ | hx | ⟨hx, hlt⟩)
      · exact .inr ⟨hapart.1.trans hx, hlt⟩
      · exact .inl hx
      · exact .inr ⟨hx, hlt.trans hle⟩

/-- Additions, each made for the end of the set or not. -/
def addAll : List (Bool × α × α) → List (α × α) → List (α × α)
  | [], s => s
  | (atEnd, i) :: l, s => addAll l (if atEnd then addOptimizedForAppend s i else add s i)

theorem addAll_intervals (l : List (Bool × α × α)) (s : IntervalSet α) :
    ∃ t : IntervalSet α, addAll l s.intervals = t.intervals ∧
      ∀ x, x ∈ t ↔ (∃ a ∈ l, a.2.1 ≤ x ∧ x < a.2.2) ∨ x ∈ s := by
  induction l generalizing s with
  | nil => exact ⟨s, rfl, fun x => (or_iff_right fun ⟨a, ha, _⟩ => List.not_mem_nil ha).symm⟩
  | cons a l ih =>
    obtain ⟨atEnd, i⟩ := a
    obtain ⟨t, ht, hmem⟩ := ih (s.add i.1 i.2)
    refine ⟨t, ?_, fun x => ?_⟩
    · rw [addAll, addOptimizedForAppend_eq, add_eq, ite_self]
      exact ht
    · rw [hmem, IntervalSet.mem_add]
      simp only [List.mem_cons, or_and_right, exists_or, exists_eq_left]
      rw [or_left_comm, or_assoc]

/-- However elements are added, what is kept depends on which they are only: intervals in order
    and apart, of these elements. -/
theorem addAll_eq (l l' : List (Bool × α × α)) :
    Valid (addAll l []) ∧ (∀ x, Covers (addAll l []) x ↔ ∃ a ∈ l, a.2.1 ≤ x ∧ x < a.2.2) ∧
      ((∀ x, (∃ a ∈ l, a.2.1 ≤ x ∧ x < a.2.2) ↔ ∃ a ∈ l', a.2.1 ≤ x ∧ x < a.2.2) ↔
        addAll l [] = addAll l' []) := by
  obtain ⟨s, hs, hmem⟩ := addAll_intervals l (∅ : IntervalSet α)
  obtain ⟨t, ht, hmem'⟩ := addAll_intervals l' (∅ : IntervalSet α)
  change addAll l [] = _ at hs
  change addAll l' [] = _ at ht
  have hcov : ∀ x, Covers s.intervals x ↔ ∃ a ∈ l, a.2.1 ≤ x ∧ x < a.2.2 := fun x =>
    (hmem x).trans (or_iff_left (IntervalSet.not_mem_empty x))
  have hcov' : ∀ x, Covers t.intervals x ↔ ∃ a ∈ l', a.2.1 ≤ x ∧ x < a.2.2 := fun x =>
    (hmem' x).trans (or_iff_left (IntervalSet.not_mem_empty x))
  rw [hs, ht]
  refine ⟨valid_intervals s, hcov, fun h => ?_, fun h x => ?_⟩
  · exact (valid_intervals s).ext (valid_intervals t) fun x =>
      (hcov x).trans ((h x).trans (hcov' x).symm)
  · rw [← hcov, h, hcov']

/-- `IsDisjoint` only looks at the intervals around `upper_bound`. -/
theorem isDisjoint_eq (s : IntervalSet α) (i : α × α) (hi : i.1 < i.2) :
    isDisjoint s.intervals i = s.isDisjoint i.1 i.2 := by
  have hs := valid_intervals s
  rw [IntervalSet.isDisjoint]
  generalize s.intervals = l at hs ⊢
  rw [isDisjoint, if_neg (by rw [isEmpty_eq_false.2 hi]; exact Bool.false_ne_true)]
  have hbefore : ∀ j ∈ before l (i.1, i.1), j.1 ≤ i.1 := by
    intro j hj
    rcases less_false_iff.1 (mem_before hj) with h | ⟨h, -⟩
    · exact h.le
    · exact h.ge
  have hafter : ∀ j ∈ after l (i.1, i.1), i.1 < j.1 := by
    intro j hj
    rcases less_iff.1 (mem_after hs hj) with h | ⟨h, hlt⟩
    · exact h
    · have hne := hs.nonempty j ((List.dropWhile_suffix _).subset hj)
      exact absurd (hne.trans hlt) (not_lt.2 h.le)
  have hsplit := before_append_after l (i.1, i.1)
  generalize before l (i.1, i.1) = left at hsplit hbefore ⊢
  generalize after l (i.1, i.1) = right at hsplit hafter ⊢
  subst hsplit
  -- behind, the first interval decides, and in front the last one
  have hright : (right.head?.any fun it => decide (it.1 < i.2)) = true ↔
      ∃ j ∈ right, j.1 < i.2 := by
    cases right with
    | nil => simp
    | cons j right =>
      rw [List.head?_cons, Option.any_some, decide_eq_true_eq, List.exists_mem_cons_iff]
      refine ⟨.inl, ?_⟩
      rintro (hj | ⟨k, hk, hlt⟩)
      · exact hj
      · exact ((List.pairwise_cons.1 hs.right.starts).1 k hk).trans hlt
  have hleft : (left.getLast?.all fun it => decide (it.2 ≤ i.1)) = true ↔
      ∀ j ∈ left, j.2 ≤ i.1 := by
    rcases List.eq_nil_or_concat left with rfl | ⟨left, last, rfl⟩
    · simp
    · rw [List.concat_eq_append] at hs hbefore ⊢
      rw [List.getLast?_concat, Option.all_some, decide_eq_true_eq]
      refine ⟨fun h => List.forall_mem_append.2 ⟨fun j hj => ?_, ?_⟩, fun h => ?_⟩
      · have hlast := List.mem_singleton_self last
        exact (hs.left.gap j hj last hlast).le.trans
          (hbefore last (List.mem_append_right _ hlast))
      · intro j hj
        rw [List.mem_singleton.1 hj]
        exact h
      · exact h last (List.mem_append_right _ (List.mem_singleton_self last))
  rw [Bool.eq_iff_iff]
  simp only [List.all_eq_true, Bool.or_eq_true, decide_eq_true_eq]
  split_ifs with h
  · obtain ⟨j, hj, hlt⟩ := hright.1 h
    refine ⟨False.elim, fun h => ?_⟩
    have hne := hs.right.nonempty j hj
    rcases h j (List.mem_append_right _ hj) with hle | hle
    · exact absurd ((hafter j hj).trans hne) (not_lt.2 hle)
    · exact absurd hlt (not_lt.2 hle)
  · rw [hleft, List.forall_mem_append]
    constructor
    · refine fun hl => ⟨fun j hj => .inl (hl j hj), fun j hj => .inr ?_⟩
      exact not_lt.1 fun hlt => h (hright.2 ⟨j, hj, hlt⟩)
    · rintro ⟨hl, -⟩ j hj
      rcases hl j hj with hle | hle
      · exact hle
      · exact absurd (hbefore j hj) (not_le.2 (hi.trans_le hle))


/-! ## Taking away -/

theorem intersects_iff {i j : α × α} (hi : i.1 < i.2) (hj : j.1 < j.2) :
    intersects i j = true ↔ i.1 < j.2 ∧ j.1 < i.2 := by
  simp only [intersects, isEmpty_eq_false.2 hi, isEmpty_eq_false.2 hj, Bool.not_false,
    Bool.true_and, Bool.and_eq_true, decide_eq_true_eq]

/-- What is left of an interval that intersects another. -/
theorem intervalDifference_eq {i j : α × α} (hi : i.1 < i.2) (hj : j.1 < j.2)
    (h : i.1 < j.2 ∧ j.1 < i.2) : intervalDifference i j =
      (if i.1 < j.1 then some (i.1, j.1) else none, if j.2 < i.2 then some (j.2, i.2) else none) := by
  have hempty : ∀ {k : α × α}, k.1 < k.2 → ¬ isEmpty k = true := fun hk h =>
    Bool.false_ne_true ((isEmpty_eq_false.2 hk).symm.trans h)
  rw [intervalDifference, if_neg (hempty hi), if_neg (hempty hj)]
  rcases lt_or_ge i.1 j.1 with hlow | hlow <;> rcases lt_or_ge j.2 i.2 with hhigh | hhigh
  · rw [if_neg (fun h => not_lt.2 h.2.1 hlow), if_neg (fun h => not_lt.2 h.2.1 hhigh),
      if_pos ⟨hlow, hhigh⟩, if_pos hlow, if_pos hhigh]
  · rw [if_neg (fun h => not_lt.2 h.2.1 hlow), if_pos ⟨h.2, hhigh, hlow⟩, if_pos hlow,
      if_neg (not_lt.2 hhigh)]
  · rw [if_pos ⟨h.1, hlow, hhigh⟩, if_neg (not_lt.2 hlow), if_pos hhigh]
  · rw [if_neg (fun h => not_lt.2 hhigh h.2.2), if_neg (fun h => not_lt.2 hlow h.2.2),
      if_neg (fun h => not_lt.2 hlow h.1), if_pos ⟨hlow, hhigh⟩, if_neg (not_lt.2 hlow),
      if_neg (not_lt.2 hhigh)]

/-- What the search for two intervals that intersect comes to: what it skips of either set is
    not in the other. -/
structure Pairing (mine theirs : List (α × α))
    (p : List (α × α) × List (α × α) × List (α × α) × Bool) : Prop where
  mine_eq : mine = p.1 ++ p.2.1
  theirs_eq : ∃ dropped, theirs = dropped ++ p.2.2.1 ∧ ∀ x, Covers p.2.1 x → ¬ Covers dropped x
  skipped : ∀ x, Covers p.1 x → ¬ Covers theirs x
  found : p.2.2.2 = true → ∃ m ms t ts, p.2.1 = m :: ms ∧ p.2.2.1 = t :: ts ∧ intersects m t = true
  ended : p.2.2.2 = false → p.2.1 = [] ∨ p.2.2.1 = []

/-- Intervals that end where others start have nothing in common with them. -/
theorem not_covers_of_le {b : α} (hl : ∀ i ∈ l, i.2 ≤ b) (hl' : ∀ i ∈ l', b ≤ i.1)
    (h : Covers l x) : ¬ Covers l' x := by
  rintro ⟨j, hj, hjx, -⟩
  obtain ⟨i, hi, -, hxi⟩ := h
  exact absurd (hxi.trans_le ((hl i hi).trans (hl' j hj))) (not_lt.2 hjx)

theorem Valid.le_starts (h : Valid (i :: l)) : ∀ j ∈ i :: l, i.1 ≤ j.1 :=
  List.forall_mem_cons.2 ⟨le_rfl, fun j hj => ((List.pairwise_cons.1 h.starts).1 j hj).le⟩

/-- The search passes the intervals that end before a place, and the first of them with the rest. -/
theorem exists_passed (a : α) (i : α × α) (l : List (α × α)) : ∃ passed rest,
    (i :: l).takeWhile (fun j => decide (j.2 ≤ a)) = passed ∧
    (i :: l).dropWhile (fun j => decide (j.2 ≤ a)) = rest ∧
    passed ++ rest = i :: l ∧ (∀ j ∈ passed, j.2 ≤ a) ∧ (i.2 ≤ a → passed ≠ []) := by
  refine ⟨_, _, rfl, rfl, List.takeWhile_append_dropWhile, fun j hj => ?_, fun h => ?_⟩
  · exact of_decide_eq_true (forall_mem_takeWhile (p := fun j : α × α => decide (j.2 ≤ a)) j hj)
  · rw [List.takeWhile_cons, if_pos (decide_eq_true h)]
    exact List.cons_ne_nil _ _

theorem findNextIntersectingPair_spec (fuel : ℕ) {mine theirs : List (α × α)} (hm : Valid mine)
    (ht : Valid theirs) (hfuel : mine.length + theirs.length < fuel) :
    ∃ p, findNextIntersectingPair fuel mine theirs = some p ∧ Pairing mine theirs p := by
  induction fuel generalizing mine theirs with
  | zero => exact absurd hfuel (Nat.not_lt_zero _)
  | succ fuel ih =>
    rcases mine with _ | ⟨m, ms⟩
    · exact ⟨_, rfl, rfl, ⟨[], rfl, fun x h => absurd h not_covers_nil⟩,
        fun x h => absurd h not_covers_nil, fun h => absurd h Bool.false_ne_true, fun _ => .inl rfl⟩
    rcases theirs with _ | ⟨t, ts⟩
    · exact ⟨_, rfl, rfl, ⟨[], rfl, fun x _ => not_covers_nil⟩,
        fun x h => absurd h not_covers_nil, fun h => absurd h Bool.false_ne_true, fun _ => .inr rfl⟩
    rw [findNextIntersectingPair]
    by_cases hint : intersects m t = true
    · rw [if_pos hint]
      exact ⟨_, rfl, rfl, ⟨[], rfl, fun x _ => not_covers_nil⟩,
        fun x h => absurd h not_covers_nil, fun _ => ⟨m, ms, t, ts, rfl, rfl, hint⟩,
        fun h => absurd h.symm Bool.false_ne_true⟩
    rw [if_neg hint]
    dsimp only
    obtain ⟨skipped, rest, htake, hleft, hmine, hskipped, hhead⟩ := exists_passed t.1 m ms
    rw [htake, hleft]
    have hskip : ∀ x, Covers skipped x → ¬ Covers (t :: ts) x := fun x =>
      not_covers_of_le hskipped ht.le_starts
    rcases rest with _ | ⟨m', ms'⟩
    · exact ⟨_, rfl, by rw [hmine], ⟨[], rfl, fun x h => absurd h not_covers_nil⟩, hskip,
        fun h => absurd h Bool.false_ne_true, fun _ => .inl rfl⟩
    have hrest : Valid (m' :: ms') := by
      rw [← hmine] at hm
      exact hm.right
    dsimp only
    obtain ⟨dropped, rest', -, hleft', htheirs, hdropped, hhead'⟩ := exists_passed m'.1 t ts
    rw [hleft']
    have hdrop : ∀ x, Covers (m' :: ms') x → ¬ Covers dropped x := fun x hx hd =>
      not_covers_of_le hdropped hrest.le_starts hd hx
    rcases rest' with _ | ⟨t', ts'⟩
    · rw [List.append_nil] at htheirs
      exact ⟨_, rfl, hmine.symm, ⟨dropped, by rw [htheirs, List.append_nil], hdrop⟩, hskip,
        fun h => absurd h Bool.false_ne_true, fun _ => .inr rfl⟩
    -- one of the two has got shorter, as the first intervals did not intersect
    have hlen : (m' :: ms').length + (t' :: ts').length < (m :: ms).length + (t :: ts).length := by
      have hl := congrArg List.length hmine
      have hl' := congrArg List.length htheirs
      rw [List.length_append] at hl hl'
      have hpos : 0 < skipped.length + dropped.length := by
        by_contra hzero
        have hs0 : skipped = [] := List.length_eq_zero_iff.1 (by omega)
        have hd0 : dropped = [] := List.length_eq_zero_iff.1 (by omega)
        rw [hs0, List.nil_append] at hmine
        obtain ⟨rfl, rfl⟩ := List.cons.inj hmine
        refine hint ((intersects_iff (hm.nonempty _ List.mem_cons_self)
          (ht.nonempty _ List.mem_cons_self)).2 ⟨?_, ?_⟩)
        · exact not_le.1 fun h => hhead' h hd0
        · exact not_le.1 fun h => hhead h hs0
      omega
    rw [← htheirs] at ht
    obtain ⟨⟨more, mine', theirs', found⟩, hfind, hmore, ⟨dropped', htheirs', hdrop'⟩, hskip',
      hfound, hended⟩ := ih hrest ht.right (by omega)
    dsimp only at hmore htheirs' hdrop' hskip' hfound hended
    have hsub : ∀ x, Covers more x ∨ Covers mine' x ↔ Covers (m' :: ms') x := fun x => by
      rw [hmore, covers_append]
    refine ⟨(skipped ++ more, mine', theirs', found), ?_, ?_,
      ⟨dropped ++ dropped', ?_, ?_⟩, ?_, hfound, hended⟩
    · dsimp only
      rw [hfind]
      rfl
    · rw [← hmine, hmore, List.append_assoc]
    · rw [← htheirs, htheirs', List.append_assoc]
    · intro x hx
      rw [covers_append, not_or]
      exact ⟨hdrop x ((hsub x).1 (.inr hx)), hdrop' x hx⟩
    · intro x hx hcov
      rcases covers_append.1 hx with hx | hx
      · exact hskip x hx hcov
      · rw [← htheirs, covers_append] at hcov
        exact hcov.elim (hdrop x ((hsub x).1 (.inl hx))) (hskip' x hx)

/-- What `Difference` takes its rounds for: each takes an interval off one of the sets, or leaves
    what is behind an interval. -/
def rounds (mine theirs : List (α × α)) : ℕ :=
  mine.length + theirs.length +
    match mine, theirs with
    | m :: _, t :: _ => if intersects m t then 1 else 0
    | _, _ => 0

theorem rounds_le (mine theirs : List (α × α)) :
    rounds mine theirs ≤ mine.length + theirs.length + 1 := by
  rcases mine with _ | ⟨m, ms⟩
  · exact Nat.le_succ _
  rcases theirs with _ | ⟨t, ts⟩
  · exact Nat.le_succ _
  · rw [rounds]
    split_ifs <;> omega

/-- The interval between two ends, where there is one. -/
def between (a b : α) : List (α × α) := if a < b then [(a, b)] else []

theorem mem_between {a b : α} {j : α × α} : j ∈ between a b ↔ a < b ∧ j = (a, b) := by
  rw [between]
  split_ifs with h
  · rw [List.mem_singleton, and_iff_right h]
  · exact iff_of_false List.not_mem_nil fun hj => h hj.1

@[simp] theorem covers_between {a b : α} : Covers (between a b) x ↔ a ≤ x ∧ x < b := by
  rw [between]
  split_ifs with h
  · rw [covers_cons, or_iff_left not_covers_nil]
  · exact iff_of_false not_covers_nil fun hx => h (hx.1.trans_lt hx.2)

theorem valid_between (a b : α) : Valid (between a b) := by
  rw [between]
  split_ifs with h
  · exact ⟨List.forall_mem_singleton.2 h, List.pairwise_singleton _ _⟩
  · exact ⟨fun j hj => absurd hj List.not_mem_nil, List.Pairwise.nil⟩

theorem toList_part (a b : α) : (if a < b then some (a, b) else none).toList = between a b := by
  rw [between, apply_ite Option.toList]
  rfl

/-- The round that cuts an interval leaves less to do than it found. -/
theorem rounds_between_le {t : α × α} (ht : t.1 < t.2) (b : α) (ms ts : List (α × α)) :
    rounds (between t.2 b ++ ms) (t :: ts) ≤ ms.length + ts.length + 2 := by
  rw [between]
  split_ifs with h
  · -- what is behind an interval does not intersect it
    have hnot : ¬ intersects (t.2, b) t = true := fun hint =>
      lt_irrefl _ ((intersects_iff (by exact h) ht).1 hint).1
    rw [List.singleton_append, rounds, if_neg hnot, List.length_cons, List.length_cons]
    omega
  · have hle := rounds_le ms (t :: ts)
    rw [List.length_cons] at hle
    exact hle.trans (by omega)

theorem le_rounds {m t : α × α} (hint : intersects m t = true)
    (skipped dropped ms ts : List (α × α)) :
    ms.length + ts.length + 3 ≤ rounds (skipped ++ m :: ms) (dropped ++ t :: ts) := by
  have hlen : (skipped ++ m :: ms).length + (dropped ++ t :: ts).length ≤
      rounds (skipped ++ m :: ms) (dropped ++ t :: ts) := Nat.le_add_right _ _
  rw [List.length_append, List.length_append, List.length_cons, List.length_cons] at hlen
  rcases skipped with _ | ⟨k, skipped⟩
  · rcases dropped with _ | ⟨k, dropped⟩
    · rw [List.nil_append, List.nil_append, rounds, if_pos hint, List.length_cons,
        List.length_cons]
      omega
    · rw [List.length_cons] at hlen
      omega
  · rw [List.length_cons] at hlen
    omega

section Cut

variable {m t : α × α} {skipped dropped ms ts : List (α × α)}

/-- What a cut leaves of an interval is in order with what is around it. -/
theorem valid_cut (hm : Valid (skipped ++ m :: ms)) (ht : t.1 < t.2)
    (hmt : m.1 < t.2 ∧ t.1 < m.2) (hl : Valid l)
    (hstart : ∀ j ∈ l, t.2 ≤ j.1 ∨ ∃ k ∈ ms, k.1 ≤ j.1) :
    Valid (skipped ++ between m.1 t.1 ++ l) := by
  have hgap := hm.gap
  have hms := (List.pairwise_cons.1 hm.right.gaps).1
  refine (hm.left.append (valid_between _ _) fun k hk j hj => ?_).append hl fun k hk j hj => ?_
  · obtain ⟨-, rfl⟩ := mem_between.1 hj
    exact hgap k hk m List.mem_cons_self
  · rcases List.mem_append.1 hk with hk | hk
    · rcases hstart j hj with hle | ⟨i, hi, hle⟩
      · exact (hgap k hk m List.mem_cons_self).trans (hmt.1.trans_le hle)
      · exact (hgap k hk i (List.mem_cons_of_mem m hi)).trans_le hle
    · obtain ⟨-, rfl⟩ := mem_between.1 hk
      rcases hstart j hj with hle | ⟨i, hi, hle⟩
      · exact ht.trans_le hle
      · exact hmt.2.trans ((hms i hi).trans_le hle)

/-- A cut and what is done behind it take away what is in the other set. -/
theorem covers_cut (ht : Valid (t :: ts)) (hmt : m.1 < t.2 ∧ t.1 < m.2)
    (hskip : Covers skipped x → ¬ Covers (dropped ++ t :: ts) x)
    (hdrop : Covers (m :: ms) x → ¬ Covers dropped x)
    (hl : Covers l x ↔ Covers (between t.2 m.2 ++ ms) x ∧ ¬ Covers (t :: ts) x) :
    Covers (skipped ++ between m.1 t.1 ++ l) x ↔
      Covers (skipped ++ m :: ms) x ∧ ¬ Covers (dropped ++ t :: ts) x := by
  have hbelow : x < t.1 → ¬ Covers (t :: ts) x := by
    rintro hx ⟨j, hj, hjx, -⟩
    exact absurd hx (not_lt.2 ((ht.le_starts j hj).trans hjx))
  rw [covers_append, not_or] at hskip
  simp only [covers_append, hl, covers_between, covers_cons, not_or] at hskip hdrop hbelow ⊢
  constructor
  · rintro ((hx | ⟨hmx, hxt⟩) | ⟨⟨htx, hxm⟩ | hx, hnot⟩)
    · exact ⟨.inl hx, hskip hx⟩
    · have hin : m.1 ≤ x ∧ x < m.2 := ⟨hmx, hxt.trans hmt.2⟩
      exact ⟨.inr (.inl hin), hdrop (.inl hin), hbelow hxt⟩
    · have hin : m.1 ≤ x ∧ x < m.2 := ⟨hmt.1.le.trans htx, hxm⟩
      exact ⟨.inr (.inl hin), hdrop (.inl hin), hnot⟩
    · exact ⟨.inr (.inr hx), hdrop (.inr hx), hnot⟩
  · rintro ⟨hx | ⟨hmx, hxm⟩ | hx, -, hnot⟩
    · exact .inl (.inl hx)
    · -- inside the cut interval only its lower and its upper part are left
      rcases lt_or_ge x t.1 with hxt | htx
      · exact .inl (.inr ⟨hmx, hxt⟩)
      · exact .inr ⟨.inl ⟨not_lt.1 fun hlt => hnot.1 ⟨htx, hlt⟩, hxm⟩, hnot⟩
    · exact .inr ⟨.inr hx, hnot⟩

end Cut

/-- What the intersection of two sets leaves of the first. -/
theorem differenceLoop_spec (fuel : ℕ) {mine theirs : List (α × α)} (hm : Valid mine)
    (ht : Valid theirs) (hfuel : rounds mine theirs < fuel) :
    ∃ l, differenceLoop fuel mine theirs = some l ∧ Valid l ∧
      (∀ x, Covers l x ↔ Covers mine x ∧ ¬ Covers theirs x) ∧
      ∀ j ∈ l, ∃ i ∈ mine, i.1 ≤ j.1 ∧ j.2 ≤ i.2 := by
  induction fuel generalizing mine theirs with
  | zero => exact absurd hfuel (Nat.not_lt_zero _)
  | succ fuel ih =>
    have hlen : mine.length + theirs.length ≤ rounds mine theirs := Nat.le_add_right _ _
    obtain ⟨⟨skipped, mine', theirs', found⟩, hfind, hmine, ⟨dropped, htheirs, hdrop⟩, hskip,
      hfound, hended⟩ := findNextIntersectingPair_spec (fuel + 1) hm ht (by omega)
    dsimp only at hmine htheirs hdrop hskip hfound hended
    subst hmine htheirs
    rw [differenceLoop, hfind]
    cases found with
    | false =>
      refine ⟨skipped ++ mine', ?_, hm, fun x => ?_, fun j hj => ⟨j, hj, le_rfl, le_rfl⟩⟩
      · rcases hended rfl with rfl | rfl
        · rfl
        · cases mine' <;> rfl
      · refine ⟨fun h => ⟨h, ?_⟩, And.left⟩
        rcases covers_append.1 h with hx | hx
        · exact hskip x hx
        · rw [covers_append, not_or]
          refine ⟨hdrop x hx, ?_⟩
          rcases hended rfl with rfl | rfl
          · exact absurd hx not_covers_nil
          · exact not_covers_nil
    | true =>
      obtain ⟨m, ms, t, ts, rfl, rfl, hint⟩ := hfound rfl
      have hmne := hm.right.nonempty m List.mem_cons_self
      have htne := ht.right.nonempty t List.mem_cons_self
      have hmt := (intersects_iff hmne htne).1 hint
      have hms := (List.pairwise_cons.1 hm.right.gaps).1
      have hge := le_rounds hint skipped dropped ms ts
      have hle := rounds_between_le htne m.2 ms ts
      dsimp only
      rw [intervalDifference_eq hmne htne hmt]
      dsimp only
      rw [toList_part, toList_part]
      have hrest : Valid (between t.2 m.2 ++ ms) := by
        refine (valid_between _ _).append (Valid.right (l := [m]) hm.right) fun j hj k hk => ?_
        obtain ⟨-, rfl⟩ := mem_between.1 hj
        exact hms k hk
      obtain ⟨l, hl, hvalid, hcov, hsub⟩ := ih hrest ht.right (by omega)
      have hstart : ∀ j ∈ l, t.2 ≤ j.1 ∨ ∃ k ∈ ms, k.1 ≤ j.1 := by
        intro j hj
        obtain ⟨k, hk, hkj, -⟩ := hsub j hj
        rcases List.mem_append.1 hk with hk | hk
        · obtain ⟨-, rfl⟩ := mem_between.1 hk
          exact .inl hkj
        · exact .inr ⟨k, hk, hkj⟩
      refine ⟨skipped ++ between m.1 t.1 ++ l, by rw [hl]; rfl, valid_cut hm htne hmt hvalid hstart,
        fun x => covers_cut ht.right hmt (hskip x) (hdrop x) (hcov x), fun j hj => ?_⟩
      rcases List.mem_append.1 hj with hj | hj
      · rcases List.mem_append.1 hj with hj | hj
        · exact ⟨j, List.mem_append_left _ hj, le_rfl, le_rfl⟩
        · obtain ⟨-, rfl⟩ := mem_between.1 hj
          exact ⟨m, List.mem_append_right _ List.mem_cons_self, le_rfl, hmt.2.le⟩
      · obtain ⟨k, hk, hkj, hjk⟩ := hsub j hj
        rcases List.mem_append.1 hk with hk | hk
        · obtain ⟨-, rfl⟩ := mem_between.1 hk
          exact ⟨m, List.mem_append_right _ List.mem_cons_self, hmt.1.le.trans hkj, hjk⟩
        · exact ⟨k, List.mem_append_right _ (List.mem_cons_of_mem m hk), hkj, hjk⟩

/-- The intervals before the candidate end before the interval that is looked for. -/
theorem candidate_spec (hs : Valid s) (i : α × α) : s = (candidate s i).1 ++ (candidate s i).2 ∧
    ∀ k ∈ (candidate s i).1, k.2 ≤ i.1 := by
  have hbefore : ∀ j ∈ before s i, j.1 ≤ i.1 := by
    intro j hj
    rcases less_false_iff.1 (mem_before hj) with h | ⟨h, -⟩
    · exact h.le
    · exact h.ge
  have hsplit := before_append_after s i
  rw [candidate]
  dsimp only
  generalize before s i = left at hsplit hbefore ⊢
  generalize after s i = right at hsplit ⊢
  subst hsplit
  rcases List.eq_nil_or_concat left with rfl | ⟨left, last, rfl⟩
  · exact ⟨rfl, fun k hk => absurd hk List.not_mem_nil⟩
  · rw [List.concat_eq_append] at hs hbefore ⊢
    rw [List.dropLast_concat, List.getLast?_concat, Option.toList_some]
    refine ⟨List.append_assoc _ _ _, fun k hk => ?_⟩
    have hlast := List.mem_singleton_self last
    exact (hs.left.gap k hk last hlast).le.trans (hbefore last (List.mem_append_right _ hlast))

/-- A set lies between the start of its first interval and the end of its last one. -/
theorem Valid.span {last : α × α} (h : Valid (i :: l)) (hlast : (i :: l).getLast? = some last) :
    i.1 < last.2 ∧ ∀ x, Covers (i :: l) x → i.1 ≤ x ∧ x < last.2 := by
  have hle : ∀ j ∈ i :: l, j.2 ≤ last.2 := by
    obtain ⟨m, hm⟩ := List.getLast?_eq_some_iff.1 hlast
    rw [hm] at h ⊢
    have hmem := List.mem_singleton_self last
    refine List.forall_mem_append.2 ⟨fun j hj => ?_, fun j hj => ?_⟩
    · exact ((h.gap j hj last hmem).trans (h.right.nonempty last hmem)).le
    · rw [List.mem_singleton.1 hj]
  refine ⟨(h.nonempty i List.mem_cons_self).trans_le (hle i List.mem_cons_self), ?_⟩
  rintro x ⟨j, hj, hjx, hxj⟩
  exact ⟨(h.le_starts j hj).trans hjx, hxj.trans_le (hle j hj)⟩

theorem not_covers_of_spans {o : List (α × α)} (hs : Valid s) (ho : Valid o)
    (h : spansIntersect s o = false) (hx : Covers s x) : ¬ Covers o x := by
  intro hx'
  rcases s with _ | ⟨a, s⟩
  · exact not_covers_nil hx
  rcases o with _ | ⟨c, o⟩
  · exact not_covers_nil hx'
  obtain ⟨b, hb⟩ := Option.ne_none_iff_exists'.1
    (mt List.getLast?_eq_none_iff.1 (List.cons_ne_nil a s))
  obtain ⟨d, hd⟩ := Option.ne_none_iff_exists'.1
    (mt List.getLast?_eq_none_iff.1 (List.cons_ne_nil c o))
  obtain ⟨hab, hspan⟩ := hs.span hb
  obtain ⟨hcd, hspan'⟩ := ho.span hd
  obtain ⟨hax, hxb⟩ := hspan x hx
  obtain ⟨hcx, hxd⟩ := hspan' x hx'
  simp only [spansIntersect, hb, hd, List.head?_cons] at h
  refine Bool.false_ne_true (h.symm.trans ((intersects_iff (by exact hab) (by exact hcd)).2 ?_))
  exact ⟨hax.trans_lt hxd, hcx.trans_lt hxb⟩

/-- `Difference` ends, and takes the elements of `o` away. -/
theorem difference_spec (s o : IntervalSet α) (fuel : ℕ) (hfuel : s.size + o.size + 2 ≤ fuel) :
    ∃ r : IntervalSet α, difference fuel s.intervals o.intervals = some r.intervals ∧
      ∀ x, x ∈ r ↔ x ∈ s ∧ x ∉ o := by
  suffices h : ∃ l, difference fuel s.intervals o.intervals = some l ∧ Valid l ∧
      ∀ x, Covers l x ↔ Covers s.intervals x ∧ ¬ Covers o.intervals x by
    obtain ⟨l, hl, hvalid, hcov⟩ := h
    exact ⟨⟨l, hvalid.nonempty, hvalid.gaps⟩, hl, hcov⟩
  have hs := valid_intervals s
  have ho := valid_intervals o
  rw [IntervalSet.size, IntervalSet.size] at hfuel
  generalize s.intervals = s at hs hfuel ⊢
  generalize o.intervals = o at ho hfuel ⊢
  unfold difference
  split_ifs with hspans
  · rcases s with _ | ⟨first, s⟩
    · exact ⟨[], rfl, hs, fun x => iff_of_false not_covers_nil fun h => not_covers_nil h.1⟩
    rcases o with _ | ⟨theirs, o⟩
    · exact ⟨_, rfl, hs, fun x => ⟨fun h => ⟨h, not_covers_nil⟩, And.left⟩⟩
    obtain ⟨hsplit, hskip⟩ := candidate_spec hs theirs
    obtain ⟨hsplit', hskip'⟩ := candidate_spec ho first
    have hstarts := hs.le_starts
    have hstarts' := ho.le_starts
    dsimp only
    generalize (candidate (first :: s) theirs).1 = skipped at hsplit hskip ⊢
    generalize (candidate (first :: s) theirs).2 = mine at hsplit ⊢
    generalize (candidate (theirs :: o) first).1 = dropped at hsplit' hskip'
    generalize (candidate (theirs :: o) first).2 = theirs' at hsplit' ⊢
    rw [hsplit] at hs hstarts hfuel ⊢
    rw [hsplit'] at ho hstarts' hfuel ⊢
    rw [List.length_append, List.length_append] at hfuel
    have hrounds := rounds_le mine theirs'
    obtain ⟨l, hl, hvalid, hcov, hsub⟩ := differenceLoop_spec fuel hs.right ho.right
      (by omega)
    refine ⟨skipped ++ l, by rw [hl]; rfl, hs.left.append hvalid fun k hk j hj => ?_, fun x => ?_⟩
    · obtain ⟨i, hi, hij, -⟩ := hsub j hj
      exact (hs.gap k hk i hi).trans_le hij
    · have hskipx : Covers skipped x → ¬ Covers (dropped ++ theirs') x :=
        not_covers_of_le hskip hstarts'
      have hdropx : Covers dropped x → ¬ Covers (skipped ++ mine) x :=
        not_covers_of_le hskip' hstarts
      simp only [covers_append, hcov, not_or] at hskipx hdropx ⊢
      tauto
  · refine ⟨s, rfl, hs, fun x => ⟨fun h => ⟨h, ?_⟩, And.left⟩⟩
    exact not_covers_of_spans hs ho (Bool.eq_false_iff.2 hspans) h

/-- Of sets put together by additions, the difference and whether an interval is disjoint from
    them are those of their elements. -/
theorem difference_addAll (l l' : List (Bool × α × α)) (i : α × α) :
    (∃ r, difference ((addAll l []).length + (addAll l' []).length + 2) (addAll l []) (addAll l' []) =
        some r ∧ Valid r ∧ ∀ x, Covers r x ↔
          (∃ a ∈ l, a.2.1 ≤ x ∧ x < a.2.2) ∧ ¬ ∃ a ∈ l', a.2.1 ≤ x ∧ x < a.2.2) ∧
      (isDisjoint (addAll l []) i = true ↔
        ∀ x, i.1 ≤ x → x < i.2 → ¬ ∃ a ∈ l, a.2.1 ≤ x ∧ x < a.2.2) := by
  obtain ⟨s, hs, hmem⟩ := addAll_intervals l (∅ : IntervalSet α)
  obtain ⟨t, ht, hmem'⟩ := addAll_intervals l' (∅ : IntervalSet α)
  change addAll l [] = _ at hs
  change addAll l' [] = _ at ht
  simp only [or_iff_left (IntervalSet.not_mem_empty _)] at hmem hmem'
  rw [hs, ht]
  constructor
  · obtain ⟨r, hr, hdiff⟩ := difference_spec s t (s.size + t.size + 2) le_rfl
    refine ⟨r.intervals, hr, valid_intervals r, fun x => ?_⟩
    rw [← hmem, ← hmem']
    exact hdiff x
  · rcases lt_or_ge i.1 i.2 with hi | hi
    · rw [isDisjoint_eq s i hi, IntervalSet.isDisjoint_iff hi]
      exact ⟨fun h x hx hlt hin => h x ((hmem x).2 hin) ⟨hx, hlt⟩,
        fun h x hx hin => h x hin.1 hin.2 ((hmem x).1 hx)⟩
    · refine iff_of_true ?_ fun x hx hlt => absurd (hx.trans_lt hlt) (not_lt.2 hi)
      rw [isDisjoint, if_pos (show isEmpty i = true from decide_eq_true hi)]

end QuicIntervalSet

end DashDim
