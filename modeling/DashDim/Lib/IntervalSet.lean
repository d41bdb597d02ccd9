import Mathlib.Order.BoundedOrder.Basic
import Mathlib.Data.List.Basic
import Mathlib.Order.MinMax
import Mathlib.Tactic.Tauto

/-!
# Sets of intervals

A set of elements of a linear order, kept as a list of half-open intervals. The
intervals are not empty, in order, and apart from each other: intervals that
overlap or touch are one. They carry this with them (`IntervalSet`).

* `mem_add`: adding an interval adds its elements;
* `isDisjoint_iff`: the test for disjointness is right;
* `mem_of_lt_firstGap`, `firstGap_not_mem`: the end of the elements that are there
  from the bottom on.
-/

namespace DashDim

/-- Intervals in order and apart from each other. -/
structure IntervalSet (α : Type*) [LinearOrder α] where
  intervals : List (α × α)
  nonempty : ∀ i ∈ intervals, i.1 < i.2
  gaps : intervals.Pairwise fun i j => i.2 < j.1

namespace IntervalSet

variable {α : Type*} [LinearOrder α]

instance : Membership α (IntervalSet α) where
  mem s x := ∃ i ∈ s.intervals, i.1 ≤ x ∧ x < i.2

instance (s : IntervalSet α) (x : α) : Decidable (x ∈ s) :=
  inferInstanceAs (Decidable (∃ i ∈ s.intervals, i.1 ≤ x ∧ x < i.2))

instance : EmptyCollection (IntervalSet α) where
  emptyCollection := ⟨[], fun _ h => absurd h List.not_mem_nil, List.Pairwise.nil⟩

theorem not_mem_empty (x : α) : x ∉ (∅ : IntervalSet α) := by
  rintro ⟨i, hi, -⟩
  exact List.not_mem_nil hi

/-- The number of intervals. -/
def size (s : IntervalSet α) : ℕ := s.intervals.length

/-! ## Adding an interval -/

/-- Inserting an interval: those it overlaps or touches are merged into it. -/
def insert : List (α × α) → α → α → List (α × α)
  | [], a, b => [(a, b)]
  | (c, d) :: l, a, b =>
    if b < c then (a, b) :: (c, d) :: l
    else if d < a then (c, d) :: insert l a b
    else insert l (min a c) (max b d)

theorem insert_nonempty {l : List (α × α)} (h : ∀ i ∈ l, i.1 < i.2) {a b : α} (hab : a < b) :
    ∀ i ∈ insert l a b, i.1 < i.2 := by
  induction l generalizing a b with
  | nil =>
    intro i hi
    obtain rfl := List.mem_singleton.1 hi
    exact hab
  | cons cd l ih =>
    obtain ⟨c, d⟩ := cd
    obtain ⟨hcd, hl⟩ := List.forall_mem_cons.1 h
    rw [insert]
    split_ifs
    · exact List.forall_mem_cons.2 ⟨hab, h⟩
    · exact List.forall_mem_cons.2 ⟨hcd, ih hl hab⟩
    · exact ih hl ((min_le_left a c).trans_lt (hab.trans_le (le_max_left b d)))

/-- What is below all intervals stays so. -/
theorem lt_insert {l : List (α × α)} {e : α} (h : ∀ i ∈ l, e < i.1) {a b : α} (hea : e < a) :
    ∀ i ∈ insert l a b, e < i.1 := by
  induction l generalizing a b with
  | nil =>
    intro i hi
    obtain rfl := List.mem_singleton.1 hi
    exact hea
  | cons cd l ih =>
    obtain ⟨c, d⟩ := cd
    obtain ⟨hec, hl⟩ := List.forall_mem_cons.1 h
    rw [insert]
    split_ifs
    · exact List.forall_mem_cons.2 ⟨hea, h⟩
    · exact List.forall_mem_cons.2 ⟨hec, ih hl hea⟩
    · exact ih hl (lt_min hea hec)

theorem insert_gaps {l : List (α × α)} (hne : ∀ i ∈ l, i.1 < i.2)
    (h : l.Pairwise fun i j => i.2 < j.1) {a b : α} :
    (insert l a b).Pairwise fun i j => i.2 < j.1 := by
  induction l generalizing a b with
  | nil => exact List.pairwise_singleton _ _
  | cons cd l ih =>
    obtain ⟨c, d⟩ := cd
    obtain ⟨hcd, hl⟩ := List.pairwise_cons.1 h
    obtain ⟨hne₁, hne₂⟩ := List.forall_mem_cons.1 hne
    rw [insert]
    split_ifs with hbc hda
    · refine List.pairwise_cons.2 ⟨List.forall_mem_cons.2 ⟨hbc, fun j hj => ?_⟩, h⟩
      exact hbc.trans (hne₁.trans (hcd j hj))
    · exact List.pairwise_cons.2 ⟨lt_insert hcd hda, ih hne₂ hl⟩
    · exact ih hne₂ hl

theorem mem_insert {l : List (α × α)} {a b x : α} :
    (∃ i ∈ insert l a b, i.1 ≤ x ∧ x < i.2) ↔
      (a ≤ x ∧ x < b) ∨ ∃ i ∈ l, i.1 ≤ x ∧ x < i.2 := by
  induction l generalizing a b with
  | nil => simp [insert]
  | cons cd l ih =>
    obtain ⟨c, d⟩ := cd
    rw [insert]
    split_ifs with hbc hda
    · simp only [List.exists_mem_cons_iff]
    · simp only [List.exists_mem_cons_iff, ih]
      tauto
    · have hmerge : (min a c ≤ x ∧ x < max b d) ↔ (a ≤ x ∧ x < b) ∨ (c ≤ x ∧ x < d) := by
        rw [min_le_iff, lt_max_iff]
        constructor
        · rintro ⟨hax | hcx, hxb | hxd⟩
          · exact .inl ⟨hax, hxb⟩
          · rcases le_or_gt c x with hcx | hxc
            · exact .inr ⟨hcx, hxd⟩
            · exact .inl ⟨hax, hxc.trans_le (not_lt.1 hbc)⟩
          · rcases le_or_gt a x with hax | hxa
            · exact .inl ⟨hax, hxb⟩
            · exact .inr ⟨hcx, hxa.trans_le (not_lt.1 hda)⟩
          · exact .inr ⟨hcx, hxd⟩
        · rintro (⟨hax, hxb⟩ | ⟨hcx, hxd⟩)
          · exact ⟨.inl hax, .inl hxb⟩
          · exact ⟨.inr hcx, .inr hxd⟩
      rw [ih, hmerge, List.exists_mem_cons_iff, or_assoc]

/-- The set with the elements from `a` up to `b`. -/
def add (s : IntervalSet α) (a b : α) : IntervalSet α :=
  if h : a < b then
    ⟨insert s.intervals a b, insert_nonempty s.nonempty h, insert_gaps s.nonempty s.gaps⟩
  else s

theorem add_intervals {s : IntervalSet α} {a b : α} (h : a < b) :
    (s.add a b).intervals = insert s.intervals a b := by
  rw [add, dif_pos h]

theorem mem_add {s : IntervalSet α} {a b x : α} : x ∈ s.add a b ↔ (a ≤ x ∧ x < b) ∨ x ∈ s := by
  rw [add]
  split_ifs with h
  · exact mem_insert
  · constructor
    · exact .inr
    · rintro (⟨hax, hxb⟩ | hx)
      · exact absurd (hax.trans_lt hxb) h
      · exact hx

/-! ## Disjointness -/

/-- Whether no element from `a` up to `b` is in the set. -/
def isDisjoint (s : IntervalSet α) (a b : α) : Bool :=
  s.intervals.all fun i => i.2 ≤ a || b ≤ i.1

theorem isDisjoint_iff {s : IntervalSet α} {a b : α} (hab : a < b) :
    s.isDisjoint a b = true ↔ ∀ x ∈ s, ¬(a ≤ x ∧ x < b) := by
  simp only [isDisjoint, List.all_eq_true, Bool.or_eq_true, decide_eq_true_eq]
  constructor
  · rintro h x ⟨i, hi, hix, hxi⟩ ⟨hax, hxb⟩
    rcases h i hi with hia | hbi
    · exact absurd hxi (not_lt.2 (hia.trans hax))
    · exact absurd hxb (not_lt.2 (hbi.trans hix))
  · intro h i hi
    rcases le_or_gt i.2 a with hia | hai
    · exact .inl hia
    rcases le_or_gt b i.1 with hbi | hib
    · exact .inr hbi
    -- the later of the two starts is in both
    have hmem : max a i.1 ∈ s :=
      ⟨i, hi, le_max_right _ _, max_lt hai (s.nonempty i hi)⟩
    exact absurd ⟨le_max_left _ _, max_lt hab hib⟩ (h _ hmem)

/-! ## The gaps -/

/-- The end of an interval is not in the set: another interval would overlap or touch. -/
theorem snd_not_mem {s : IntervalSet α} {i : α × α} (hi : i ∈ s.intervals) : i.2 ∉ s := by
  rintro ⟨j, hj, hji, hij⟩
  obtain ⟨m, hm, rfl⟩ := List.getElem_of_mem hi
  obtain ⟨k, hk, rfl⟩ := List.getElem_of_mem hj
  have hgaps := List.pairwise_iff_getElem.1 s.gaps
  rcases lt_trichotomy m k with hmk | rfl | hkm
  · exact absurd (hgaps m k hm hk hmk) (not_lt.2 hji)
  · exact lt_irrefl _ hij
  · have hlt := s.nonempty _ (List.getElem_mem hm)
    exact lt_asymm (hij.trans (hgaps k m hk hm hkm)) hlt

/-- Two lists of intervals that have the same elements are the same: an interval that starts
    first has no counterpart, nor has one that ends first. -/
theorem intervals_ext {l l' : List (α × α)} (hne : ∀ i ∈ l, i.1 < i.2)
    (hgaps : l.Pairwise fun i j => i.2 < j.1) (hne' : ∀ i ∈ l', i.1 < i.2)
    (hgaps' : l'.Pairwise fun i j => i.2 < j.1)
    (h : ∀ x, (∃ i ∈ l, i.1 ≤ x ∧ x < i.2) ↔ ∃ i ∈ l', i.1 ≤ x ∧ x < i.2) : l = l' := by
  have hstart : ∀ {a b : α} {m : List (α × α)}, (∀ j ∈ m, b < j.1) → a < b →
      ∀ {x}, x ≤ b → (∃ i ∈ (a, b) :: m, i.1 ≤ x ∧ x < i.2) → a ≤ x ∧ x < b := by
    rintro a b m hm - x hxb ⟨i, hi, hix, hxi⟩
    rcases List.mem_cons.1 hi with rfl | hi
    · exact ⟨hix, hxi⟩
    · exact absurd hix (not_le.2 (hxb.trans_lt (hm i hi)))
  induction l generalizing l' with
  | nil =>
    cases l' with
    | nil => rfl
    | cons j l' =>
      obtain ⟨i, hi, -⟩ := (h j.1).2 ⟨j, List.mem_cons_self, le_rfl, hne' j List.mem_cons_self⟩
      exact absurd hi List.not_mem_nil
  | cons i l ih =>
    cases l' with
    | nil =>
      obtain ⟨j, hj, -⟩ := (h i.1).1 ⟨i, List.mem_cons_self, le_rfl, hne i List.mem_cons_self⟩
      exact absurd hj List.not_mem_nil
    | cons j l' =>
      obtain ⟨a, b⟩ := i
      obtain ⟨c, d⟩ := j
      obtain ⟨hab, hl⟩ := List.forall_mem_cons.1 hne
      obtain ⟨hcd, hl'⟩ := List.forall_mem_cons.1 hne'
      obtain ⟨hbl, hgl⟩ := List.pairwise_cons.1 hgaps
      obtain ⟨hdl, hgl'⟩ := List.pairwise_cons.1 hgaps'
      dsimp only at hab hcd hbl hdl
      have hmem : (a, b) ∈ (a, b) :: l := List.mem_cons_self
      have hmem' : (c, d) ∈ (c, d) :: l' := List.mem_cons_self
      -- neither starts before the other
      have hac : a = c := by
        apply le_antisymm
        · by_contra hca
          obtain ⟨i, hi, hic, -⟩ := (h c).2 ⟨_, hmem', le_rfl, hcd⟩
          rcases List.mem_cons.1 hi with rfl | hi
          · exact hca hic
          · exact hca (hab.le.trans ((hbl i hi).le.trans hic))
        · by_contra hac
          obtain ⟨i, hi, hia, -⟩ := (h a).1 ⟨_, hmem, le_rfl, hab⟩
          rcases List.mem_cons.1 hi with rfl | hi
          · exact hac hia
          · exact hac (hcd.le.trans ((hdl i hi).le.trans hia))
      subst hac
      -- nor does one end before the other, as it is followed by a gap
      have hbd : b = d := by
        apply le_antisymm
        · by_contra hdb
          have hd := (h d).1 ⟨_, hmem, hcd.le, not_le.1 hdb⟩
          exact lt_irrefl d (hstart hdl hcd le_rfl hd).2
        · by_contra hbd
          have hb := (h b).2 ⟨_, hmem', hab.le, not_le.1 hbd⟩
          exact lt_irrefl b (hstart hbl hab le_rfl hb).2
      subst hbd
      congr 1
      refine ih hl hgl hl' hgl' fun x => ?_
      by_cases hx : x < b
      · constructor
        · rintro ⟨i, hi, hix, -⟩
          exact absurd hix (not_le.2 (hx.trans (hbl i hi)))
        · rintro ⟨i, hi, hix, -⟩
          exact absurd hix (not_le.2 (hx.trans (hdl i hi)))
      · have hrest := h x
        simpa only [List.exists_mem_cons_iff, hx, and_false, false_or] using hrest

/-- Sets with the same elements are the same. -/
theorem ext {s t : IntervalSet α} (h : ∀ x, x ∈ s ↔ x ∈ t) : s = t := by
  obtain ⟨l, hne, hgaps⟩ := s
  obtain ⟨l', hne', hgaps'⟩ := t
  have hl : l = l' := intervals_ext hne hgaps hne' hgaps' h
  subst hl
  rfl

/-! ## The first gap -/

variable [OrderBot α]

/-- The least element that is not in the set. -/
def firstGap (s : IntervalSet α) : α :=
  match s.intervals with
  | [] => ⊥
  | i :: _ => if ⊥ < i.1 then ⊥ else i.2

theorem mem_of_lt_firstGap {s : IntervalSet α} {x : α} (h : x < s.firstGap) : x ∈ s := by
  rw [firstGap] at h
  split at h
  · exact absurd h not_lt_bot
  · next i l heq =>
    split_ifs at h with hbot
    · exact absurd h not_lt_bot
    · refine ⟨i, by rw [heq]; exact List.mem_cons_self, ?_, h⟩
      exact (not_lt.1 hbot).trans bot_le

theorem firstGap_not_mem (s : IntervalSet α) : s.firstGap ∉ s := by
  rintro ⟨j, hj, hjx, hxj⟩
  have hgaps := s.gaps
  rw [firstGap] at hjx hxj
  split at hjx
  · next heq =>
    rw [heq] at hj
    exact List.not_mem_nil hj
  · next i l heq =>
    rw [heq] at hj hgaps
    simp only [heq] at hxj
    obtain ⟨hil, -⟩ := List.pairwise_cons.1 hgaps
    rcases List.mem_cons.1 hj with rfl | hj
    · split_ifs at hjx hxj with hbot
      · exact absurd hbot (not_lt.2 hjx)
      · exact lt_irrefl _ hxj
    · split_ifs at hjx with hbot
      · exact not_lt_bot ((hil j hj).trans_le hjx)
      · exact absurd (hil j hj) (not_lt.2 hjx)

/-- A set of all elements below a bound has its first gap there. -/
theorem firstGap_eq {s : IntervalSet α} {n : α} (h : ∀ x, x ∈ s ↔ x < n) : s.firstGap = n := by
  apply le_antisymm
  · by_contra hlt
    exact lt_irrefl n ((h n).1 (mem_of_lt_firstGap (not_le.1 hlt)))
  · by_contra hlt
    exact s.firstGap_not_mem ((h _).2 (not_le.1 hlt))

end IntervalSet

end DashDim
