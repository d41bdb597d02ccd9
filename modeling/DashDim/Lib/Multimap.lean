import Mathlib.Data.List.Pairwise
import Mathlib.Data.List.Perm.Basic
import Mathlib.Order.Lattice

/-!
# Multimaps

A multimap is a list in the order of its keys, where what is inserted comes after all that has
the same key (`insertUpper`). An iterator points to an element (`Placed`): the list is what is
before it, the element and what is behind it, and this is kept by insertions and by erasing
others.

* `sorted_insertUpper`, `perm_insertUpper`, `map_insertUpper`: what an insertion does;
* `Placed.insert`, `Placed.filter`: what it does to an iterator.
-/

namespace DashDim

variable {α β κ : Type*} [LinearOrder κ]

/-- Inserting at the upper bound of the key. -/
def insertUpper (key : α → κ) (a : α) : List α → List α
  | [] => [a]
  | b :: l => if key a < key b then a :: b :: l else b :: insertUpper key a l

variable {key : α → κ} {a c : α} {l pre post : List α}

theorem perm_insertUpper (a : α) (l : List α) : (insertUpper key a l).Perm (a :: l) := by
  induction l with
  | nil => exact .refl _
  | cons b l ih =>
    rw [insertUpper]
    split_ifs
    · exact .refl _
    · exact (ih.cons b).trans (.swap a b l)

@[simp] theorem mem_insertUpper {b : α} : b ∈ insertUpper key a l ↔ b = a ∨ b ∈ l := by
  rw [(perm_insertUpper a l).mem_iff, List.mem_cons]

theorem sorted_insertUpper (h : l.Pairwise fun b c => key b ≤ key c) (a : α) :
    (insertUpper key a l).Pairwise fun b c => key b ≤ key c := by
  induction l with
  | nil => exact List.pairwise_singleton _ a
  | cons b l ih =>
    obtain ⟨hb, hl⟩ := List.pairwise_cons.1 h
    rw [insertUpper]
    split_ifs with hab
    · refine List.pairwise_cons.2 ⟨fun c hc => ?_, h⟩
      rcases List.mem_cons.1 hc with rfl | hc
      · exact hab.le
      · exact hab.le.trans (hb c hc)
    · refine List.pairwise_cons.2 ⟨fun c hc => ?_, ih hl⟩
      rcases mem_insertUpper.1 hc with rfl | hc
      · exact not_lt.1 hab
      · exact hb c hc

theorem map_insertUpper {key' : β → κ} {f : α → β} (h : ∀ a, key' (f a) = key a) (a : α)
    (l : List α) : (insertUpper key a l).map f = insertUpper key' (f a) (l.map f) := by
  induction l with
  | nil => rfl
  | cons b l ih =>
    rw [List.map_cons, insertUpper, insertUpper, h, h]
    split_ifs
    · rfl
    · rw [List.map_cons, ih]

/-- All that is before has no larger key. -/
theorem insertUpper_append (h : ∀ b ∈ pre, key b ≤ key a) (l : List α) :
    insertUpper key a (pre ++ l) = pre ++ insertUpper key a l := by
  induction pre with
  | nil => rfl
  | cons b pre ih =>
    obtain ⟨hb, hpre⟩ := List.forall_mem_cons.1 h
    rw [List.cons_append, insertUpper, if_neg (not_lt.2 hb), ih hpre, List.cons_append]

/-- All that is behind has a larger key. -/
theorem insertUpper_append_of_lt (h : ∀ b ∈ post, key a < key b) (l : List α) :
    insertUpper key a (l ++ post) = insertUpper key a l ++ post := by
  induction l with
  | nil =>
    cases post with
    | nil => rfl
    | cons b post => exact if_pos (h b List.mem_cons_self)
  | cons b l ih =>
    rw [List.cons_append, insertUpper, insertUpper]
    split_ifs
    · rfl
    · rw [ih, List.cons_append]

/-- The list `l` is `l'` and the element `c` that an iterator points to, if there is one. It is
    the first one of its key. -/
inductive Placed (key : α → κ) : Option α → List α → List α → Prop
  | none (l : List α) : Placed key none l l
  | some {c : α} {pre post : List α} (hpre : ∀ b ∈ pre, key b < key c)
      (hpost : ∀ b ∈ post, key c ≤ key b) :
      Placed key (some c) (pre ++ c :: post) (pre ++ post)

namespace Placed

variable {cur : Option α} {l' : List α}

theorem insert (h : Placed key cur l l') (a : α) :
    Placed key cur (insertUpper key a l) (insertUpper key a l') := by
  cases h with
  | none l => exact .none _
  | @some c pre post hpre hpost =>
    by_cases hac : key a < key c
    · have hlt : ∀ b ∈ c :: post, key a < key b := by
        refine List.forall_mem_cons.2 ⟨hac, fun b hb => hac.trans_le (hpost b hb)⟩
      rw [insertUpper_append_of_lt hlt,
        insertUpper_append_of_lt (List.forall_mem_cons.1 hlt).2]
      refine .some (fun b hb => ?_) hpost
      rcases mem_insertUpper.1 hb with rfl | hb
      · exact hac
      · exact hpre b hb
    · have hle : ∀ b ∈ pre, key b ≤ key a := fun b hb => (hpre b hb).le.trans (not_lt.1 hac)
      rw [insertUpper_append hle, insertUpper_append hle, insertUpper, if_neg hac]
      refine .some hpre fun b hb => ?_
      rcases mem_insertUpper.1 hb with rfl | hb
      · exact not_lt.1 hac
      · exact hpost b hb

theorem filter (h : Placed key cur l l') {p : α → Bool} (hp : ∀ c ∈ cur, p c) :
    Placed key cur (l.filter p) (l'.filter p) := by
  cases h with
  | none l => exact .none _
  | @some c pre post hpre hpost =>
    rw [List.filter_append, List.filter_append, List.filter_cons_of_pos (hp c rfl)]
    exact .some (fun b hb => hpre b (List.mem_of_mem_filter hb)) fun b hb =>
      hpost b (List.mem_of_mem_filter hb)

theorem mem_iff (h : Placed key cur l l') {b : α} : b ∈ l ↔ b ∈ cur ∨ b ∈ l' := by
  cases h with
  | none l => simp
  | some hpre hpost => simp [or_left_comm, eq_comm]

end Placed

end DashDim
