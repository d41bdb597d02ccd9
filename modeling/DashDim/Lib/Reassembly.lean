import Mathlib.Data.Multiset.Filter
import Mathlib.Algebra.BigOperators.Group.Finset.Basic
import Mathlib.Algebra.Order.Group.Multiset
import Mathlib.Tactic.Abel

/-!
# Streams in segments

A stream is sent in segments, each a part of it with its offset. They arrive in
any order. At any time, the segments in flight and the offsets that have arrived
share the offsets sent between them, each being in exactly one (`Tiles`):

* `Tiles.send`, `Tiles.arrive`: sending a segment and its arrival keep this;
* `Tiles.not_arrived`: what is in flight has not arrived before;
* `Tiles.length_le_card`: there are no more gaps in what has arrived than segments
  in flight that start before its end;
* `Tiles.complete`: with nothing in flight, all has arrived.

The segments in flight are a multiset. `sum_update` is for those that are in
flight on several paths.
-/

namespace DashDim

/-- A part of a stream, with the offset it starts at. -/
structure Segment (α : Type*) where
  offset : ℕ
  data : List α
  deriving DecidableEq

namespace Segment

variable {α : Type*}

/-- The offset `x` is within the segment. -/
def Covers (x : ℕ) (s : Segment α) : Prop := s.offset ≤ x ∧ x < s.offset + s.data.length

instance (x : ℕ) : DecidablePred (Covers (α := α) x) := fun _ => instDecidableAnd

/-- The segment is a non-empty part of the stream. -/
def PartOf (sent : List α) (s : Segment α) : Prop :=
  s.data ≠ [] ∧ ∃ before after, sent = before ++ s.data ++ after ∧ before.length = s.offset

theorem PartOf.append {sent : List α} {s : Segment α} (h : s.PartOf sent) (data : List α) :
    s.PartOf (sent ++ data) := by
  obtain ⟨hne, before, after, rfl, hlen⟩ := h
  exact ⟨hne, before, after ++ data, by simp only [List.append_assoc], hlen⟩

theorem PartOf.end_le {sent : List α} {s : Segment α} (h : s.PartOf sent) :
    s.offset + s.data.length ≤ sent.length := by
  obtain ⟨-, before, after, rfl, hlen⟩ := h
  simp only [List.length_append]
  omega

theorem PartOf.covers_lt {sent : List α} {s : Segment α} (h : s.PartOf sent) {x : ℕ}
    (hx : s.Covers x) : x < sent.length :=
  hx.2.trans_le h.end_le

/-- A segment has the tokens of the stream at its offsets. -/
theorem PartOf.getElem? {sent : List α} {s : Segment α} (h : s.PartOf sent) {x : ℕ}
    (hx : s.Covers x) : sent[x]? = s.data[x - s.offset]? := by
  obtain ⟨-, before, after, rfl, hlen⟩ := h
  obtain ⟨hx₁, hx₂⟩ := hx
  rw [List.append_assoc, List.getElem?_append_right (by omega), hlen,
    List.getElem?_append_left (by omega)]

/-- Offsets that are each in a segment, and no two in the same one, are no more than
    the segments. -/
theorem length_le_card {flight : Multiset (Segment α)} {l : List ℕ}
    (hin : ∀ x ∈ l, ∃ s ∈ flight, s.Covers x)
    (hapart : l.Pairwise fun x y => ∀ s ∈ flight, s.Covers x → ¬s.Covers y) :
    l.length ≤ Multiset.card flight := by
  induction l generalizing flight with
  | nil => exact Nat.zero_le _
  | cons x l ih =>
    obtain ⟨hx, hl⟩ := List.forall_mem_cons.1 hin
    obtain ⟨hxl, hapart⟩ := List.pairwise_cons.1 hapart
    obtain ⟨s, hs, hcov⟩ := hx
    obtain ⟨rest, rfl⟩ := Multiset.exists_cons_of_mem hs
    rw [List.length_cons, Multiset.card_cons]
    refine Nat.succ_le_succ (ih (fun y hy => ?_) (hapart.imp fun hyz t ht =>
      hyz t (Multiset.mem_cons_of_mem ht)))
    -- the segment of the first offset is not that of another one
    obtain ⟨t, ht, hcovy⟩ := hl y hy
    rcases Multiset.mem_cons.1 ht with rfl | ht
    · exact absurd hcovy (hxl y hy t hs hcov)
    · exact ⟨t, ht, hcovy⟩

end Segment

/-- Each offset of `sent` either has arrived, and is in no segment in flight, or has
    not, and is in exactly one. -/
structure Tiles {α : Type*} (sent : List α) (flight : Multiset (Segment α))
    (arrived : ℕ → Prop) : Prop where
  partOf : ∀ s ∈ flight, s.PartOf sent
  arrived_lt : ∀ x, arrived x → x < sent.length
  once : ∀ x < sent.length, (arrived x ∧ flight.countP (Segment.Covers x) = 0) ∨
    (¬arrived x ∧ flight.countP (Segment.Covers x) = 1)

namespace Tiles

variable {α : Type*} {sent : List α} {flight : Multiset (Segment α)} {arrived : ℕ → Prop}

theorem nil : Tiles ([] : List α) 0 fun _ => False where
  partOf _ h := absurd h (Multiset.notMem_zero _)
  arrived_lt _ h := h.elim
  once _ h := absurd h (Nat.not_lt_zero _)

theorem congr {arrived' : ℕ → Prop} (h : Tiles sent flight arrived)
    (heq : ∀ x, arrived' x ↔ arrived x) : Tiles sent flight arrived' where
  partOf := h.partOf
  arrived_lt x hx := h.arrived_lt x ((heq x).1 hx)
  once x hx := by
    rw [heq]
    exact h.once x hx

/-- The segments in flight have no offset from the end of the stream on. -/
theorem countP_of_length_le (h : Tiles sent flight arrived) {x : ℕ} (hx : sent.length ≤ x) :
    flight.countP (Segment.Covers x) = 0 := by
  rw [Multiset.countP_eq_zero]
  intro s hs hcov
  exact absurd ((h.partOf s hs).covers_lt hcov) (not_lt.2 hx)

/-- The stream goes on with a segment. -/
theorem send (h : Tiles sent flight arrived) {data : List α} (hne : data ≠ []) :
    Tiles (sent ++ data) (⟨sent.length, data⟩ ::ₘ flight) arrived where
  partOf s hs := by
    rcases Multiset.mem_cons.1 hs with rfl | hs
    · exact ⟨hne, sent, [], (List.append_nil _).symm, rfl⟩
    · exact (h.partOf s hs).append data
  arrived_lt x hx := by
    have hlt := h.arrived_lt x hx
    rw [List.length_append]
    omega
  once x hx := by
    rw [List.length_append] at hx
    by_cases hlt : x < sent.length
    · have hcov : ¬Segment.Covers x ⟨sent.length, data⟩ := fun hc => absurd hc.1 (not_le.2 hlt)
      rw [Multiset.countP_cons_of_neg _ hcov]
      exact h.once x hlt
    · have hcov : Segment.Covers x ⟨sent.length, data⟩ := ⟨not_lt.1 hlt, hx⟩
      rw [Multiset.countP_cons_of_pos _ hcov, h.countP_of_length_le (not_lt.1 hlt)]
      exact .inr ⟨fun ha => hlt (h.arrived_lt x ha), rfl⟩

/-- What is in flight has not arrived. -/
theorem not_arrived {s : Segment α} (h : Tiles sent (s ::ₘ flight) arrived) {x : ℕ}
    (hx : s.Covers x) : ¬arrived x := by
  intro ha
  rcases h.once x (h.arrived_lt x ha) with ⟨-, hcount⟩ | ⟨hna, -⟩
  · rw [Multiset.countP_cons_of_pos _ hx] at hcount
    exact Nat.succ_ne_zero _ hcount
  · exact hna ha

/-- A segment arrives. -/
theorem arrive {s : Segment α} (h : Tiles sent (s ::ₘ flight) arrived) :
    Tiles sent flight fun x => s.Covers x ∨ arrived x where
  partOf t ht := h.partOf t (Multiset.mem_cons_of_mem ht)
  arrived_lt x hx := by
    rcases hx with hx | hx
    · exact (h.partOf s (Multiset.mem_cons_self _ _)).covers_lt hx
    · exact h.arrived_lt x hx
  once x hx := by
    have honce := h.once x hx
    by_cases hcov : s.Covers x
    · rw [Multiset.countP_cons_of_pos _ hcov] at honce
      rcases honce with ⟨-, hcount⟩ | ⟨-, hcount⟩
      · exact absurd hcount (Nat.succ_ne_zero _)
      · exact .inl ⟨.inl hcov, Nat.succ.inj hcount⟩
    · rw [Multiset.countP_cons_of_neg _ hcov] at honce
      rcases honce with ⟨ha, hcount⟩ | ⟨hna, hcount⟩
      · exact .inl ⟨.inr ha, hcount⟩
      · exact .inr ⟨fun hor => hor.elim hcov hna, hcount⟩

/-- An offset missing is in a segment in flight. -/
theorem exists_covers (h : Tiles sent flight arrived) {x : ℕ} (hx : x < sent.length)
    (hna : ¬arrived x) : ∃ s ∈ flight, s.Covers x := by
  rcases h.once x hx with ⟨ha, -⟩ | ⟨-, hcount⟩
  · exact absurd ha hna
  · exact Multiset.countP_pos.1 (by omega)

/-- Offsets missing with some that have arrived between any two are in segments of
    their own: below a bound there are no more than segments in flight that start there. -/
theorem length_le_card (h : Tiles sent flight arrived) {l : List ℕ} {bound : ℕ}
    (hmissing : ∀ x ∈ l, x < bound ∧ x < sent.length ∧ ¬arrived x)
    (hapart : l.Pairwise fun x y => ∃ z, x < z ∧ z < y ∧ arrived z) :
    l.length ≤ Multiset.card (flight.filter fun s => s.offset < bound) := by
  refine Segment.length_le_card (fun x hx => ?_) (hapart.imp ?_)
  · obtain ⟨hbound, hlt, hna⟩ := hmissing x hx
    obtain ⟨s, hs, hcov⟩ := h.exists_covers hlt hna
    exact ⟨s, Multiset.mem_filter.2 ⟨hs, hcov.1.trans_lt hbound⟩, hcov⟩
  · rintro x y ⟨z, hxz, hzy, ha⟩ s hs hx hy
    obtain ⟨rest, rfl⟩ := Multiset.exists_cons_of_mem (Multiset.mem_of_mem_filter hs)
    exact h.not_arrived ⟨hx.1.trans hxz.le, hzy.trans hy.2⟩ ha

/-- With nothing in flight, all of the stream has arrived. -/
theorem complete (h : Tiles sent 0 arrived) (x : ℕ) : arrived x ↔ x < sent.length := by
  refine ⟨h.arrived_lt x, fun hx => ?_⟩
  rcases h.once x hx with ⟨ha, -⟩ | ⟨-, hcount⟩
  · exact ha
  · exact absurd hcount (by simp)

end Tiles

/-- Of a sum over paths, what one of them adds is exchanged. -/
theorem sum_update {ι M : Type*} [Fintype ι] [DecidableEq ι] [AddCommMonoid M] (f : ι → M)
    (i : ι) (m : M) : ∑ j, Function.update f i m j + f i = ∑ j, f j + m := by
  rw [← Finset.add_sum_erase _ _ (Finset.mem_univ i),
    ← Finset.add_sum_erase (s := Finset.univ) f (Finset.mem_univ i), Function.update_self,
    Finset.sum_congr rfl fun j hj =>
      Function.update_of_ne (Finset.ne_of_mem_erase hj) m f]
  abel

end DashDim
