import Mathlib.Data.List.Basic
import Mathlib.Data.List.Nodup
import Mathlib.Logic.Function.Basic

/-!
# Intrusive lists

Doubly linked lists whose links are in their elements, as those of `sys/queue.h`: an element
points to the next one, and to the place that points to itself, which is the head of a list
or an element. An element in no list points to no such place.

`Represents` says that the links are those of given lists, which have no element in common; it is
kept by what the operations do to the lists:

* `Represents.insertHead`, `Represents.remove`, `Represents.move`.
-/

namespace DashDim

/-- What points to an element: the head of a list, or the element before. -/
inductive Place (β α : Type*)
  | head (h : β)
  | next (a : α)
  deriving DecidableEq

/-- The element at a place, if there is one. -/
def Place.element {β α : Type*} : Place β α → Option α
  | .head _ => none
  | .next a => some a

/-- The heads `lh_first` and the entries `le_next`, `le_prev`. -/
structure Links (β α : Type*) where
  first : β → Option α
  next : α → Option α
  prev : α → Option (Place β α)

namespace Links

variable {β α : Type*}

/-- No list holds anything. -/
def empty : Links β α := ⟨fun _ => none, fun _ => none, fun _ => none⟩

variable (L : Links β α)

/-- What a place points to. -/
def get : Place β α → Option α
  | .head h => L.first h
  | .next a => L.next a

/-! ## Lists -/

variable {L}

variable (L) in
/-- The links from a place on are those of a list. -/
def Chain : Place β α → List α → Prop
  | p, [] => L.get p = none
  | p, a :: l => L.get p = some a ∧ L.prev a = some p ∧ Chain (.next a) l

theorem Chain.congr {L' : Links β α} {p : Place β α} {l : List α} (h : L.Chain p l)
    (hp : L'.get p = L.get p) (hl : ∀ a ∈ l, L'.prev a = L.prev a ∧ L'.next a = L.next a) :
    L'.Chain p l := by
  induction l generalizing p with
  | nil => exact hp.trans h
  | cons a l ih =>
    obtain ⟨hget, hprev, hrest⟩ := h
    obtain ⟨ha, hl⟩ := List.forall_mem_cons.1 hl
    exact ⟨hp.trans hget, ha.1.trans hprev, ih hrest ha.2 hl⟩

/-- What is behind an element of the list is in the rest of it. -/
theorem Chain.next_mem {p : Place β α} {l : List α} (h : L.Chain p l) {a b : α} (ha : a ∈ l)
    (hb : L.next a = some b) : b ∈ l.tail := by
  induction l generalizing p with
  | nil => exact absurd ha List.not_mem_nil
  | cons c l ih =>
    obtain ⟨-, -, hrest⟩ := h
    rcases List.mem_cons.1 ha with rfl | ha
    · cases l with
      | nil => exact absurd (hb.symm.trans hrest) (Option.some_ne_none b)
      | cons d l =>
        have hd : some b = some d := hb.symm.trans hrest.1
        simp [Option.some_inj.1 hd]
    · exact List.mem_of_mem_tail (ih hrest ha)

/-- What is before an element is where the list starts, or another element. -/
theorem Chain.prev_mem {p : Place β α} {l : List α} (h : L.Chain p l) {a : α} (ha : a ∈ l) :
    (L.prev a = some p ∧ l.head? = some a) ∨ ∃ c ∈ l, L.prev a = some (.next c) := by
  induction l generalizing p with
  | nil => exact absurd ha List.not_mem_nil
  | cons b l ih =>
    obtain ⟨-, hprev, hrest⟩ := h
    rcases List.mem_cons.1 ha with rfl | ha
    · exact .inl ⟨hprev, rfl⟩
    · rcases ih hrest ha with ⟨hprev, -⟩ | ⟨c, hc, hprev⟩
      · exact .inr ⟨b, List.mem_cons_self, hprev⟩
      · exact .inr ⟨c, List.mem_cons_of_mem b hc, hprev⟩

variable (L) in
/-- The links are those of the lists, and an element in none of them points to no place. -/
structure Represents (ls : β → List α) : Prop where
  chain : ∀ h, L.Chain (.head h) (ls h)
  nodup : ∀ h, (ls h).Nodup
  apart : ∀ {h h' a}, a ∈ ls h → a ∈ ls h' → h = h'
  unlisted : ∀ {a}, (∀ h, a ∉ ls h) → L.prev a = none

theorem represents_empty : (empty : Links β α).Represents fun _ => [] :=
  ⟨fun _ => rfl, fun _ => List.nodup_nil, fun ha _ => absurd ha List.not_mem_nil, fun _ => rfl⟩

namespace Represents

variable {ls : β → List α} {h h' : β} {a : α}

theorem first_eq (hr : L.Represents ls) (h : β) : L.first h = (ls h).head? := by
  have hchain := hr.chain h
  cases hl : ls h with
  | nil =>
    rw [hl] at hchain
    exact hchain
  | cons a l =>
    rw [hl] at hchain
    exact hchain.1

theorem isSome_prev_iff (hr : L.Represents ls) : (L.prev a).isSome ↔ ∃ h, a ∈ ls h := by
  constructor
  · intro hprev
    by_contra hnot
    simp [hr.unlisted (not_exists.1 hnot)] at hprev
  · rintro ⟨h, ha⟩
    rcases (hr.chain h).prev_mem ha with ⟨hprev, -⟩ | ⟨c, -, hprev⟩ <;> simp [hprev]

theorem next_mem (hr : L.Represents ls) (ha : a ∈ ls h) {b : α} (hb : L.next a = some b) :
    b ∈ ls h :=
  List.mem_of_mem_tail ((hr.chain h).next_mem ha hb)

/-- What points to an element of a list is of this list. -/
theorem prev_eq (hr : L.Represents ls) (ha : a ∈ ls h) :
    L.prev a = some (.head h) ∨ ∃ c ∈ ls h, L.prev a = some (.next c) := by
  rcases (hr.chain h).prev_mem ha with ⟨hprev, -⟩ | hprev
  · exact .inl hprev
  · exact .inr hprev

/-- It is of no other list. -/
theorem place_of_prev_eq (hr : L.Represents ls) (ha : a ∈ ls h) : ∃ p, L.prev a = some p ∧
    ∀ h', p = .head h' ∨ (∃ c ∈ ls h', p = .next c) → h' = h := by
  rcases hr.prev_eq ha with hprev | ⟨c, hc, hprev⟩
  · refine ⟨_, hprev, fun h' hh' => ?_⟩
    rcases hh' with heq | ⟨d, -, heq⟩ <;> cases heq
    rfl
  · refine ⟨_, hprev, fun h' hh' => ?_⟩
    rcases hh' with heq | ⟨d, hd, heq⟩ <;> cases heq
    exact hr.apart hd hc

end Represents

/-! ## Operations -/

variable [DecidableEq α]

variable (L) in

/-- Writes the back pointer of an element. -/
def setPrev (a : α) (p : Option (Place β α)) : Links β α :=
  { L with prev := Function.update L.prev a p }

variable (L) in
/-- Setting the place of an element, if there is one. -/
def setPrevOf (v : Option α) (p : Place β α) : Links β α :=
  match v with
  | none => L
  | some a => L.setPrev a (some p)

@[simp] theorem get_setPrev (a : α) (p : Option (Place β α)) (q : Place β α) :
    (L.setPrev a p).get q = L.get q := by
  cases q <;> rfl

@[simp] theorem prev_setPrev (a : α) (p : Option (Place β α)) (b : α) :
    (L.setPrev a p).prev b = if b = a then p else L.prev b := by
  simp [setPrev, Function.update_apply]

@[simp] theorem get_setPrevOf (v : Option α) (p q : Place β α) :
    (L.setPrevOf v p).get q = L.get q := by
  cases v <;> simp [setPrevOf]

@[simp] theorem prev_setPrevOf (v : Option α) (p : Place β α) (b : α) :
    (L.setPrevOf v p).prev b = if v = some b then some p else L.prev b := by
  cases v <;> simp [setPrevOf, eq_comm]

variable [DecidableEq β]

section

variable (L)

/-- Writes what a place points to. -/
def set (p : Place β α) (v : Option α) : Links β α :=
  match p with
  | .head h => { L with first := Function.update L.first h v }
  | .next a => { L with next := Function.update L.next a v }

/-- `LIST_INSERT_HEAD`. -/
def insertHead (h : β) (a : α) : Links β α :=
  (((L.set (.next a) (L.first h)).setPrevOf (L.first h) (.next a)).set (.head h) (some a)).setPrev a
    (some (.head h))

/-- `LIST_REMOVE`, after which the element is noted to be in no list. -/
def remove (a : α) : Links β α :=
  match L.prev a with
  | none => L
  | some p => ((L.setPrevOf (L.next a) p).set p (L.next a)).setPrev a none

/-- Swapping two lists, of which the second is empty. -/
def move (h h' : β) : Links β α :=
  ((L.set (.head h) (L.first h')).set (.head h') (L.first h)).setPrevOf (L.first h) (.head h')

end

@[simp] theorem get_set (p q : Place β α) (v : Option α) :
    (L.set p v).get q = if q = p then v else L.get q := by
  cases p <;> cases q <;> simp [set, get, Function.update_apply]

@[simp] theorem prev_set (p : Place β α) (v : Option α) (a : α) :
    (L.set p v).prev a = L.prev a := by
  cases p <;> rfl

theorem get_insertHead (h : β) (a : α) (q : Place β α) :
    (L.insertHead h a).get q =
      if q = .head h then some a else if q = .next a then L.first h else L.get q := by
  simp [insertHead]

theorem prev_insertHead (h : β) (a b : α) :
    (L.insertHead h a).prev b =
      if b = a then some (.head h) else if L.first h = some b then some (.next a)
      else L.prev b := by
  simp [insertHead]

theorem get_remove {a : α} {p : Place β α} (hp : L.prev a = some p) (q : Place β α) :
    (L.remove a).get q = if q = p then L.next a else L.get q := by
  simp [remove, hp]

theorem prev_remove {a : α} {p : Place β α} (hp : L.prev a = some p) (b : α) :
    (L.remove a).prev b =
      if b = a then none else if L.next a = some b then some p else L.prev b := by
  simp [remove, hp]

theorem get_move (h h' : β) (q : Place β α) :
    (L.move h h').get q =
      if q = .head h' then L.first h else if q = .head h then L.first h' else L.get q := by
  simp [move]

theorem prev_move (h h' : β) (b : α) :
    (L.move h h').prev b = if L.first h = some b then some (.head h') else L.prev b := by
  simp [move]

theorem Chain.remove {p : Place β α} {l : List α} (h : L.Chain p l) (hnodup : l.Nodup)
    (hp : ∀ c, p = .next c → c ∉ l) {a : α} (ha : a ∈ l) : (L.remove a).Chain p (l.erase a) := by
  induction l generalizing p with
  | nil => exact absurd ha List.not_mem_nil
  | cons b l ih =>
    obtain ⟨hget, hprev, hrest⟩ := h
    obtain ⟨hbl, hnodup⟩ := List.nodup_cons.1 hnodup
    by_cases hab : b = a
    · subst hab
      rw [List.erase_cons_head]
      cases l with
      | nil => exact (get_remove hprev p).trans ((if_pos rfl).trans hrest)
      | cons c l =>
        obtain ⟨hget', -, hrest⟩ := hrest
        have hnext : L.next b = some c := hget'
        obtain ⟨hcl, -⟩ := List.nodup_cons.1 hnodup
        obtain ⟨hbc, hbl⟩ := not_or.1 (mt List.mem_cons.2 hbl)
        have hpc : Place.next c ≠ p := fun heq =>
          hp c heq.symm (List.mem_cons_of_mem b List.mem_cons_self)
        refine ⟨?_, ?_, hrest.congr ?_ fun d hd => ⟨?_, ?_⟩⟩
        · simpa [get_remove hprev] using hnext
        · simpa [prev_remove hprev, Ne.symm hbc] using fun h => absurd hnext h
        · simp [get_remove hprev, hpc]
        · have hdb : d ≠ b := ne_of_mem_of_not_mem hd hbl
          have hdc : c ≠ d := (ne_of_mem_of_not_mem hd hcl).symm
          simp [prev_remove hprev, hdb, hnext, hdc]
        · have hpd : Place.next d ≠ p := fun heq =>
            hp d heq.symm (List.mem_cons_of_mem b (List.mem_cons_of_mem c hd))
          exact (get_remove hprev (.next d)).trans (if_neg hpd)
    · have hal : a ∈ l := (List.mem_cons.1 ha).resolve_left (Ne.symm hab)
      rw [List.erase_cons_tail (by simpa using hab)]
      -- what points to `a` is behind `p`
      obtain ⟨c, hc, hprev'⟩ : ∃ c ∈ b :: l, L.prev a = some (.next c) := by
        rcases hrest.prev_mem hal with ⟨hprev', -⟩ | ⟨c, hc, hprev'⟩
        · exact ⟨b, List.mem_cons_self, hprev'⟩
        · exact ⟨c, List.mem_cons_of_mem b hc, hprev'⟩
      refine ⟨?_, ?_, ih hrest hnodup (fun d hd => ?_) hal⟩
      · have hpc : p ≠ .next c := fun heq => hp c heq hc
        simpa [get_remove hprev', hpc] using hget
      · have hnext : L.next a ≠ some b := fun hnext =>
          hbl (List.mem_of_mem_tail (hrest.next_mem hal hnext))
        simpa [prev_remove hprev', hab, hnext] using hprev
      · cases hd
        exact hbl

namespace Represents

variable {ls : β → List α} {h h' : β} {a : α}

theorem insertHead (hr : L.Represents ls) (ha : ∀ h, a ∉ ls h) (h : β) :
    (L.insertHead h a).Represents (Function.update ls h (a :: ls h)) := by
  have hfirst := hr.first_eq h
  have hkeep : ∀ h' d, d ∈ ls h' → (h' = h → (ls h).head? ≠ some d) →
      (L.insertHead h a).prev d = L.prev d ∧ (L.insertHead h a).next d = L.next d := by
    intro h' d hd hne
    have hda : d ≠ a := ne_of_mem_of_not_mem hd (ha h')
    constructor
    · have hnot : L.first h ≠ some d := fun heq => by
        rw [hfirst] at heq
        exact hne (hr.apart hd (List.mem_of_head? heq)) heq
      simp [prev_insertHead, hda, hnot]
    · exact (get_insertHead h a (.next d)).trans (by simp [hda, get])
  refine ⟨fun h' => ?_, fun h' => ?_, fun {h' h'' b} hb hb' => ?_, fun {b} hb => ?_⟩
  · by_cases hh : h' = h
    · subst hh
      simp only [Function.update_self]
      refine ⟨by simp [get_insertHead], by simp [prev_insertHead], ?_⟩
      have hget : (L.insertHead h' a).get (.next a) = L.first h' := by simp [get_insertHead]
      have hchain := hr.chain h'
      have hnodup := hr.nodup h'
      have hmem := ha h'
      have hkeep' := hkeep h'
      cases hl : ls h' with
      | nil =>
        rw [hl] at hfirst
        exact hget.trans hfirst
      | cons b l =>
        rw [hl] at hfirst hchain hnodup hmem hkeep'
        obtain ⟨hbl, -⟩ := List.nodup_cons.1 hnodup
        have hba : b ≠ a := (List.ne_of_not_mem_cons hmem).symm
        refine ⟨hget.trans hfirst, ?_, hchain.2.2.congr ?_ fun d hd => ?_⟩
        · simp [prev_insertHead, hba, hfirst]
        · simp [get_insertHead, hba]
        · refine hkeep' d (List.mem_cons_of_mem b hd) fun _ heq => hbl ?_
          rw [List.head?_cons, Option.some_inj] at heq
          exact heq ▸ hd
    · simp only [Function.update_of_ne hh]
      refine (hr.chain h').congr ?_ fun d hd => hkeep h' d hd fun heq => absurd heq hh
      simp [get_insertHead, hh]
  · by_cases hh : h' = h
    · subst hh
      simpa using ⟨ha h', hr.nodup h'⟩
    · simpa [hh] using hr.nodup h'
  · simp only [Function.update_apply] at hb hb'
    split_ifs at hb hb' with h₁ h₂ h₂
    · exact h₁.trans h₂.symm
    · rcases List.mem_cons.1 hb with rfl | hb
      · exact absurd hb' (ha _)
      · exact h₁.trans (hr.apart hb hb')
    · rcases List.mem_cons.1 hb' with rfl | hb'
      · exact absurd hb (ha _)
      · exact (hr.apart hb hb').trans h₂.symm
    · exact hr.apart hb hb'
  · have hbh := hb h
    rw [Function.update_self] at hbh
    obtain ⟨hba, hbl⟩ := not_or.1 (mt List.mem_cons.2 hbh)
    have hnone : ∀ h', b ∉ ls h' := fun h' => by
      by_cases hh : h' = h
      · exact hh ▸ hbl
      · simpa [hh] using hb h'
    have hnot : L.first h ≠ some b := fun heq => hbl (List.mem_of_head? (hfirst ▸ heq))
    simpa [prev_insertHead, hba, hnot] using hr.unlisted hnone

theorem remove (hr : L.Represents ls) (ha : a ∈ ls h) :
    (L.remove a).Represents (Function.update ls h ((ls h).erase a)) := by
  obtain ⟨p, hprev, hplace⟩ := hr.place_of_prev_eq ha
  have hnext : ∀ b, L.next a = some b → b ∈ ls h := fun b => hr.next_mem ha
  refine ⟨fun h' => ?_, fun h' => ?_, fun {h' h'' b} hb hb' => ?_, fun {b} hb => ?_⟩
  · by_cases hh : h' = h
    · subst hh
      simpa using (hr.chain h').remove (hr.nodup h') (fun c hc => by cases hc) ha
    · simp only [Function.update_of_ne hh]
      refine (hr.chain h').congr ?_ fun d hd => ⟨?_, ?_⟩
      · have hne : Place.head h' ≠ p := fun heq => hh (hplace h' (.inl heq.symm))
        simp [get_remove hprev, hne]
      · have hda : d ≠ a := fun heq => hh (hr.apart hd (heq ▸ ha))
        have hnot : L.next a ≠ some d := fun heq => hh (hr.apart hd (hnext d heq))
        simp [prev_remove hprev, hda, hnot]
      · have hne : Place.next d ≠ p := fun heq => hh (hplace h' (.inr ⟨d, hd, heq.symm⟩))
        exact (get_remove hprev (.next d)).trans (if_neg hne)
  · by_cases hh : h' = h
    · subst hh
      simpa using (hr.nodup h').erase a
    · simpa [hh] using hr.nodup h'
  · have hsub : ∀ k, b ∈ Function.update ls h ((ls h).erase a) k → b ∈ ls k := fun k hk => by
      by_cases hkh : k = h
      · subst hkh
        rw [Function.update_self] at hk
        exact List.mem_of_mem_erase hk
      · simpa [hkh] using hk
    exact hr.apart (hsub _ hb) (hsub _ hb')
  · by_cases hba : b = a
    · simp [prev_remove hprev, hba]
    · have hbh := hb h
      rw [Function.update_self, List.mem_erase_of_ne hba] at hbh
      have hnone : ∀ h', b ∉ ls h' := fun h' => by
        by_cases hh : h' = h
        · exact hh ▸ hbh
        · simpa [hh] using hb h'
      have hnot : L.next a ≠ some b := fun heq => hbh (hnext b heq)
      simpa [prev_remove hprev, hba, hnot] using hr.unlisted hnone

/-- A list that is moved to an empty one. -/
theorem move (hr : L.Represents ls) (hne : h ≠ h') (hempty : ls h' = []) :
    (L.move h h').Represents (Function.update (Function.update ls h' (ls h)) h []) := by
  have hfirst := hr.first_eq h
  have hfirst' : L.first h' = none := by rw [hr.first_eq, hempty, List.head?_nil]
  have hnext : ∀ d, (L.move h h').next d = L.next d := fun d =>
    (get_move h h' (.next d)).trans (by simp [get])
  have hls : ∀ k, Function.update (Function.update ls h' (ls h)) h [] k =
      if k = h then [] else if k = h' then ls h else ls k := fun k => by
    simp [Function.update_apply]
  -- every list of the result is one from before
  have hback : ∀ k b, b ∈ Function.update (Function.update ls h' (ls h)) h [] k →
      k ≠ h ∧ b ∈ ls (if k = h' then h else k) := fun k b hb => by
    rw [hls] at hb
    by_cases hk : k = h
    · rw [if_pos hk] at hb
      exact absurd hb List.not_mem_nil
    · rw [if_neg hk] at hb
      refine ⟨hk, ?_⟩
      split_ifs at hb ⊢ <;> exact hb
  refine ⟨fun k => ?_, fun k => ?_, fun {k k' b} hb hb' => ?_, fun {b} hb => ?_⟩
  · rw [hls]
    split_ifs with hk hk'
    · subst hk
      exact (get_move k h' (.head k)).trans (by simp [hne, hfirst'])
    · subst hk'
      have hget : (L.move h k).get (.head k) = L.first h := by simp [get_move]
      have hchain := hr.chain h
      have hnodup := hr.nodup h
      cases hl : ls h with
      | nil =>
        rw [hl] at hfirst
        exact hget.trans hfirst
      | cons b l =>
        rw [hl] at hfirst hchain hnodup
        obtain ⟨hbl, -⟩ := List.nodup_cons.1 hnodup
        refine ⟨hget.trans hfirst, by simp [prev_move, hfirst], hchain.2.2.congr (hnext b)
          fun d hd => ⟨?_, hnext d⟩⟩
        simp [prev_move, hfirst, (ne_of_mem_of_not_mem hd hbl).symm]
    · refine (hr.chain k).congr (by simp [get_move, hk, hk']) fun d hd => ⟨?_, hnext d⟩
      have hnot : L.first h ≠ some d := fun heq =>
        hk (hr.apart hd (List.mem_of_head? (hfirst ▸ heq)))
      simp [prev_move, hnot]
  · rw [hls]
    split_ifs
    · exact List.nodup_nil
    · exact hr.nodup h
    · exact hr.nodup k
  · obtain ⟨hk, hb⟩ := hback k b hb
    obtain ⟨hk', hb'⟩ := hback k' b hb'
    have heq := hr.apart hb hb'
    split_ifs at heq with h₁ h₂ h₂
    · exact h₁.trans h₂.symm
    · exact absurd heq.symm hk'
    · exact absurd heq hk
    · exact heq
  · have hbh := hb h'
    rw [hls, if_neg hne.symm, if_pos rfl] at hbh
    have hnot : L.first h ≠ some b := fun heq => hbh (List.mem_of_head? (hfirst ▸ heq))
    have hnone : ∀ k, b ∉ ls k := fun k hk => by
      by_cases hkh : k = h
      · exact hbh (hkh ▸ hk)
      · by_cases hkh' : k = h'
        · rw [hkh', hempty] at hk
          exact List.not_mem_nil hk
        · have hbk := hb k
          rw [hls, if_neg hkh, if_neg hkh'] at hbk
          exact hbk hk
    simpa [prev_move, hnot] using hr.unlisted hnone

end Represents

end Links

end DashDim
