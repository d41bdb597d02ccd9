import Mathlib.Data.List.Pairwise
import Mathlib.Order.Preorder.Chain

/-!
# Search trees

A map kept as a search tree over a comparison, as the ordered maps of C++ are: keys are
looked up by the comparison alone, from the root. An insertion or an erasure may
change the shape of the tree in any way, but not the order of the entries in it; it is
described by what it does to their list.

* `StrictWeakOrderOn`: what a comparison has to be on the keys that are used;
* `strictWeakOrderOn_iff_isChain`: a comparison that says "not at least" of a partial
  order is one exactly on the chains of the order;
* `Represents.find`, `Represents.insert`, `Represents.erase`: over such a comparison a
  tree is a map.
-/

namespace DashDim

variable {κ ν : Type*}

/-- A strict weak order on a set of keys, in which only equal keys are equivalent. -/
structure StrictWeakOrderOn (lt : κ → κ → Bool) (K : Set κ) : Prop where
  irrefl : ∀ a ∈ K, lt a a = false
  asymm : ∀ a ∈ K, ∀ b ∈ K, lt a b = true → lt b a = false
  trans : ∀ a ∈ K, ∀ b ∈ K, ∀ c ∈ K, lt a b = true → lt b c = true → lt a c = true
  equiv : ∀ a ∈ K, ∀ b ∈ K, lt a b = false → lt b a = false → a = b

/-- "Not at least" is a strict weak order exactly on chains. -/
theorem strictWeakOrderOn_iff_isChain [PartialOrder κ] {lt : κ → κ → Bool}
    (hlt : ∀ a b, lt a b = true ↔ ¬ b ≤ a) (K : Set κ) :
    StrictWeakOrderOn lt K ↔ IsChain (· ≤ ·) K := by
  have hfalse : ∀ a b, lt a b = false ↔ b ≤ a := by
    intro a b
    rw [← Bool.not_eq_true, hlt, not_not]
  refine ⟨fun h a ha b hb _ => ?_, fun h => ⟨?_, ?_, ?_, ?_⟩⟩
  · by_cases hba : b ≤ a
    · exact .inr hba
    · exact .inl ((hfalse b a).1 (h.asymm a ha b hb ((hlt a b).2 hba)))
  · exact fun a _ => (hfalse a a).2 le_rfl
  · intro a ha b hb hab
    exact (hfalse b a).2 ((h.total ha hb).resolve_right ((hlt a b).1 hab))
  · intro a ha b hb c hc hab hbc
    have hle := (h.total ha hb).resolve_right ((hlt a b).1 hab)
    exact (hlt a c).2 fun hca => (hlt b c).1 hbc (hca.trans hle)
  · exact fun a _ b _ hab hba => le_antisymm ((hfalse b a).1 hba) ((hfalse a b).1 hab)

/-! ## Trees -/

/-- A binary tree of keys and values. -/
inductive SearchTree (κ ν : Type*)
  | leaf
  | node (left : SearchTree κ ν) (key : κ) (value : ν) (right : SearchTree κ ν)

namespace SearchTree

/-- The entries in order. -/
def toList : SearchTree κ ν → List (κ × ν)
  | leaf => []
  | node left key value right => left.toList ++ (key, value) :: right.toList

/-- The entries before and after the place that is found on the way down, going to the
    right where this is said of the key of a node. -/
def descend (right : κ → Bool) : SearchTree κ ν → List (κ × ν) × List (κ × ν)
  | leaf => ([], [])
  | node l key value r =>
    if right key = true then (l.toList ++ (key, value) :: (descend right r).1, (descend right r).2)
    else ((descend right l).1, (descend right l).2 ++ (key, value) :: r.toList)

/-- The entries before the first one that is not less than the key, and from there on. -/
def lowerBound (lt : κ → κ → Bool) (k : κ) (t : SearchTree κ ν) :
    List (κ × ν) × List (κ × ν) := t.descend fun key => lt key k

/-- The entries before the first one that is greater than the key, and from there on:
    the place where it is inserted. -/
def upperBound (lt : κ → κ → Bool) (k : κ) (t : SearchTree κ ν) :
    List (κ × ν) × List (κ × ν) := t.descend fun key => !lt k key

/-- The value of a key. -/
def find (lt : κ → κ → Bool) (k : κ) (t : SearchTree κ ν) : Option ν :=
  match (t.lowerBound lt k).2 with
  | [] => none
  | (key, value) :: _ => if lt k key = true then none else some value

/-- The entries after an insertion: there is none if the entry before is not less. -/
def insertList (lt : κ → κ → Bool) (k : κ) (v : ν) (t : SearchTree κ ν) : List (κ × ν) :=
  match (t.upperBound lt k).1.getLast? with
  | none => (k, v) :: (t.upperBound lt k).2
  | some (key, _) =>
    if lt key k = true then (t.upperBound lt k).1 ++ (k, v) :: (t.upperBound lt k).2
    else t.toList

/-- The entries after an erasure of what is found. -/
def eraseList (lt : κ → κ → Bool) (k : κ) (t : SearchTree κ ν) : List (κ × ν) :=
  (t.lowerBound lt k).1 ++ (t.lowerBound lt k).2.tail

theorem descend_append (right : κ → Bool) (t : SearchTree κ ν) :
    (t.descend right).1 ++ (t.descend right).2 = t.toList := by
  induction t with
  | leaf => rfl
  | node l key value r ihl ihr =>
    rw [descend, toList]
    split_ifs
    · rw [← ihr, List.append_assoc, List.cons_append]
    · rw [← ihl, List.append_assoc]

/-- If what is said of a key is said of all before it, the way down separates the keys
    it is said of from the others. -/
theorem descend_spec {right : κ → Bool} {t : SearchTree κ ν}
    (h : t.toList.Pairwise fun e e' => right e'.1 = true → right e.1 = true) :
    (∀ e ∈ (t.descend right).1, right e.1 = true) ∧
      ∀ e ∈ (t.descend right).2, right e.1 = false := by
  induction t with
  | leaf => exact ⟨nofun, nofun⟩
  | node l key value r ihl ihr =>
    rw [toList, List.pairwise_append, List.pairwise_cons] at h
    obtain ⟨hl, ⟨hkey, hr⟩, hcross⟩ := h
    rw [descend]
    split_ifs with hright
    · obtain ⟨h1, h2⟩ := ihr hr
      refine ⟨fun e he => ?_, h2⟩
      rcases List.mem_append.1 he with he | he
      · exact hcross e he _ List.mem_cons_self hright
      · rcases List.mem_cons.1 he with rfl | he
        · exact hright
        · exact h1 e he
    · obtain ⟨h1, h2⟩ := ihl hl
      rw [Bool.not_eq_true] at hright
      refine ⟨h1, fun e he => ?_⟩
      rcases List.mem_append.1 he with he | he
      · exact h2 e he
      · rcases List.mem_cons.1 he with rfl | he
        · exact hright
        · by_contra hne
          rw [hkey e he (by simpa using hne)] at hright
          cases hright

end SearchTree

/-! ## Trees as maps -/

/-- A tree whose entries are in order, with keys of a set, and are those of a map. -/
structure Represents (lt : κ → κ → Bool) (K : Set κ) (t : SearchTree κ ν)
    (m : κ → Option ν) : Prop where
  sorted : t.toList.Pairwise fun e e' => lt e.1 e'.1 = true
  keys : ∀ e ∈ t.toList, e.1 ∈ K
  mem : ∀ k v, (k, v) ∈ t.toList ↔ m k = some v

namespace Represents

variable {lt : κ → κ → Bool} {K : Set κ} {t t' : SearchTree κ ν} {m : κ → Option ν} {k : κ}

/-- The bound separates what is less from what is not. -/
theorem lowerBound_spec (h : Represents lt K t m) (hlt : StrictWeakOrderOn lt K) (hk : k ∈ K) :
    (∀ e ∈ (t.lowerBound lt k).1, lt e.1 k = true) ∧
      ∀ e ∈ (t.lowerBound lt k).2, lt e.1 k = false :=
  SearchTree.descend_spec (h.sorted.imp_of_mem fun {e e'} he he' hlt' hk' =>
    hlt.trans e.1 (h.keys e he) e'.1 (h.keys e' he') k hk hlt' hk')

/-- And what is greater from what is not. -/
theorem upperBound_spec (h : Represents lt K t m) (hlt : StrictWeakOrderOn lt K) (hk : k ∈ K) :
    (∀ e ∈ (t.upperBound lt k).1, lt k e.1 = false) ∧
      ∀ e ∈ (t.upperBound lt k).2, lt k e.1 = true := by
  have hspec : (∀ e ∈ (t.upperBound lt k).1, (!lt k e.1) = true) ∧
      ∀ e ∈ (t.upperBound lt k).2, (!lt k e.1) = false :=
    SearchTree.descend_spec (h.sorted.imp_of_mem fun {e e'} he he' hlt' hk' => by
      by_contra hne
      simp only [Bool.not_eq_true', Bool.not_eq_false] at hk' hne
      rw [hlt.trans k hk e.1 (h.keys e he) e'.1 (h.keys e' he') hne hlt'] at hk'
      cases hk')
  simpa using hspec

/-- The entry of a key that is in the map comes first after the bound. -/
theorem lowerBound_of_some (h : Represents lt K t m) (hlt : StrictWeakOrderOn lt K)
    (hk : k ∈ K) {v : ν} (hv : m k = some v) :
    ∃ rest, (t.lowerBound lt k).2 = (k, v) :: rest := by
  obtain ⟨hless, hnot⟩ := h.lowerBound_spec hlt hk
  have happend : (t.lowerBound lt k).1 ++ (t.lowerBound lt k).2 = t.toList :=
    SearchTree.descend_append _ t
  have hmem := (h.mem k v).2 hv
  have hsorted := h.sorted
  rw [← happend] at hmem hsorted
  rcases List.mem_append.1 hmem with hmem | hmem
  · have hlt' := hless _ hmem
    rw [hlt.irrefl k hk] at hlt'
    cases hlt'
  · cases hb : (t.lowerBound lt k).2 with
    | nil =>
      rw [hb] at hmem
      cases hmem
    | cons e rest =>
      rw [hb] at hmem hnot hsorted
      rcases List.mem_cons.1 hmem with rfl | hmem
      · exact ⟨rest, rfl⟩
      · -- an entry before it is less, but it is after the bound
        have hbefore := (List.pairwise_cons.1 (List.pairwise_append.1 hsorted).2.1).1 _ hmem
        rw [hnot e List.mem_cons_self] at hbefore
        cases hbefore

/-- A key is found with its value. -/
theorem find (h : Represents lt K t m) (hlt : StrictWeakOrderOn lt K) (hk : k ∈ K) :
    t.find lt k = m k := by
  rw [SearchTree.find]
  cases hv : m k with
  | some v =>
    obtain ⟨rest, hb⟩ := h.lowerBound_of_some hlt hk hv
    rw [hb]
    dsimp only
    rw [if_neg (by simp [hlt.irrefl k hk])]
  | none =>
    split
    · rfl
    · next key value rest hb =>
      have happend : (t.lowerBound lt k).1 ++ (t.lowerBound lt k).2 = t.toList :=
        SearchTree.descend_append _ t
      have hmem : (key, value) ∈ t.toList := by
        rw [← happend, hb]
        simp
      split_ifs with hgreater
      · rfl
      · have hnot := (h.lowerBound_spec hlt hk).2 (key, value) (by rw [hb]; simp)
        have heq := hlt.equiv k hk key (h.keys _ hmem) (Bool.not_eq_true _ ▸ hgreater) hnot
        rw [heq, (h.mem key value).1 hmem] at hv
        cases hv

/-- A key that is not in the map is inserted. -/
theorem insert [DecidableEq κ] (h : Represents lt K t m) (hlt : StrictWeakOrderOn lt K)
    (hk : k ∈ K) (hnone : m k = none) {v : ν} (ht' : t'.toList = t.insertList lt k v) :
    Represents lt K t' (Function.update m k (some v)) := by
  obtain ⟨hnot, hgreater⟩ := h.upperBound_spec hlt hk
  have happend : (t.upperBound lt k).1 ++ (t.upperBound lt k).2 = t.toList :=
    SearchTree.descend_append _ t
  have hne : ∀ e ∈ t.toList, e.1 ≠ k := by
    intro e he heq
    rw [← heq, (h.mem e.1 e.2).1 he] at hnone
    cases hnone
  have hless : ∀ e ∈ (t.upperBound lt k).1, lt e.1 k = true := by
    intro e he
    have hmem : e ∈ t.toList := by
      rw [← happend]
      exact List.mem_append_left _ he
    -- a key neither less nor greater is the same key, and that is not in the tree
    by_contra hfalse
    exact hne e hmem (hlt.equiv e.1 (h.keys e hmem) k hk (by simpa using hfalse) (hnot e he))
  have hlist : t'.toList = (t.upperBound lt k).1 ++ (k, v) :: (t.upperBound lt k).2 := by
    rw [ht', SearchTree.insertList]
    split
    · next hlast => rw [List.getLast?_eq_none_iff.1 hlast, List.nil_append]
    · next key value hlast => rw [if_pos (hless _ (List.mem_of_getLast? hlast))]
  have hsorted := h.sorted
  rw [← happend, List.pairwise_append] at hsorted
  obtain ⟨hbefore, hafter, hcross⟩ := hsorted
  have hmem' : ∀ e, e ∈ t'.toList ↔ e = (k, v) ∨ e ∈ t.toList := by
    intro e
    rw [hlist, ← happend]
    simp only [List.mem_append, List.mem_cons]
    tauto
  refine ⟨?_, fun e he => ?_, fun k' v' => ?_⟩
  · rw [hlist, List.pairwise_append, List.pairwise_cons]
    refine ⟨hbefore, ⟨hgreater, hafter⟩, fun e he e' he' => ?_⟩
    rcases List.mem_cons.1 he' with rfl | he'
    · exact hless e he
    · exact hcross e he e' he'
  · rcases (hmem' e).1 he with rfl | he
    · exact hk
    · exact h.keys e he
  · rw [hmem']
    by_cases heq : k' = k
    · subst heq
      rw [Function.update_self]
      refine ⟨fun hor => ?_, fun hv => .inl (by rw [Option.some.inj hv])⟩
      rcases hor with hor | hor
      · rw [(Prod.mk.inj hor).2]
      · exact absurd rfl (hne _ hor)
    · rw [Function.update_of_ne heq, ← h.mem]
      exact ⟨fun hor => hor.resolve_left fun he => heq (Prod.mk.inj he).1, .inr⟩

/-- A key that is in the map is erased. -/
theorem erase [DecidableEq κ] (h : Represents lt K t m) (hlt : StrictWeakOrderOn lt K)
    (hk : k ∈ K) {v : ν} (hv : m k = some v) (ht' : t'.toList = t.eraseList lt k) :
    Represents lt K t' (Function.update m k none) := by
  obtain ⟨rest, hb⟩ := h.lowerBound_of_some hlt hk hv
  have happend : (t.lowerBound lt k).1 ++ (t.lowerBound lt k).2 = t.toList :=
    SearchTree.descend_append _ t
  have hlist : t'.toList = (t.lowerBound lt k).1 ++ rest := by
    rw [ht', SearchTree.eraseList, hb, List.tail_cons]
  have hsorted := h.sorted
  rw [← happend, hb, List.pairwise_append, List.pairwise_cons] at hsorted
  obtain ⟨hbefore, ⟨hfirst, hafter⟩, hcross⟩ := hsorted
  have hmem' : ∀ e, e ∈ t.toList ↔ e = (k, v) ∨ e ∈ t'.toList := by
    intro e
    rw [hlist, ← happend, hb]
    simp only [List.mem_append, List.mem_cons]
    tauto
  have hnot : ∀ v', (k, v') ∉ t'.toList := by
    intro v' hmem
    rw [hlist] at hmem
    have hirrefl := hlt.irrefl k hk
    rcases List.mem_append.1 hmem with hmem | hmem
    · rw [hcross _ hmem (k, v) List.mem_cons_self] at hirrefl
      cases hirrefl
    · rw [hfirst _ hmem] at hirrefl
      cases hirrefl
  refine ⟨?_, fun e he => h.keys e ((hmem' e).2 (.inr he)), fun k' v' => ?_⟩
  · rw [hlist, List.pairwise_append]
    exact ⟨hbefore, hafter, fun e he e' he' => hcross e he e' (List.mem_cons_of_mem _ he')⟩
  · by_cases heq : k' = k
    · subst heq
      rw [Function.update_self]
      exact iff_of_false (hnot v') nofun
    · rw [Function.update_of_ne heq, ← h.mem, hmem']
      exact ⟨.inr, fun hor => hor.resolve_left fun he => heq (Prod.mk.inj he).1⟩

end Represents

/-- An empty tree is an empty map. -/
theorem represents_leaf (lt : κ → κ → Bool) (K : Set κ) :
    Represents lt K (SearchTree.leaf : SearchTree κ ν) fun _ => none :=
  ⟨List.Pairwise.nil, nofun, fun _ _ => ⟨nofun, nofun⟩⟩

end DashDim
