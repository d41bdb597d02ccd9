import DashDim.Lib.Run
import DashDim.Lib.SearchTree

/-!
# The session table of the octopus proxy

Dispatchers are registered under the key of their session, in an ordered map, as in
`octopus/octopus_base.h` and `octopus_base.cc`. The order of the keys is "one of the
components is less", which is "not at least" of the order of the components. Two keys
that differ in opposite directions are each less than the other.

* `sessionTable_iff_isChain`: the order is a strict weak order, and the table finds what
  was registered, exactly for sets of keys of which any two are ordered in all
  components.
-/

namespace DashDim

/-- `OctopusSessionKey`: the addresses and the ports of both ends. -/
structure OctopusSessionKey where
  fromAddr : UInt32 := 0
  toAddr : UInt32 := 0
  srcPort : UInt16 := 0
  dstPort : UInt16 := 0
  deriving DecidableEq, Repr

namespace OctopusSessionKey

/-- `operator<` -/
def less (a o : OctopusSessionKey) : Bool :=
  a.fromAddr < o.fromAddr || a.toAddr < o.toAddr || a.srcPort < o.srcPort || a.dstPort < o.dstPort

/-- The order of the components. -/
instance : PartialOrder OctopusSessionKey where
  le a o := a.fromAddr ≤ o.fromAddr ∧ a.toAddr ≤ o.toAddr ∧ a.srcPort ≤ o.srcPort ∧
    a.dstPort ≤ o.dstPort
  le_refl a := ⟨UInt32.le_refl _, UInt32.le_refl _, UInt16.le_refl _, UInt16.le_refl _⟩
  le_trans _ _ _ hab hbc := ⟨UInt32.le_trans hab.1 hbc.1, UInt32.le_trans hab.2.1 hbc.2.1,
    UInt16.le_trans hab.2.2.1 hbc.2.2.1, UInt16.le_trans hab.2.2.2 hbc.2.2.2⟩
  le_antisymm a o hao hoa := by
    have h1 := UInt32.le_antisymm hao.1 hoa.1
    have h2 := UInt32.le_antisymm hao.2.1 hoa.2.1
    have h3 := UInt16.le_antisymm hao.2.2.1 hoa.2.2.1
    have h4 := UInt16.le_antisymm hao.2.2.2 hoa.2.2.2
    cases a
    cases o
    dsimp only at h1 h2 h3 h4
    rw [h1, h2, h3, h4]

theorem less_iff (a o : OctopusSessionKey) : less a o = true ↔ ¬ o ≤ a := by
  change _ ↔ ¬ (o.fromAddr ≤ a.fromAddr ∧ o.toAddr ≤ a.toAddr ∧ o.srcPort ≤ a.srcPort ∧
    o.dstPort ≤ a.dstPort)
  simp only [less, Bool.or_eq_true, decide_eq_true_eq, not_and_or, UInt32.not_le, UInt16.not_le,
    or_assoc]

end OctopusSessionKey

open OctopusSessionKey

/-! ## The table -/

namespace OctopusDispatcherManager

variable {ν : Type}

/-- The table of the manager, with pointers to dispatchers. -/
abbrev Table (ν : Type) := SearchTree OctopusSessionKey ν

/-- `find` of the map, over the comparison the code has. -/
def find (key : OctopusSessionKey) (t : Table ν) : Option ν := t.find less key

/-- A key that is not found is inserted; the result says so. -/
def Register (key : OctopusSessionKey) (dispatcher : ν) (t : Table ν) (ret : Bool)
    (t' : Table ν) : Prop :=
  match find key t with
  | none => ret = true ∧ t'.toList = t.insertList less key dispatcher
  | some _ => ret = false ∧ t' = t

/-- A key that is found is erased. -/
def UnRegister (key : OctopusSessionKey) (t : Table ν) (ret : Bool) (t' : Table ν) : Prop :=
  match find key t with
  | none => ret = false ∧ t' = t
  | some _ => ret = true ∧ t'.toList = t.eraseList less key

/-- A table, and what was registered: the dispatcher of the last call that succeeded, if
    the key was not unregistered after it. -/
structure Session (ν : Type) where
  table : Table ν
  registered : OctopusSessionKey → Option ν

/-- One call on the table, for keys of a set. -/
inductive Step (K : Set OctopusSessionKey) : Session ν → Session ν → Prop
  | register (s : Session ν) (key : OctopusSessionKey) (dispatcher : ν) (ret : Bool)
    (t' : Table ν) : key ∈ K → Register key dispatcher s.table ret t' →
    Step K s ⟨t', if ret then Function.update s.registered key (some dispatcher)
      else s.registered⟩
  | unRegister (s : Session ν) (key : OctopusSessionKey) (ret : Bool) (t' : Table ν) :
    key ∈ K → UnRegister key s.table ret t' →
    Step K s ⟨t', Function.update s.registered key none⟩

/-- The runs with keys of a set, from an empty table. -/
def system (ν : Type) (K : Set OctopusSessionKey) : System (Session ν) :=
  ⟨fun s => s = ⟨.leaf, fun _ => none⟩, Step K⟩

/-- The table finds what was registered. -/
def Faithful (ν : Type) (K : Set OctopusSessionKey) : Prop :=
  ∀ s, (system ν K).Reachable s → ∀ key ∈ K, find key s.table = s.registered key

variable {K : Set OctopusSessionKey}

/-- Each operation keeps the table a map of what was registered. -/
theorem represents_step (hlt : StrictWeakOrderOn less K) {s s' : Session ν}
    (h : Represents less K s.table s.registered) (hstep : Step K s s') :
    Represents less K s'.table s'.registered := by
  cases hstep with
  | register key dispatcher ret t' hk hreg =>
    have hfind := h.find hlt hk
    rw [Register, find] at hreg
    split at hreg
    · next hnone =>
      obtain ⟨rfl, ht'⟩ := hreg
      exact h.insert hlt hk (hfind ▸ hnone) ht'
    · obtain ⟨rfl, rfl⟩ := hreg
      exact h
  | unRegister key ret t' hk hreg =>
    have hfind := h.find hlt hk
    rw [UnRegister, find] at hreg
    split at hreg
    · next hnone =>
      obtain ⟨rfl, rfl⟩ := hreg
      dsimp only
      rw [Function.update_eq_self_iff.2 (hfind ▸ hnone).symm]
      exact h
    · next v hsome =>
      obtain ⟨rfl, ht'⟩ := hreg
      exact h.erase hlt hk (hfind ▸ hsome) ht'

/-- Over a strict weak order the table is a map. -/
theorem faithful_of_strictWeakOrderOn (hlt : StrictWeakOrderOn less K) : Faithful ν K := by
  intro s hs key hk
  have hrep : Represents less K s.table s.registered := by
    refine hs.invariant (P := fun s => Represents less K s.table s.registered) ?_
      fun s s' _ h hstep => represents_step hlt h hstep
    rintro s rfl
    exact represents_leaf less K
  exact hrep.find hlt hk

/-- Of two keys that are each less than the other, the second one is registered and not
    found. -/
theorem not_faithful_of_less [Inhabited ν] {a b : OctopusSessionKey} (ha : a ∈ K) (hb : b ∈ K)
    (hab : less a b = true) (hba : less b a = true) : ¬ Faithful ν K := by
  intro h
  have hinit : (system ν K).Reachable ⟨.leaf, fun _ => none⟩ := .init rfl
  have hfirst := hinit.step (.register _ a default true (.node .leaf a default .leaf) ha ⟨rfl, rfl⟩)
  have hsecond := hfirst.step (.register _ b default true
    (.node (.node .leaf b default .leaf) a default .leaf) hb (by
      simp [Register, find, SearchTree.find, SearchTree.lowerBound, SearchTree.upperBound,
        SearchTree.descend, SearchTree.insertList, SearchTree.toList, hab, hba]))
  have hfind := h _ hsecond b hb
  simp [find, SearchTree.find, SearchTree.lowerBound, SearchTree.descend, hab] at hfind

end OctopusDispatcherManager

open OctopusDispatcherManager

/-- The order of the keys is a strict weak order, and the table finds what was
    registered, exactly on the sets of keys of which any two are ordered in all
    components. -/
theorem sessionTable_iff_isChain (ν : Type) [Inhabited ν] (K : Set OctopusSessionKey) :
    (StrictWeakOrderOn less K ↔ IsChain (· ≤ ·) K) ∧ (Faithful ν K ↔ IsChain (· ≤ ·) K) := by
  have horder := strictWeakOrderOn_iff_isChain less_iff K
  refine ⟨horder, fun h a ha b hb _ => ?_,
    fun hchain => faithful_of_strictWeakOrderOn (horder.2 hchain)⟩
  by_contra hnot
  rw [not_or] at hnot
  exact not_faithful_of_less ha hb ((less_iff a b).2 hnot.2) ((less_iff b a).2 hnot.1) h

/-- The keys that differ in opposite directions in two components. -/
theorem sessionTable_opposite_keys : ¬ (StrictWeakOrderOn less Set.univ ∧ Faithful ℕ Set.univ) ∧
    less ⟨1, 0, 0, 0⟩ ⟨0, 1, 0, 0⟩ = true ∧ less ⟨0, 1, 0, 0⟩ ⟨1, 0, 0, 0⟩ = true := by
  refine ⟨fun h => ?_, by decide, by decide⟩
  exact not_faithful_of_less (K := Set.univ) (a := ⟨1, 0, 0, 0⟩) (b := ⟨0, 1, 0, 0⟩) trivial trivial
    (by decide) (by decide) h.2

end DashDim
