import Mathlib.Logic.Relation

/-!
# Runs of transition systems

The states a system reaches from its initial ones, and the rule every safety
theorem is proved by: what holds initially, and is kept by each step, holds of all
of them.

Where a step is a function that may fail, a run is a list of its inputs.

* `fails_foldlM_iff`: a run fails exactly if one of its steps does.
-/

namespace DashDim

/-- A transition system: its initial states, and its steps. -/
structure System (σ : Type*) where
  init : σ → Prop
  step : σ → σ → Prop

namespace System

variable {σ : Type*} (M : System σ)

/-- The states reached from the initial ones. -/
inductive Reachable : σ → Prop
  | init {s : σ} : M.init s → Reachable s
  | step {s s' : σ} : Reachable s → M.step s s' → Reachable s'

variable {M}

/-- What holds initially, and is kept by each step, holds of all reachable states. -/
theorem Reachable.invariant {P : σ → Prop} (hinit : ∀ s, M.init s → P s)
    (hstep : ∀ s s', M.Reachable s → P s → M.step s s' → P s') {s : σ} (h : M.Reachable s) :
    P s := by
  induction h with
  | init h => exact hinit _ h
  | step hs h ih => exact hstep _ _ hs ih h

/-- What a run of inputs reaches, if each of its steps is one of the system. -/
theorem Reachable.run {ε ι : Type*} {step : σ → ι → Except ε σ} {inputs : List ι}
    (hstep : ∀ i ∈ inputs, ∀ s s', step s i = .ok s' → M.step s s') {s s' : σ}
    (h : M.Reachable s) (hrun : inputs.foldlM step s = .ok s') : M.Reachable s' := by
  induction inputs generalizing s with
  | nil =>
    cases hrun
    exact h
  | cons i inputs ih =>
    rw [List.foldlM_cons] at hrun
    cases hi : step s i with
    | error e =>
      rw [hi] at hrun
      cases hrun
    | ok s₁ =>
      rw [hi] at hrun
      exact ih (fun j hj => hstep j (List.mem_cons_of_mem i hj))
        (h.step (hstep i List.mem_cons_self s s₁ hi)) hrun

end System

/-! ## Runs of functions that may fail -/

variable {ε α σ ι : Type*}

/-- A run takes a step: it gets to a state from which an input leads to another. -/
def Takes (step : σ → ι → Except ε σ) (s : σ) (inputs : List ι) (s₁ : σ) (i : ι) (s₂ : σ) : Prop :=
  ∃ before after, inputs = before ++ i :: after ∧ before.foldlM step s = .ok s₁ ∧
    step s₁ i = .ok s₂

/-- The result is a failure. -/
def Fails (x : Except ε α) : Prop := ∃ e, x = .error e

@[simp] theorem not_fails_ok (a : α) : ¬ Fails (.ok a : Except ε α) := by
  rintro ⟨e, h⟩
  cases h

@[simp] theorem fails_error (e : ε) : Fails (.error e : Except ε α) := ⟨e, rfl⟩

/-- A run fails exactly if it gets to a step that does. -/
theorem fails_foldlM_iff {step : σ → ι → Except ε σ} {inputs : List ι} {s : σ} :
    Fails (inputs.foldlM step s) ↔ ∃ before i after s', inputs = before ++ i :: after ∧
      before.foldlM step s = .ok s' ∧ Fails (step s' i) := by
  induction inputs generalizing s with
  | nil =>
    refine ⟨fun h => absurd h (not_fails_ok s), ?_⟩
    rintro ⟨before, i, after, s', h, -, -⟩
    exact absurd h (List.append_ne_nil_of_right_ne_nil before (List.cons_ne_nil i after)).symm
  | cons j inputs ih =>
    rw [List.foldlM_cons]
    cases hstep : step s j with
    | error e =>
      refine ⟨fun _ => ⟨[], j, inputs, s, rfl, rfl, hstep ▸ fails_error e⟩, ?_⟩
      rintro -
      exact fails_error e
    | ok s₁ =>
      refine (show Fails (inputs.foldlM step s₁) ↔ _ from ih).trans ⟨?_, ?_⟩
      · rintro ⟨before, i, after, s', rfl, hbefore, hfails⟩
        refine ⟨j :: before, i, after, s', rfl, ?_, hfails⟩
        rw [List.foldlM_cons, hstep]
        exact hbefore
      · rintro ⟨before, i, after, s', hsplit, hbefore, hfails⟩
        rcases List.cons_eq_append_iff.1 hsplit with ⟨rfl, h⟩ | ⟨before, rfl, rfl⟩
        · -- the first step does not fail
          obtain ⟨rfl, -⟩ := List.cons.inj h
          cases hbefore
          rw [hstep] at hfails
          exact absurd hfails (not_fails_ok s₁)
        · rw [List.foldlM_cons, hstep] at hbefore
          exact ⟨before, i, after, s', rfl, hbefore, hfails⟩

end DashDim
