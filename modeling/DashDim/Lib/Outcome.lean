import Mathlib.Data.List.Basic

/-!
# Outcomes of functions that may fail

What is to hold of a result and what of a failure, as one predicate of an outcome
(`Outcome`), with the rules for the ways such functions are put together. An invariant is
then proved of a handler by proving it of what the handler calls.

* `Outcome.bind`, `Outcome.foldlM`: one call after another, and a loop;
* `Outcome.of_ok`, `Outcome.of_error`: what is known of a given outcome.
-/

namespace DashDim

universe u

variable {ε ι : Type*} {α β : Type u}

@[simp] theorem ok_bind (a : α) (f : α → Except ε β) : (.ok a : Except ε α) >>= f = f a := rfl

@[simp] theorem error_bind (e : ε) (f : α → Except ε β) :
    (.error e : Except ε α) >>= f = .error e := rfl

theorem eq_error_of_map {f : α → β} {x : Except ε α} {e : ε} (h : x.map f = .error e) :
    x = .error e := by
  cases x with
  | ok a => cases h
  | error e' =>
    cases h
    rfl

theorem exists_of_map_eq_ok {f : α → β} {x : Except ε α} {b : β} (h : x.map f = .ok b) :
    ∃ a, x = .ok a ∧ f a = b := by
  cases x with
  | ok a => exact ⟨a, rfl, Except.ok.inj h⟩
  | error e => cases h

/-- A result has `P`, a failure `E`. -/
def Outcome (P : α → Prop) (E : ε → Prop) : Except ε α → Prop
  | .ok a => P a
  | .error e => E e

namespace Outcome

variable {P : α → Prop} {Q : β → Prop} {E : ε → Prop} {x : Except ε α}

theorem ok {a : α} (h : P a) : Outcome P E (.ok a) := h

theorem error {e : ε} (h : E e) : Outcome P E (.error e) := h

theorem of_ok (h : Outcome P E x) {a : α} (hx : x = .ok a) : P a := by
  rw [hx] at h
  exact h

theorem of_error (h : Outcome P E x) {e : ε} (hx : x = .error e) : E e := by
  rw [hx] at h
  exact h

/-- A weaker condition on results, and one on failures. -/
theorem mono {P' : α → Prop} {E' : ε → Prop} (h : Outcome P E x) (hP : ∀ a, P a → P' a)
    (hE : ∀ e, E e → E' e) : Outcome P' E' x := by
  cases x with
  | ok a => exact hP a h
  | error e => exact hE e h

/-- What may be used is that the outcome is the one of the call. -/
theorem intro (hP : ∀ a, x = .ok a → P a) (hE : ∀ e, x = .error e → E e) : Outcome P E x := by
  cases x with
  | ok a => exact hP a rfl
  | error e => exact hE e rfl

/-- Two conditions on results. -/
theorem and {P' : α → Prop} {E' : ε → Prop} (h : Outcome P E x) (h' : Outcome P' E' x) :
    Outcome (fun a => P a ∧ P' a) E x := by
  cases x with
  | ok a => exact ⟨h, h'⟩
  | error e => exact h

/-- Nothing is said of an outcome. -/
theorem triv (x : Except ε α) : Outcome (fun _ => True) (fun _ => True) x := by
  cases x with
  | ok a => trivial
  | error e => trivial

/-- One call, and another with its result. -/
theorem bind {f : α → Except ε β} (h : Outcome P E x) (hf : ∀ a, P a → Outcome Q E (f a)) :
    Outcome Q E (x >>= f) := by
  cases x with
  | ok a => exact hf a h
  | error e => exact h

/-- A round that is there or not. -/
theorem foldlM_ite {step : α → ι → Except ε α} {b : Bool} {a : α} {i : ι}
    (hstep : b = true → Outcome P E (step a i)) (hskip : b = false → P a) :
    Outcome P E ((if b then [i] else []).foldlM step a) := by
  cases b with
  | false => exact hskip rfl
  | true =>
    rw [if_pos rfl, List.foldlM_cons]
    exact (hstep rfl).bind fun a' ha' => ha'

/-- A loop keeps what each of its rounds keeps. -/
theorem foldlM {step : α → ι → Except ε α} (hstep : ∀ a i, P a → Outcome P E (step a i))
    (is : List ι) {a : α} (ha : P a) : Outcome P E (is.foldlM step a) := by
  induction is generalizing a with
  | nil => exact ha
  | cons i is ih =>
    rw [List.foldlM_cons]
    exact (hstep a i ha).bind fun a' ha' => ih ha'

/-- A loop whose rounds are known to be over members of its list. -/
theorem foldlM_mem {step : α → ι → Except ε α} {is : List ι}
    (hstep : ∀ a, ∀ i ∈ is, P a → Outcome P E (step a i)) {a : α} (ha : P a) :
    Outcome P E (is.foldlM step a) := by
  induction is generalizing a with
  | nil => exact ha
  | cons i is ih =>
    rw [List.foldlM_cons]
    exact (hstep a i List.mem_cons_self ha).bind fun a' ha' =>
      ih (fun a j hj => hstep a j (List.mem_cons_of_mem i hj)) ha'

end Outcome

end DashDim
