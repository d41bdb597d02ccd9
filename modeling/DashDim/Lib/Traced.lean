import Mathlib.Data.List.Basic

/-!
# Computations that note what they do

A computation with a list of what it did on the way (`Traced`), such as the cells of memory it
looked at. What it computes does not depend on the notes, and every note of a computation put
together from others is one of theirs:

* `Traced.value_bind`: the value, without the notes;
* `Traced.All.bind`, `Traced.All.ite`: a condition that all notes satisfy;
* `Traced.Meets.bind`, `Traced.Meets.ite`: with one that the value satisfies;
* `Traced.Refines.bind`, `Traced.Refines.ite`: what is computed on another kind of state.
-/

namespace DashDim

universe u v

/-- A value, and what was noted on the way to it. -/
structure Traced (ε : Type u) (α : Type v) where
  value : α
  notes : List ε

namespace Traced

variable {ε : Type u} {α β : Type v}

instance : Monad (Traced ε) where
  pure a := ⟨a, []⟩
  bind x f := ⟨(f x.value).value, x.notes ++ (f x.value).notes⟩

/-- A value that is noted to be computed. -/
def note (e : ε) (a : α) : Traced ε α := ⟨a, [e]⟩

@[simp] theorem value_pure (a : α) : (pure a : Traced ε α).value = a := rfl

@[simp] theorem value_bind (x : Traced ε α) (f : α → Traced ε β) :
    (x >>= f).value = (f x.value).value := rfl

@[simp] theorem value_note (e : ε) (a : α) : (note e a).value = a := rfl

@[simp] theorem value_ite {p : Prop} [Decidable p] (x y : Traced ε α) :
    (if p then x else y).value = if p then x.value else y.value := apply_ite value p x y

/-- Every note has `P`. -/
def All (P : ε → Prop) (x : Traced ε α) : Prop := ∀ e ∈ x.notes, P e

namespace All

variable {P : ε → Prop} {x y : Traced ε α} {f : α → Traced ε β}

theorem pure (a : α) : All P (Pure.pure a : Traced ε α) := fun _ he => absurd he List.not_mem_nil

theorem note {e : ε} (h : P e) (a : α) : All P (Traced.note e a) := by
  intro e' he'
  rw [List.mem_singleton.1 he']
  exact h

/-- One computation, and another with its value. -/
theorem bind (hx : All P x) (hf : All P (f x.value)) : All P (x >>= f) :=
  List.forall_mem_append.2 ⟨hx, hf⟩

theorem ite {p : Prop} [Decidable p] (hx : p → All P x) (hy : ¬p → All P y) :
    All P (if p then x else y) := by
  split_ifs with h
  · exact hx h
  · exact hy h

/-- A weaker condition. -/
theorem mono {Q : ε → Prop} (hx : All P x) (h : ∀ e, P e → Q e) : All Q x :=
  fun e he => h e (hx e he)

end All

/-- Every note has `P`, and the value `Q`. -/
structure Meets (P : ε → Prop) (Q : α → Prop) (x : Traced ε α) : Prop where
  notes : All P x
  value : Q x.value

namespace Meets

variable {P : ε → Prop} {Q : α → Prop} {x y : Traced ε α}

theorem pure {a : α} (h : Q a) : Meets P Q (Pure.pure a : Traced ε α) := ⟨.pure a, h⟩

/-- One computation, and another of which more is known. -/
theorem bind {R : β → Prop} {f : α → Traced ε β} (hx : All P x) (hf : Meets P R (f x.value)) :
    Meets P R (x >>= f) :=
  ⟨hx.bind hf.notes, hf.value⟩

theorem ite {p : Prop} [Decidable p] (hx : p → Meets P Q x) (hy : ¬p → Meets P Q y) :
    Meets P Q (if p then x else y) := by
  split_ifs with h
  · exact hx h
  · exact hy h

end Meets

/-- The value, with a state that stands for one of another kind. -/
def Refines {σ τ : Type v} (abs : σ → τ) (x : Traced ε (α × σ)) (y : α × τ) : Prop :=
  (x.value.1, abs x.value.2) = y

namespace Refines

variable {γ σ τ : Type v} {abs : σ → τ}

theorem bind {x : Traced ε γ} {f : γ → Traced ε (α × σ)} {y : α × τ}
    (h : Refines abs (f x.value) y) : Refines abs (x >>= f) y := h

/-- The two make the same choice. -/
theorem ite {p q : Prop} [Decidable p] [Decidable q] {x x' : Traced ε (α × σ)} {y y' : α × τ}
    (hpq : p ↔ q) (hx : p → Refines abs x y) (hy : ¬p → Refines abs x' y') :
    Refines abs (if p then x else x') (if q then y else y') := by
  by_cases hp : p
  · rw [if_pos hp, if_pos (hpq.1 hp)]
    exact hx hp
  · rw [if_neg hp, if_neg (mt hpq.2 hp)]
    exact hy hp

/-- What is done with the value. -/
theorem map {x : Traced ε (α × σ)} {y : α × τ} (h : Refines abs x y) (g : α → β) :
    Refines abs (x >>= fun p => Pure.pure (g p.1, p.2)) (g y.1, y.2) := by
  rw [← h]
  rfl

end Refines

end Traced

end DashDim
