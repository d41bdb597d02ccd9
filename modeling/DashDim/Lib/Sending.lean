import Mathlib.Data.List.Basic

/-!
# Sending what waits

An endpoint hands what waits to a medium that takes a part of it at a time, or none.
What the medium answers is a list: how much it takes of each piece.

* `sendPieces_append`: what was taken, followed by what remains, is what there was;
* `content_foldlM`: if each call adds what it is given to the content of an endpoint,
  then so do the calls of a run.
-/

namespace DashDim

variable {α σ ι : Type*}

/-- Sending in pieces of at most `size` tokens, up to the first that is refused or that
    has no answer: what was taken, what remains, and the answers left. -/
def sendPieces (size : ℕ) : List ℕ → List α → List α × List α × List ℕ
  | [], data => ([], data, [])
  | n :: answers, data =>
    if data.isEmpty then ([], [], n :: answers)
    else
      let n := min n (min size data.length)
      if n = 0 then ([], data, answers)
      else
        let (out, remain, answers) := sendPieces size answers (data.drop n)
        (data.take n ++ out, remain, answers)

theorem sendPieces_append (size : ℕ) (answers : List ℕ) (data : List α) :
    (sendPieces size answers data).1 ++ (sendPieces size answers data).2.1 = data := by
  induction answers generalizing data with
  | nil => rfl
  | cons n answers ih =>
    rw [sendPieces]
    dsimp only
    split_ifs with hempty
    · exact (List.isEmpty_iff.1 hempty).symm
    · rfl
    · rw [List.append_assoc, ih, List.take_append_drop]

variable {ε : Type*} {step : σ → ι → Except ε σ} {P : σ → Prop} {content : σ → List α}
  {passed : ι → List α}

/-- If no call fails on an endpoint that is fit for it, and each adds what it is given to
    the content, then so do the calls of a run. -/
theorem content_foldlM (hstep : ∀ s i, P s → ∃ s', step s i = .ok s' ∧ P s' ∧
      content s' = content s ++ passed i) (calls : List ι) {s : σ} (hs : P s) :
    ∃ s', calls.foldlM step s = .ok s' ∧ P s' ∧ content s' = content s ++ calls.flatMap passed := by
  induction calls generalizing s with
  | nil =>
    refine ⟨s, rfl, hs, ?_⟩
    rw [List.flatMap_nil, List.append_nil]
  | cons i calls ih =>
    obtain ⟨s₁, hcall, hs₁, hcontent₁⟩ := hstep s i hs
    obtain ⟨s', hcalls, hs', hcontent'⟩ := ih hs₁
    refine ⟨s', ?_, hs', ?_⟩
    · rw [List.foldlM_cons, hcall]
      exact hcalls
    · rw [hcontent', hcontent₁, List.flatMap_cons, List.append_assoc]

end DashDim
