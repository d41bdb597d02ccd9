import DashDim.Lib.Run
import DashDim.Octopus.Handlers

/-!
# Endpoints that wait to close

A hand or dispatcher that is to close while it has bytes to send waits until they are
sent. Its alarm sends them. The alarm of a hand then looks whether it waits to close;
that of a dispatcher does not, and closes only if what it reads for a hand says so.

* `undrained_iff`: an alarm leaves an endpoint open that waits to close, with nothing to
  send, exactly if it is a dispatcher that sends all it has and finds nothing closed
  (`Overlooks`).
-/

namespace DashDim

namespace Octopus

namespace World

/-- The event is an alarm, of an endpoint that has one. -/
def GoesOff (w : World) : Event → Prop
  | .handAlarm h => (w.hands h).outBwAlarm = true
  | .dispatcherAlarm d _ _ _ => (w.dispatchers d).socketAlarm = true
  | _ => False

/-- An endpoint that waits to close has nothing to send, and is open. -/
def Undrained (w : World) : Event → Prop
  | .handAlarm h => (w.hands h).waitClose = true ∧ (w.hands h).wb = [] ∧
    (w.hands h).fdOpen = true
  | .dispatcherAlarm d _ _ _ => (w.dispatchers d).waitClose = true ∧ (w.dispatchers d).wb = [] ∧
    (w.dispatchers d).fdOpen = true
  | _ => False

/-- The answers of `send()` take all of so many bytes. -/
def takesAll : List ℕ → ℕ → Bool
  | [], size => size == 0
  | n :: answers, size =>
    size == 0 || (n != 0 && takesAll answers (size - min n (min kSegmentSize size)))

/-- Reading as long as there is a budget gets to the end, or an error. -/
def readsClosed : List ReadResult → ℤ → Bool
  | [], _ => false
  | read :: reads, budget =>
    decide (budget > 0) && match read with
      | .again => false
      | .closed => true
      | .data _ rest => readsClosed reads (budget - (1 + rest.length))

/-- A dispatcher that waits to close sends all it has, and finds nothing closed, if it
    reads at all. -/
def Overlooks (w : World) : Event × List ℕ → Prop
  | (.dispatcherAlarm d first budget reads, answers) =>
    (w.dispatchers d).fdOpen = true ∧ (w.dispatchers d).waitClose = true ∧
    takesAll answers (w.dispatchers d).wb.length = true ∧
    ¬ (first ∈ (w.dispatchers d).readyHands ∧ readsClosed reads budget = true)
  | _ => False

/-! ## What an alarm does -/

theorem sendLoop_nil_iff (answers : List ℕ) (data : Bytes) :
    (sendLoop answers data).2.1 = [] ↔ takesAll answers data.length = true := by
  induction answers generalizing data with
  | nil => simp [sendLoop, takesAll]
  | cons n answers ih =>
    rw [sendLoop, takesAll]
    split_ifs with hempty
    · simp [hempty]
    · have hlen : data.length ≠ 0 := by simpa using hempty
      have hsize : kSegmentSize ≠ 0 := by decide
      dsimp only
      split_ifs with hzero
      · have hn : n = 0 := by omega
        simp [hempty, hn]
      · have hn : n ≠ 0 := by omega
        simp [ih, hempty, hn]

variable {w w' : World} {h d first : ℕ} {budget : ℤ} {reads : List ReadResult}

theorem dispatcherFlushBuffer_eq (hopen : (w.dispatchers d).fdOpen = true) :
    w.dispatcherFlushBuffer d = .ok ((w.setDispatcher d { w.dispatchers d with
      wb := (sendLoop w.answers (w.dispatchers d).wb).2.1
      sent := (w.dispatchers d).sent ++ (sendLoop w.answers (w.dispatchers d).wb).1 }).setAnswers
        (sendLoop w.answers (w.dispatchers d).wb).2.2) := by
  rw [dispatcherFlushBuffer, OctopusBase.flushBuffer, if_pos hopen]

theorem handSink_dispatchers {pv : Bytes} (hcall : w.handSink h pv = .ok w') :
    w'.dispatchers = w.dispatchers := by
  rw [handSink] at hcall
  split at hcall <;> cases hcall
  rfl

/-- Reading leaves the dispatchers, and says whether it found the end. -/
theorem alarmLoop_dispatchers {closed : Bool}
    (hcall : w.alarmLoop h reads budget = .ok (w', closed)) :
    w'.dispatchers = w.dispatchers ∧ closed = readsClosed reads budget := by
  induction reads generalizing w budget with
  | nil =>
    cases hcall
    exact ⟨rfl, rfl⟩
  | cons read reads ih =>
    unfold alarmLoop at hcall
    unfold readsClosed
    split_ifs at hcall with hbudget
    · rw [decide_eq_true hbudget, Bool.true_and]
      cases read with
      | again =>
        cases hcall
        exact ⟨rfl, rfl⟩
      | closed =>
        cases hcall
        exact ⟨rfl, rfl⟩
      | data first rest =>
        dsimp only at hcall
        split at hcall
        · cases hcall
        · next w₁ hsink =>
          obtain ⟨hloop, hclosed⟩ := ih hcall
          exact ⟨hloop.trans (handSink_dispatchers hsink), hclosed⟩
    · cases hcall
      rw [decide_eq_false hbudget, Bool.false_and]
      exact ⟨rfl, rfl⟩

theorem alarmRead_dispatchers {closed : Bool}
    (hcall : w.alarmRead d first budget reads = .ok (w', closed)) :
    w'.dispatchers = w.dispatchers ∧
      closed = (decide (first ∈ (w.dispatchers d).readyHands) && readsClosed reads budget) := by
  rw [alarmRead] at hcall
  split_ifs at hcall with hfirst
  · rw [decide_eq_true hfirst, Bool.true_and]
    exact alarmLoop_dispatchers hcall
  · cases hcall
    rw [decide_eq_false hfirst, Bool.false_and]
    exact ⟨rfl, rfl⟩

theorem dispatcherConnClose_fdOpen (code : OctopusSignalCode) :
    ((w.dispatcherConnClose d code).dispatchers d).fdOpen = false := by
  rw [dispatcherConnClose]
  dsimp only
  rw [setDispatcher_dispatchers_self]
  rfl

theorem handConnClose_fdOpen (code : OctopusSignalCode) :
    ((w.handConnClose h code).hands h).fdOpen = false := by
  rw [handConnClose, detachedClose, setHand_hands_self]
  rfl

/-- The alarm of a hand closes it when there is nothing left to wait for. -/
theorem outBandwidthAlarm_drains (hcall : w.outBandwidthAlarm h = .ok w') :
    ¬ ((w'.hands h).waitClose = true ∧ (w'.hands h).wb = [] ∧ (w'.hands h).fdOpen = true) := by
  rw [outBandwidthAlarm] at hcall
  split at hcall
  · cases hcall
  · next w₁ _ =>
    split_ifs at hcall with hwait
    · cases hcall
      rintro ⟨-, -, hopen⟩
      rw [handConnClose_fdOpen] at hopen
      cases hopen
    · cases hcall
      rintro ⟨hclose, hwb, -⟩
      exact hwait ⟨hclose, hwb⟩

theorem handleSocketAlarm_undrained_iff (hopen : (w.dispatchers d).fdOpen = true)
    (hcall : w.handleSocketAlarm d first budget reads = .ok w') :
    ((w'.dispatchers d).waitClose = true ∧ (w'.dispatchers d).wb = [] ∧
      (w'.dispatchers d).fdOpen = true) ↔
    ((w.dispatchers d).waitClose = true ∧
      takesAll w.answers (w.dispatchers d).wb.length = true ∧
      ¬ (first ∈ (w.dispatchers d).readyHands ∧ readsClosed reads budget = true)) := by
  rw [handleSocketAlarm, if_pos hopen, dispatcherFlushBuffer_eq hopen] at hcall
  dsimp only at hcall
  split at hcall
  · cases hcall
  · next w₁ closed hread =>
    obtain ⟨hsame, hclosed⟩ := alarmRead_dispatchers hread
    have hself := congrFun hsame d
    rw [setAnswers, setDispatcher_dispatchers_self] at hself
    rw [setAnswers, setDispatcher_dispatchers_self] at hclosed
    dsimp only at hclosed
    cases closed with
    | true =>
      cases hcall
      rw [eq_comm, Bool.and_eq_true, decide_eq_true_eq] at hclosed
      rw [if_pos rfl, dispatcherConnClose_fdOpen]
      simp [hclosed]
    | false =>
      cases hcall
      rw [eq_comm, ← Bool.not_eq_true, Bool.and_eq_true, decide_eq_true_eq] at hclosed
      rw [if_neg Bool.false_ne_true, hself, ← sendLoop_nil_iff]
      simp only [hopen, and_true]
      tauto

/-- An alarm leaves its endpoint undrained exactly if it is that of a dispatcher that
    overlooks that it waits to close. -/
theorem step_undrained_iff {e : Event × List ℕ} (hoff : w.GoesOff e.1)
    (hcall : w.step e = .ok w') : w'.Undrained e.1 ↔ w.Overlooks e := by
  obtain ⟨event, answers⟩ := e
  cases event with
  | handAlarm h =>
    rw [step, handle, if_pos (by exact hoff)] at hcall
    exact iff_of_false (outBandwidthAlarm_drains hcall) id
  | dispatcherAlarm d first budget reads =>
    rw [step, handle, if_pos (by exact hoff)] at hcall
    by_cases hopen : (w.dispatchers d).fdOpen = true
    · rw [Undrained, handleSocketAlarm_undrained_iff (w := w.setAnswers answers) hopen hcall]
      exact (and_iff_right hopen).symm
    · -- without a descriptor nothing happens
      rw [handleSocketAlarm, if_neg (by exact hopen)] at hcall
      cases hcall
      exact iff_of_false (fun h => hopen h.2.2) fun h => hopen h.1
  | _ => exact hoff.elim

/-- In every run, all alarms leave their endpoints closed, or with something to send, or
    not waiting to close, exactly if none is that of a dispatcher that overlooks it. -/
theorem undrained_iff (events : List (Event × List ℕ)) :
    (∀ w e w', Takes step empty events w e w' → w.GoesOff e.1 → ¬ w'.Undrained e.1) ↔
      ∀ w e w', Takes step empty events w e w' → w.GoesOff e.1 → ¬ w.Overlooks e := by
  refine forall_congr' fun w => forall_congr' fun e => forall_congr' fun w' =>
    forall_congr' fun htakes => forall_congr' fun hoff => not_congr ?_
  obtain ⟨-, -, -, -, hcall⟩ := htakes
  exact step_undrained_iff hoff hcall

/-- A client dispatcher gets a byte from the other half that its socket does not take, and
    its hand is closed; then its alarm sends the byte. -/
def drained : List (Event × List ℕ) :=
  [(.createEndpoint ⟨1, 2, 3, 4⟩ true true, []),
   (.hand 0 false false true [] ⟨none, false, false⟩, [14]),
   (.hand 0 false true false [.data octopusMsgDstConnected [7]] ⟨none, false, false⟩, []),
   (.hand 0 false true false [.closed] ⟨none, false, false⟩, [])]

theorem step_after {w : World} {e : Event × List ℕ} (hok : (w.step e).isOk = true) :
    w.step e = .ok (after [e] w) := by
  rw [after]
  cases hstep : w.step e with
  | error err =>
    rw [hstep] at hok
    cases hok
  | ok w₁ =>
    rw [step] at hstep
    rw [hstep]
    rfl

/-- A run that fails no check gets to the state after its events. -/
theorem foldlM_step_after {events : List (Event × List ℕ)} {w : World}
    (hok : (events.foldlM step w).isOk = true) :
    events.foldlM step w = .ok (after events w) := by
  induction events generalizing w with
  | nil => rfl
  | cons e events ih =>
    rw [List.foldlM_cons] at hok ⊢
    rw [after]
    cases hstep : w.step e with
    | error err =>
      rw [hstep] at hok
      cases hok
    | ok w₁ =>
      rw [hstep] at hok
      rw [step] at hstep
      rw [hstep]
      exact ih hok

/-- The dispatcher has sent all, and stays open. -/
theorem undrained_drained : ∃ w w',
    Takes step empty (drained ++ [(.dispatcherAlarm 0 0 10 [], [1])]) w
      (.dispatcherAlarm 0 0 10 [], [1]) w' ∧
    w.GoesOff (.dispatcherAlarm 0 0 10 []) ∧ w'.Undrained (.dispatcherAlarm 0 0 10 []) := by
  refine ⟨after drained empty, _, ⟨drained, [], rfl, foldlM_step_after ?_, step_after ?_⟩, ?_, ?_⟩
  · decide +kernel
  · decide +kernel
  · exact (by decide +kernel : ((after drained empty).dispatchers 0).socketAlarm = true)
  · refine ⟨?_, ?_, ?_⟩
    · decide +kernel
    · decide +kernel
    · decide +kernel

end World

end Octopus

end DashDim
