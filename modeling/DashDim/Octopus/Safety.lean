import DashDim.Octopus.Handlers

/-!
# Safety of the proxy

What the references of hands and dispatchers (`Linked`) mean for runs of the proxy, from
any reachable state.

* `lateData_iff`: a hand that reads finds no dispatcher exactly if it waits to close
  (`Overdue`), its dispatcher having closed while it had bytes to send.
* `references_iff`: as long as no hand is rejected, no dispatcher refers to a hand that
  has closed; a step that rejects one breaks this (`rejectedHands`).
-/

namespace DashDim

namespace Octopus

open World

/-! ## Checks that fail -/

namespace World

instance (r : Except CheckFailure World) (e : CheckFailure) : Decidable (r = .error e) :=
  match r with
  | .ok _ => isFalse nofun
  | .error e' => decidable_of_iff (e' = e) (by simp)

variable {w : World} {h d first : ℕ} {pv : Bytes} {e : CheckFailure}

theorem handSink_error (hcall : w.handSink h pv = .error e) : e = .pending := by
  unfold handSink at hcall
  dsimp only at hcall
  split at hcall
  · next hsink =>
    cases hcall
    exact OctopusBase.sink_error hsink
  · cases hcall

theorem handFlushBuffer_error (hcall : w.handFlushBuffer h = .error e) : e = .pending := by
  unfold handFlushBuffer at hcall
  dsimp only at hcall
  split at hcall
  · next hflush =>
    cases hcall
    exact OctopusBase.flushBuffer_error hflush
  · cases hcall

theorem dispatcherSink_error (hcall : w.dispatcherSink d pv = .error e) : e = .pending := by
  unfold dispatcherSink at hcall
  dsimp only at hcall
  split at hcall
  · next hsink =>
    cases hcall
    exact OctopusBase.sink_error hsink
  · cases hcall

theorem dispatcherFlushBuffer_error (hcall : w.dispatcherFlushBuffer d = .error e) :
    e = .pending := by
  unfold dispatcherFlushBuffer at hcall
  dsimp only at hcall
  split at hcall
  · next hflush =>
    cases hcall
    exact OctopusBase.flushBuffer_error hflush
  · cases hcall

theorem alarmLoop_error {reads : List ReadResult} {budget : ℤ}
    (hcall : w.alarmLoop h reads budget = .error e) : e = .pending := by
  induction reads generalizing w budget with
  | nil => cases hcall
  | cons read reads ih =>
    unfold alarmLoop at hcall
    split_ifs at hcall
    cases read with
    | again => cases hcall
    | closed => cases hcall
    | data first rest =>
      dsimp only at hcall
      split at hcall
      · next hsink =>
        cases hcall
        exact handSink_error hsink
      · exact ih hcall

theorem handleSocketAlarm_error {reads : List ReadResult} {budget : ℤ}
    (hcall : w.handleSocketAlarm d first budget reads = .error e) : e = .pending := by
  rw [handleSocketAlarm] at hcall
  split at hcall
  · split at hcall
    · next hflush =>
      cases hcall
      exact dispatcherFlushBuffer_error hflush
    · split at hcall
      · next hread =>
        cases hcall
        rw [alarmRead] at hread
        split at hread
        · exact alarmLoop_error hread
        · cases hread
      · cases hcall
  · cases hcall

theorem callerOutput_error (hcall : w.callerOutput h = .error e) : e = .pending := by
  unfold callerOutput at hcall
  dsimp only at hcall
  split at hcall
  · exact handFlushBuffer_error hcall
  · cases hcall

theorem outBandwidthAlarm_error (hcall : w.outBandwidthAlarm h = .error e) : e = .pending := by
  rw [outBandwidthAlarm] at hcall
  split at hcall
  · next hflush =>
    cases hcall
    split at hflush
    · exact handFlushBuffer_error hflush
    · cases hflush
  · split at hcall <;> cases hcall

theorem dispatcherOnEvent_error {error output : Bool}
    (hcall : w.dispatcherOnEvent d error output = .error e) : e = .readyHands := by
  rw [dispatcherOnEvent] at hcall
  dsimp only at hcall
  generalize (if error = true ∧ (w.dispatchers d).status = .connConnecting then
    w.dispatcherConnClose d .sigDstFailed else w) = w₁ at hcall
  split at hcall
  · split at hcall
    · cases hcall
    · cases hcall
      rfl
  · cases hcall

/-- A handler whose checks are others does not fail that for a dispatcher. -/
theorem ite_ne_dispatcher {p : Prop} [Decidable p] {x : Except CheckFailure World} (w : World)
    (hx : x ≠ .error .dispatcher) : (if p then x else .ok w) ≠ .error .dispatcher := by
  split_ifs
  · exact hx
  · exact nofun

theorem callerAck_error {first : UInt8} {rest : Bytes}
    (hcall : w.callerAck h first rest = .error e) :
    e = .pending ∧ (w.hands h).dispatcher ≠ none := by
  rw [callerAck] at hcall
  dsimp only at hcall
  rw [setHand_hands_self] at hcall
  split at hcall
  · split at hcall
    · cases hcall
    · next d howner =>
      split at hcall
      · cases hcall
      · refine ⟨dispatcherSink_error hcall, ?_⟩
        rw [show (w.hands h).dispatcher = some d from howner]
        exact Option.some_ne_none d
  · cases hcall

end World

/-! ## Late data -/

/-- Some bytes are there to be read. -/
def startsWithData : List ReadResult → Bool
  | .data _ _ :: _ => true
  | _ => false

/-- Some bytes are there that a client hand gives to its dispatcher: those after its
    answer, if this is not read yet. -/
def givesData : Bool → List ReadResult → Bool
  | true, reads => startsWithData reads
  | false, .data first _ :: reads => first != octopusMsgDstFailed && startsWithData reads
  | false, _ => false

/-- A hand is ready to give data to a dispatcher. -/
def OctopusHand.ready (hand : OctopusHand) : Bool :=
  match hand.role with
  | .handServer => hand.metaFlag
  | .handClient => hand.metaAckFlag

/-- A hand that waits to close reads some bytes that it would give to its dispatcher. -/
def Overdue (w : World) : Event → Prop
  | .hand h error input _ reads _ =>
    (w.hands h).fdOpen = true ∧ (w.hands h).waitClose = true ∧ error = false ∧ input = true ∧
      match (w.hands h).role with
      | .handServer => (w.hands h).rb = [] ∧ startsWithData reads = true
      | .handClient => (w.hands h).spFlag = true ∧
          givesData (w.hands h).metaAckFlag reads = true
  | _ => False

namespace World

variable {w : World} {h : ℕ}

/-- A client hand that has its answer fails for want of a dispatcher only. -/
theorem callerLoop_ready_iff {reads : List ReadResult} (hack : (w.hands h).metaAckFlag = true) :
    w.callerLoop h reads = .error .dispatcher ↔
      (w.hands h).dispatcher = none ∧ startsWithData reads = true := by
  induction reads generalizing w with
  | nil => simp [callerLoop, startsWithData]
  | cons read reads ih =>
    cases read with
    | again => simp [callerLoop, startsWithData]
    | closed => simp [callerLoop, startsWithData]
    | data first rest =>
      rw [callerLoop]
      rw [if_neg (by rw [hack]; exact Bool.false_ne_true.symm)]
      cases howner : (w.hands h).dispatcher with
      | none => simp [startsWithData]
      | some d =>
        have hsome : ¬ (some d = none ∧ startsWithData (.data first rest :: reads) = true) := by
          simp
        dsimp only
        split
        · next e hsink =>
          refine iff_of_false ?_ hsome
          rw [dispatcherSink_error hsink]
          simp
        · next w₁ hsink =>
          have hhands := dispatcherSink_hands hsink
          rw [ih (by rw [hhands]; exact hack), hhands, howner]
          simp

/-- A client hand fails for want of a dispatcher only. -/
theorem callerLoop_iff {reads : List ReadResult} :
    w.callerLoop h reads = .error .dispatcher ↔
      (w.hands h).dispatcher = none ∧ givesData (w.hands h).metaAckFlag reads = true := by
  cases hack : (w.hands h).metaAckFlag with
  | true => exact callerLoop_ready_iff hack
  | false =>
    cases reads with
    | nil => simp [callerLoop, givesData]
    | cons read reads =>
      cases read with
      | again => simp [callerLoop, givesData]
      | closed => simp [callerLoop, givesData]
      | data first rest =>
        rw [callerLoop]
        rw [if_pos hack]
        split
        · next e hcall =>
          obtain ⟨rfl, hsome⟩ := callerAck_error hcall
          exact iff_of_false (by simp) fun hnone => hsome hnone.1
        · next w₁ hcall =>
          have hhand := callerAck_hand hcall
          by_cases hfirst : first = octopusMsgDstFailed
          · rw [if_pos hfirst]
            simp [givesData, hfirst]
          · rw [if_neg hfirst, callerLoop_ready_iff (by rw [hhand]), hhand]
            simp [givesData, hfirst]

end World

namespace Linked

variable {rejected : Set ℕ} {w : World} {h : ℕ}

/-- A server hand that does not wait to close has a dispatcher for what it reads. -/
theorem calleeRead_ne {answer : Answer} {first : UInt8} {rest : Bytes} (hl : Linked rejected w)
    (hopen : (w.hands h).fdOpen = true) (hwait : (w.hands h).waitClose = false) :
    w.calleeRead h answer first rest ≠ .error .dispatcher := by
  rw [World.calleeRead]
  split
  · rw [World.calleeParseMeta]
    split
    · simp
    · dsimp only
      split
      · split <;> simp
      · simp
  · next hmeta =>
    rw [World.calleeData]
    split
    · simp
    · split
      · next hnone =>
        exact absurd hnone ((hl.hand h).attached hopen (Bool.not_eq_false _ ▸ hmeta) hwait)
      · intro hcall
        cases World.dispatcherSink_error hcall

theorem calleeLoop_ne {answer : Answer} {reads : List ReadResult} (hl : Linked rejected w)
    (hwait : (w.hands h).waitClose = false) :
    w.calleeLoop h answer reads ≠ .error .dispatcher := by
  induction reads generalizing w with
  | nil => simp [World.calleeLoop]
  | cons read reads ih =>
    cases read with
    | again => simp [World.calleeLoop]
    | closed => simp [World.calleeLoop]
    | data first rest =>
      rw [World.calleeLoop]
      split
      · simp
      · next hopen =>
        have hopen' := Bool.not_eq_false _ ▸ hopen
        split
        · next e hread =>
          intro hcall
          cases hcall
          exact hl.calleeRead_ne hopen' hwait hread
        · next w₁ hread =>
          obtain ⟨hl₁, hwait₁⟩ := hl.calleeRead hopen' hread
          exact ih hl₁ (hwait₁.trans hwait)

/-- A server hand fails for want of a dispatcher only if it waits to close. -/
theorem calleeLoop_iff {answer : Answer} {reads : List ReadResult} (hl : Linked rejected w)
    (hopen : (w.hands h).fdOpen = true) :
    w.calleeLoop h answer reads = .error .dispatcher ↔
      (w.hands h).waitClose = true ∧ (w.hands h).rb = [] ∧ startsWithData reads = true := by
  cases hwait : (w.hands h).waitClose with
  | false => exact iff_of_false (hl.calleeLoop_ne hwait) (by simp)
  | true =>
    obtain ⟨hmeta, hnone⟩ := (hl.hand h).waits hwait
    cases reads with
    | nil => simp [World.calleeLoop, startsWithData]
    | cons read reads =>
      cases read with
      | again => simp [World.calleeLoop, startsWithData]
      | closed => simp [World.calleeLoop, startsWithData]
      | data first rest =>
        by_cases hrb : (w.hands h).rb = []
        · simp [World.calleeLoop, World.calleeRead, World.calleeData, startsWithData, hopen, hmeta,
            hnone, hrb]
        · simp [World.calleeLoop, World.calleeRead, World.calleeData, hopen, hmeta, hrb]

theorem onCalleeEvent_iff {error input : Bool} {reads : List ReadResult} {answer : Answer}
    (hl : Linked rejected w) (hopen : (w.hands h).fdOpen = true) :
    w.onCalleeEvent h error input reads answer = .error .dispatcher ↔
      error = false ∧ input = true ∧ (w.hands h).waitClose = true ∧ (w.hands h).rb = [] ∧
        startsWithData reads = true := by
  cases error with
  | true =>
    -- the hand closes, and nothing is read
    have hclosed : ((w.handConnClose h .sigConnDisconn).hands h).fdOpen = false := by
      unfold World.handConnClose World.detachedClose
      dsimp only
      rw [World.setHand_hands_self]
      rfl
    unfold World.onCalleeEvent
    dsimp only
    rw [if_pos rfl, if_neg (by rw [hclosed]; exact fun hand => Bool.false_ne_true hand.1)]
    simp
  | false =>
    unfold World.onCalleeEvent
    dsimp only
    rw [if_neg Bool.false_ne_true]
    cases input with
    | true => simp [hopen, hl.calleeLoop_iff hopen]
    | false => simp

theorem onCallerEvent_iff {error input output : Bool} {reads : List ReadResult}
    (hopen : (w.hands h).fdOpen = true) :
    w.onCallerEvent h error input output reads = .error .dispatcher ↔
      error = false ∧ input = true ∧ (w.hands h).spFlag = true ∧
        (w.hands h).dispatcher = none ∧ givesData (w.hands h).metaAckFlag reads = true := by
  rw [World.onCallerEvent]
  cases error with
  | true => simp
  | false =>
    rw [if_neg Bool.false_ne_true]
    by_cases hin : input = true ∧ (w.hands h).spFlag = true
    · rw [if_pos ⟨hopen, hin⟩, iff_congr Iff.rfl (by simp [hin] : _ ↔
        (w.hands h).dispatcher = none ∧ givesData (w.hands h).metaAckFlag reads = true),
        ← World.callerLoop_iff]
      split
      · next e hcall => rw [hcall]
      · next w₁ hcall =>
        rw [hcall]
        refine iff_of_false ?_ (by simp)
        split
        · intro hout
          cases World.callerOutput_error hout
        · simp
    · rw [if_neg fun hall => hin hall.2]
      refine iff_of_false ?_ fun hall => hin ⟨hall.2.1, hall.2.2.1⟩
      dsimp only
      split
      · intro hout
        cases World.callerOutput_error hout
      · simp

/-- The check for a dispatcher fails in one kind of event only. -/
theorem handle_error_iff {e : Event} (hl : Linked rejected w) :
    w.handle e = .error .dispatcher ↔ Overdue w e := by
  cases e with
  | createEndpoint uuid bound connected => simp [World.handle, Overdue]
  | acceptHand => simp [World.handle, Overdue]
  | hand h error input output reads answer =>
    unfold World.handle Overdue
    dsimp only
    by_cases hopen : (w.hands h).fdOpen = true
    · rw [if_pos hopen]
      cases hrole : (w.hands h).role with
      | handServer =>
        dsimp only
        rw [hl.onCalleeEvent_iff hopen]
        tauto
      | handClient =>
        dsimp only
        rw [onCallerEvent_iff hopen, hl.dispatcher_iff hopen ((hl.hand h).client hopen hrole)]
        tauto
    · rw [if_neg hopen]
      exact iff_of_false (by simp) fun hall => hopen hall.1
  | handAlarm h =>
    refine iff_of_false (World.ite_ne_dispatcher w fun hcall => ?_) id
    cases World.outBandwidthAlarm_error hcall
  | dispatcher d error output =>
    refine iff_of_false (World.ite_ne_dispatcher w fun hcall => ?_) id
    cases World.dispatcherOnEvent_error hcall
  | dispatcherAlarm d first budget reads =>
    refine iff_of_false (World.ite_ne_dispatcher w fun hcall => ?_) id
    cases World.handleSocketAlarm_error hcall
  | deleteHand h => exact iff_of_false (World.ite_ne_dispatcher w nofun) id
  | deleteDispatcher d => exact iff_of_false (World.ite_ne_dispatcher w nofun) id

end Linked

/-- The references fit together in every state, but for the hands rejected on the way. -/
theorem linked_reachable {allowed : World → Event → Prop} {w : World}
    (hreach : (system allowed).Reachable w) : ∃ rejected, Linked rejected w := by
  refine hreach.invariant (P := fun w => ∃ rejected, Linked rejected w) ?_ ?_
  · rintro w rfl
    exact ⟨∅, linked_empty⟩
  · rintro w w' - ⟨rejected, hl⟩ hstep
    cases hstep with
    | handle e answers _ _ hcall => exact ⟨_, ((Quiet.setAnswers w answers).linked hl).handle hcall⟩

/-- In every state, an open hand that is ready has a dispatcher unless it waits to close,
    and reading fails for want of one exactly if such a hand gives data to it. -/
theorem lateData_iff {w : World} (hreach : (system anyEvent).Reachable w) :
    (∀ h, (w.hands h).fdOpen = true → (w.hands h).ready = true →
      ((w.hands h).dispatcher ≠ none ↔ (w.hands h).waitClose = false)) ∧
    ∀ e answers, (w.setAnswers answers).handle e = .error .dispatcher ↔ Overdue w e := by
  obtain ⟨rejected, hl⟩ := linked_reachable hreach
  constructor
  · intro h hopen hready
    have hmeta : (w.hands h).metaFlag = true := by
      rw [OctopusHand.ready] at hready
      split at hready
      · exact hready
      · next hrole => exact (hl.hand h).client hopen hrole
    rw [ne_eq, hl.dispatcher_iff hopen hmeta, Bool.not_eq_true]
  · intro e answers
    rw [((Quiet.setAnswers w answers).linked hl).handle_error_iff]
    cases e <;> exact Iff.rfl

/-- A client accepts a connection and is connected to the other half, which is connected
    itself; the hand cannot send a byte that its dispatcher reads, and the dispatcher is
    closed. -/
def closedEarly : List (Event × List ℕ) :=
  [(.createEndpoint ⟨1, 2, 3, 4⟩ true true, []),
   (.hand 0 false false true [] ⟨none, false, false⟩, [14]),
   (.hand 0 false true false [.data octopusMsgDstConnected []] ⟨none, false, false⟩, []),
   (.dispatcherAlarm 0 0 10 [.data 7 []], []),
   (.dispatcherAlarm 0 0 10 [.closed], [])]

/-- The hand is still read, and has no dispatcher to give its data to. -/
theorem lateData_closedEarly :
    (system anyEvent).Reachable (after closedEarly World.empty) ∧
      ((after closedEarly World.empty).hands 0).fdOpen = true ∧
      ((after closedEarly World.empty).hands 0).ready = true ∧
      ((after closedEarly World.empty).hands 0).dispatcher = none ∧
      handle (after closedEarly World.empty)
        (.hand 0 false true false [.data 5 []] ⟨none, false, false⟩) = .error .dispatcher := by
  refine ⟨reachable_after closedEarly (fun _ _ _ => trivial) (.init rfl), ?_, ?_, ?_, ?_⟩
  · decide +kernel
  · decide +kernel
  · decide +kernel
  · decide +kernel

/-- Before its dispatcher closes, the hand has one, and what it reads fails no check for it. -/
theorem lateData_connected :
    ((after (closedEarly.take 4) World.empty).hands 0).dispatcher ≠ none ∧
      handle ((after (closedEarly.take 4) World.empty).setAnswers [])
        (.hand 0 false true false [.data 5 []] ⟨none, false, false⟩) ≠ .error .dispatcher := by
  have hiff := lateData_iff (reachable_after (closedEarly.take 4)
    (fun _ _ _ => trivial) (.init rfl))
  constructor
  · exact (hiff.1 0 (by decide +kernel) (by decide +kernel)).2 (by decide +kernel)
  · intro hcall
    have hover := (hiff.2 _ _).1 hcall
    exact absurd hover.2.1 (by decide +kernel)

/-! ## References to closed hands -/

/-- No dispatcher refers to a hand that has closed, and one that has no hands closes, or
    waits to. -/
structure Referenced (w : World) : Prop where
  alive : ∀ d h, (w.dispatchers d).Refers h → (w.hands h).destroyed = false
  closing : ∀ d < w.dispatcherCount, (w.dispatchers d).Closing

theorem Linked.referenced {w : World} (hl : Linked ∅ w) : Referenced w where
  alive d h hr := (hl.held d h hr).alive (Set.notMem_empty h)
  closing := hl.closing

/-- A hand that is rejected has closed, and its dispatcher still refers to it. -/
theorem Rejected.not_referenced {w w' : World} {h : ℕ} {error input output : Bool}
    {reads : List ReadResult} {answer : Answer} (hrejected : Rejected w h error input reads)
    (hcall : w.handle (.hand h error input output reads answer) = .ok w') : ¬ Referenced w' := by
  obtain ⟨hopen, hrole, hsp, hack, ⟨rfl, rfl⟩, ⟨rest, reads, rfl⟩, d, hr⟩ := hrejected
  have hloop : w.callerLoop h (.data octopusMsgDstFailed rest :: reads) =
      .ok ((w.setHand h { w.hands h with metaAckFlag := true }).detachedClose h) := by
    rw [World.callerLoop]
    rw [if_pos hack, World.callerAck_failed]
    dsimp only
    rw [if_pos rfl, World.handConnClose_failed]
  have hclosed : (((w.setHand h { w.hands h with metaAckFlag := true }).detachedClose h).hands h) =
      { w.hands h with metaAckFlag := true }.closed := by
    rw [World.detachedClose, World.setHand_hands_self, World.setHand_hands_self]
  unfold World.handle at hcall
  dsimp only at hcall
  rw [if_pos hopen, hrole] at hcall
  dsimp only at hcall
  rw [World.onCallerEvent] at hcall
  rw [if_neg Bool.false_ne_true, if_pos ⟨hopen, rfl, hsp⟩, hloop] at hcall
  dsimp only at hcall
  rw [hclosed, if_neg fun hout => Bool.false_ne_true hout.1] at hcall
  cases hcall
  intro href
  have halive := href.alive d h hr
  rw [hclosed] at halive
  exact Bool.false_ne_true halive.symm

theorem rejectedHands_setAnswers (w : World) (answers : List ℕ) (e : Event) :
    rejectedHands (w.setAnswers answers) e = rejectedHands w e := by
  cases e with
  | hand h error input output reads answer =>
    ext h'
    refine and_congr_right fun _ => ⟨fun hr => ?_, fun hr => ?_⟩
    · exact ⟨hr.fdOpen, hr.role, hr.spFlag, hr.metaAckFlag, hr.event, hr.failed, hr.referred⟩
    · exact ⟨hr.fdOpen, hr.role, hr.spFlag, hr.metaAckFlag, hr.event, hr.failed, hr.referred⟩
  | _ => rfl

/-- As long as no hand is rejected, the references are good; and they stay so in a step
    exactly if it rejects none. -/
theorem references_iff {w : World}
    (hreach : (system fun w e => rejectedHands w e = ∅).Reachable w) :
    Referenced w ∧ ∀ e answers w', (w.setAnswers answers).handle e = .ok w' →
      (Referenced w' ↔ rejectedHands w e = ∅) := by
  have hl : Linked ∅ w := by
    refine hreach.invariant ?_ ?_
    · rintro w rfl
      exact linked_empty
    · rintro w w' - hl hstep
      cases hstep with
      | handle e answers _ hnone hcall =>
        have hl' := ((Quiet.setAnswers w answers).linked hl).handle hcall
        rw [rejectedHands_setAnswers, hnone, Set.union_self] at hl'
        exact hl'
  refine ⟨hl.referenced, fun e answers w' hcall => ⟨fun href => ?_, fun hnone => ?_⟩⟩
  · by_contra hsome
    obtain ⟨h, hmem⟩ := Set.nonempty_iff_ne_empty.2 hsome
    rw [← rejectedHands_setAnswers w answers] at hmem
    cases e with
    | hand h' error input output reads answer =>
      obtain ⟨rfl, hrejected⟩ := hmem
      exact hrejected.not_referenced hcall href
    | _ => exact hmem
  · have hl' := ((Quiet.setAnswers w answers).linked hl).handle hcall
    rw [rejectedHands_setAnswers, hnone, Set.union_self] at hl'
    exact hl'.referenced

/-- A client hand is connected to the other half, which cannot connect itself. -/
def rejectedEarly : List (Event × List ℕ) :=
  [(.createEndpoint ⟨1, 2, 3, 4⟩ true true, []),
   (.hand 0 false false true [] ⟨none, false, false⟩, [14]),
   (.hand 0 false true false [.data octopusMsgDstFailed []] ⟨none, false, false⟩, [])]

/-- The hand has closed, its dispatcher refers to it and does not close. -/
theorem references_rejectedEarly :
    (system anyEvent).Reachable (after rejectedEarly World.empty) ∧
      ((after rejectedEarly World.empty).dispatchers 0).waitHands = [0] ∧
      ((after rejectedEarly World.empty).hands 0).destroyed = true ∧
      ((after rejectedEarly World.empty).dispatchers 0).waitClose = false ∧
      ((after rejectedEarly World.empty).dispatchers 0).destroyed = false ∧
      ¬ Referenced (after rejectedEarly World.empty) := by
  have hwait : ((after rejectedEarly World.empty).dispatchers 0).waitHands = [0] := by
    decide +kernel
  have hdestroyed : ((after rejectedEarly World.empty).hands 0).destroyed = true := by
    decide +kernel
  refine ⟨reachable_after _ (fun _ _ _ => trivial) (.init rfl), hwait, hdestroyed, ?_, ?_, ?_⟩
  · decide +kernel
  · decide +kernel
  · intro href
    have halive := href.alive 0 0 (.inl (hwait ▸ List.mem_singleton_self 0))
    rw [hdestroyed] at halive
    exact Bool.false_ne_true halive.symm

/-- The other half closes the connection of a hand that is ready. -/
def disconnected : List (Event × List ℕ) :=
  [(.createEndpoint ⟨1, 2, 3, 4⟩ true true, []),
   (.hand 0 false false true [] ⟨none, false, false⟩, [14]),
   (.hand 0 false true false [.data octopusMsgDstConnected []] ⟨none, false, false⟩, []),
   (.hand 0 false true false [.closed] ⟨none, false, false⟩, [])]

theorem references_disconnected :
    Referenced (after (disconnected.take 3) World.empty) ∧
      Referenced (after disconnected World.empty) := by
  have hreads : ∀ {h : ℕ} {error input output : Bool} {reads : List ReadResult} {answer : Answer},
      (∀ rest reads', reads ≠ .data octopusMsgDstFailed rest :: reads') →
      ∀ w, rejectedHands w (.hand h error input output reads answer) = ∅ := by
    intro h error input output reads answer hne w
    refine Set.eq_empty_of_forall_notMem fun h' hmem => ?_
    obtain ⟨rest, reads', hreads⟩ := hmem.2.failed
    exact hne rest reads' hreads
  have hnone : ∀ p ∈ disconnected, ∀ w, rejectedHands w p.1 = ∅ := by
    intro p hp
    simp only [disconnected, List.mem_cons, List.not_mem_nil, or_false] at hp
    rcases hp with rfl | rfl | rfl | rfl
    · exact fun w => rfl
    · exact hreads nofun
    · exact hreads (by simp [octopusMsgDstConnected, octopusMsgDstFailed])
    · exact hreads nofun
  constructor
  · exact (references_iff (reachable_after _ (fun p hp => hnone p (List.mem_of_mem_take hp))
      (.init rfl))).1
  · exact (references_iff (reachable_after _ hnone (.init rfl))).1

end Octopus

end DashDim
