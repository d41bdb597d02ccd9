import DashDim.Octopus.Links

/-!
# The handlers of the proxy

Each handler keeps the references of hands and dispatchers (`Linked.handle`). Data is
read and sent without a change of references (`Quiet`); what else a handler does is to
close objects, to register hands, and to make new ones.
-/

namespace DashDim

namespace Octopus

/-! ## Data -/

namespace World

variable {w w' : World} {h d first : ℕ} {pv : Bytes}

theorem handSink_quiet (hcall : w.handSink h pv = .ok w') : Quiet w w' := by
  unfold handSink at hcall
  dsimp only at hcall
  split at hcall
  · cases hcall
  · next base answers hsink =>
    cases hcall
    have hsame := OctopusBase.sink_same hsink
    refine .trans (.setHand ?_) (.setAnswers _ _)
    exact ⟨rfl, hsame.fdOpen, hsame.destroyed, rfl, rfl, rfl⟩

theorem handFlushBuffer_quiet (hcall : w.handFlushBuffer h = .ok w') : Quiet w w' := by
  unfold handFlushBuffer at hcall
  dsimp only at hcall
  split at hcall
  · cases hcall
  · next base answers hflush =>
    cases hcall
    have hsame := OctopusBase.flushBuffer_same hflush
    refine .trans (.setHand ?_) (.setAnswers _ _)
    exact ⟨rfl, hsame.fdOpen, hsame.destroyed, rfl, rfl, rfl⟩

theorem dispatcherSink_quiet (hcall : w.dispatcherSink d pv = .ok w') : Quiet w w' := by
  unfold dispatcherSink at hcall
  dsimp only at hcall
  split at hcall
  · cases hcall
  · next base answers hsink =>
    cases hcall
    have hsame := OctopusBase.sink_same hsink
    refine .trans (.setDispatcher ?_) (.setAnswers _ _)
    exact ⟨rfl, rfl, rfl, hsame.destroyed⟩

/-- A dispatcher that sends changes no hand. -/
theorem dispatcherSink_hands (hcall : w.dispatcherSink d pv = .ok w') : w'.hands = w.hands := by
  unfold dispatcherSink at hcall
  dsimp only at hcall
  split at hcall
  · cases hcall
  · cases hcall
    rfl

theorem dispatcherFlushBuffer_quiet (hcall : w.dispatcherFlushBuffer d = .ok w') : Quiet w w' := by
  unfold dispatcherFlushBuffer at hcall
  dsimp only at hcall
  split at hcall
  · cases hcall
  · next base answers hflush =>
    cases hcall
    have hsame := OctopusBase.flushBuffer_same hflush
    refine .trans (.setDispatcher ?_) (.setAnswers _ _)
    exact ⟨rfl, rfl, rfl, hsame.destroyed⟩

theorem alarmLoop_quiet {reads : List ReadResult} {budget : ℤ} {closed : Bool}
    (hcall : w.alarmLoop h reads budget = .ok (w', closed)) : Quiet w w' := by
  induction reads generalizing w budget with
  | nil =>
    cases hcall
    exact .refl _
  | cons read reads ih =>
    unfold alarmLoop at hcall
    split_ifs at hcall
    · cases read with
      | again =>
        cases hcall
        exact .refl _
      | closed =>
        cases hcall
        exact .refl _
      | data first rest =>
        dsimp only at hcall
        split at hcall
        · cases hcall
        · next w₁ hsink => exact (handSink_quiet hsink).trans (ih hcall)
    · cases hcall
      exact .refl _

theorem alarmRead_quiet {reads : List ReadResult} {budget : ℤ} {closed : Bool}
    (hcall : w.alarmRead d first budget reads = .ok (w', closed)) : Quiet w w' := by
  rw [alarmRead] at hcall
  split at hcall
  · exact alarmLoop_quiet hcall
  · cases hcall
    exact .refl _

theorem callerOutput_quiet (hcall : w.callerOutput h = .ok w') : Quiet w w' := by
  have hwritable : Quiet w (w.setHand h (w.hands h).writable) := by
    refine .setHand ?_
    rw [OctopusHand.writable]
    split_ifs
    · exact ⟨rfl, rfl, rfl, rfl, rfl, rfl⟩
    · exact .refl _
  unfold callerOutput at hcall
  dsimp only at hcall
  split at hcall
  · exact hwritable.trans (handFlushBuffer_quiet hcall)
  · cases hcall
    exact hwritable

end World

/-! ## New objects -/

namespace Linked

variable {rejected : Set ℕ} {w w' : World} {d h : ℕ}

theorem newHand {hand : OctopusHand} (hl : Linked rejected w) (hhand : HandLinked hand) :
    Linked rejected (w.newHand hand) := by
  have hcount : Linked rejected { w with handCount := w.handCount + 1 } :=
    { hand := hl.hand
      made := fun h hopen => Nat.lt_succ_of_lt (hl.made h hopen)
      held := fun d h hr =>
        have hheld := hl.held d h hr
        ⟨Nat.lt_succ_of_lt hheld.made, hheld.hasMeta, hheld.owner, hheld.alive⟩
      closing := hl.closing }
  refine hcount.setHand hhand (fun _ => Nat.lt_succ_self _) fun d hr => ?_
  exact absurd (hl.held d _ hr).made (lt_irrefl _)

theorem newDispatcher {dispatcher : OctopusDispatcher} (hl : Linked rejected w)
    (hheld : ∀ h, dispatcher.Refers h → Held rejected w w.dispatcherCount h)
    (hclosing : dispatcher.Closing) : Linked rejected (w.newDispatcher dispatcher) := by
  have hset := hl.setDispatcher hheld fun _ => hclosing
  refine ⟨hset.hand, hset.made, fun d h hr => ?_, fun d hlt => ?_⟩
  · have hheld := hset.held d h hr
    exact ⟨hheld.made, hheld.hasMeta, hheld.owner, hheld.alive⟩
  · by_cases heq : d = w.dispatcherCount
    · subst heq
      change OctopusDispatcher.Closing (Function.update w.dispatchers _ _ _)
      rw [Function.update_self]
      exact hclosing
    · exact hset.closing d (lt_of_le_of_ne (Nat.lt_succ_iff.1 hlt) heq)

theorem acceptHand (hl : Linked rejected w) : Linked rejected w.acceptHand :=
  hl.newHand
    { attached := fun _ hmeta => absurd hmeta Bool.false_ne_true
      client := fun _ hrole => nomatch hrole
      waits := fun hwait => absurd hwait Bool.false_ne_true
      deleted := fun hdestroyed => absurd hdestroyed Bool.false_ne_true }

/-- A new hand of a client is linked to its dispatcher. -/
theorem handLinked_writeMeta (uuid : OctopusSessionKey) (spFlag : Bool) (d : ℕ) :
    HandLinked (World.writeMeta uuid spFlag (OctopusHand.new .handClient (some d))) where
  attached _ _ _ := Option.some_ne_none d
  client _ _ := rfl
  waits hwait := absurd hwait Bool.false_ne_true
  deleted hdestroyed := absurd hdestroyed Bool.false_ne_true

/-- A new dispatcher without hands is closed. -/
theorem newDispatcher_empty (hl : Linked rejected w) (dispatcher : OctopusDispatcher)
    (hwait : dispatcher.waitHands = []) (hready : dispatcher.readyHands = [])
    (hdestroyed : dispatcher.destroyed = true) : Linked rejected (w.newDispatcher dispatcher) :=
  hl.newDispatcher
    (fun h hr => absurd hr (OctopusDispatcher.not_refers_of_empty hwait hready h))
    fun _ _ => .inr hdestroyed

/-- A new dispatcher may refer to an open hand that refers to it. -/
theorem newDispatcher_single {dispatcher : OctopusDispatcher} (hl : Linked rejected w)
    (hwait : dispatcher.waitHands = [h]) (hready : dispatcher.readyHands = [])
    (hopen : (w.hands h).fdOpen = true) (hmeta : (w.hands h).metaFlag = true)
    (howner : (w.hands h).dispatcher = some w.dispatcherCount) :
    Linked rejected (w.newDispatcher dispatcher) := by
  refine hl.newDispatcher ?_ fun hempty => ?_
  · rintro h' (hr | hr)
    · rw [hwait, List.mem_singleton] at hr
      subst hr
      exact hl.held_of_open hopen hmeta howner
    · rw [hready] at hr
      exact absurd hr List.not_mem_nil
  · rw [hwait] at hempty
    exact absurd hempty (List.cons_ne_nil h [])

theorem createEndpoint (hl : Linked rejected w) (uuid : OctopusSessionKey)
    (bound connected : Bool) : Linked rejected (w.createEndpoint uuid bound connected) := by
  -- the hand is made first, then the dispatcher that refers to it
  have hcomm : ∀ hand dispatcher dispatcher',
      ((w.newDispatcher dispatcher).newHand hand).setDispatcher w.dispatcherCount dispatcher' =
        (w.newHand hand).newDispatcher dispatcher' := fun hand dispatcher dispatcher' =>
    (w.newHand hand).newDispatcher_setDispatcher dispatcher dispatcher'
  rw [World.createEndpoint]
  dsimp only
  split_ifs
  · rw [hcomm]
    refine (hl.newHand (handLinked_writeMeta uuid true _)).newDispatcher_single rfl rfl ?_ ?_ ?_ <;>
      rw [World.newHand_hands_self]
    · rfl
    · rfl
    · rfl
  · rw [World.dispatcherConnClose_of_empty, hcomm]
    · refine (hl.newHand ?_).newDispatcher_empty _ rfl rfl rfl
      exact
        { attached := fun hopen => absurd hopen Bool.false_ne_true
          client := fun hopen => absurd hopen Bool.false_ne_true
          waits := fun hwait => absurd hwait Bool.false_ne_true
          deleted := fun _ => rfl }
    · exact congrArg OctopusDispatcher.waitHands (World.setDispatcher_dispatchers_self ..)
    · exact congrArg OctopusDispatcher.readyHands (World.setDispatcher_dispatchers_self ..)
  · rw [World.dispatcherConnClose_of_empty, World.newDispatcher_setDispatcher]
    · exact hl.newDispatcher_empty _ rfl rfl rfl
    · exact congrArg OctopusDispatcher.waitHands (World.setDispatcher_dispatchers_self ..)
    · exact congrArg OctopusDispatcher.readyHands (World.setDispatcher_dispatchers_self ..)

end Linked

/-! ## The first message -/

namespace World

variable (w : World) (d h : ℕ)

/-- The hands keep their flags and references when one is registered. -/
theorem registerHand_hands (h' : ℕ) : SameLinks (w.hands h') ((w.registerHand d h).hands h') := by
  unfold registerHand
  dsimp only
  split
  · exact .refl _
  · next hstatus =>
    have hsame := handSignalFrom_quiet (h := h) (w := w.setDispatcher d { w.dispatchers d with
      readyHands := (w.dispatchers d).readyHands.insert h })
    exact hsame.hands h'
  · exact .refl _

variable {w d h}

/-- A dispatcher that starts to connect waits with its hand. -/
theorem makeDispatcher_connected {uuid : OctopusSessionKey} {answer : Answer} {hand : OctopusHand}
    (hbound : answer.bound = true) (hconnected : answer.connected = true) :
    (w.setHand h hand).makeDispatcher h uuid answer =
      ((w.setHand h { hand with dispatcher := some w.dispatcherCount }).newDispatcher
        { OctopusDispatcher.new .dispatcherServer uuid with
          registered := true, waitHands := [h] }, true) := by
  rw [makeDispatcher]
  rw [if_pos hbound]
  dsimp only
  rw [if_pos hconnected, setHand_hands_self, setHand_newDispatcher, setHand_newDispatcher,
    setHand_setHand]
  simp [registerHand, OctopusDispatcher.new, setHand_setDispatcher, setHand_dispatcherCount]

theorem makeDispatcher_unconnected {uuid : OctopusSessionKey} {answer : Answer}
    {hand : OctopusHand} (hbound : answer.bound = true) (hconnected : ¬ answer.connected = true) :
    (w.setHand h hand).makeDispatcher h uuid answer =
      ((w.newDispatcher { OctopusDispatcher.new .dispatcherServer uuid with
          toOctopusBase := (OctopusDispatcher.new .dispatcherServer uuid).closeFd.deleteSelf
          registered := false }).setHand h
        { hand with dispatcher := some w.dispatcherCount }, false) := by
  rw [makeDispatcher]
  rw [if_pos hbound]
  dsimp only
  rw [if_neg hconnected, setHand_hands_self, setHand_newDispatcher, setHand_setHand,
    setHand_setDispatcher, setHand_dispatcherCount, newDispatcher_setDispatcher]

end World

namespace Linked

variable {rejected : Set ℕ} {w w' : World} {d h : ℕ}

theorem registerHand (hl : Linked rejected w) (hopen : (w.hands h).fdOpen = true)
    (hmeta : (w.hands h).metaFlag = true) (howner : (w.hands h).dispatcher = some d) :
    Linked rejected (w.registerHand d h) := by
  unfold World.registerHand
  dsimp only
  split
  · refine hl.setDispatcher_insert hopen hmeta howner (.inl List.mem_insert_self) ?_
    rintro h' (hr | hr)
    · exact (List.mem_insert_iff.1 hr).imp id .inl
    · exact .inr (.inr hr)
  · refine World.handSignalFrom_quiet.linked ?_
    refine hl.setDispatcher_insert hopen hmeta howner (.inr List.mem_insert_self) ?_
    rintro h' (hr | hr)
    · exact .inr (.inl hr)
    · exact (List.mem_insert_iff.1 hr).imp id .inr
  · exact hl

/-- A hand gets its first message and a dispatcher. -/
theorem attach (hl : Linked rejected w) (hand : OctopusHand) (hmeta : (w.hands h).metaFlag = false)
    (hs : SameLinks { w.hands h with metaFlag := true, dispatcher := some d } hand) :
    Linked rejected (w.setHand h hand) := by
  have hwait : (w.hands h).waitClose = false := by
    by_contra hwait
    rw [((hl.hand h).waits (Bool.not_eq_false _ ▸ hwait)).1] at hmeta
    exact Bool.false_ne_true hmeta.symm
  have hhand : HandLinked { w.hands h with metaFlag := true, dispatcher := some d } :=
    { attached := fun _ _ _ => Option.some_ne_none d
      client := fun _ _ => rfl
      waits := fun hwait' => absurd (hwait.symm.trans hwait') Bool.false_ne_true
      deleted := (hl.hand h).deleted }
  refine hl.setHand (hs.linked hhand) (fun hopen => hl.made h ?_) fun d' hr => ?_
  · rw [hs.fdOpen] at hopen
    exact hopen
  · exact absurd hr (hl.not_refers hmeta d')

/-- A hand that cannot get a dispatcher says so, and closes. -/
theorem unattached {hand : OctopusHand} {code : OctopusSignalCode} (hl : Linked rejected w)
    (hmeta : (w.hands h).metaFlag = false) (hmeta' : hand.metaFlag = true) :
    Linked rejected (((w.setHand h hand).sendMetaAck h code).handConnClose h .sigDstFailed) ∧
      ((((w.setHand h hand).sendMetaAck h code).handConnClose h .sigDstFailed).hands h).waitClose =
        hand.waitClose := by
  obtain ⟨hand', answers, hsame, heq⟩ := (w.setHand h hand).sendMetaAck_eq h code
  rw [World.setHand_hands_self] at hsame
  have hclosed : ((w.setHand h hand).sendMetaAck h code).handConnClose h .sigDstFailed =
      (w.setHand h hand'.closed).setAnswers answers := by
    rw [World.handConnClose_failed, heq, World.setHand_setHand, World.detachedClose,
      World.setAnswers_setHand, World.setHand_setHand]
    change (w.setHand h ((w.setHand h hand').hands h).closed).setAnswers answers = _
    rw [World.setHand_hands_self]
  rw [hclosed]
  constructor
  · refine (Quiet.setAnswers _ answers).linked ?_
    refine hl.close (.inl (hsame.metaFlag.trans hmeta')) (fun _ => hsame.metaFlag.trans hmeta') ?_
    exact fun d hr => absurd hr (hl.not_refers hmeta d)
  · change ((w.setHand h hand'.closed).hands h).waitClose = _
    rw [World.setHand_hands_self]
    exact hsame.waitClose

/-- A dispatcher is made for a hand, or the hand closes. -/
theorem connectSession {hand : OctopusHand} (uuid : OctopusSessionKey) (answer : World.Answer)
    (hl : Linked rejected w) (hopen : (w.hands h).fdOpen = true)
    (hmeta : (w.hands h).metaFlag = false)
    (hs : SameLinks { w.hands h with metaFlag := true } hand) :
    Linked rejected ((w.setHand h hand).connectSession h uuid answer) ∧
      (((w.setHand h hand).connectSession h uuid answer).hands h).waitClose = hand.waitClose := by
  rw [World.connectSession]
  by_cases hbound : answer.bound = true
  · by_cases hconnected : answer.connected = true
    · rw [World.makeDispatcher_connected hbound hconnected]
      have hl' := hl.attach { hand with dispatcher := some w.dispatcherCount } hmeta
        ⟨hs.role, hs.fdOpen, hs.destroyed, rfl, hs.metaFlag, hs.waitClose⟩
      refine ⟨hl'.newDispatcher_single rfl rfl ?_ ?_ ?_, ?_⟩
      · rw [World.setHand_hands_self]
        exact hs.fdOpen.trans hopen
      · rw [World.setHand_hands_self]
        exact hs.metaFlag
      · rw [World.setHand_hands_self]
        rfl
      · change ((w.setHand h _).hands h).waitClose = _
        rw [World.setHand_hands_self]
    · rw [World.makeDispatcher_unconnected hbound hconnected]
      have hl' := hl.newDispatcher_empty
        { OctopusDispatcher.new .dispatcherServer uuid with
          toOctopusBase := (OctopusDispatcher.new .dispatcherServer uuid).closeFd.deleteSelf
          registered := false } rfl rfl rfl
      exact hl'.unattached hmeta hs.metaFlag
  · rw [World.makeDispatcher]
    rw [if_neg hbound]
    exact hl.unattached hmeta hs.metaFlag

/-- A server hand that reads its first message. -/
theorem calleeParseMeta {answer : World.Answer} (hl : Linked rejected w)
    (hopen : (w.hands h).fdOpen = true) (hmeta : (w.hands h).metaFlag = false)
    (hcall : w.calleeParseMeta h answer = .ok w') :
    Linked rejected w' ∧ (w'.hands h).waitClose = (w.hands h).waitClose := by
  rw [World.calleeParseMeta] at hcall
  split at hcall
  · cases hcall
    exact ⟨hl, rfl⟩
  · next sp uuid remaining hread =>
    dsimp only at hcall
    have hs : SameLinks { w.hands h with metaFlag := true }
        { w.hands h with metaFlag := true, spFlag := sp } := ⟨rfl, rfl, rfl, rfl, rfl, rfl⟩
    split at hcall
    · -- the first hand of a session makes its dispatcher
      next hfound =>
      split_ifs at hcall
      cases hcall
      have hconnect := hl.connectSession uuid answer hopen hmeta hs
      rw [World.setHand_hands_self]
      refine ⟨Quiet.linked (.setHand ?_) hconnect.1, hconnect.2⟩
      exact ⟨rfl, rfl, rfl, rfl, rfl, rfl⟩
    · next d hfound =>
      cases hcall
      rw [World.setHand_hands_self, World.setHand_setHand]
      have hl' := hl.attach (d := d) { w.hands h with
        metaFlag := true, spFlag := sp, dispatcher := some d } hmeta ⟨rfl, rfl, rfl, rfl, rfl, rfl⟩
      have hsame := (w.setHand h { w.hands h with
        metaFlag := true, spFlag := sp, dispatcher := some d }).registerHand_hands d h h
      rw [World.setHand_hands_self] at hsame
      refine ⟨hl'.registerHand ?_ ?_ ?_, hsame.waitClose⟩ <;> rw [World.setHand_hands_self]
      exact hopen

end Linked

/-! ## Events of hands -/

namespace World

variable {w w' : World} {h : ℕ} {first : UInt8} {rest : Bytes}

/-- What a client hand is that got its answer. -/
theorem callerAck_hand (hcall : w.callerAck h first rest = .ok w') :
    w'.hands h = { w.hands h with metaAckFlag := true } := by
  have hself := w.setHand_hands_self h { w.hands h with metaAckFlag := true }
  rw [callerAck] at hcall
  dsimp only at hcall
  split at hcall
  · split at hcall
    · cases hcall
      exact hself
    · next d howner =>
      have hhands : ((w.setHand h { w.hands h with
          metaAckFlag := true }).dispatcherSignalFrom d h .sigDstConnected).hands =
          (w.setHand h { w.hands h with metaAckFlag := true }).hands := by
        rw [dispatcherSignalFrom_connected]
        split <;> rfl
      split at hcall
      · cases hcall
        exact hhands ▸ hself
      · rw [dispatcherSink_hands hcall, hhands]
        exact hself
  · cases hcall
    exact hself

/-- A dispatcher is not told that a hand is rejected. -/
theorem callerAck_failed : w.callerAck h octopusMsgDstFailed rest =
    .ok (w.setHand h { w.hands h with metaAckFlag := true }) := by
  rw [callerAck]
  exact if_neg (by decide)

end World


namespace Linked

variable {rejected : Set ℕ} {w w' : World} {d h : ℕ}

theorem calleeData {pv : Bytes} (hl : Linked rejected w) (hcall : w.calleeData h pv = .ok w') :
    Linked rejected w' ∧ (w'.hands h).waitClose = (w.hands h).waitClose := by
  rw [World.calleeData] at hcall
  split at hcall
  · cases hcall
  · split at hcall
    · cases hcall
    · exact ⟨(World.dispatcherSink_quiet hcall).linked hl,
        congrArg (fun hands => (hands h).waitClose) (World.dispatcherSink_hands hcall)⟩

/-- A server hand that reads some bytes. -/
theorem calleeRead {answer : World.Answer} {first : UInt8} {rest : Bytes}
    (hl : Linked rejected w) (hopen : (w.hands h).fdOpen = true)
    (hcall : w.calleeRead h answer first rest = .ok w') :
    Linked rejected w' ∧ (w'.hands h).waitClose = (w.hands h).waitClose := by
  rw [World.calleeRead] at hcall
  split at hcall
  · next hmeta =>
    have hq : Quiet w (w.setHand h { w.hands h with rb := (w.hands h).rb ++ first :: rest }) := by
      refine .setHand ?_
      exact ⟨rfl, rfl, rfl, rfl, rfl, rfl⟩
    have hparse := (hq.linked hl).calleeParseMeta ((hq.hands h).fdOpen.trans hopen)
      ((hq.hands h).metaFlag.trans hmeta) hcall
    exact ⟨hparse.1, hparse.2.trans (hq.hands h).waitClose⟩
  · exact hl.calleeData hcall

theorem calleeLoop {answer : World.Answer} {reads : List World.ReadResult} (hl : Linked rejected w)
    (hcall : w.calleeLoop h answer reads = .ok w') : Linked rejected w' := by
  induction reads generalizing w with
  | nil =>
    cases hcall
    exact hl
  | cons read reads ih =>
    cases read with
    | again =>
      cases hcall
      exact hl
    | closed =>
      cases hcall
      exact hl.handConnClose (.inr rfl)
    | data first rest =>
      rw [World.calleeLoop] at hcall
      split at hcall
      · cases hcall
        exact hl.handConnClose (.inr rfl)
      · next hopen =>
        split at hcall
        · cases hcall
        · next w₁ hread => exact ih (hl.calleeRead (Bool.not_eq_false _ ▸ hopen) hread).1 hcall

theorem onCalleeEvent {error input : Bool} {reads : List World.ReadResult} {answer : World.Answer}
    (hl : Linked rejected w) (hcall : w.onCalleeEvent h error input reads answer = .ok w') :
    Linked rejected w' := by
  have herror : Linked rejected (if error then w.handConnClose h .sigConnDisconn else w) := by
    split
    · exact hl.handConnClose (.inr rfl)
    · exact hl
  unfold World.onCalleeEvent at hcall
  dsimp only at hcall
  generalize (if error = true then w.handConnClose h .sigConnDisconn else w) = w₁ at herror hcall
  split at hcall
  · exact herror.calleeLoop hcall
  · cases hcall
    exact herror

/-- A client hand that gets the answer to its first message. -/
theorem callerAck {first : UInt8} {rest : Bytes} (hl : Linked rejected w)
    (hopen : (w.hands h).fdOpen = true) (hmeta : (w.hands h).metaFlag = true)
    (hcall : w.callerAck h first rest = .ok w') : Linked rejected w' := by
  have hq : Quiet w (w.setHand h { w.hands h with metaAckFlag := true }) := by
    refine .setHand ?_
    exact ⟨rfl, rfl, rfl, rfl, rfl, rfl⟩
  have hl' := hq.linked hl
  rw [World.callerAck] at hcall
  dsimp only at hcall
  split at hcall
  · split at hcall
    · cases hcall
      exact hl'
    · next d howner =>
      have hready : Linked rejected ((w.setHand h { w.hands h with
          metaAckFlag := true }).dispatcherSignalFrom d h .sigDstConnected) := by
        rw [World.dispatcherSignalFrom_connected]
        split
        · exact hl'.addReady ((hq.hands h).fdOpen.trans hopen) ((hq.hands h).metaFlag.trans hmeta)
            howner
        · exact hl'
      split at hcall
      · cases hcall
        exact hready
      · exact (World.dispatcherSink_quiet hcall).linked hready
  · cases hcall
    exact hl'

/-- A client hand that reads: if it is rejected, its dispatcher may still refer to it. -/
theorem callerLoop {reads : List World.ReadResult} (hl : Linked rejected w)
    (hopen : (w.hands h).fdOpen = true) (hmeta : (w.hands h).metaFlag = true)
    (hreject : (w.hands h).metaAckFlag = false → ∀ rest reads',
      reads = .data octopusMsgDstFailed rest :: reads' →
        ∀ d, (w.dispatchers d).Refers h → h ∈ rejected)
    (hcall : w.callerLoop h reads = .ok w') : Linked rejected w' := by
  induction reads generalizing w with
  | nil =>
    cases hcall
    exact hl
  | cons read reads ih =>
    cases read with
    | again =>
      cases hcall
      exact hl
    | closed =>
      cases hcall
      exact hl.handConnClose (.inr rfl)
    | data first rest =>
      rw [World.callerLoop] at hcall
      split at hcall
      · next hack =>
        split at hcall
        · cases hcall
        · next w₁ hcallerAck =>
          have hl₁ := hl.callerAck hopen hmeta hcallerAck
          have hhand₁ := World.callerAck_hand hcallerAck
          split at hcall
          · -- the other side has not found the destination
            next hfirst =>
            cases hcall
            rw [hfirst, World.callerAck_failed] at hcallerAck
            cases hcallerAck
            refine hl₁.handConnClose_failed fun d hr => ?_
            exact hreject hack rest reads (hfirst ▸ rfl) d hr
          · -- only the first byte is such an answer
            refine ih hl₁ ?_ ?_ (fun hack' => ?_) hcall <;> rw [hhand₁] at *
            · exact hopen
            · exact hmeta
            · exact absurd hack'.symm Bool.false_ne_true
      · -- what comes after the answer is for the dispatcher
        next hack =>
        split at hcall
        · cases hcall
        · split at hcall
          · cases hcall
          · next d howner w₁ hsink =>
            have hhands := World.dispatcherSink_hands hsink
            refine ih ((World.dispatcherSink_quiet hsink).linked hl) ?_ ?_ (fun hack' => ?_) hcall
            · rw [hhands]
              exact hopen
            · rw [hhands]
              exact hmeta
            · rw [hhands] at hack'
              exact absurd hack' hack

theorem onCallerEvent {error input output : Bool} {reads : List World.ReadResult}
    (hl : Linked rejected w) (hopen : (w.hands h).fdOpen = true)
    (hmeta : (w.hands h).metaFlag = true)
    (hreject : error = false → input = true → (w.hands h).spFlag = true →
      (w.hands h).metaAckFlag = false → ∀ rest reads',
        reads = .data octopusMsgDstFailed rest :: reads' →
          ∀ d, (w.dispatchers d).Refers h → h ∈ rejected)
    (hcall : w.onCallerEvent h error input output reads = .ok w') : Linked rejected w' := by
  rw [World.onCallerEvent] at hcall
  split at hcall
  · cases hcall
    refine hl.handConnClose ?_
    split
    · exact .inl rfl
    · exact .inr rfl
  · next herror =>
    split at hcall
    · cases hcall
    · next w₁ hinput =>
      have hl₁ : Linked rejected w₁ := by
        split at hinput
        · next hin =>
          exact hl.callerLoop hopen hmeta
            (hreject (Bool.not_eq_true _ ▸ herror) hin.2.1 hin.2.2) hinput
        · cases hinput
          exact hl
      split at hcall
      · exact (World.callerOutput_quiet hcall).linked hl₁
      · cases hcall
        exact hl₁

theorem outBandwidthAlarm (hl : Linked rejected w) (hcall : w.outBandwidthAlarm h = .ok w') :
    Linked rejected w' := by
  rw [World.outBandwidthAlarm] at hcall
  split at hcall
  · cases hcall
  · next w₁ hflush =>
    have hl₁ : Linked rejected w₁ := by
      split at hflush
      · exact (World.handFlushBuffer_quiet hflush).linked hl
      · cases hflush
        exact hl
    split at hcall
    · cases hcall
      exact hl₁.handConnClose (.inr rfl)
    · cases hcall
      exact hl₁

/-! ## Events of dispatchers -/

theorem dispatcherOnEvent {error output : Bool} (hl : Linked rejected w)
    (hcall : w.dispatcherOnEvent d error output = .ok w') : Linked rejected w' := by
  have herror : Linked rejected
      (if error = true ∧ (w.dispatchers d).status = .connConnecting then
        w.dispatcherConnClose d .sigDstFailed else w) := by
    split
    · exact hl.dispatcherConnClose
    · exact hl
  rw [World.dispatcherOnEvent] at hcall
  dsimp only at hcall
  generalize (if error = true ∧ (w.dispatchers d).status = .connConnecting then
    w.dispatcherConnClose d .sigDstFailed else w) = w₁ at herror hcall
  split at hcall
  · have hq : Quiet w₁ (w₁.signalHands .sigDstConnected (w₁.dispatchers d).waitHands) :=
      World.signalHands_quiet _
    have hsame := hq.dispatchers d
    have hl' := hq.linked herror
    generalize w₁.signalHands .sigDstConnected (w₁.dispatchers d).waitHands = w₂
      at hq hsame hl' hcall
    split at hcall
    · next hready =>
      cases hcall
      -- the hands that waited are ready
      refine hl'.setDispatcher ?_ ?_
      · rintro h (hr | hr)
        · exact absurd hr List.not_mem_nil
        · exact hl'.held d h (.inl (hsame.waitHands ▸ hr))
      · intro hlt _ hempty
        exact hl'.closing d hlt (hsame.waitHands.trans hempty) hready
    · cases hcall
  · cases hcall
    exact herror

theorem handleSocketAlarm {first : ℕ} {budget : ℤ} {reads : List World.ReadResult}
    (hl : Linked rejected w) (hcall : w.handleSocketAlarm d first budget reads = .ok w') :
    Linked rejected w' := by
  rw [World.handleSocketAlarm] at hcall
  split at hcall
  · split at hcall
    · cases hcall
    · next w₁ hflush =>
      have hl₁ := (World.dispatcherFlushBuffer_quiet hflush).linked hl
      split at hcall
      · cases hcall
      · next w₂ closed hread =>
        have hl₂ := (World.alarmRead_quiet hread).linked hl₁
        cases hcall
        split
        · exact hl₂.dispatcherConnClose
        · exact hl₂
  · cases hcall
    exact hl

end Linked

/-! ## Rejected hands -/

/-- A client hand reads that the other half could not connect, before anything else, and
    closes: its dispatcher still refers to it. -/
structure Rejected (w : World) (h : ℕ) (error input : Bool) (reads : List World.ReadResult) :
    Prop where
  fdOpen : (w.hands h).fdOpen = true
  role : (w.hands h).role = .handClient
  spFlag : (w.hands h).spFlag = true
  metaAckFlag : (w.hands h).metaAckFlag = false
  event : error = false ∧ input = true
  failed : ∃ rest reads', reads = .data octopusMsgDstFailed rest :: reads'
  referred : ∃ d, (w.dispatchers d).Refers h

/-- The hands an event rejects. -/
def rejectedHands (w : World) : World.Event → Set ℕ
  | .hand h error input _ reads _ => {h' | h' = h ∧ Rejected w h error input reads}
  | _ => ∅

/-- An event that nothing is registered for changes nothing. -/
theorem Linked.ite {rejected : Set ℕ} {w w' : World} {cond : Prop} [Decidable cond]
    {x : Except CheckFailure World} (hl : Linked rejected w) (hx : x = .ok w' → Linked rejected w')
    (hcall : (if cond then x else .ok w) = .ok w') : Linked rejected w' := by
  split_ifs at hcall
  · exact hx hcall
  · cases hcall
    exact hl

/-- Every event keeps the references together, but for the hands it rejects. -/
theorem Linked.handle {rejected : Set ℕ} {w w' : World} {e : World.Event} (hl : Linked rejected w)
    (hcall : w.handle e = .ok w') : Linked (rejected ∪ rejectedHands w e) w' := by
  cases e with
  | createEndpoint uuid bound connected =>
    cases hcall
    exact (hl.createEndpoint uuid bound connected).mono Set.subset_union_left
  | acceptHand =>
    cases hcall
    exact hl.acceptHand.mono Set.subset_union_left
  | hand h error input output reads answer =>
    have hl' : Linked (rejected ∪ rejectedHands w (.hand h error input output reads answer)) w :=
      hl.mono Set.subset_union_left
    unfold World.handle at hcall
    dsimp only at hcall
    split at hcall
    · next hopen =>
      split at hcall
      · exact hl'.onCalleeEvent hcall
      · -- only a client hand can be rejected
        next hrole =>
        refine hl'.onCallerEvent hopen ((hl.hand h).client hopen hrole) ?_ hcall
        intro herror hinput hsp hack rest reads' hreads d hr
        exact .inr ⟨rfl, hopen, hrole, hsp, hack, ⟨herror, hinput⟩, ⟨rest, reads', hreads⟩, d, hr⟩
    · cases hcall
      exact hl'
  | handAlarm h =>
    refine Linked.mono ?_ Set.subset_union_left
    exact hl.ite hl.outBandwidthAlarm hcall
  | dispatcher d error output =>
    refine Linked.mono ?_ Set.subset_union_left
    exact hl.ite hl.dispatcherOnEvent hcall
  | dispatcherAlarm d first budget reads =>
    refine Linked.mono ?_ Set.subset_union_left
    exact hl.ite hl.handleSocketAlarm hcall
  | deleteHand h =>
    refine Linked.mono ?_ Set.subset_union_left
    refine hl.ite (fun hok => ?_) hcall
    cases hok
    refine Quiet.linked (.setHand ?_) hl
    exact ⟨rfl, rfl, rfl, rfl, rfl, rfl⟩
  | deleteDispatcher d =>
    refine Linked.mono ?_ Set.subset_union_left
    refine hl.ite (fun hok => ?_) hcall
    cases hok
    refine Quiet.linked (.setDispatcher ?_) hl
    exact ⟨rfl, rfl, rfl, rfl⟩

/-- Nothing refers to anything at first. -/
theorem linked_empty : Linked ∅ World.empty where
  hand _ :=
    { attached := fun hopen => absurd hopen Bool.false_ne_true
      client := fun hopen => absurd hopen Bool.false_ne_true
      waits := fun hwait => absurd hwait Bool.false_ne_true
      deleted := fun hdestroyed => absurd hdestroyed Bool.false_ne_true }
  made _ hopen := absurd hopen Bool.false_ne_true
  held _ h hr := absurd hr (OctopusDispatcher.not_refers_of_empty rfl rfl h)
  closing _ hlt := absurd hlt (Nat.not_lt_zero _)

end Octopus

end DashDim
