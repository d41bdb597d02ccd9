import DashDim.Octopus.Proxy

/-!
# Links between hands and dispatchers

A hand refers to its dispatcher, a dispatcher to its hands, and each handler changes
both. In every state between two events these references fit together (`Linked`):

* an open hand that has its first message has a dispatcher, unless it waits to close
  (`HandLinked`);
* a hand that a dispatcher refers to refers to it, and is not deleted, unless it is one
  of those that were rejected (`Held`): a client hand that gets `octopusMsgDstFailed`
  closes, and its dispatcher does not let it go (`rejectedHands`);
* a dispatcher that has no hands closes, or waits to.

Most of what the handlers do changes none of this (`Quiet`). For the rest there is one
lemma for each function, and `Linked.handle` assembles them.
-/

namespace DashDim

namespace Octopus

/-! ## The invariant -/

/-- What the flags of a hand say about it. -/
structure HandLinked (hand : OctopusHand) : Prop where
  attached : hand.fdOpen = true → hand.metaFlag = true → hand.waitClose = false →
    hand.dispatcher ≠ none
  client : hand.fdOpen = true → hand.role = .handClient → hand.metaFlag = true
  waits : hand.waitClose = true → hand.metaFlag = true ∧ hand.dispatcher = none
  deleted : hand.destroyed = true → hand.fdOpen = false

namespace OctopusDispatcher

/-- The hands a dispatcher refers to. -/
def Refers (dispatcher : OctopusDispatcher) (h : ℕ) : Prop :=
  h ∈ dispatcher.waitHands ∨ h ∈ dispatcher.readyHands

/-- A dispatcher without hands closes, or waits to. -/
def Closing (dispatcher : OctopusDispatcher) : Prop :=
  dispatcher.waitHands = [] → dispatcher.readyHands = [] →
    dispatcher.waitClose = true ∨ dispatcher.destroyed = true

theorem not_refers_of_empty {dispatcher : OctopusDispatcher} (hwait : dispatcher.waitHands = [])
    (hready : dispatcher.readyHands = []) (h : ℕ) : ¬ dispatcher.Refers h := by
  simp [Refers, hwait, hready]

end OctopusDispatcher

/-- What holds of a hand that a dispatcher refers to. -/
structure Held (rejected : Set ℕ) (w : World) (d h : ℕ) : Prop where
  made : h < w.handCount
  hasMeta : (w.hands h).metaFlag = true
  owner : h ∉ rejected → (w.hands h).dispatcher = some d
  alive : h ∉ rejected → (w.hands h).destroyed = false

/-- The references of hands and dispatchers fit together, but for hands that were
    rejected. -/
structure Linked (rejected : Set ℕ) (w : World) : Prop where
  hand : ∀ h, HandLinked (w.hands h)
  made : ∀ h, (w.hands h).fdOpen = true → h < w.handCount
  held : ∀ d h, (w.dispatchers d).Refers h → Held rejected w d h
  closing : ∀ d < w.dispatcherCount, (w.dispatchers d).Closing

namespace Linked

variable {rejected rejected' : Set ℕ} {w : World} {d h : ℕ}

theorem mono (hl : Linked rejected w) (hsub : rejected ⊆ rejected') : Linked rejected' w where
  hand := hl.hand
  made := hl.made
  held d h hr :=
    have hheld := hl.held d h hr
    { made := hheld.made
      hasMeta := hheld.hasMeta
      owner := fun hnot => hheld.owner fun hmem => hnot (hsub hmem)
      alive := fun hnot => hheld.alive fun hmem => hnot (hsub hmem) }
  closing := hl.closing

/-- Nothing refers to a hand without its first message. -/
theorem not_refers (hl : Linked rejected w) (hmeta : (w.hands h).metaFlag = false) (d : ℕ) :
    ¬ (w.dispatchers d).Refers h := by
  intro hr
  have hset := (hl.held d h hr).hasMeta
  rw [hmeta] at hset
  exact Bool.false_ne_true hset

/-- An open hand may be referred to by its dispatcher. -/
theorem held_of_open (hl : Linked rejected w) (hopen : (w.hands h).fdOpen = true)
    (hmeta : (w.hands h).metaFlag = true) (howner : (w.hands h).dispatcher = some d) :
    Held rejected w d h where
  made := hl.made h hopen
  hasMeta := hmeta
  owner _ := howner
  alive _ := by
    by_contra hdestroyed
    have hclosed := (hl.hand h).deleted (Bool.not_eq_false _ ▸ hdestroyed)
    rw [hopen] at hclosed
    exact Bool.false_ne_true hclosed.symm

/-- Only its dispatcher refers to a hand. -/
theorem owner_unique (hl : Linked rejected w) {d' : ℕ} (hnot : h ∉ rejected)
    (hr : (w.dispatchers d).Refers h) (hr' : (w.dispatchers d').Refers h) : d' = d := by
  have howner := (hl.held d h hr).owner hnot
  have howner' := (hl.held d' h hr').owner hnot
  rw [howner] at howner'
  exact (Option.some.inj howner').symm

/-- An open client hand has a dispatcher, unless it waits to close. -/
theorem dispatcher_iff (hl : Linked rejected w) (hopen : (w.hands h).fdOpen = true)
    (hmeta : (w.hands h).metaFlag = true) :
    (w.hands h).dispatcher = none ↔ (w.hands h).waitClose = true := by
  constructor
  · intro hnone
    by_contra hwait
    exact (hl.hand h).attached hopen hmeta (Bool.not_eq_true _ ▸ hwait) hnone
  · intro hwait
    exact ((hl.hand h).waits hwait).2

end Linked

/-! ## What does not change it -/

/-- Two hands of the same flags and references. -/
structure SameLinks (hand hand' : OctopusHand) : Prop where
  role : hand'.role = hand.role
  fdOpen : hand'.fdOpen = hand.fdOpen
  destroyed : hand'.destroyed = hand.destroyed
  dispatcher : hand'.dispatcher = hand.dispatcher
  metaFlag : hand'.metaFlag = hand.metaFlag
  waitClose : hand'.waitClose = hand.waitClose

/-- Two dispatchers of the same flags and references. -/
structure SameRefs (dispatcher dispatcher' : OctopusDispatcher) : Prop where
  waitHands : dispatcher'.waitHands = dispatcher.waitHands
  readyHands : dispatcher'.readyHands = dispatcher.readyHands
  waitClose : dispatcher'.waitClose = dispatcher.waitClose
  destroyed : dispatcher'.destroyed = dispatcher.destroyed

/-- A step that leaves all flags and references as they are. -/
structure Quiet (w w' : World) : Prop where
  hands : ∀ h, SameLinks (w.hands h) (w'.hands h)
  dispatchers : ∀ d, SameRefs (w.dispatchers d) (w'.dispatchers d)
  handCount : w'.handCount = w.handCount
  dispatcherCount : w'.dispatcherCount = w.dispatcherCount

theorem SameLinks.refl (hand : OctopusHand) : SameLinks hand hand := ⟨rfl, rfl, rfl, rfl, rfl, rfl⟩

theorem SameRefs.refl (dispatcher : OctopusDispatcher) : SameRefs dispatcher dispatcher :=
  ⟨rfl, rfl, rfl, rfl⟩

theorem SameLinks.trans {hand hand' hand'' : OctopusHand} (h : SameLinks hand hand')
    (h' : SameLinks hand' hand'') : SameLinks hand hand'' :=
  ⟨h'.role.trans h.role, h'.fdOpen.trans h.fdOpen, h'.destroyed.trans h.destroyed,
    h'.dispatcher.trans h.dispatcher, h'.metaFlag.trans h.metaFlag,
    h'.waitClose.trans h.waitClose⟩

theorem SameRefs.trans {dispatcher dispatcher' dispatcher'' : OctopusDispatcher}
    (h : SameRefs dispatcher dispatcher') (h' : SameRefs dispatcher' dispatcher'') :
    SameRefs dispatcher dispatcher'' :=
  ⟨h'.waitHands.trans h.waitHands, h'.readyHands.trans h.readyHands,
    h'.waitClose.trans h.waitClose, h'.destroyed.trans h.destroyed⟩

theorem SameLinks.linked {hand hand' : OctopusHand} (h : SameLinks hand hand')
    (hl : HandLinked hand) : HandLinked hand' where
  attached := by
    rw [h.fdOpen, h.metaFlag, h.waitClose, h.dispatcher]
    exact hl.attached
  client := by
    rw [h.fdOpen, h.role, h.metaFlag]
    exact hl.client
  waits := by
    rw [h.waitClose, h.metaFlag, h.dispatcher]
    exact hl.waits
  deleted := by
    rw [h.destroyed, h.fdOpen]
    exact hl.deleted

namespace Quiet

variable {rejected : Set ℕ} {w w' w'' : World} {d h : ℕ}

theorem refl (w : World) : Quiet w w :=
  ⟨fun _ => .refl _, fun _ => .refl _, rfl, rfl⟩

theorem trans (hq : Quiet w w') (hq' : Quiet w' w'') : Quiet w w'' :=
  ⟨fun h => (hq.hands h).trans (hq'.hands h), fun d => (hq.dispatchers d).trans (hq'.dispatchers d),
    hq'.handCount.trans hq.handCount, hq'.dispatcherCount.trans hq.dispatcherCount⟩

theorem setAnswers (w : World) (answers : List ℕ) : Quiet w (w.setAnswers answers) :=
  ⟨fun _ => .refl _, fun _ => .refl _, rfl, rfl⟩

theorem setHand {hand : OctopusHand} (hs : SameLinks (w.hands h) hand) :
    Quiet w (w.setHand h hand) where
  hands h' := by
    by_cases heq : h' = h
    · subst heq
      rw [World.setHand_hands_self]
      exact hs
    · rw [World.setHand_hands_ne _ _ _ heq]
      exact .refl _
  dispatchers _ := .refl _
  handCount := rfl
  dispatcherCount := rfl

theorem setDispatcher {dispatcher : OctopusDispatcher}
    (hs : SameRefs (w.dispatchers d) dispatcher) : Quiet w (w.setDispatcher d dispatcher) where
  hands _ := .refl _
  dispatchers d' := by
    by_cases heq : d' = d
    · subst heq
      rw [World.setDispatcher_dispatchers_self]
      exact hs
    · rw [World.setDispatcher_dispatchers_ne _ _ _ heq]
      exact .refl _
  handCount := rfl
  dispatcherCount := rfl

theorem refers (hq : Quiet w w') (d h : ℕ) :
    (w'.dispatchers d).Refers h ↔ (w.dispatchers d).Refers h := by
  unfold OctopusDispatcher.Refers
  rw [(hq.dispatchers d).waitHands, (hq.dispatchers d).readyHands]

theorem linked (hq : Quiet w w') (hl : Linked rejected w) : Linked rejected w' where
  hand h := (hq.hands h).linked (hl.hand h)
  made h := by
    rw [(hq.hands h).fdOpen, hq.handCount]
    exact hl.made h
  held d h hr := by
    have hheld := hl.held d h ((hq.refers d h).1 hr)
    constructor
    · rw [hq.handCount]
      exact hheld.made
    · rw [(hq.hands h).metaFlag]
      exact hheld.hasMeta
    · rw [(hq.hands h).dispatcher]
      exact hheld.owner
    · rw [(hq.hands h).destroyed]
      exact hheld.alive
  closing d := by
    have hs := hq.dispatchers d
    unfold OctopusDispatcher.Closing
    rw [hq.dispatcherCount, hs.waitHands, hs.readyHands, hs.waitClose, hs.destroyed]
    exact hl.closing d

end Quiet

/-! ## Signals to hands -/

/-- A step that changes some hands and nothing else. -/
structure OnlyHands (hs : Set ℕ) (w w' : World) : Prop where
  hands : ∀ h ∉ hs, w'.hands h = w.hands h
  dispatchers : w'.dispatchers = w.dispatchers
  handCount : w'.handCount = w.handCount
  dispatcherCount : w'.dispatcherCount = w.dispatcherCount

namespace OnlyHands

variable {hs hs' : Set ℕ} {w w' w'' : World}

theorem refl (hs : Set ℕ) (w : World) : OnlyHands hs w w := ⟨fun _ _ => rfl, rfl, rfl, rfl⟩

theorem trans (ho : OnlyHands hs w w') (ho' : OnlyHands hs w' w'') : OnlyHands hs w w'' :=
  ⟨fun h hnot => (ho'.hands h hnot).trans (ho.hands h hnot), ho'.dispatchers.trans ho.dispatchers,
    ho'.handCount.trans ho.handCount, ho'.dispatcherCount.trans ho.dispatcherCount⟩

theorem mono (ho : OnlyHands hs w w') (hsub : hs ⊆ hs') : OnlyHands hs' w w' :=
  ⟨fun h hnot => ho.hands h fun hmem => hnot (hsub hmem), ho.dispatchers, ho.handCount,
    ho.dispatcherCount⟩

theorem setHand (h : ℕ) (hand : OctopusHand) (w : World) : OnlyHands {h} w (w.setHand h hand) :=
  ⟨fun _ hnot => World.setHand_hands_ne w h hand (Set.mem_singleton_iff.not.1 hnot), rfl, rfl, rfl⟩

end OnlyHands

namespace HandLinked

/-- A hand that has closed is linked to nothing. -/
theorem closed {hand : OctopusHand} (hwaits : hand.waitClose = true → hand.metaFlag = true) :
    HandLinked hand.closed where
  attached hopen := absurd hopen Bool.false_ne_true
  client hopen := absurd hopen Bool.false_ne_true
  waits hwait := ⟨hwaits hwait, rfl⟩
  deleted _ := rfl

/-- A hand whose dispatcher has closed. -/
theorem detached {hand : OctopusHand} (hl : HandLinked hand) (hmeta : hand.metaFlag = true) :
    HandLinked { hand with dispatcher := none, waitClose := true } where
  attached _ _ hwait := absurd hwait.symm Bool.false_ne_true
  client := hl.client
  waits _ := ⟨hmeta, rfl⟩
  deleted := hl.deleted

end HandLinked

namespace World

variable (w : World) (h d : ℕ) (code : OctopusSignalCode)

/-- A hand that answers is as it was, but for a flag. -/
theorem sendMetaAck_eq : ∃ hand answers, SameLinks (w.hands h) hand ∧
    w.sendMetaAck h code = (w.setHand h hand).setAnswers answers := by
  unfold sendMetaAck
  dsimp only
  split
  · refine ⟨_, _, ?_, rfl⟩
    exact ⟨rfl, rfl, rfl, rfl, rfl, rfl⟩
  · refine ⟨w.hands h, w.answers, .refl _, ?_⟩
    rw [setHand_self]
    rfl

theorem sendMetaAck_onlyHands : OnlyHands {h} w (w.sendMetaAck h code) := by
  obtain ⟨hand, answers, _, heq⟩ := w.sendMetaAck_eq h code
  rw [heq]
  exact .trans (.setHand h hand w) ⟨fun _ _ => rfl, rfl, rfl, rfl⟩

theorem sendMetaAck_quiet : Quiet w (w.sendMetaAck h code) := by
  obtain ⟨hand, answers, hsame, heq⟩ := w.sendMetaAck_eq h code
  rw [heq]
  exact .trans (.setHand hsame) (.setAnswers _ answers)

theorem signalDst_onlyHands : OnlyHands {h} w (w.signalDst h code) := by
  unfold signalDst
  dsimp only
  split_ifs
  · exact (w.sendMetaAck_onlyHands h code).trans (.setHand h _ _)
  · exact w.sendMetaAck_onlyHands h code
  · exact .refl _ w

theorem signalDisconn_onlyHands : OnlyHands {h} w (w.signalDisconn h) := by
  unfold signalDisconn
  dsimp only
  split_ifs
  · exact .trans (.setHand h _ _) (.setHand h _ _)
  · exact .setHand h _ _

theorem handSignalFrom_onlyHands : OnlyHands {h} w (w.handSignalFrom h code) := by
  unfold handSignalFrom
  dsimp only
  split_ifs
  · exact (w.signalDst_onlyHands h code).trans (signalDisconn_onlyHands _ h)
  · exact w.signalDst_onlyHands h code

theorem signalHands_onlyHands (hs : List ℕ) :
    OnlyHands {h | h ∈ hs} w (w.signalHands code hs) := by
  induction hs generalizing w with
  | nil => exact .refl _ w
  | cons h hs ih =>
    refine .trans ((w.handSignalFrom_onlyHands h code).mono ?_) ((ih _).mono ?_)
    · rintro _ rfl
      exact List.mem_cons_self
    · exact fun _ hmem => List.mem_cons_of_mem h hmem

theorem signalAll_onlyHands :
    OnlyHands {h | (w.dispatchers d).Refers h} w (w.signalAll d code) := by
  have hwait := w.signalHands_onlyHands code (w.dispatchers d).waitHands
  have hready := (w.signalHands code (w.dispatchers d).waitHands).signalHands_onlyHands code
    (w.dispatchers d).readyHands
  unfold signalAll
  dsimp only
  rw [hwait.dispatchers]
  exact (hwait.mono fun _ hmem => .inl hmem).trans (hready.mono fun _ hmem => .inr hmem)

variable {w h d code}

/-- A hand that has its first message stays linked whatever signal it gets. -/
theorem handSignalFrom_linked (code : OctopusSignalCode) (hl : HandLinked (w.hands h))
    (hmeta : (w.hands h).metaFlag = true) :
    HandLinked ((w.handSignalFrom h code).hands h) ∧
      ((w.handSignalFrom h code).hands h).metaFlag = true := by
  have hdst : HandLinked ((w.signalDst h code).hands h) ∧
      ((w.signalDst h code).hands h).metaFlag = true := by
    have hack := (w.sendMetaAck_quiet h code).hands h
    unfold signalDst
    dsimp only
    split_ifs
    · rw [detachedClose, setHand_hands_self]
      exact ⟨.closed fun _ => hack.metaFlag.trans hmeta, hack.metaFlag.trans hmeta⟩
    · exact ⟨hack.linked hl, hack.metaFlag.trans hmeta⟩
    · exact ⟨hl, hmeta⟩
  unfold handSignalFrom
  dsimp only
  split_ifs
  · unfold signalDisconn
    dsimp only
    split_ifs
    · rw [detachedClose, setHand_hands_self, setHand_hands_self]
      exact ⟨.closed fun _ => hdst.2, hdst.2⟩
    · rw [setHand_hands_self]
      exact ⟨hdst.1.detached hdst.2, hdst.2⟩
  · exact hdst

/-- Nothing but its flag changes in a hand that is told of a connection. -/
theorem handSignalFrom_quiet : Quiet w (w.handSignalFrom h .sigDstConnected) := by
  have hdst : Quiet w (w.signalDst h .sigDstConnected) := by
    unfold signalDst
    simp only [reduceCtorEq, if_false]
    split_ifs
    · exact w.sendMetaAck_quiet h _
    · exact .refl w
  unfold handSignalFrom
  simp only [reduceCtorEq, if_false]
  exact hdst

theorem signalHands_quiet (hs : List ℕ) : Quiet w (w.signalHands .sigDstConnected hs) := by
  induction hs generalizing w with
  | nil => exact .refl w
  | cons h hs ih => exact handSignalFrom_quiet.trans ih

theorem signalHands_linked (code : OctopusSignalCode) (hs : List ℕ) (hl : HandLinked (w.hands h))
    (hmeta : (w.hands h).metaFlag = true) :
    HandLinked ((w.signalHands code hs).hands h) ∧
      ((w.signalHands code hs).hands h).metaFlag = true := by
  induction hs generalizing w with
  | nil => exact ⟨hl, hmeta⟩
  | cons h' hs ih =>
    by_cases heq : h = h'
    · subst heq
      have hone := handSignalFrom_linked code hl hmeta
      exact ih hone.1 hone.2
    · have hsame := (w.handSignalFrom_onlyHands h' code).hands h heq
      refine ih ?_ ?_
      · rw [hsame]
        exact hl
      · rw [hsame]
        exact hmeta

theorem signalAll_linked (hl : HandLinked (w.hands h)) (hmeta : (w.hands h).metaFlag = true) :
    HandLinked ((w.signalAll d code).hands h) ∧
      ((w.signalAll d code).hands h).metaFlag = true := by
  have hwait := signalHands_linked code (w.dispatchers d).waitHands hl hmeta
  exact signalHands_linked code _ hwait.1 hwait.2

end World

/-! ## Closing -/

namespace Linked

variable {rejected : Set ℕ} {w : World} {d h : ℕ} {code : OctopusSignalCode}

/-- A hand changes: what refers to it still may. -/
theorem setHand {hand : OctopusHand} (hl : Linked rejected w) (hhand : HandLinked hand)
    (hmade : hand.fdOpen = true → h < w.handCount)
    (hheld : ∀ d, (w.dispatchers d).Refers h →
      hand.metaFlag = true ∧ (h ∉ rejected → hand.dispatcher = some d ∧ hand.destroyed = false)) :
    Linked rejected (w.setHand h hand) where
  hand h' := by
    by_cases heq : h' = h
    · subst heq
      rw [World.setHand_hands_self]
      exact hhand
    · rw [World.setHand_hands_ne _ _ _ heq]
      exact hl.hand h'
  made h' := by
    by_cases heq : h' = h
    · subst heq
      rw [World.setHand_hands_self]
      exact hmade
    · rw [World.setHand_hands_ne _ _ _ heq]
      exact hl.made h'
  held d h' hr := by
    have hold := hl.held d h' hr
    by_cases heq : h' = h
    · subst heq
      have hnew := hheld d hr
      refine ⟨hold.made, ?_, ?_, ?_⟩ <;> rw [World.setHand_hands_self]
      · exact hnew.1
      · exact fun hnot => (hnew.2 hnot).1
      · exact fun hnot => (hnew.2 hnot).2
    · refine ⟨hold.made, ?_, ?_, ?_⟩ <;> rw [World.setHand_hands_ne _ _ _ heq]
      · exact hold.hasMeta
      · exact hold.owner
      · exact hold.alive
  closing := hl.closing

/-- A dispatcher changes: it refers to hands it may refer to. -/
theorem setDispatcher {dispatcher : OctopusDispatcher} (hl : Linked rejected w)
    (hheld : ∀ h, dispatcher.Refers h → Held rejected w d h)
    (hclosing : d < w.dispatcherCount → dispatcher.Closing) :
    Linked rejected (w.setDispatcher d dispatcher) where
  hand := hl.hand
  made := hl.made
  held d' h' hr := by
    have hheld' : Held rejected w d' h' := by
      by_cases heq : d' = d
      · subst heq
        rw [World.setDispatcher_dispatchers_self] at hr
        exact hheld h' hr
      · rw [World.setDispatcher_dispatchers_ne _ _ _ heq] at hr
        exact hl.held d' h' hr
    exact ⟨hheld'.made, hheld'.hasMeta, hheld'.owner, hheld'.alive⟩
  closing d' hlt := by
    by_cases heq : d' = d
    · subst heq
      rw [World.setDispatcher_dispatchers_self]
      exact hclosing hlt
    · rw [World.setDispatcher_dispatchers_ne _ _ _ heq]
      exact hl.closing d' hlt

/-- A hand closes that no dispatcher refers to, or that is rejected. -/
theorem close {hand : OctopusHand} (hl : Linked rejected w)
    (hmeta : hand.metaFlag = true ∨ hand.waitClose = false)
    (hkeeps : (w.hands h).metaFlag = true → hand.metaFlag = true)
    (hnot : ∀ d, (w.dispatchers d).Refers h → h ∈ rejected) :
    Linked rejected (w.setHand h hand.closed) := by
  refine hl.setHand (.closed fun hwait => ?_) (fun hopen => absurd hopen Bool.false_ne_true)
    fun d hr => ⟨hkeeps (hl.held d h hr).hasMeta, fun hmem => absurd (hnot d hr) hmem⟩
  rcases hmeta with hmeta | hmeta
  · exact hmeta
  · rw [hmeta] at hwait
    exact absurd hwait Bool.false_ne_true

theorem detachedClose (hl : Linked rejected w)
    (hnot : ∀ d, (w.dispatchers d).Refers h → h ∈ rejected) :
    Linked rejected (w.detachedClose h) := by
  refine hl.close ?_ id hnot
  by_cases hwait : (w.hands h).waitClose = true
  · exact .inl ((hl.hand h).waits hwait).1
  · exact .inr (Bool.not_eq_true _ ▸ hwait)

/-- A dispatcher that closes lets all of its hands go. -/
theorem dispatcherConnClose (hl : Linked rejected w) :
    Linked rejected (w.dispatcherConnClose d code) := by
  have honly := w.signalAll_onlyHands d code
  have hmember : ∀ h, (w.dispatchers d).Refers h →
      HandLinked ((w.signalAll d code).hands h) ∧
        ((w.signalAll d code).hands h).metaFlag = true := fun h hr =>
    World.signalAll_linked (hl.hand h) (hl.held d h hr).hasMeta
  -- its hands are told, which no other dispatcher refers to
  have hsignalled : ∀ d' ≠ d, ∀ h, (w.dispatchers d').Refers h →
      Held rejected (w.signalAll d code) d' h := by
    intro d' hne h hr
    have hold := hl.held d' h hr
    have hmade : h < (w.signalAll d code).handCount := honly.handCount ▸ hold.made
    by_cases hr' : (w.dispatchers d).Refers h
    · have hmem : ∀ hnot : h ∉ rejected, False := fun hnot => hne (hl.owner_unique hnot hr' hr)
      exact ⟨hmade, (hmember h hr').2, fun hnot => (hmem hnot).elim, fun hnot => (hmem hnot).elim⟩
    · have hsame := honly.hands h hr'
      exact ⟨hmade, hsame ▸ hold.hasMeta, hsame ▸ hold.owner, hsame ▸ hold.alive⟩
  constructor
  · intro h
    change HandLinked ((w.signalAll d code).hands h)
    by_cases hr : (w.dispatchers d).Refers h
    · exact (hmember h hr).1
    · exact honly.hands h hr ▸ hl.hand h
  · intro h hopen
    change h < (w.signalAll d code).handCount
    rw [honly.handCount]
    by_cases hr : (w.dispatchers d).Refers h
    · exact (hl.held d h hr).made
    · refine hl.made h ?_
      rw [← honly.hands h hr]
      exact hopen
  · intro d' h hr
    by_cases heq : d' = d
    · subst heq
      unfold World.dispatcherConnClose at hr
      dsimp only at hr
      rw [World.setDispatcher_dispatchers_self] at hr
      exact absurd hr (OctopusDispatcher.not_refers_of_empty rfl rfl h)
    · unfold World.dispatcherConnClose at hr
      dsimp only at hr
      rw [World.setDispatcher_dispatchers_ne _ _ _ heq, honly.dispatchers] at hr
      have hheld := hsignalled d' heq h hr
      exact ⟨hheld.made, hheld.hasMeta, hheld.owner, hheld.alive⟩
  · intro d' hlt
    unfold World.dispatcherConnClose
    dsimp only
    by_cases heq : d' = d
    · subst heq
      rw [World.setDispatcher_dispatchers_self]
      exact fun _ _ => .inr rfl
    · rw [World.setDispatcher_dispatchers_ne _ _ _ heq, honly.dispatchers]
      exact hl.closing d' (honly.dispatcherCount ▸ hlt)

end Linked

/-! ## Signals to dispatchers -/

namespace World

variable (w : World) (d h : ℕ)

/-- A dispatcher that has no hands closes alone. -/
theorem dispatcherConnClose_of_empty {code : OctopusSignalCode}
    (hwait : (w.dispatchers d).waitHands = []) (hready : (w.dispatchers d).readyHands = []) :
    w.dispatcherConnClose d code = w.setDispatcher d { w.dispatchers d with
      toOctopusBase := { (w.dispatchers d).closeFd.deleteSelf with status := .connDisconn }
      waitHands := []
      readyHands := []
      registered := false } := by
  have hall : w.signalAll d code = w := by
    simp [signalAll, signalHands, hwait, hready]
  unfold dispatcherConnClose
  rw [hall]

/-- What a dispatcher is that has let a hand go. -/
theorem dropHand_eq : ∃ dispatcher, w.dropHand d h = w.setDispatcher d dispatcher ∧
    (∀ h', dispatcher.Refers h' → (w.dispatchers d).Refers h' ∧ h' ≠ h) ∧
    dispatcher.Closing := by
  unfold dropHand
  dsimp only
  split_ifs with hempty hwb
  · refine ⟨_, (dispatcherConnClose_of_empty _ d ?_ ?_).trans (setDispatcher_setDispatcher ..),
      ?_, ?_⟩
    · rw [setDispatcher_dispatchers_self]
      exact hempty.1
    · rw [setDispatcher_dispatchers_self]
      exact hempty.2
    · exact fun h' hr => absurd hr (OctopusDispatcher.not_refers_of_empty rfl rfl h')
    · rw [setDispatcher_dispatchers_self]
      exact fun _ _ => .inl rfl
  · refine ⟨_, rfl, ?_, fun _ _ => .inl rfl⟩
    exact fun h' hr => absurd hr (OctopusDispatcher.not_refers_of_empty hempty.1 hempty.2 h')
  · refine ⟨_, rfl, ?_, fun hwait hready => absurd ⟨hwait, hready⟩ hempty⟩
    rintro h' (hr | hr)
    · have hmem := List.mem_filter.1 hr
      exact ⟨.inl hmem.1, of_decide_eq_true hmem.2⟩
    · have hmem := List.mem_filter.1 hr
      exact ⟨.inr hmem.1, of_decide_eq_true hmem.2⟩

theorem dispatcherSignalFrom_connected :
    w.dispatcherSignalFrom d h .sigDstConnected =
      if (w.dispatchers d).role = .dispatcherClient then w.addReady d h else w := by
  simp [dispatcherSignalFrom]

theorem dispatcherSignalFrom_failed : w.dispatcherSignalFrom d h .sigDstFailed = w := by
  simp [dispatcherSignalFrom]

theorem dispatcherSignalFrom_disconn {code : OctopusSignalCode}
    (hcode : code = .sigConnFailed ∨ code = .sigConnDisconn) :
    w.dispatcherSignalFrom d h code = w.dropHand d h := by
  rcases hcode with rfl | rfl <;> simp [dispatcherSignalFrom]

theorem handConnClose_failed : w.handConnClose h .sigDstFailed = w.detachedClose h := by
  unfold handConnClose
  dsimp only
  split
  · rfl
  · rw [dispatcherSignalFrom_failed]

end World

namespace Linked

variable {rejected : Set ℕ} {w : World} {d h : ℕ} {code : OctopusSignalCode}

/-- An open hand is added to those its dispatcher refers to. -/
theorem setDispatcher_insert {dispatcher : OctopusDispatcher} (hl : Linked rejected w)
    (hopen : (w.hands h).fdOpen = true) (hmeta : (w.hands h).metaFlag = true)
    (howner : (w.hands h).dispatcher = some d) (hin : dispatcher.Refers h)
    (hrefers : ∀ h', dispatcher.Refers h' → h' = h ∨ (w.dispatchers d).Refers h') :
    Linked rejected (w.setDispatcher d dispatcher) := by
  refine hl.setDispatcher (fun h' hr => ?_) fun _ hwait hready => ?_
  · rcases hrefers h' hr with rfl | hr
    · exact hl.held_of_open hopen hmeta howner
    · exact hl.held d h' hr
  · exact absurd hin (OctopusDispatcher.not_refers_of_empty hwait hready h)

/-- An open hand gets ready at its dispatcher. -/
theorem addReady (hl : Linked rejected w) (hopen : (w.hands h).fdOpen = true)
    (hmeta : (w.hands h).metaFlag = true) (howner : (w.hands h).dispatcher = some d) :
    Linked rejected (w.addReady d h) := by
  refine hl.setDispatcher_insert hopen hmeta howner (.inr List.mem_insert_self) ?_
  rintro h' (hr | hr)
  · exact .inr (.inl (List.mem_filter.1 hr).1)
  · exact (List.mem_insert_iff.1 hr).imp id .inr

/-- A hand that closes for its connection is let go first. -/
theorem handConnClose (hl : Linked rejected w)
    (hcode : code = .sigConnFailed ∨ code = .sigConnDisconn) :
    Linked rejected (w.handConnClose h code) := by
  unfold World.handConnClose
  dsimp only
  cases howner : (w.hands h).dispatcher with
  | none =>
    refine hl.detachedClose fun d hr => ?_
    by_contra hnot
    rw [(hl.held d h hr).owner hnot] at howner
    cases howner
  | some d =>
    dsimp only
    rw [World.dispatcherSignalFrom_disconn w d h hcode]
    obtain ⟨dispatcher, heq, hrefers, hclosing⟩ := w.dropHand_eq d h
    rw [heq]
    have hl' := hl.setDispatcher (fun h' hr => hl.held d h' (hrefers h' hr).1) fun _ => hclosing
    refine hl'.detachedClose fun d' hr => ?_
    by_contra hnot
    -- the hand is let go by its dispatcher, and no other refers to it
    have howner' := (hl'.held d' h hr).owner hnot
    rw [World.setDispatcher_hands, howner] at howner'
    cases howner'
    rw [World.setDispatcher_dispatchers_self] at hr
    exact (hrefers h hr).2 rfl

/-- A hand that is rejected closes, and its dispatcher may still refer to it. -/
theorem handConnClose_failed (hl : Linked rejected w)
    (hnot : ∀ d, (w.dispatchers d).Refers h → h ∈ rejected) :
    Linked rejected (w.handConnClose h .sigDstFailed) := by
  rw [World.handConnClose_failed]
  exact hl.detachedClose hnot

end Linked

end Octopus

end DashDim
