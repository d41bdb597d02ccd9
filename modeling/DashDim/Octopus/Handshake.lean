import DashDim.Octopus.Handlers
import DashDim.Octopus.Link
import DashDim.Octopus.Meta

/-!
# The handshake

The hand of a client sends a first message with its session, and nothing else until the
byte that answers it is there; the hand of a server sends this byte when its dispatcher
is connected. So the first message comes alone, and each half has a dispatcher for what
it reads after the handshake.

* `ClientReady`, `ServerReady`: what each half is like, given what it received and read;
* `handshake`: before the first close, no check fails, the server gets the session of the
  client, no dispatcher reads before the answer, and what is passed on to a plain
  connection is what was read from the other one, in order.
-/

namespace DashDim

namespace Octopus

open World

/-- What is only passed on when a flag is set, is nothing when it is not. -/
theorem eq_nil_of_flag {pv : Bytes} {flag : Bool} (hflag : pv ≠ [] → flag = true)
    (h : flag = false) : pv = [] := by
  by_contra hne
  rw [hflag hne] at h
  cases h

/-! ## The client -/

/-- The client half: before the answer nothing was received or read; afterwards the hand
    gives what it receives to its dispatcher, and sends what that reads. -/
structure ClientReady (key : OctopusSessionKey) (hand : OctopusHand)
    (dispatcher : OctopusDispatcher) (received read : Bytes) : Prop where
  role : hand.role = .handClient
  fdOpen : hand.fdOpen = true
  attached : hand.dispatcher = some 0
  spFlag : hand.spFlag = true
  waitClose : hand.waitClose = false
  dispatcherOpen : dispatcher.fdOpen = true
  dispatcherRole : dispatcher.role = .dispatcherClient
  registered : dispatcher.registered = false
  sends : hand.content = metaMessage true key ++ read
  before : hand.metaAckFlag = false → received = [] ∧ read = [] ∧ dispatcher.readyHands = [] ∧
    dispatcher.content = []
  answered : hand.metaAckFlag = true → dispatcher.readyHands = [0] ∧
    received = octopusMsgDstConnected :: dispatcher.content

namespace ClientReady

variable {key : OctopusSessionKey} {hand hand' : OctopusHand}
  {dispatcher dispatcher' : OctopusDispatcher} {received read pv : Bytes}

theorem ready (hc : ClientReady key hand dispatcher received read) :
    ∀ h ∈ dispatcher.readyHands, h = 0 := by
  cases hack : hand.metaAckFlag with
  | false => simp [(hc.before hack).2.2.1]
  | true => simp [(hc.answered hack).1]

theorem ack_of_ready (hc : ClientReady key hand dispatcher received read) {h : ℕ}
    (hmem : h ∈ dispatcher.readyHands) : hand.metaAckFlag = true := by
  by_contra hack
  rw [(hc.before (Bool.of_not_eq_true hack)).2.2.1] at hmem
  cases hmem

/-- The hand passes on what its dispatcher reads. -/
theorem handPassed (hc : ClientReady key hand dispatcher received read)
    (hpassed : hand.Passed pv hand') (hack : pv ≠ [] → hand.metaAckFlag = true) :
    ClientReady key hand' dispatcher received (read ++ pv) := by
  obtain ⟨b, alarm, hb, rfl⟩ := hpassed
  refine ⟨hc.role, hb.same.fdOpen.trans hc.fdOpen, hc.attached, hc.spFlag, hc.waitClose,
    hc.dispatcherOpen, hc.dispatcherRole, hc.registered, ?_, fun h => ?_, hc.answered⟩
  · exact (hb.content.trans (by rw [hc.sends])).trans (List.append_assoc ..)
  · obtain ⟨hreceived, hread, hready, hcontent⟩ := hc.before h
    have hpv := eq_nil_of_flag hack h
    rw [hpv, List.append_nil]
    exact ⟨hreceived, hread, hready, hcontent⟩

/-- The dispatcher passes on what the hand receives. -/
theorem dispatcherPassed (hc : ClientReady key hand dispatcher received read)
    (hpassed : dispatcher.Passed pv dispatcher') (hack : pv ≠ [] → hand.metaAckFlag = true) :
    ClientReady key hand dispatcher' (received ++ pv) read := by
  obtain ⟨b, hb, rfl⟩ := hpassed
  refine ⟨hc.role, hc.fdOpen, hc.attached, hc.spFlag, hc.waitClose,
    hb.same.fdOpen.trans hc.dispatcherOpen, hc.dispatcherRole, hc.registered, hc.sends,
    fun h => ?_, fun h => ?_⟩
  · obtain ⟨hreceived, hread, hready, hcontent⟩ := hc.before h
    have hpv := eq_nil_of_flag hack h
    refine ⟨by rw [hreceived, hpv]; rfl, hread, hready, ?_⟩
    exact hb.content.trans (by rw [hcontent, hpv]; rfl)
  · obtain ⟨hready, hreceived⟩ := hc.answered h
    refine ⟨hready, ?_⟩
    rw [hreceived, List.cons_append]
    exact congrArg _ hb.content.symm

/-- The answer is there. -/
theorem ack (hc : ClientReady key hand dispatcher received read)
    (hack : hand.metaAckFlag = false) :
    ClientReady key { hand with metaAckFlag := true } { dispatcher with
      waitHands := dispatcher.waitHands.filter (· ≠ 0)
      readyHands := dispatcher.readyHands.insert 0
      socketAlarm := true } (received ++ [octopusMsgDstConnected]) read := by
  obtain ⟨hreceived, hread, hready, hcontent⟩ := hc.before hack
  refine ⟨hc.role, hc.fdOpen, hc.attached, hc.spFlag, hc.waitClose, hc.dispatcherOpen,
    hc.dispatcherRole, hc.registered, hc.sends, fun h => (by cases h), fun _ => ⟨?_, ?_⟩⟩
  · dsimp only
    rw [hready]
    rfl
  · rw [hreceived]
    exact congrArg (octopusMsgDstConnected :: ·) hcontent.symm

variable {w : World}

/-- The first byte is the answer; the rest is passed on. -/
theorem callerAck (hc : ClientReady key (w.hands 0) (w.dispatchers 0) received read)
    (hack : (w.hands 0).metaAckFlag = false) (rest : Bytes) :
    ∃ w', w.callerAck 0 octopusMsgDstConnected rest = .ok w' ∧
      ClientReady key (w'.hands 0) (w'.dispatchers 0)
        (received ++ octopusMsgDstConnected :: rest) read ∧
      (w'.hands 0).sent = (w.hands 0).sent := by
  obtain ⟨hand, hhand⟩ : ∃ hand, hand = { w.hands 0 with metaAckFlag := true } := ⟨_, rfl⟩
  have hc₁ := hc.ack hack
  have hattached : hand.dispatcher = some 0 := by rw [hhand, hc.attached]
  have hsent : hand.sent = (w.hands 0).sent := by rw [hhand]
  have hflag : hand.metaAckFlag = true := by rw [hhand]
  rw [← hhand] at hc₁
  rw [World.callerAck]
  rw [← hhand, if_pos rfl, setHand_hands_self, hattached]
  dsimp only
  have hrole : ((w.setHand 0 hand).dispatchers 0).role = .dispatcherClient := hc.dispatcherRole
  rw [dispatcherSignalFrom_connected, if_pos hrole]
  split_ifs with hrest
  · refine ⟨_, rfl, ?_, ?_⟩
    · rw [hrest, addReady, setDispatcher_hands, setHand_hands_self,
        setDispatcher_dispatchers_self]
      exact hc₁
    · rw [addReady, setDispatcher_hands, setHand_hands_self, hsent]
  · obtain ⟨w', hsink, hpassed, hhands, -⟩ := dispatcherSink_passes
      (w := (w.setHand 0 hand).addReady 0 0)
      (by rw [addReady, setDispatcher_dispatchers_self]; exact hc.dispatcherOpen) rest
    rw [addReady, setDispatcher_dispatchers_self] at hpassed
    have hc₂ := hc₁.dispatcherPassed hpassed fun _ => hflag
    rw [List.append_assoc, List.singleton_append] at hc₂
    refine ⟨w', hsink, ?_, ?_⟩
    · rw [hhands, addReady, setDispatcher_hands, setHand_hands_self]
      exact hc₂
    · rw [hhands, addReady, setDispatcher_hands, setHand_hands_self, hsent]

/-- The loop over what a client hand receives, if the first byte is the answer. -/
theorem callerLoop (chunks : List Chunk)
    (hc : ClientReady key (w.hands 0) (w.dispatchers 0) received read)
    (hanswer : ∃ x, received ++ chunkBytes chunks <+: octopusMsgDstConnected :: x) :
    ∃ w', w.callerLoop 0 (Action.reads chunks) = .ok w' ∧
      ClientReady key (w'.hands 0) (w'.dispatchers 0) (received ++ chunkBytes chunks) read ∧
      (w.hands 0).sent <+: (w'.hands 0).sent := by
  induction chunks generalizing w received with
  | nil =>
    refine ⟨w, rfl, ?_, List.prefix_refl _⟩
    rw [chunkBytes, List.flatMap_nil, List.append_nil]
    exact hc
  | cons c chunks ih =>
    obtain ⟨first, rest⟩ := c
    have hbytes : received ++ chunkBytes ((first, rest) :: chunks) =
        received ++ first :: rest ++ chunkBytes chunks := by
      rw [chunkBytes, List.flatMap_cons, List.append_assoc]
      rfl
    rw [hbytes] at hanswer ⊢
    rw [Action.reads, List.map_cons]
    rw [World.callerLoop]
    dsimp only
    by_cases hack : (w.hands 0).metaAckFlag = false
    · -- nothing was received: the first byte is the answer
      obtain ⟨x, hprefix⟩ := hanswer
      have hfirst : first = octopusMsgDstConnected := by
        rw [(hc.before hack).1] at hprefix
        exact (List.cons_prefix_cons.1 hprefix).1
      subst hfirst
      obtain ⟨w₁, hcall, hc₁, hsent₁⟩ := hc.callerAck hack rest
      obtain ⟨w', hloop, hc', hsent⟩ := ih hc₁ ⟨x, hprefix⟩
      rw [if_pos hack, hcall]
      dsimp only
      rw [if_neg (by decide)]
      exact ⟨w', hloop, hc', hsent₁ ▸ hsent⟩
    · -- the answer is there: all bytes are passed to the dispatcher
      obtain ⟨w₁, hsink, hpassed, hhands, -⟩ :=
        dispatcherSink_passes hc.dispatcherOpen (first :: rest)
      have hc₁ := hc.dispatcherPassed hpassed fun _ => Bool.of_not_eq_false hack
      rw [← hhands] at hc₁
      obtain ⟨w', hloop, hc', hsent⟩ := ih hc₁ hanswer
      rw [if_neg hack, hc.attached]
      dsimp only
      rw [hsink]
      exact ⟨w', hloop, hc', hhands ▸ hsent⟩

/-- The socket of the hand can be written. -/
theorem callerOutput (hc : ClientReady key (w.hands 0) (w.dispatchers 0) received read) :
    ∃ w', w.callerOutput 0 = .ok w' ∧
      ClientReady key (w'.hands 0) (w'.dispatchers 0) received read ∧
      (w.hands 0).sent <+: (w'.hands 0).sent := by
  have hwritable : ClientReady key (w.hands 0).writable (w.dispatchers 0) received read ∧
      (w.hands 0).writable.sent = (w.hands 0).sent := by
    rw [OctopusHand.writable]
    split_ifs
    · exact ⟨⟨hc.role, hc.fdOpen, hc.attached, hc.spFlag, hc.waitClose, hc.dispatcherOpen,
        hc.dispatcherRole, hc.registered, hc.sends, hc.before, hc.answered⟩, rfl⟩
    · exact ⟨hc, rfl⟩
  obtain ⟨hc₁, hsent₁⟩ := hwritable
  rw [World.callerOutput]
  split_ifs
  · obtain ⟨w', hflush, hpassed, hsame, -⟩ := handFlushBuffer_passes
      (w := w.setHand 0 (w.hands 0).writable) (by rw [setHand_hands_self]; exact hc₁.fdOpen)
    rw [setHand_hands_self] at hpassed
    have hc₂ := hc₁.handPassed hpassed fun h => absurd rfl h
    rw [List.append_nil] at hc₂
    exact ⟨w', hflush, by rw [hsame]; exact hc₂, hsent₁ ▸ hpassed.sent⟩
  · refine ⟨_, rfl, ?_, ?_⟩
    · rw [setHand_hands_self]
      exact hc₁
    · rw [setHand_hands_self, hsent₁]

theorem onCallerEvent (hc : ClientReady key (w.hands 0) (w.dispatchers 0) received read)
    (input output : Bool) (chunks : List Chunk)
    (hanswer : ∃ x, received ++ (if input then chunkBytes chunks else []) <+:
      octopusMsgDstConnected :: x) :
    ∃ w', w.onCallerEvent 0 false input output (Action.reads chunks) = .ok w' ∧
      ClientReady key (w'.hands 0) (w'.dispatchers 0)
        (received ++ (if input then chunkBytes chunks else [])) read ∧
      (w.hands 0).sent <+: (w'.hands 0).sent := by
  have hread : ∃ w₁, (if (w.hands 0).fdOpen ∧ input ∧ (w.hands 0).spFlag then
      w.callerLoop 0 (Action.reads chunks) else .ok w) = .ok w₁ ∧
      ClientReady key (w₁.hands 0) (w₁.dispatchers 0)
        (received ++ (if input then chunkBytes chunks else [])) read ∧
      (w.hands 0).sent <+: (w₁.hands 0).sent := by
    rw [hc.fdOpen, hc.spFlag]
    cases input with
    | true => exact hc.callerLoop chunks hanswer
    | false => exact ⟨w, rfl, (List.append_nil received).symm ▸ hc, List.prefix_refl _⟩
  obtain ⟨w₁, hcall, hc₁, hsent₁⟩ := hread
  rw [World.onCallerEvent, if_neg Bool.false_ne_true, hcall]
  dsimp only
  by_cases houtput : (w₁.hands 0).fdOpen = true ∧ output = true
  · obtain ⟨w', hcall', hc', hsent⟩ := hc₁.callerOutput
    rw [if_pos houtput]
    exact ⟨w', hcall', hc', hsent₁.trans hsent⟩
  · rw [if_neg houtput]
    exact ⟨w₁, rfl, hc₁, hsent₁⟩

/-- What happens to a client half fails no check, if the first byte is the answer. -/
theorem step {p : Party} (hc : ClientReady key p.hand p.dispatcher p.received p.read)
    (a : Action) (answers : List ℕ)
    (hanswer : ∃ x, p.received ++ a.arrives <+: octopusMsgDstConnected :: x) :
    ∃ p', p.act a answers = .ok p' ∧
      ClientReady key p'.hand p'.dispatcher p'.received p'.read ∧
      p.hand.sent <+: p'.hand.sent := by
  have hcall : ∃ w', p.world.step (a.event, answers) = .ok w' ∧
      ClientReady key (w'.hands 0) (w'.dispatchers 0) (p.received ++ a.arrives)
        (p.read ++ p.takes a) ∧ p.hand.sent <+: (w'.hands 0).sent := by
    cases a with
    | hand input output chunks =>
      have hrole : ((p.world.setAnswers answers).hands 0).role = .handClient := hc.role
      rw [World.step, Action.event, World.handle, if_pos (by exact hc.fdOpen), hrole, Party.takes,
        List.append_nil]
      exact ClientReady.onCallerEvent (w := p.world.setAnswers answers) hc input output chunks
        hanswer
    | handAlarm =>
      obtain ⟨w', hcall, hpassed, hsame, -⟩ := Party.handAlarm_passes hc.fdOpen hc.waitClose answers
      have hc' := hc.handPassed hpassed fun h => absurd rfl h
      rw [Action.arrives, Party.takes, List.append_nil]
      exact ⟨w', hcall, hsame ▸ hc', hpassed.sent⟩
    | dispatcher output =>
      -- the dispatcher of a client is not registered, and has no events
      have hnot : ¬ ((p.world.setAnswers answers).dispatchers 0).registered = true := by
        rw [show ((p.world.setAnswers answers).dispatchers 0).registered = false from
          hc.registered]
        exact Bool.false_ne_true
      rw [World.step, Action.event, World.handle, if_neg hnot, Action.arrives, Party.takes,
        List.append_nil, List.append_nil]
      exact ⟨_, rfl, hc, List.prefix_refl _⟩
    | dispatcherAlarm first budget chunks =>
      obtain ⟨w', hcall, hpassed, hdispatcher, -⟩ := Party.dispatcherAlarm_passes hc.fdOpen
        (fun _ => hc.dispatcherOpen) hc.ready first budget chunks answers
      have hc₁ := hc.handPassed hpassed fun hne => by
        obtain ⟨h, hmem⟩ := Party.ready_of_takes hne
        exact hc.ack_of_ready hmem
      have hc' := hc₁.dispatcherPassed hdispatcher fun hne => absurd rfl hne
      exact ⟨w', hcall, hc', hpassed.sent⟩
  obtain ⟨w', hstep, hc', hsent⟩ := hcall
  rw [Party.act, hstep]
  exact ⟨_, rfl, hc', hsent⟩

end ClientReady

/-! ## The server -/

/-- A server hand that has not answered does so when its dispatcher is connected. -/
theorem handSignalFrom_answers {w : World} (hrole : (w.hands 0).role = .handServer)
    (hopen : (w.hands 0).fdOpen = true) (hack : (w.hands 0).metaAckFlag = false)
    (hanswers : 0 < w.answers.headD 0) : w.handSignalFrom 0 .sigDstConnected =
      (w.setHand 0 { w.hands 0 with
        metaAckFlag := true
        sent := (w.hands 0).sent ++ [octopusMsgDstConnected] }).setAnswers w.answers.tail := by
  have htake : [metaAckType .sigDstConnected].take (min 1 (w.answers.headD 0)) =
      [octopusMsgDstConnected] := by
    rw [Nat.min_eq_left hanswers]
    rfl
  rw [handSignalFrom, if_neg (by decide), signalDst, if_pos ⟨hrole, .inr rfl⟩,
    if_neg (by decide), sendMetaAck, if_pos ⟨hopen, hack⟩, htake]

/-- The server half: before it has all of the first message it has no dispatcher; until
    that is connected the hand has nothing to send; afterwards it sends the answer, then
    what the dispatcher reads. -/
structure ServerReady (key : OctopusSessionKey) (hand : OctopusHand)
    (dispatcher : OctopusDispatcher) (count : ℕ) (received read : Bytes) : Prop where
  role : hand.role = .handServer
  fdOpen : hand.fdOpen = true
  waitClose : hand.waitClose = false
  waiting : hand.metaFlag = false → hand.rb = received ∧ received.length < 14 ∧ count = 0 ∧
    hand.metaAckFlag = false ∧ dispatcher.registered = false ∧
    dispatcher.socketAlarm = false ∧ dispatcher.content = []
  attached : hand.metaFlag = true → hand.rb = [] ∧ hand.dispatcher = some 0 ∧
    hand.spFlag = true ∧ count = 1 ∧ dispatcher.fdOpen = true ∧
    dispatcher.role = .dispatcherServer ∧ dispatcher.uuid = key ∧
    received = metaMessage true key ++ dispatcher.content
  before : hand.metaAckFlag = false → hand.content = [] ∧ read = [] ∧
    dispatcher.readyHands = [] ∧
    (hand.metaFlag = true → dispatcher.status = .connConnecting ∧ dispatcher.waitHands = [0])
  answered : hand.metaAckFlag = true → hand.metaFlag = true ∧
    hand.content = octopusMsgDstConnected :: read ∧ [octopusMsgDstConnected] <+: hand.sent ∧
    dispatcher.readyHands = [0] ∧ dispatcher.registered = false

namespace ServerReady

variable {key : OctopusSessionKey} {hand hand' : OctopusHand} {count : ℕ}
  {dispatcher dispatcher' : OctopusDispatcher} {received read pv : Bytes}

theorem ready (hs : ServerReady key hand dispatcher count received read) :
    ∀ h ∈ dispatcher.readyHands, h = 0 := by
  cases hack : hand.metaAckFlag with
  | false => simp [(hs.before hack).2.2.1]
  | true => simp [(hs.answered hack).2.2.2.1]

theorem ack_of_ready (hs : ServerReady key hand dispatcher count received read) {h : ℕ}
    (hmem : h ∈ dispatcher.readyHands) : hand.metaAckFlag = true := by
  by_contra hack
  rw [(hs.before (Bool.of_not_eq_true hack)).2.2.1] at hmem
  cases hmem

theorem open_of_alarm (hs : ServerReady key hand dispatcher count received read)
    (halarm : dispatcher.socketAlarm = true) : dispatcher.fdOpen = true := by
  cases hmeta : hand.metaFlag with
  | false =>
    rw [(hs.waiting hmeta).2.2.2.2.2.1] at halarm
    cases halarm
  | true =>
    obtain ⟨-, -, -, -, hopen, -⟩ := hs.attached hmeta
    exact hopen

/-- The hand has acted on the first message if it received it. -/
theorem metaFlag_iff (hs : ServerReady key hand dispatcher count received read) :
    hand.metaFlag = true ↔ 14 ≤ received.length := by
  cases hmeta : hand.metaFlag with
  | false =>
    obtain ⟨-, hlen, -⟩ := hs.waiting hmeta
    exact iff_of_false Bool.false_ne_true (not_le.2 hlen)
  | true =>
    obtain ⟨-, -, -, -, -, -, -, hreceived⟩ := hs.attached hmeta
    refine iff_of_true rfl ?_
    rw [hreceived, List.length_append, metaMessage_length]
    exact Nat.le_add_right _ _

/-- The hand passes on what its dispatcher reads. -/
theorem handPassed (hs : ServerReady key hand dispatcher count received read)
    (hpassed : hand.Passed pv hand') (hack : pv ≠ [] → hand.metaAckFlag = true) :
    ServerReady key hand' dispatcher count received (read ++ pv) := by
  obtain ⟨b, alarm, hb, rfl⟩ := hpassed
  refine ⟨hs.role, hb.same.fdOpen.trans hs.fdOpen, hs.waitClose, fun h => ?_, fun h => ?_,
    fun h => ?_, fun h => ?_⟩
  · obtain ⟨hrb, hrest⟩ := hs.waiting h
    exact ⟨hb.same.rb.trans hrb, hrest⟩
  · obtain ⟨hrb, hrest⟩ := hs.attached h
    exact ⟨hb.same.rb.trans hrb, hrest⟩
  · obtain ⟨hcontent, hread, hrest⟩ := hs.before h
    have hpv := eq_nil_of_flag hack h
    refine ⟨hb.content.trans ?_, by rw [hread, hpv]; rfl, hrest⟩
    rw [hpv, List.append_nil]
    exact hcontent
  · obtain ⟨hmeta, hcontent, hsent, hrest⟩ := hs.answered h
    refine ⟨hmeta, hb.content.trans ?_, hsent.trans hb.sent, hrest⟩
    rw [← List.cons_append, ← hcontent]

/-- The dispatcher passes on what the hand receives. -/
theorem dispatcherPassed (hs : ServerReady key hand dispatcher count received read)
    (hpassed : dispatcher.Passed pv dispatcher') (hmeta : pv ≠ [] → hand.metaFlag = true) :
    ServerReady key hand dispatcher' count (received ++ pv) read := by
  obtain ⟨b, hb, rfl⟩ := hpassed
  refine ⟨hs.role, hs.fdOpen, hs.waitClose, fun h => ?_, fun h => ?_, fun h => ?_, hs.answered⟩
  · obtain ⟨hrb, hlen, hcount, hack, hregistered, halarm, hcontent⟩ := hs.waiting h
    have hpv := eq_nil_of_flag hmeta h
    rw [hpv, List.append_nil]
    refine ⟨hrb, hlen, hcount, hack, hregistered, halarm, hb.content.trans ?_⟩
    rw [hcontent, hpv]
    rfl
  · obtain ⟨hrb, howner, hsp, hcount, hopen, hrole, huuid, hreceived⟩ := hs.attached h
    refine ⟨hrb, howner, hsp, hcount, hb.same.fdOpen.trans hopen, hrole, huuid, ?_⟩
    rw [hreceived, List.append_assoc]
    exact congrArg _ hb.content.symm
  · obtain ⟨hcontent, hread, hready, hwait⟩ := hs.before h
    exact ⟨hcontent, hread, hready, fun hmeta =>
      ⟨hb.same.status.trans (hwait hmeta).1, (hwait hmeta).2⟩⟩

variable {w : World}

/-- All of the first message is there: a dispatcher is made and starts to connect. -/
theorem connectSession (hs : ServerReady key (w.hands 0) (w.dispatchers 0) w.dispatcherCount
    received read) (hmeta : (w.hands 0).metaFlag = false) {hand : OctopusHand}
    (hhand : hand = { w.hands 0 with
      rb := metaMessage true key, metaFlag := true, spFlag := true }) :
    ∃ w', (w.setHand 0 hand).connectSession 0 key ⟨none, true, true⟩ = w' ∧
      ServerReady key { w'.hands 0 with rb := [] } (w'.dispatchers 0) w'.dispatcherCount
        (metaMessage true key) read ∧ (w'.hands 0).sent = (w.hands 0).sent := by
  obtain ⟨-, -, hcount, hack, -⟩ := hs.waiting hmeta
  obtain ⟨hcontent, hread, -⟩ := hs.before hack
  have hhands : (((w.setHand 0 { hand with dispatcher := some 0 }).newDispatcher
      { OctopusDispatcher.new .dispatcherServer key with
        registered := true, waitHands := [0] }).hands 0) = { hand with dispatcher := some 0 } :=
    w.setHand_hands_self 0 { hand with dispatcher := some 0 }
  have hdispatcher :=
    (w.setHand 0 { hand with dispatcher := some 0 }).newDispatcher_dispatchers_self
    { OctopusDispatcher.new .dispatcherServer key with registered := true, waitHands := [0] }
  rw [setHand_dispatcherCount, hcount] at hdispatcher
  rw [World.connectSession, makeDispatcher_connected rfl rfl, hcount]
  dsimp only
  rw [if_pos rfl]
  refine ⟨_, rfl, ?_, by rw [hhands, hhand]⟩
  rw [hhands, hdispatcher, hhand]
  refine ⟨hs.role, hs.fdOpen, hs.waitClose, fun h => (by cases h), fun _ => ?_, fun _ => ?_,
    fun h => (by rw [show (w.hands 0).metaAckFlag = true from h] at hack; cases hack)⟩
  · refine ⟨rfl, rfl, rfl, ?_, rfl, rfl, rfl, (List.append_nil _).symm⟩
    exact congrArg (· + 1) hcount
  · exact ⟨hcontent, hread, rfl, fun _ => ⟨rfl, rfl⟩⟩

/-- The hand receives a part of the first message, or what follows it. -/
theorem calleeRead (hs : ServerReady key (w.hands 0) (w.dispatchers 0) w.dispatcherCount
    received read) (first : UInt8) (rest : Bytes) (hfirst : (w.hands 0).metaFlag = false →
      received ++ first :: rest <+: metaMessage true key) :
    ∃ w', w.calleeRead 0 ⟨none, true, true⟩ first rest = .ok w' ∧
      ServerReady key (w'.hands 0) (w'.dispatchers 0) w'.dispatcherCount
        (received ++ first :: rest) read ∧ (w'.hands 0).sent = (w.hands 0).sent := by
  rw [World.calleeRead]
  by_cases hmeta : (w.hands 0).metaFlag = false
  · obtain ⟨hrb, -, hcount, hack, hregistered, halarm, hempty⟩ := hs.waiting hmeta
    have hprefix := hfirst hmeta
    rw [if_pos hmeta, calleeParseMeta, setHand_hands_self, hrb]
    dsimp only
    by_cases hlen : (received ++ first :: rest).length < 14
    · -- the hand keeps what it has and waits for more
      rw [readMeta_eq_none hlen]
      refine ⟨_, rfl, ?_, by rw [setHand_hands_self]⟩
      rw [setHand_hands_self]
      refine ⟨hs.role, hs.fdOpen, hs.waitClose, fun _ => ?_, fun h => ?_, hs.before, hs.answered⟩
      · exact ⟨rfl, hlen, hcount, hack, hregistered, halarm, hempty⟩
      · rw [show (w.hands 0).metaFlag = true from h] at hmeta
        cases hmeta
    · -- a prefix of this length is the message
      have hall : received ++ first :: rest = metaMessage true key :=
        hprefix.eq_of_length_le (by rw [metaMessage_length]; exact not_lt.1 hlen)
      obtain ⟨w', hconnect, hs', hsent⟩ := hs.connectSession hmeta rfl
      rw [hall, readMeta_metaMessage]
      dsimp only
      rw [setHand_setHand, if_pos rfl, hconnect]
      refine ⟨_, rfl, ?_, by rw [setHand_hands_self]; exact hsent⟩
      rw [setHand_hands_self]
      exact hs'
  · obtain ⟨hrb, howner, -, -, hopen, -⟩ := hs.attached (Bool.of_not_eq_false hmeta)
    obtain ⟨w', hsink, hpassed, hhands, hcount⟩ := dispatcherSink_passes hopen (first :: rest)
    have hs' := hs.dispatcherPassed hpassed fun _ => Bool.of_not_eq_false hmeta
    rw [if_neg hmeta, calleeData, if_neg (not_not.2 hrb), howner]
    refine ⟨w', hsink, ?_, by rw [hhands]⟩
    rw [hhands, hcount]
    exact hs'

/-- The loop over what a server hand receives, if no more than the first message comes
    with it. -/
theorem calleeLoop (chunks : List Chunk)
    (hs : ServerReady key (w.hands 0) (w.dispatchers 0) w.dispatcherCount received read)
    (hfirst : (w.hands 0).metaFlag = false →
      received ++ chunkBytes chunks <+: metaMessage true key) :
    ∃ w', w.calleeLoop 0 ⟨none, true, true⟩ (Action.reads chunks) = .ok w' ∧
      ServerReady key (w'.hands 0) (w'.dispatchers 0) w'.dispatcherCount
        (received ++ chunkBytes chunks) read ∧ (w.hands 0).sent <+: (w'.hands 0).sent := by
  induction chunks generalizing w received with
  | nil =>
    refine ⟨w, rfl, ?_, List.prefix_refl _⟩
    rw [chunkBytes, List.flatMap_nil, List.append_nil]
    exact hs
  | cons c chunks ih =>
    obtain ⟨first, rest⟩ := c
    have hbytes : received ++ chunkBytes ((first, rest) :: chunks) =
        received ++ first :: rest ++ chunkBytes chunks := by
      rw [chunkBytes, List.flatMap_cons, List.append_assoc]
      rfl
    rw [hbytes] at hfirst ⊢
    obtain ⟨w₁, hread, hs₁, hsent₁⟩ := hs.calleeRead first rest fun hmeta =>
      (List.prefix_append _ _).trans (hfirst hmeta)
    obtain ⟨w', hloop, hs', hsent⟩ := ih hs₁ fun hmeta₁ => by
      refine hfirst ?_
      rw [← Bool.not_eq_true, hs.metaFlag_iff]
      rw [← Bool.not_eq_true, hs₁.metaFlag_iff, List.length_append] at hmeta₁
      omega
    rw [Action.reads, List.map_cons]
    rw [World.calleeLoop]
    dsimp only
    rw [hs.fdOpen, if_neg (by decide), hread]
    exact ⟨w', hloop, hs', hsent₁ ▸ hsent⟩

theorem onCalleeEvent (hs : ServerReady key (w.hands 0) (w.dispatchers 0) w.dispatcherCount
    received read) (input : Bool) (chunks : List Chunk) (hfirst : (w.hands 0).metaFlag = false →
      received ++ (if input then chunkBytes chunks else []) <+: metaMessage true key) :
    ∃ w', w.onCalleeEvent 0 false input (Action.reads chunks) ⟨none, true, true⟩ = .ok w' ∧
      ServerReady key (w'.hands 0) (w'.dispatchers 0) w'.dispatcherCount
        (received ++ (if input then chunkBytes chunks else [])) read ∧
      (w.hands 0).sent <+: (w'.hands 0).sent := by
  rw [World.onCalleeEvent, if_neg Bool.false_ne_true, hs.fdOpen]
  cases input with
  | true => exact hs.calleeLoop chunks hfirst
  | false => exact ⟨w, rfl, (List.append_nil received).symm ▸ hs, List.prefix_refl _⟩

/-- The dispatcher is connected: the hand sends the answer. -/
theorem dispatcherOnEvent (hs : ServerReady key (w.hands 0) (w.dispatchers 0) w.dispatcherCount
    received read) (hregistered : (w.dispatchers 0).registered = true)
    (hanswers : 0 < w.answers.headD 0) (output : Bool) :
    ∃ w', w.dispatcherOnEvent 0 false output = .ok w' ∧
      ServerReady key (w'.hands 0) (w'.dispatchers 0) w'.dispatcherCount received read ∧
      (w.hands 0).sent <+: (w'.hands 0).sent := by
  -- the dispatcher is registered between the meta message and the answer to it only
  have hack : (w.hands 0).metaAckFlag = false := by
    rw [← Bool.not_eq_true]
    intro hack
    rw [(hs.answered hack).2.2.2.2] at hregistered
    cases hregistered
  have hmeta : (w.hands 0).metaFlag = true := by
    rw [← Bool.not_eq_false]
    intro hmeta
    rw [(hs.waiting hmeta).2.2.2.2.1] at hregistered
    cases hregistered
  obtain ⟨hrb, howner, hsp, hcount, hopen, hrole, huuid, hreceived⟩ := hs.attached hmeta
  obtain ⟨hcontent, hread, hready, hwait⟩ := hs.before hack
  obtain ⟨hstatus, hwaitHands⟩ := hwait hmeta
  have hsignal : w.signalHands .sigDstConnected [0] = _ :=
    handSignalFrom_answers hs.role hs.fdOpen hack hanswers
  have herror : ¬ (false = true ∧ (w.dispatchers 0).status = .connConnecting) :=
    fun h => Bool.false_ne_true h.1
  rw [World.dispatcherOnEvent, if_neg herror]
  by_cases houtput : output = true
  · rw [if_pos ⟨hopen, houtput, hstatus⟩, hwaitHands]
    dsimp only
    rw [hsignal]
    rw [if_pos (by exact hready)]
    refine ⟨_, rfl, ?_, ?_⟩
    · rw [setDispatcher_dispatchers_self, setDispatcher_hands, setAnswers, setHand_hands_self]
      refine ⟨hs.role, hs.fdOpen, hs.waitClose, fun h => ?_, fun _ => ?_, fun h => (by cases h),
        fun _ => ?_⟩
      · rw [show (w.hands 0).metaFlag = false from h] at hmeta
        cases hmeta
      · exact ⟨hrb, howner, hsp, hcount, hopen, hrole, huuid, hreceived⟩
      · -- the hand had nothing to send
        obtain ⟨hsent, hwb⟩ := List.append_eq_nil_iff.1 hcontent
        refine ⟨hmeta, ?_, ?_, rfl, rfl⟩
        · dsimp only [OctopusBase.content]
          rw [hsent, hwb, hread]
          rfl
        · dsimp only
          rw [hsent]
          exact List.prefix_refl _
    · rw [setDispatcher_hands, setAnswers, setHand_hands_self]
      exact List.prefix_append _ _
  · rw [if_neg fun h => houtput h.2.1]
    exact ⟨w, rfl, hs, List.prefix_refl _⟩

/-- What happens to a server half fails no check, if no more than the first message comes
    with it, and the answer can be sent. -/
theorem step {p : Party} (hs : ServerReady key p.hand p.dispatcher p.world.dispatcherCount
    p.received p.read) (a : Action) (answers : List ℕ)
    (hfirst : p.hand.metaFlag = false → p.received ++ a.arrives <+: metaMessage true key)
    (hack : ∀ output, a = .dispatcher output → 0 < answers.headD 0) :
    ∃ p', p.act a answers = .ok p' ∧
      ServerReady key p'.hand p'.dispatcher p'.world.dispatcherCount p'.received p'.read ∧
      p.hand.sent <+: p'.hand.sent := by
  have hcall : ∃ w', p.world.step (a.event, answers) = .ok w' ∧
      ServerReady key (w'.hands 0) (w'.dispatchers 0) w'.dispatcherCount
        (p.received ++ a.arrives) (p.read ++ p.takes a) ∧ p.hand.sent <+: (w'.hands 0).sent := by
    cases a with
    | hand input output chunks =>
      have hrole : ((p.world.setAnswers answers).hands 0).role = .handServer := hs.role
      rw [World.step, Action.event, World.handle, if_pos (by exact hs.fdOpen), hrole, Party.takes,
        List.append_nil]
      exact ServerReady.onCalleeEvent (w := p.world.setAnswers answers) hs input chunks hfirst
    | handAlarm =>
      obtain ⟨w', hcall, hpassed, hsame, hcount⟩ :=
        Party.handAlarm_passes hs.fdOpen hs.waitClose answers
      have hs' := hs.handPassed hpassed fun h => absurd rfl h
      rw [Action.arrives, Party.takes, List.append_nil]
      refine ⟨w', hcall, ?_, hpassed.sent⟩
      rw [hsame, hcount]
      exact hs'
    | dispatcher output =>
      rw [World.step, Action.event, World.handle, Action.arrives, Party.takes, List.append_nil,
        List.append_nil]
      split_ifs with hregistered
      · exact ServerReady.dispatcherOnEvent (w := p.world.setAnswers answers) hs hregistered
          (hack output rfl) output
      · exact ⟨_, rfl, hs, List.prefix_refl _⟩
    | dispatcherAlarm first budget chunks =>
      obtain ⟨w', hcall, hpassed, hdispatcher, hcount⟩ := Party.dispatcherAlarm_passes hs.fdOpen
        hs.open_of_alarm hs.ready first budget chunks answers
      -- a dispatcher that takes something has a hand that is ready
      have hs₁ := hs.handPassed hpassed fun hne => by
        obtain ⟨h, hmem⟩ := Party.ready_of_takes hne
        exact hs.ack_of_ready hmem
      have hs' := hs₁.dispatcherPassed hdispatcher fun hne => absurd rfl hne
      exact ⟨w', hcall, hcount ▸ hs', hpassed.sent⟩
  obtain ⟨w', hstep, hs', hsent⟩ := hcall
  rw [Party.act, hstep]
  exact ⟨_, rfl, hs', hsent⟩

end ServerReady

/-! ## The handshake -/

/-- Both halves, and what they received of what the other one sent. -/
structure Ready (key : OctopusSessionKey) (l : Link) : Prop where
  client : ClientReady key (l .client).hand (l .client).dispatcher (l .client).received
    (l .client).read
  server : ServerReady key (l .server).hand (l .server).dispatcher
    (l .server).world.dispatcherCount (l .server).received (l .server).read
  order : ∀ x, (l x).received <+: (l x.other).hand.sent

namespace Ready

variable {key : OctopusSessionKey} {l : Link}

/-- What the server sends starts with the answer. -/
theorem answer_first (hr : Ready key l) {bytes : Bytes}
    (hsent : bytes <+: (l .server).hand.sent) :
    ∃ x, bytes <+: octopusMsgDstConnected :: x := by
  cases hack : (l .server).hand.metaAckFlag with
  | false =>
    obtain ⟨hcontent, -⟩ := hr.server.before hack
    rw [(List.append_eq_nil_iff.1 hcontent).1] at hsent
    exact ⟨[], List.prefix_nil.1 hsent ▸ List.nil_prefix⟩
  | true =>
    obtain ⟨-, hcontent, -⟩ := hr.server.answered hack
    refine ⟨(l .server).read, hsent.trans ?_⟩
    rw [← hcontent]
    exact List.prefix_append _ _

/-- Until the server has the first message, the client sends nothing else. -/
theorem meta_first (hr : Ready key l) {bytes : Bytes} (hsent : bytes <+: (l .client).hand.sent)
    (hmeta : (l .server).hand.metaFlag = false) : bytes <+: metaMessage true key := by
  -- the server has sent nothing, so that the client has no answer and has read nothing
  obtain ⟨-, -, -, hack, -⟩ := hr.server.waiting hmeta
  obtain ⟨hcontent, -⟩ := hr.server.before hack
  have hreceived := hr.order .client
  rw [Half.other, (List.append_eq_nil_iff.1 hcontent).1, List.prefix_nil] at hreceived
  have hnot : (l .client).hand.metaAckFlag = false := by
    rw [← Bool.not_eq_true]
    intro hanswered
    rw [(hr.client.answered hanswered).2] at hreceived
    cases hreceived
  have hsends := hr.client.sends
  rw [(hr.client.before hnot).2.1, List.append_nil] at hsends
  rw [← hsends]
  exact hsent.trans (List.prefix_append _ _)

/-- A half acts, and what each received is still what the other one sent. -/
theorem order_act (hr : Ready key l) {x : Half} {a : Action} {answers : List ℕ} {p : Party}
    (hpossible : Link.Possible l x a answers) (hact : (l x).act a answers = .ok p)
    (hsent : (l x).hand.sent <+: p.hand.sent) (y : Half) :
    ((Function.update l x p) y).received <+: ((Function.update l x p) y.other).hand.sent := by
  have hreceived : p.received = (l x).received ++ a.arrives := by
    rw [Party.act] at hact
    split at hact
    · cases hact
    · cases hact
      rfl
  have harrives := hpossible.arrives
  have horder := hr.order x.other
  cases x <;> cases y
  · simpa [Half.other, hreceived] using harrives
  · simpa [Half.other] using horder.trans hsent
  · simpa [Half.other] using horder.trans hsent
  · simpa [Half.other, hreceived] using harrives

/-- A half acts, and both stay ready. -/
theorem act (hr : Ready key l) {x : Half} {a : Action} {answers : List ℕ}
    (hpossible : Link.Possible l x a answers) : ∃ p, (l x).act a answers = .ok p ∧
      Ready key (Function.update l x p) := by
  cases x with
  | client =>
    obtain ⟨p, hact, hc, hsent⟩ := hr.client.step a answers (hr.answer_first hpossible.arrives)
    exact ⟨p, hact, hc, hr.server, hr.order_act hpossible hact hsent⟩
  | server =>
    obtain ⟨p, hact, hs, hsent⟩ := hr.server.step a answers
      (hr.meta_first hpossible.arrives) (hpossible.ack rfl)
    exact ⟨p, hact, hr.client, hs, hr.order_act hpossible hact hsent⟩

theorem start (key : OctopusSessionKey) : Ready key (Link.start key) where
  client := by
    have hhand : (Link.start key .client).hand =
        writeMeta key true (OctopusHand.new .handClient (some 0)) := rfl
    have hdispatcher : (Link.start key .client).dispatcher =
        { OctopusDispatcher.new .dispatcherClient key with waitHands := [0] } := rfl
    have hcontent : (writeMeta key true (OctopusHand.new .handClient (some 0))).content =
        metaMessage true key ++ [] := by
      rw [List.append_nil, writeMeta, if_neg (by decide)]
      generalize metaMessage true key = message
      rfl
    rw [hhand, hdispatcher]
    refine ⟨rfl, rfl, rfl, rfl, rfl, rfl, rfl, rfl, ?_, fun _ => ⟨rfl, rfl, rfl, rfl⟩,
      fun h => (by cases h)⟩
    exact hcontent
  server := by
    have hhand : (Link.start key .server).hand = OctopusHand.new .handServer none := rfl
    rw [hhand]
    exact ⟨rfl, rfl, rfl, fun _ => ⟨rfl, Nat.zero_lt_succ 13, rfl, rfl, rfl, rfl, rfl⟩,
      fun h => (by cases h), fun _ => ⟨rfl, rfl, rfl, fun h => (by cases h)⟩, fun h => (by cases h)⟩
  order x := by
    cases x <;> exact List.nil_prefix

/-- What the client passed on is what the server read. -/
theorem client_relays (hr : Ready key l) :
    (l .client).dispatcher.content <+: (l .server).read := by
  cases hack : (l .client).hand.metaAckFlag with
  | false =>
    rw [(hr.client.before hack).2.2.2]
    exact List.nil_prefix
  | true =>
    have hreceived := hr.order .client
    rw [Half.other, (hr.client.answered hack).2] at hreceived
    cases hanswered : (l .server).hand.metaAckFlag with
    | false =>
      obtain ⟨hcontent, -⟩ := hr.server.before hanswered
      rw [(List.append_eq_nil_iff.1 hcontent).1, List.prefix_nil] at hreceived
      cases hreceived
    | true =>
      obtain ⟨-, hcontent, -⟩ := hr.server.answered hanswered
      have hall := hreceived.trans (List.prefix_append _ (l .server).hand.wb)
      rw [show (l .server).hand.sent ++ (l .server).hand.wb = _ from hcontent] at hall
      exact (List.cons_prefix_cons.1 hall).2

/-- What the server passed on is what the client read. -/
theorem server_relays (hr : Ready key l) :
    (l .server).dispatcher.content <+: (l .client).read := by
  cases hmeta : (l .server).hand.metaFlag with
  | false =>
    obtain ⟨-, -, -, -, -, -, hempty⟩ := hr.server.waiting hmeta
    rw [hempty]
    exact List.nil_prefix
  | true =>
    obtain ⟨-, -, -, -, -, -, -, hreceived⟩ := hr.server.attached hmeta
    have hall := (hr.order .server).trans (List.prefix_append _ (l .client).hand.wb)
    rw [Half.other, show (l .client).hand.sent ++ (l .client).hand.wb = _ from hr.client.sends,
      hreceived] at hall
    exact (List.prefix_append_right_inj _).1 hall

end Ready

theorem ready_reachable {key : OctopusSessionKey} {l : Link}
    (hreach : (Link.system key).Reachable l) : Ready key l := by
  refine hreach.invariant ?_ ?_
  · rintro l rfl
    exact .start key
  · rintro l l' - hr ⟨x, a, answers, p, hpossible, hact⟩
    obtain ⟨p', hact', hr'⟩ := hr.act hpossible
    obtain rfl := Except.ok.inj (hact.symm.trans hact')
    exact hr'

/-- Before the first close, whatever chunks the bytes between the two halves come in, what
    `send()` takes, and how the alarms and events of both halves are ordered: the server
    acts on the first message when it has its fourteen bytes, once, and for the session of
    the client; no check fails; a dispatcher that has read anything did so after the byte
    that answers was sent, and received; and what was passed on to a plain connection is
    what was read from the other one. -/
theorem handshake (key : OctopusSessionKey) (l : Link) (hreach : (Link.system key).Reachable l) :
    (((l .server).hand.metaFlag = true ↔ 14 ≤ (l .server).received.length) ∧
      (l .server).world.dispatcherCount = (if (l .server).hand.metaFlag then 1 else 0) ∧
      ((l .server).hand.metaFlag = true → (l .server).dispatcher.uuid = key ∧
        metaMessage true key <+: (l .server).received)) ∧
    (∀ x a answers, Link.Possible l x a answers → ∃ p, (l x).act a answers = .ok p) ∧
    ((l .server).read ≠ [] → [octopusMsgDstConnected] <+: (l .server).hand.sent) ∧
    ((l .client).read ≠ [] → [octopusMsgDstConnected] <+: (l .client).received) ∧
    ∀ x : Half, (l x).dispatcher.content <+: (l x.other).read := by
  have hr := ready_reachable hreach
  refine ⟨⟨hr.server.metaFlag_iff, ?_, fun hmeta => ?_⟩, ?_, fun hread => ?_, fun hread => ?_, ?_⟩
  · cases hmeta : (l .server).hand.metaFlag with
    | false => exact (hr.server.waiting hmeta).2.2.1
    | true =>
      obtain ⟨-, -, -, hcount, -⟩ := hr.server.attached hmeta
      exact hcount
  · obtain ⟨-, -, -, -, -, -, huuid, hreceived⟩ := hr.server.attached hmeta
    exact ⟨huuid, hreceived ▸ List.prefix_append _ _⟩
  · intro x a answers hpossible
    obtain ⟨p, hact, -⟩ := hr.act hpossible
    exact ⟨p, hact⟩
  · cases hack : (l .server).hand.metaAckFlag with
    | false => exact absurd (hr.server.before hack).2.1 hread
    | true => exact (hr.server.answered hack).2.2.1
  · cases hack : (l .client).hand.metaAckFlag with
    | false => exact absurd (hr.client.before hack).2.1 hread
    | true =>
      rw [(hr.client.answered hack).2]
      exact List.prefix_append [octopusMsgDstConnected] _
  · intro x
    cases x with
    | client => exact hr.client_relays
    | server => exact hr.server_relays

/-- A half after an action that fails no check. -/
def Party.after (p : Party) (a : Action) (answers : List ℕ) : Party :=
  match p.act a answers with
  | .ok p' => p'
  | .error _ => p

theorem Party.act_after {p : Party} {a : Action} {answers : List ℕ}
    (hok : (p.act a answers).isOk = true) : p.act a answers = .ok (p.after a answers) := by
  rw [Party.after]
  cases hact : p.act a answers with
  | error e =>
    rw [hact] at hok
    cases hok
  | ok p' => rfl

/-- The client sends its first message in two parts; the server reads all of it at once. -/
def greeted (key : OctopusSessionKey) : Link
  | .client => (Link.start key .client).after (.hand false true []) [5, 9]
  | .server => (Link.start key .server).after
    (.hand true false [(1, [1, 0, 0, 0, 1, 0, 0, 0, 2, 0, 3, 0, 4])]) []

theorem greeted_reachable : (Link.system ⟨1, 2, 3, 4⟩).Reachable (greeted ⟨1, 2, 3, 4⟩) := by
  have hinit : (Link.system ⟨1, 2, 3, 4⟩).Reachable (Link.start ⟨1, 2, 3, 4⟩) := .init rfl
  have hclient := hinit.step (.act _ .client (.hand false true []) [5, 9] _
    ⟨by decide +kernel, fun h => (by cases h)⟩ (Party.act_after (by decide +kernel)))
  have hserver := hclient.step (.act _ .server
    (.hand true false [(1, [1, 0, 0, 0, 1, 0, 0, 0, 2, 0, 3, 0, 4])]) [] _
    ⟨by decide +kernel, fun _ output h => (by cases h)⟩ (Party.act_after (by decide +kernel)))
  have hlink : greeted ⟨1, 2, 3, 4⟩ = Function.update (Function.update (Link.start ⟨1, 2, 3, 4⟩)
      .client (greeted ⟨1, 2, 3, 4⟩ .client)) .server (greeted ⟨1, 2, 3, 4⟩ .server) := by
    funext x
    cases x with
    | client => rw [Function.update_of_ne (by decide), Function.update_self]
    | server => rw [Function.update_self]
  rw [hlink]
  exact hserver

/-- The server knows the session, and no dispatcher has read anything. -/
theorem handshake_greeted : (greeted ⟨1, 2, 3, 4⟩ .server).world.dispatcherCount = 1 ∧
    (greeted ⟨1, 2, 3, 4⟩ .server).dispatcher.uuid = ⟨1, 2, 3, 4⟩ ∧
    (greeted ⟨1, 2, 3, 4⟩ .client).dispatcher.content <+: (greeted ⟨1, 2, 3, 4⟩ .server).read := by
  obtain ⟨⟨hmeta, hcount, huuid⟩, -, -, -, hrelay⟩ :=
    handshake ⟨1, 2, 3, 4⟩ (greeted ⟨1, 2, 3, 4⟩) greeted_reachable
  have hall := hmeta.2 (by decide +kernel)
  rw [if_pos hall] at hcount
  exact ⟨hcount, (huuid hall).1, hrelay .client⟩

end Octopus

end DashDim
