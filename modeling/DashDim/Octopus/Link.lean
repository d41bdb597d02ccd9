import DashDim.Lib.Run
import DashDim.Octopus.Proxy

/-!
# A link between the two halves of the proxy

A connection to the client is relayed over one connection to the server: a hand and a
dispatcher at each half. What the hand of one half reads is what the hand of the other
half sent, in order, in chunks of any size.

The steps are what happens before the first close: no socket fails or ends, the server
binds and connects its own, and the answer to the first message is sent. A session with
one path is not registered, so that the server finds none.

* `handSink_passes`, `dispatcherSink_passes`, `handleSocketAlarm_passes`: what is read at
  one socket is passed on to the other.
-/

namespace DashDim

namespace Octopus

/-- The two ends of a link. -/
inductive Half
  | client
  | server
  deriving DecidableEq, Repr

/-- The other end. -/
def Half.other : Half → Half
  | client => server
  | server => client

/-- What a `read()` returns that returns data. -/
abbrev Chunk := UInt8 × Bytes

/-- The bytes of some chunks. -/
def chunkBytes (chunks : List Chunk) : Bytes := chunks.flatMap fun c => c.1 :: c.2

/-- What happens to a half, before the first close. -/
inductive Action
  | hand (input output : Bool) (chunks : List Chunk)
  | handAlarm
  | dispatcher (output : Bool)
  | dispatcherAlarm (first : ℕ) (budget : ℤ) (chunks : List Chunk)

namespace Action

/-- What `read()` returns. -/
def reads (chunks : List Chunk) : List World.ReadResult := chunks.map fun c => .data c.1 c.2

/-- An action as an event of one party's world. -/
def event : Action → World.Event
  | hand input output chunks => .hand 0 false input output (reads chunks) ⟨none, true, true⟩
  | handAlarm => .handAlarm 0
  | dispatcher output => .dispatcher 0 false output
  | dispatcherAlarm first budget chunks => .dispatcherAlarm 0 first budget (reads chunks)

/-- The bytes that arrive from the other half. -/
def arrives : Action → Bytes
  | hand input _ chunks => if input then chunkBytes chunks else []
  | handAlarm | dispatcher _ | dispatcherAlarm _ _ _ => []

end Action

/-- A half: its objects, the bytes the hand read, and those the dispatcher read. -/
structure Party where
  world : World
  received : Bytes := []
  read : Bytes := []

/-- The chunks a dispatcher reads, as long as there is a budget. -/
def taken : List Chunk → ℤ → Bytes
  | [], _ => []
  | c :: chunks, budget =>
    if budget > 0 then c.1 :: c.2 ++ taken chunks (budget - (1 + c.2.length)) else []

namespace Party

/-- The only hand of a party. -/
abbrev hand (p : Party) : OctopusHand := p.world.hands 0

/-- The only dispatcher of a party. -/
abbrev dispatcher (p : Party) : OctopusDispatcher := p.world.dispatchers 0

/-- The bytes the dispatcher reads. -/
def takes (p : Party) : Action → Bytes
  | .dispatcherAlarm first budget chunks =>
    if p.dispatcher.socketAlarm = true ∧ p.dispatcher.fdOpen = true ∧
      first ∈ p.dispatcher.readyHands then taken chunks budget else []
  | .hand _ _ _ | .handAlarm | .dispatcher _ => []

/-- One action of a party, with what arrives at it and what it takes. -/
def act (p : Party) (a : Action) (answers : List ℕ) : Except CheckFailure Party :=
  match p.world.step (a.event, answers) with
  | .error e => .error e
  | .ok w => .ok ⟨w, p.received ++ a.arrives, p.read ++ p.takes a⟩

end Party

/-- The two halves. -/
abbrev Link := Half → Party

namespace Link

/-- What arrives was sent by the other half, and the byte that answers the first message
    is taken by `send()`. -/
structure Possible (l : Link) (x : Half) (a : Action) (answers : List ℕ) : Prop where
  arrives : (l x).received ++ a.arrives <+: (l x.other).hand.sent
  ack : x = .server → ∀ output, a = .dispatcher output → 0 < answers.headD 0

/-- One step of the link: an action of one of its ends. -/
inductive Step : Link → Link → Prop
  | act (l : Link) (x : Half) (a : Action) (answers : List ℕ) (p : Party) :
    Possible l x a answers → (l x).act a answers = .ok p → Step l (Function.update l x p)

/-- The client has accepted a connection, the server that of the client. -/
def start (key : OctopusSessionKey) : Link
  | .client => ⟨World.empty.createEndpoint key true true, [], []⟩
  | .server => ⟨World.empty.acceptHand, [], []⟩

/-- The runs of a link, for the session of a key. -/
def system (key : OctopusSessionKey) : System Link := ⟨(· = start key), Step⟩

end Link

/-! ## Passing bytes on -/

namespace OctopusBase

/-- A socket has sent, or keeps, some more bytes, and is otherwise the same. -/
structure Passed (pv : Bytes) (b b' : OctopusBase) : Prop where
  same : SameSocket b b'
  content : b'.content = b.content ++ pv
  sent : b.sent <+: b'.sent

theorem Passed.refl (b : OctopusBase) : Passed [] b b :=
  ⟨⟨rfl, rfl, rfl, rfl⟩, (List.append_nil _).symm, List.prefix_refl _⟩

theorem Passed.trans {pv pv' : Bytes} {b b' b'' : OctopusBase} (h : Passed pv b b')
    (h' : Passed pv' b' b'') : Passed (pv ++ pv') b b'' where
  same := ⟨h'.same.fdOpen.trans h.same.fdOpen, h'.same.status.trans h.same.status,
    h'.same.rb.trans h.same.rb, h'.same.destroyed.trans h.same.destroyed⟩
  content := by rw [h'.content, h.content, List.append_assoc]
  sent := h.sent.trans h'.sent

theorem flushBuffer_passes {b : OctopusBase} (hopen : b.fdOpen = true) (answers : List ℕ) :
    ∃ b' answers', b.flushBuffer answers = .ok (b', answers') ∧ Passed [] b b' := by
  obtain ⟨b', answers', hcall, -, hcontent⟩ := flushBuffer_content hopen answers
  refine ⟨b', answers', hcall, flushBuffer_same hcall, by rw [hcontent, List.append_nil], ?_⟩
  rw [flushBuffer, if_pos hopen] at hcall
  cases hcall
  exact List.prefix_append _ _

theorem sink_passes {b : OctopusBase} (hopen : b.fdOpen = true) (answers : List ℕ) (pv : Bytes) :
    ∃ b' answers', b.sink answers pv = .ok (b', answers') ∧ Passed pv b b' := by
  obtain ⟨b', answers', hcall, -, hcontent⟩ := sink_content hopen answers pv
  refine ⟨b', answers', hcall, sink_same hcall, hcontent, ?_⟩
  obtain ⟨b₁, answers₁, hflush, hpassed⟩ := flushBuffer_passes hopen answers
  rw [sink, hflush] at hcall
  dsimp only at hcall
  split_ifs at hcall
  · cases hcall
    exact hpassed.sent.trans (List.prefix_append _ _)
  · cases hcall
    exact hpassed.sent

end OctopusBase

open OctopusBase

/-- A hand has passed bytes on to the other half. -/
def OctopusHand.Passed (pv : Bytes) (hand hand' : OctopusHand) : Prop :=
  ∃ b alarm, OctopusBase.Passed pv hand.toOctopusBase b ∧
    hand' = { hand with toOctopusBase := b, outBwAlarm := alarm }

/-- A dispatcher has passed bytes on to its plain connection. -/
def OctopusDispatcher.Passed (pv : Bytes) (dispatcher dispatcher' : OctopusDispatcher) : Prop :=
  ∃ b, OctopusBase.Passed pv dispatcher.toOctopusBase b ∧
    dispatcher' = { dispatcher with toOctopusBase := b }

theorem OctopusHand.Passed.refl (hand : OctopusHand) : hand.Passed [] hand :=
  ⟨_, _, .refl _, rfl⟩

theorem OctopusHand.Passed.trans {pv pv' : Bytes} {hand hand' hand'' : OctopusHand}
    (h : OctopusHand.Passed pv hand hand') (h' : OctopusHand.Passed pv' hand' hand'') :
    OctopusHand.Passed (pv ++ pv') hand hand'' := by
  obtain ⟨b, alarm, hpassed, rfl⟩ := h
  obtain ⟨b', alarm', hpassed', rfl⟩ := h'
  exact ⟨b', alarm', hpassed.trans hpassed', rfl⟩

theorem OctopusHand.Passed.sent {pv : Bytes} {hand hand' : OctopusHand}
    (h : OctopusHand.Passed pv hand hand') : hand.sent <+: hand'.sent := by
  obtain ⟨b, alarm, hb, rfl⟩ := h
  exact hb.sent

theorem OctopusHand.Passed.fdOpen {pv : Bytes} {hand hand' : OctopusHand}
    (h : OctopusHand.Passed pv hand hand') : hand'.fdOpen = hand.fdOpen := by
  obtain ⟨b, alarm, hb, rfl⟩ := h
  exact hb.same.fdOpen

namespace World

variable {w : World}

theorem handSink_passes (hopen : (w.hands 0).fdOpen = true) (pv : Bytes) :
    ∃ w', w.handSink 0 pv = .ok w' ∧ (w.hands 0).Passed pv (w'.hands 0) ∧
      w'.dispatchers = w.dispatchers ∧ w'.dispatcherCount = w.dispatcherCount := by
  obtain ⟨b, answers, hcall, hpassed⟩ := sink_passes hopen w.answers pv
  rw [handSink, hcall]
  refine ⟨_, rfl, ⟨b, true, hpassed, ?_⟩, rfl, rfl⟩
  rw [setAnswers, setHand_hands_self]

theorem handFlushBuffer_passes (hopen : (w.hands 0).fdOpen = true) :
    ∃ w', w.handFlushBuffer 0 = .ok w' ∧ (w.hands 0).Passed [] (w'.hands 0) ∧
      w'.dispatchers = w.dispatchers ∧ w'.dispatcherCount = w.dispatcherCount := by
  obtain ⟨b, answers, hcall, hpassed⟩ := flushBuffer_passes hopen w.answers
  rw [handFlushBuffer, hcall]
  refine ⟨_, rfl, ⟨b, (w.hands 0).outBwAlarm, hpassed, ?_⟩, rfl, rfl⟩
  rw [setAnswers, setHand_hands_self]

/-- The alarm of a hand that does not wait to close sends what waits. -/
theorem outBandwidthAlarm_passes (hopen : (w.hands 0).fdOpen = true)
    (hwait : (w.hands 0).waitClose = false) :
    ∃ w', w.outBandwidthAlarm 0 = .ok w' ∧ (w.hands 0).Passed [] (w'.hands 0) ∧
      w'.dispatchers = w.dispatchers ∧ w'.dispatcherCount = w.dispatcherCount := by
  have hflush : ∃ w₁, (if (w.hands 0).wb ≠ [] then w.handFlushBuffer 0 else .ok w) = .ok w₁ ∧
      (w.hands 0).Passed [] (w₁.hands 0) ∧ w₁.dispatchers = w.dispatchers ∧
      w₁.dispatcherCount = w.dispatcherCount := by
    split_ifs
    · exact handFlushBuffer_passes hopen
    · exact ⟨w, rfl, .refl _, rfl, rfl⟩
  obtain ⟨w₁, hcall, hpassed, hsame⟩ := hflush
  have hwait₁ : (w₁.hands 0).waitClose = false := by
    obtain ⟨b, alarm, -, heq⟩ := hpassed
    rw [heq, hwait]
  rw [outBandwidthAlarm, hcall]
  dsimp only
  rw [if_neg (by simp [hwait₁])]
  exact ⟨w₁, rfl, hpassed, hsame⟩

theorem dispatcherSink_passes (hopen : (w.dispatchers 0).fdOpen = true) (pv : Bytes) :
    ∃ w', w.dispatcherSink 0 pv = .ok w' ∧ (w.dispatchers 0).Passed pv (w'.dispatchers 0) ∧
      w'.hands = w.hands ∧ w'.dispatcherCount = w.dispatcherCount := by
  obtain ⟨b, answers, hcall, hpassed⟩ := sink_passes hopen w.answers pv
  rw [dispatcherSink, hcall]
  refine ⟨_, rfl, ⟨b, hpassed, ?_⟩, rfl, rfl⟩
  rw [setAnswers, setDispatcher_dispatchers_self]

theorem dispatcherFlushBuffer_passes (hopen : (w.dispatchers 0).fdOpen = true) :
    ∃ w', w.dispatcherFlushBuffer 0 = .ok w' ∧ (w.dispatchers 0).Passed [] (w'.dispatchers 0) ∧
      w'.hands = w.hands ∧ w'.dispatcherCount = w.dispatcherCount := by
  obtain ⟨b, answers, hcall, hpassed⟩ := flushBuffer_passes hopen w.answers
  rw [dispatcherFlushBuffer, hcall]
  refine ⟨_, rfl, ⟨b, hpassed, ?_⟩, rfl, rfl⟩
  rw [setAnswers, setDispatcher_dispatchers_self]

/-- What a dispatcher reads is passed on by the hand. -/
theorem alarmLoop_passes (hopen : (w.hands 0).fdOpen = true) (chunks : List Chunk) (budget : ℤ) :
    ∃ w', w.alarmLoop 0 (Action.reads chunks) budget = .ok (w', false) ∧
      (w.hands 0).Passed (taken chunks budget) (w'.hands 0) ∧
      w'.dispatchers = w.dispatchers ∧ w'.dispatcherCount = w.dispatcherCount := by
  induction chunks generalizing w budget with
  | nil => exact ⟨w, rfl, .refl _, rfl, rfl⟩
  | cons c chunks ih =>
    rw [Action.reads, List.map_cons, taken]
    unfold alarmLoop
    split_ifs
    · obtain ⟨w₁, hsink, hpassed, hsame, hcount⟩ := handSink_passes hopen (c.1 :: c.2)
      obtain ⟨w', hloop, hpassed', hsame', hcount'⟩ :=
        ih (hpassed.fdOpen.trans hopen) (budget - (1 + c.2.length))
      dsimp only
      rw [hsink]
      exact ⟨w', hloop, hpassed.trans hpassed', hsame'.trans hsame, hcount'.trans hcount⟩
    · exact ⟨w, rfl, .refl _, rfl, rfl⟩

theorem handleSocketAlarm_passes (hopen : (w.hands 0).fdOpen = true)
    (hdispatcher : (w.dispatchers 0).fdOpen = true)
    (hready : ∀ h ∈ (w.dispatchers 0).readyHands, h = 0) (first : ℕ) (budget : ℤ)
    (chunks : List Chunk) :
    ∃ w', w.handleSocketAlarm 0 first budget (Action.reads chunks) = .ok w' ∧
      (w.hands 0).Passed (if first ∈ (w.dispatchers 0).readyHands then taken chunks budget else [])
        (w'.hands 0) ∧
      (w.dispatchers 0).Passed [] (w'.dispatchers 0) ∧
      w'.dispatcherCount = w.dispatcherCount := by
  obtain ⟨w₁, hflush, hpassed, hhands, hcount⟩ := dispatcherFlushBuffer_passes hdispatcher
  have hsame : (w₁.dispatchers 0).readyHands = (w.dispatchers 0).readyHands := by
    obtain ⟨b, -, heq⟩ := hpassed
    rw [heq]
  rw [handleSocketAlarm, if_pos hdispatcher, hflush]
  dsimp only
  rw [alarmRead, hsame]
  split_ifs with hfirst
  · rw [hready first hfirst]
    obtain ⟨w', hloop, hpassed', hsame', hcount'⟩ :=
      alarmLoop_passes (w := w₁) (by rw [hhands]; exact hopen) chunks budget
    rw [hloop]
    refine ⟨w', rfl, by rw [← hhands]; exact hpassed', ?_, hcount'.trans hcount⟩
    rw [hsame']
    exact hpassed
  · exact ⟨w₁, rfl, by rw [hhands]; exact .refl _, hpassed, hcount⟩

end World

namespace Party

variable {p : Party}

theorem ready_of_takes {a : Action} (hne : p.takes a ≠ []) : ∃ h, h ∈ p.dispatcher.readyHands := by
  cases a with
  | dispatcherAlarm first budget chunks =>
    rw [takes] at hne
    split_ifs at hne with hready
    · exact ⟨first, hready.2.2⟩
    · exact absurd rfl hne
  | _ => exact absurd rfl hne

/-- The alarm of the hand. -/
theorem handAlarm_passes (hopen : p.hand.fdOpen = true) (hwait : p.hand.waitClose = false)
    (answers : List ℕ) : ∃ w', p.world.step (Action.handAlarm.event, answers) = .ok w' ∧
      p.hand.Passed [] (w'.hands 0) ∧ w'.dispatchers = p.world.dispatchers ∧
      w'.dispatcherCount = p.world.dispatcherCount := by
  rw [World.step, Action.event, World.handle]
  split_ifs
  · exact World.outBandwidthAlarm_passes (w := p.world.setAnswers answers) hopen hwait
  · exact ⟨_, rfl, .refl _, rfl, rfl⟩

/-- The alarm of the dispatcher: the hand passes on what it reads. -/
theorem dispatcherAlarm_passes (hopen : p.hand.fdOpen = true)
    (hdispatcher : p.dispatcher.socketAlarm = true → p.dispatcher.fdOpen = true)
    (hready : ∀ h ∈ p.dispatcher.readyHands, h = 0) (first : ℕ) (budget : ℤ)
    (chunks : List Chunk) (answers : List ℕ) :
    ∃ w', p.world.step ((Action.dispatcherAlarm first budget chunks).event, answers) = .ok w' ∧
      p.hand.Passed (p.takes (.dispatcherAlarm first budget chunks)) (w'.hands 0) ∧
      p.dispatcher.Passed [] (w'.dispatchers 0) ∧
      w'.dispatcherCount = p.world.dispatcherCount := by
  rw [World.step, Action.event, World.handle, takes]
  by_cases halarm : p.dispatcher.socketAlarm = true
  · have htakes : (p.dispatcher.socketAlarm = true ∧ p.dispatcher.fdOpen = true ∧
        first ∈ p.dispatcher.readyHands) ↔ first ∈ p.dispatcher.readyHands := by
      simp [halarm, hdispatcher halarm]
    rw [if_pos (by exact halarm), if_congr htakes rfl rfl]
    exact World.handleSocketAlarm_passes (w := p.world.setAnswers answers) hopen
      (hdispatcher halarm) hready first budget chunks
  · rw [if_neg (by exact halarm), if_neg fun h => halarm h.1]
    exact ⟨_, rfl, .refl _, ⟨_, .refl _, rfl⟩, rfl⟩

end Party

end Octopus

end DashDim
