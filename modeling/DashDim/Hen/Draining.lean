import DashDim.Hen.Stick
import DashDim.Lib.Run

/-!
# Closing with bytes to send

A stick whose partner has disconnected is to close when all it has is sent. It closes for other
reasons too: a right stick at an error or a hang-up, and each stick when there is no more to
read, or when it reads what nobody takes. The handlers go on after this, and a closed stick that
can be written fails the check that it has nothing to send.

* `Cuts`: the events that close a stick which has bytes to send, and then either write it, or
  break the promise to its partner;
* `keeps_iff_not_cuts`: while there are no others, a hen drains and does not abort.
-/

namespace DashDim

namespace Hen

namespace Pair

variable {r : Role} {p p' p'' : Pair}

/-- The sticks point to each other, or neither does, and only open ones point to another. A C
    hen that waits for the destination has nothing to send. -/
structure Paired (p : Pair) : Prop where
  mutual_left : (p.sticks .left).stick = (p.sticks .right).stick
  opened : ∀ r, (p.sticks r).stick = true → (p.sticks r).fdOpen = true
  unparsed : p.kind = .c → p.metaParsed = false →
    (p.sticks .left).wb = [] ∧ (p.sticks .right).fdOpen = false

theorem Paired.mutual (h : Paired p) (r : Role) :
    (p.sticks r.other).stick = (p.sticks r).stick := by
  cases r with
  | left => exact h.mutual_left.symm
  | right => exact h.mutual_left

theorem Paired.other_open (h : Paired p) (hstick : (p.sticks r).stick = true) :
    (p.sticks r.other).fdOpen = true := h.opened r.other ((h.mutual r).trans hstick)

/-- The sticks of a pair, given one by one. -/
theorem Paired.of_sticks (hself : (p.sticks r).stick = true →
      (p.sticks r).fdOpen = true ∧ (p.sticks r.other).fdOpen = true)
    (hmutual : (p.sticks r.other).stick = (p.sticks r).stick)
    (hunparsed : p.kind = .c → p.metaParsed = false →
      (p.sticks .left).wb = [] ∧ (p.sticks .right).fdOpen = false) : Paired p := by
  cases r with
  | left =>
    refine ⟨hmutual.symm, fun r hr => ?_, hunparsed⟩
    cases r with
    | left => exact (hself hr).1
    | right => exact (hself (hmutual.symm.trans hr)).2
  | right =>
    refine ⟨hmutual, fun r hr => ?_, hunparsed⟩
    cases r with
    | left => exact (hself (hmutual.symm.trans hr)).2
    | right => exact (hself hr).1

/-- What it says is about these fields of the sticks. -/
theorem Paired.of_fields (h : Paired p) (hkind : p'.kind = p.kind)
    (hparsed : p'.metaParsed = p.metaParsed)
    (hfields : ∀ r, (p'.sticks r).stick = (p.sticks r).stick ∧
      (p'.sticks r).fdOpen = (p.sticks r).fdOpen ∧ (p'.sticks r).wb = (p.sticks r).wb) :
    Paired p' := by
  refine ⟨?_, fun r hr => ?_, fun hc hunparsed => ?_⟩
  · rw [(hfields .left).1, (hfields .right).1]
    exact h.mutual_left
  · rw [(hfields r).1] at hr
    rw [(hfields r).2.1]
    exact h.opened r hr
  · rw [(hfields .left).2.2, (hfields .right).2.1]
    exact h.unparsed (hkind ▸ hc) (hparsed ▸ hunparsed)

/-- What the handlers of a stick do to it and to the other: it keeps what it has to send, and
    what it knows of the other one; the other one is not closed, and a closed one is left
    alone. -/
structure Handles (r : Role) (p p' : Pair) : Prop where
  paired : Paired p'
  kind : p'.kind = p.kind
  wb : (p'.sticks r).wb = (p.sticks r).wb
  stickStatus : (p'.sticks r).stickStatus = (p.sticks r).stickStatus
  failed : (p'.sticks r).failed = (p.sticks r).failed
  other : (p'.sticks r.other).fdOpen = true ∨ p'.sticks r.other = p.sticks r.other

theorem Handles.refl (h : Paired p) (r : Role) : Handles r p p :=
  ⟨h, rfl, rfl, rfl, rfl, .inr rfl⟩

theorem Handles.trans (h : Handles r p p') (h' : Handles r p' p'') : Handles r p p'' := by
  refine ⟨h'.paired, h'.kind.trans h.kind, h'.wb.trans h.wb, h'.stickStatus.trans h.stickStatus,
    h'.failed.trans h.failed, ?_⟩
  rcases h'.other with hopen | heq
  · exact .inl hopen
  · rw [heq]
    exact h.other

/-! ## What the handlers call -/

theorem closeFd_handles (h : Paired p) (r : Role) : Handles r p (p.closeFd r) := by
  have hkind : (p.closeFd r).kind = p.kind := by
    rw [closeFd]
    split_ifs <;> rfl
  have hparsed : (p.closeFd r).metaParsed = p.metaParsed := by
    rw [closeFd]
    split_ifs <;> rfl
  -- the other stick is told, or there is none: either way it points to nothing now
  have hother : ((p.closeFd r).sticks r.other).fdOpen = (p.sticks r.other).fdOpen ∧
      ((p.closeFd r).sticks r.other).wb = (p.sticks r.other).wb ∧
      ((p.closeFd r).sticks r.other).stick = false := by
    rw [closeFd_other]
    split_ifs with hstick
    · exact ⟨rfl, rfl, rfl⟩
    · exact ⟨rfl, rfl, (h.mutual r).trans (Bool.not_eq_true _ ▸ hstick)⟩
  refine ⟨.of_sticks (r := r) ?_ ?_ ?_, hkind, ?_, ?_, ?_, ?_⟩
  · rw [closeFd_self]
    exact fun hfalse => absurd hfalse Bool.false_ne_true
  · rw [closeFd_self, hother.2.2]
  · intro hc hunparsed
    rw [hkind] at hc
    rw [hparsed] at hunparsed
    obtain ⟨hwb, hclosed⟩ := h.unparsed hc hunparsed
    cases r with
    | left =>
      refine ⟨?_, hother.1.trans hclosed⟩
      rw [closeFd_self]
      exact hwb
    | right =>
      refine ⟨hother.2.1.trans hwb, ?_⟩
      rw [closeFd_self]
  · rw [closeFd_self]
  · rw [closeFd_self]
  · rw [closeFd_self]
  · rw [closeFd_other]
    split_ifs with hstick
    · exact .inl (h.other_open hstick)
    · exact .inr rfl

/-- Bytes for the other stick. -/
theorem sink_handles (h : Paired p) (hstick : (p.sticks r).stick = true) (pv : Bytes) :
    Handles r p (p.sink r.other pv) := by
  have hopen := h.other_open hstick
  have hself : (p.sink r.other pv).sticks r = p.sticks r := by rw [sink, modify_of_other]
  have hother : (p.sink r.other pv).sticks r.other =
      { p.sticks r.other with wb := (p.sticks r.other).wb ++ pv } := by
    rw [sink, modify_self, HenBase.sink, if_pos hopen]
  refine ⟨.of_sticks (r := r) ?_ ?_ ?_, rfl, ?_, ?_, ?_, ?_⟩
  · rw [hself, hother]
    exact fun _ => ⟨h.opened r hstick, hopen⟩
  · rw [hself, hother]
    exact h.mutual r
  · -- a C hen that waits for the destination has one stick only
    intro hc hunparsed
    obtain ⟨-, hclosed⟩ := h.unparsed hc hunparsed
    have hright : (p.sticks .right).fdOpen = true := by
      cases r with
      | left => exact hopen
      | right => exact h.opened .right hstick
    exact absurd hright (hclosed ▸ Bool.false_ne_true)
  · rw [hself]
  · rw [hself]
  · rw [hself]
  · rw [hother]
    exact .inl hopen

/-- A loop that reads closes the stick exactly if it comes to the end, or nobody takes what it
    reads. -/
theorem onReadEvent_handles (h : Paired p) (r : Role) (reads : List Bytes) :
    Handles r p (p.onReadEvent r reads) ∧
      (((p.onReadEvent r reads).sticks r).fdOpen = true ↔ (p.sticks r).fdOpen = true ∧
        [] ∉ reads ∧ (reads = [] ∨ (p.sticks r).stick = true)) := by
  -- each read goes to the other stick, so the pair changes from one to the next
  induction reads generalizing p with
  | nil =>
    refine ⟨.refl h r, ?_⟩
    rw [onReadEvent]
    exact ⟨fun hopen => ⟨hopen, List.not_mem_nil, .inl rfl⟩, And.left⟩
  | cons pv reads ih =>
    rw [onReadEvent]
    split_ifs with hclosed hend hstick
    · refine ⟨.refl h r, ?_⟩
      rw [hclosed]
      exact iff_of_false Bool.false_ne_true fun hopen => absurd hopen.1 Bool.false_ne_true
    · -- the end: what is left of the reads finds the stick closed
      have hfalse : ((p.closeFd r).sticks r).fdOpen = false := by rw [closeFd_self]
      rw [onReadEvent_of_closed reads hfalse]
      refine ⟨closeFd_handles h r, ?_⟩
      rw [hfalse]
      exact iff_of_false Bool.false_ne_true fun hopen => hopen.2.1 (hend ▸ List.mem_cons_self)
    · have hsink := sink_handles h hstick pv
      have hself : (p.sink r.other pv).sticks r = p.sticks r := by rw [sink, modify_of_other]
      obtain ⟨hhandles, hiff⟩ := ih hsink.paired
      refine ⟨hsink.trans hhandles, ?_⟩
      rw [hiff, hself]
      constructor
      · rintro ⟨hopen, hmem, -⟩
        refine ⟨hopen, fun hnil => ?_, .inr hstick⟩
        rcases List.mem_cons.1 hnil with heq | hnil
        · exact hend heq.symm
        · exact hmem hnil
      · rintro ⟨hopen, hmem, -⟩
        exact ⟨hopen, fun hnil => hmem (List.mem_cons_of_mem pv hnil), .inr hstick⟩
    · -- nobody takes it
      refine ⟨closeFd_handles h r, ?_⟩
      rw [closeFd_self]
      refine iff_of_false Bool.false_ne_true fun hopen => ?_
      rcases hopen.2.2 with hnil | htrue
      · cases hnil
      · exact hstick htrue

/-- The left stick of a C hen that has its right one reads as that of a B hen. -/
theorem cOnReadEvent_of_parsed (connects : Bool) (reads : List Bytes)
    (hparsed : p.metaParsed = true) :
    p.cOnReadEvent connects reads = .ok (p.onReadEvent .left reads) := by
  induction reads generalizing p with
  | nil => rfl
  | cons pv reads ih =>
    have hclose : (p.closeFd .left).metaParsed = true := by
      rw [closeFd]
      split_ifs <;> exact hparsed
    have hnot : ¬p.metaParsed = false := by
      rw [hparsed]
      exact Bool.noConfusion
    rw [cOnReadEvent, onReadEvent, if_neg hnot]
    split_ifs
    · rfl
    · exact ih hclose
    · exact ih hparsed
    · rfl

/-- The right stick is made, with what was read beyond the destination. -/
theorem createRightStick_handles (hopen : (p.sticks .left).fdOpen = true)
    (rest : Bytes) : Handles .left p
      { (p.createRightStick true).sink .right rest with metaParsed := true } := by
  have hmade : ∀ q : Pair, q.kind = p.kind → q.metaParsed = true →
      q.sticks .left = { p.sticks .left with stick := true } →
      q.sticks Role.left.other = { stick := true, ownStatus := .connecting, wb := rest } →
      Handles .left p q := by
    intro q hkind hparsed hleft hright
    refine ⟨.of_sticks (r := .left) ?_ ?_ ?_, hkind, ?_, ?_, ?_, .inl ?_⟩
    · rw [hleft, hright]
      exact fun _ => ⟨hopen, rfl⟩
    · rw [hleft, hright]
    · exact fun _ hfalse => absurd hparsed (hfalse ▸ Bool.false_ne_true)
    · rw [hleft]
    · rw [hleft]
    · rw [hleft]
    · rw [hright]
  have hright : Role.right = Role.left.other := rfl
  rw [createRightStick, if_pos rfl, hright]
  refine hmade _ rfl rfl ?_ ?_
  · dsimp only
    rw [sink, modify_of_other, modify_self, modify_of_other]
  · dsimp only
    rw [sink, modify_self, modify_other, modify_self]
    rfl

/-- Before that, it has nothing to send, and what it sends is not changed when the right one is
    made. -/
theorem cOnReadEvent_handles (h : Paired p) (hc : p.kind = .c) (connects : Bool)
    (reads : List Bytes) : Outcome (Handles .left p) (fun a => a = .noStick)
      (p.cOnReadEvent connects reads) := by
  induction reads generalizing p with
  | nil => exact .ok (.refl h .left)
  | cons pv reads ih =>
    cases hparsed : p.metaParsed with
    | true =>
      rw [cOnReadEvent_of_parsed connects _ hparsed]
      exact .ok (onReadEvent_handles h .left _).1
    | false =>
      obtain ⟨hwb, hclosed⟩ := h.unparsed hc hparsed
      rw [cOnReadEvent, if_pos hparsed]
      dsimp only
      split_ifs with hopen hend hlen hstick
      · exact .ok (.refl h .left)
      · have hclose := closeFd_handles h .left
        exact (ih hclose.paired (hclose.kind.trans hc)).mono (fun p' hp' => hclose.trans hp')
          fun a ha => ha
      · -- the right stick is made
        have hmeta : Handles .left p { p with metaBuf := p.metaBuf ++ pv } :=
          ⟨⟨h.mutual_left, h.opened, h.unparsed⟩, rfl, rfl, rfl, rfl, .inr rfl⟩
        cases connects with
        | true =>
          have hmade := createRightStick_handles (p := { p with metaBuf := p.metaBuf ++ pv })
            (Bool.not_eq_false _ ▸ hopen) ((p.metaBuf ++ pv).drop 6)
          rw [cOnReadEvent_of_parsed _ _ rfl]
          exact .ok (hmeta.trans (hmade.trans (onReadEvent_handles hmade.paired .left reads).1))
        | false =>
          -- it could not connect: it is closed at once, and the left one points to nothing
          rw [createRightStick, if_neg Bool.false_ne_true, closeFd_self] at hstick
          exact absurd hstick Bool.false_ne_true
      · exact .error rfl
      · -- the six bytes of the destination are not there yet
        have hmeta : Handles .left p { p with metaBuf := p.metaBuf ++ pv } :=
          ⟨⟨h.mutual_left, h.opened, h.unparsed⟩, rfl, rfl, rfl, rfl, .inr rfl⟩
        exact (ih hmeta.paired hc).mono (fun p' hp' => hmeta.trans hp') fun a ha => ha

/-! ## Writing -/

/-- A closed socket with bytes to send fails the check; else it stays as it is, or is written if
    it is open. -/
theorem flushBuffer_cases (answers : List ℕ) (b : HenBase) :
    b.fdOpen = false ∧ b.wb ≠ [] ∧ b.flushBuffer answers = .error .pending ∨
      ∃ b', b.flushBuffer answers = .ok b' ∧ b'.fdOpen = b.fdOpen ∧ (b.wb = [] → b'.wb = []) ∧
        (b.fdOpen = true ∨ b.wb = []) := by
  rw [HenBase.flushBuffer]
  split_ifs with hopen hwb
  · -- what is left to send is an end of what there was
    refine .inr ⟨_, rfl, rfl, fun hnil => ?_, .inl hopen⟩
    have happend := sendPieces_append kBufferSize answers b.wb
    rw [hnil] at happend
    dsimp only
    rw [hnil]
    exact (List.append_eq_nil_iff.1 happend).2
  · exact .inr ⟨b, rfl, rfl, id, .inr hwb⟩
  · exact .inl ⟨Bool.not_eq_true _ ▸ hopen, hwb, rfl⟩

/-- A stick is not closed when it is written, unless all is sent. -/
theorem onWriteEvent_cases (h : Paired p) (r : Role) (answers : List ℕ) :
    (p.sticks r).fdOpen = false ∧ (p.sticks r).wb ≠ [] ∧
        p.onWriteEvent r answers = .error (.flush .pending) ∨
      ((p.sticks r).fdOpen = true ∨ (p.sticks r).wb = []) ∧
        ∃ p', p.onWriteEvent r answers = .ok p' ∧ Paired p' ∧
          ((p'.sticks r).fdOpen = false → (p'.sticks r).wb = []) ∧
          ((p'.sticks r.other).fdOpen = true ∨ p'.sticks r.other = p.sticks r.other) := by
  rcases flushBuffer_cases answers (p.sticks r).toHenBase with ⟨hclosed, hwb, hflush⟩ |
    ⟨b, hflush, hopen, hnil, hfit⟩
  · -- the socket is closed, and the flush checks that nothing is to be sent
    refine .inl ⟨hclosed, hwb, ?_⟩
    rw [onWriteEvent, hflush]
    rfl
  · -- the flush only changes what is to be sent
    refine .inr ⟨hfit, ?_⟩
    have hself : (p.modify r fun s => { s with toHenBase := b }).sticks r =
        { p.sticks r with toHenBase := b } := modify_self r _ p
    have hother : (p.modify r fun s => { s with toHenBase := b }).sticks r.other =
        p.sticks r.other := modify_other r _ p
    have hpaired : Paired (p.modify r fun s => { s with toHenBase := b }) := by
      refine .of_sticks (r := r) ?_ ?_ fun hc hunparsed => ?_
      · rw [hself, hother]
        exact fun hstick => ⟨hopen.trans (h.opened r hstick), h.other_open hstick⟩
      · rw [hself, hother]
        exact h.mutual r
      · obtain ⟨hwb, hclosed⟩ := h.unparsed hc hunparsed
        cases r with
        | left =>
          exact ⟨(congrArg (fun s : Stick => s.wb) hself).trans (hnil hwb), hother ▸ hclosed⟩
        | right => exact ⟨hother ▸ hwb, (congrArg (fun s : Stick => s.fdOpen) hself).trans
            (hopen.trans hclosed)⟩
    rw [onWriteEvent, hflush]
    refine ⟨_, rfl, ?_⟩
    rw [checkCloseFd]
    split_ifs with hdone
    · -- it closes because all is sent
      have hclose := closeFd_handles hpaired r
      refine ⟨hclose.paired, fun _ => hclose.wb.trans hdone.1, ?_⟩
      rw [← hother]
      exact hclose.other
    · -- it was closed before only if it had nothing to send
      refine ⟨hpaired, ?_, .inr hother⟩
      rw [hself]
      intro hclosed
      rcases hfit with htrue | hwb
      · exact absurd (hopen.trans htrue) (hclosed ▸ Bool.false_ne_true)
      · exact hnil hwb

/-- A right stick that is connected tells the left one. -/
theorem connected_handles (h : Paired p) : Handles .right p p.connected ∧
    (p.connected.sticks .right).fdOpen = (p.sticks .right).fdOpen := by
  have hnotes : ∀ q : Pair, q.kind = p.kind → q.metaParsed = p.metaParsed →
      q.sticks .right = { p.sticks .right with ownStatus := .connected } →
      (q.sticks .left = p.sticks .left ∨
        (p.sticks .right).stick = true ∧ q.sticks .left = (p.sticks .left).notify .connected) →
      Handles .right p q ∧ (q.sticks .right).fdOpen = (p.sticks .right).fdOpen := by
    intro q hkind hparsed hright hleft
    have hpaired : Paired q := by
      refine h.of_fields hkind hparsed fun r => ?_
      cases r with
      | left => rcases hleft with heq | ⟨-, heq⟩ <;> rw [heq] <;> exact ⟨rfl, rfl, rfl⟩
      | right =>
        rw [hright]
        exact ⟨rfl, rfl, rfl⟩
    have hother : (q.sticks .left).fdOpen = true ∨ q.sticks .left = p.sticks .left := by
      rcases hleft with heq | ⟨htrue, heq⟩
      · exact .inr heq
      · rw [heq]
        exact .inl (h.other_open htrue)
    refine ⟨⟨hpaired, hkind, ?_, ?_, ?_, hother⟩, ?_⟩ <;> rw [hright]
  rw [connected]
  dsimp only
  split_ifs with hconnecting hstick
  · rw [modify_self] at hstick
    refine hnotes _ rfl rfl ?_ (.inr ⟨hstick, ?_⟩)
    · rw [show Role.left = Role.right.other from rfl, modify_of_other, modify_self]
    · rw [modify_self, show Role.left = Role.right.other from rfl, modify_other]
  · exact hnotes _ rfl rfl (modify_self _ _ _) (.inl (modify_other .right _ _))
  · exact ⟨.refl h .right, rfl⟩

/-! ## The promise -/

/-- A stick whose partner has disconnected is closed with nothing to send, unless its own socket
    failed. -/
def Drained (p : Pair) : Prop :=
  ∀ r, (p.sticks r).stickStatus = .discon → (p.sticks r).fdOpen = false →
    (p.sticks r).wb = [] ∨ (p.sticks r).failed = true

/-- The event ends the reading of the stick: there is no more, or nobody takes what it reads. -/
def Ends (s : Stick) (e : Event) : Prop :=
  e.input = true ∧ ([] ∈ e.reads ∨ e.reads ≠ [] ∧ s.stick = false)

instance (s : Stick) (e : Event) : Decidable (Ends s e) := inferInstanceAs (Decidable (_ ∧ _))

/-- The event closes an open stick that has bytes to send, and its handler goes on to write, or
    breaks the promise. -/
def Cuts (p : Pair) (e : Event) : Prop :=
  (p.sticks e.role).fdOpen = true ∧ (p.sticks e.role).wb ≠ [] ∧
    if e.role = .right ∧ (e.error = true ∨ e.rdhup = true) then e.output = true
    else Ends (p.sticks e.role) e ∧ (e.output = true ∨
      (p.sticks e.role).stickStatus = .discon ∧ (p.sticks e.role).failed = false ∧
        e.error = false)

instance (p : Pair) (e : Event) : Decidable (Cuts p e) :=
  inferInstanceAs (Decidable (_ ∧ _ ∧ ite _ _ _))

/-- The event is handled without the check of `FlushBuffer` failing, and keeps the promise. -/
def Keeps (p : Pair) (e : Event) : Prop :=
  p.step e ≠ .error (.flush .pending) ∧ ∀ p', p.step e = .ok p' → Drained p'

/-- The sticks of an event: the one that it is about, and the other one. -/
theorem drained_of_handled (h : Drained p)
    (hother : (p'.sticks r.other).fdOpen = true ∨ p'.sticks r.other = p.sticks r.other) :
    Drained p' ↔ ((p'.sticks r).stickStatus = .discon → (p'.sticks r).fdOpen = false →
      (p'.sticks r).wb = [] ∨ (p'.sticks r).failed = true) := by
  have hsnd : (p'.sticks r.other).stickStatus = .discon → (p'.sticks r.other).fdOpen = false →
      (p'.sticks r.other).wb = [] ∨ (p'.sticks r.other).failed = true := by
    rcases hother with hopen | heq
    · exact fun _ hclosed => absurd hopen (hclosed ▸ Bool.false_ne_true)
    · rw [heq]
      exact h r.other
  refine ⟨fun hall => hall r, fun hself r' => ?_⟩
  cases r <;> cases r' <;> assumption

/-! ## One event -/

/-- What is noted of an event changes no more than that. -/
theorem noteFailure_paired (h : Paired p) (e : Event) : Paired (p.noteFailure e) := by
  refine h.of_fields rfl rfl fun r => ?_
  dsimp only [noteFailure, modify]
  rw [Function.update_apply]
  split_ifs with heq
  · rw [heq]
    exact ⟨rfl, rfl, rfl⟩
  · exact ⟨rfl, rfl, rfl⟩

/-- The end of a handler: where the event has closed the stick, the bytes it has make the check
    fail if it is written, and else break the promise. -/
theorem written_keeps (hd : Drained p) {q : Pair} (hp' : Paired p')
    (hother : (p'.sticks r.other).fdOpen = true ∨ p'.sticks r.other = p.sticks r.other)
    (hq : Handles r p' q) (hopen : (q.sticks r).fdOpen = (p'.sticks r).fdOpen) (output : Bool)
    (answers : List ℕ) {x : Except Abort Pair}
    (hx : x = if output then q.onWriteEvent r answers else .ok p') :
    (x ≠ .error (.flush .pending) ∧ (∀ p'', x = .ok p'' → Drained p'') ↔
      ¬((p'.sticks r).fdOpen = false ∧ (p'.sticks r).wb ≠ [] ∧ (output = true ∨
        (p'.sticks r).stickStatus = .discon ∧ (p'.sticks r).failed = false))) ∧
      ∀ p'', x = .ok p'' → Paired p'' := by
  subst hx
  cases output with
  | false =>
    rw [if_neg Bool.false_ne_true]
    refine ⟨?_, fun p'' heq => Except.ok.inj heq ▸ hp'⟩
    have hiff := drained_of_handled hd hother
    constructor
    · rintro ⟨-, hdrained⟩ ⟨hclosed, hwb, hbreaks⟩
      rcases hbreaks with hfalse | ⟨hdiscon, hfailed⟩
      · exact Bool.noConfusion hfalse
      · rcases hiff.1 (hdrained p' rfl) hdiscon hclosed with hnil | htrue
        · exact hwb hnil
        · exact Bool.noConfusion (hfailed.symm.trans htrue)
    · -- without a write there is no check to fail
      intro hnot
      refine ⟨(nomatch ·), fun p'' heq => Except.ok.inj heq ▸ hiff.2 ?_⟩
      intro hdiscon hclosed
      by_contra hbreaks
      rw [not_or, Bool.not_eq_true] at hbreaks
      exact hnot ⟨hclosed, hbreaks.1, .inr ⟨hdiscon, hbreaks.2⟩⟩
  | true =>
    rw [if_pos rfl]
    rcases onWriteEvent_cases hq.paired r answers with ⟨hclosed, hwb, herror⟩ |
      ⟨hfit, p'', hok, hpaired, hdone, hother'⟩
    · rw [herror]
      refine ⟨iff_of_false (fun hkeeps => hkeeps.1 rfl) (not_not.2 ?_), fun p'' => (nomatch ·)⟩
      exact ⟨hopen ▸ hclosed, hq.wb ▸ hwb, .inl rfl⟩
    · -- the write went through, so the stick was open or had nothing to send
      rw [hok]
      refine ⟨iff_of_true ⟨(nomatch ·), fun p₃ heq => ?_⟩ ?_,
        fun p₃ heq => Except.ok.inj heq ▸ hpaired⟩
      · cases heq
        refine (drained_of_handled (p := p) hd ?_).2 fun _ hclosed => .inl (hdone hclosed)
        rcases hother' with htrue | heq
        · exact .inl htrue
        · rw [heq]
          rcases hq.other with htrue | heq'
          · exact .inl htrue
          · rw [heq']
            exact hother
      · rintro ⟨hclosed, hwb, -⟩
        rcases hfit with htrue | hnil
        · exact absurd (hopen.symm.trans htrue) (hclosed ▸ Bool.false_ne_true)
        · exact hwb (hq.wb.symm.trans hnil)

/-- The reading of an open stick closes it exactly if the event ends it. -/
theorem onReadEvent_ends (h : Paired p) (hopen : (p.sticks r).fdOpen = true) (e : Event) :
    Handles r p (if e.input then p.onReadEvent r e.reads else p) ∧
      (((if e.input then p.onReadEvent r e.reads else p).sticks r).fdOpen = false ↔
        Ends (p.sticks r) e) := by
  rw [Ends]
  cases e.input with
  | false =>
    refine ⟨.refl h r, iff_of_false (fun hclosed => ?_) fun hends => ?_⟩
    · exact Bool.noConfusion (hopen.symm.trans hclosed)
    · exact Bool.noConfusion hends.1
  | true =>
    obtain ⟨hhandles, hiff⟩ := onReadEvent_handles h r e.reads
    refine ⟨hhandles, ?_⟩
    rw [if_pos rfl, ← Bool.not_eq_true, hiff]
    constructor
    · intro hnot
      refine ⟨rfl, ?_⟩
      by_cases hmem : [] ∈ e.reads
      · exact .inl hmem
      · refine .inr ⟨fun hnil => hnot ⟨hopen, hmem, .inl hnil⟩, ?_⟩
        rw [← Bool.not_eq_true]
        exact fun hstick => hnot ⟨hopen, hmem, .inr hstick⟩
    · rintro ⟨-, hmem | ⟨hne, hstick⟩⟩ ⟨-, hnot, htakes⟩
      · exact hnot hmem
      · rcases htakes with hnil | htrue
        · exact hne hnil
        · exact Bool.noConfusion (hstick.symm.trans htrue)

/-- What a left stick reads. While a C hen waits for the destination its left stick has nothing
    to send. -/
theorem readLeft_cases (h : Paired p) (hopen : (p.sticks .left).fdOpen = true) (e : Event) :
    p.readLeft e = .error .noStick ∧ (p.sticks .left).wb = [] ∨
      ∃ p', p.readLeft e = .ok p' ∧ Handles .left p p' ∧ ((p.sticks .left).wb ≠ [] →
        ((p'.sticks .left).fdOpen = false ↔ Ends (p.sticks .left) e)) := by
  obtain ⟨hhandles, hends⟩ := onReadEvent_ends h hopen e
  rw [readLeft]
  cases hinput : e.input with
  | false =>
    rw [hinput, if_neg Bool.false_ne_true] at hhandles hends
    exact .inr ⟨p, rfl, hhandles, fun _ => hends⟩
  | true =>
    rw [hinput, if_pos rfl] at hhandles hends
    rw [if_pos rfl]
    cases hkind : p.kind with
    | b => exact .inr ⟨_, rfl, hhandles, fun _ => hends⟩
    | c =>
      dsimp only
      cases hparsed : p.metaParsed with
      | true =>
        rw [cOnReadEvent_of_parsed _ _ hparsed]
        exact .inr ⟨_, rfl, hhandles, fun _ => hends⟩
      | false =>
        -- here the reading may end as well, but there is nothing to lose
        have hwb := (h.unparsed hkind hparsed).1
        have houtcome := cOnReadEvent_handles h hkind e.connects e.reads
        cases hx : p.cOnReadEvent e.connects e.reads with
        | error a =>
          obtain rfl := houtcome.of_error hx
          exact .inl ⟨rfl, hwb⟩
        | ok p' => exact .inr ⟨p', rfl, houtcome.of_ok hx, fun hne => absurd hwb hne⟩

/-- The events of a left stick. -/
theorem left_keeps (h : Paired p) (hd : Drained p) (e : Event) (hrole : e.role = .left)
    (hopen : (p.sticks .left).fdOpen = true) : (Keeps p e ↔ ¬Cuts p e) ∧
      ∀ p', p.step e = .ok p' → Paired p' := by
  have hself : (p.noteFailure e).sticks .left =
      { p.sticks .left with failed := (p.sticks .left).failed || e.error } := by
    rw [noteFailure, hrole, modify_self]
    rw [show (decide (Role.left = Role.right) && e.rdhup) = false from rfl, Bool.or_false]
  have hother : (p.noteFailure e).sticks Role.left.other = p.sticks Role.left.other := by
    rw [noteFailure, hrole, modify_other]
  have hnoted := noteFailure_paired h e
  have hstep : p.step e = (p.noteFailure e).onEventLeft e := by
    rw [step, hrole, if_neg (ne_false_of_eq_true hopen)]
  have hcuts : Cuts p e ↔ (p.sticks .left).wb ≠ [] ∧ Ends (p.sticks .left) e ∧
      (e.output = true ∨ (p.sticks .left).stickStatus = .discon ∧
        ((p.sticks .left).failed || e.error) = false) := by
    rw [Cuts, hrole, hopen, Bool.or_eq_false_iff]
    rw [if_neg (fun hright => Role.noConfusion hright.1)]
    exact and_iff_right rfl
  rw [Keeps, hstep, hcuts, onEventLeft]
  rcases readLeft_cases hnoted (hself ▸ hopen) e with ⟨hx, hwb⟩ | ⟨p', hx, hhandles, hends⟩
  · -- no right stick is made, and nothing is lost
    rw [hself] at hwb
    rw [hx, error_bind]
    exact ⟨iff_of_true ⟨fun heq => (nomatch Except.error.inj heq), fun p' => (nomatch ·)⟩
      fun hcut => hcut.1 hwb, fun p' => (nomatch ·)⟩
  · have hother' : (p'.sticks Role.left.other).fdOpen = true ∨
        p'.sticks Role.left.other = p.sticks Role.left.other := hother ▸ hhandles.other
    obtain ⟨hiff, hpaired⟩ := written_keeps hd hhandles.paired hother' (.refl hhandles.paired .left)
      rfl e.output e.answers rfl
    rw [hx, ok_bind]
    refine ⟨hiff.trans (not_congr ?_), hpaired⟩
    rw [hhandles.wb, hhandles.stickStatus, hhandles.failed, hself]
    constructor
    · rintro ⟨hclosed, hwb, hbreaks⟩
      exact ⟨hwb, (hself ▸ hends (hself ▸ hwb)).1 hclosed, hbreaks⟩
    · rintro ⟨hwb, hend, hbreaks⟩
      exact ⟨(hself ▸ hends (hself ▸ hwb)).2 hend, hwb, hbreaks⟩

/-- The events of a right stick: an error or a hang-up closes it at once, and it has failed. -/
theorem right_keeps (h : Paired p) (hd : Drained p) (e : Event) (hrole : e.role = .right)
    (hopen : (p.sticks .right).fdOpen = true) : (Keeps p e ↔ ¬Cuts p e) ∧
      ∀ p', p.step e = .ok p' → Paired p' := by
  have hself : (p.noteFailure e).sticks .right =
      { p.sticks .right with failed := (p.sticks .right).failed || e.error || e.rdhup } := by
    rw [noteFailure, hrole, modify_self]
    rw [show (decide (Role.right = Role.right) && e.rdhup) = e.rdhup from rfl]
  have hother : (p.noteFailure e).sticks Role.right.other = p.sticks Role.right.other := by
    rw [noteFailure, hrole, modify_other]
  have hnoted := noteFailure_paired h e
  have hstep : p.step e = (p.noteFailure e).onEventRight e := by
    rw [step, hrole, if_neg (ne_false_of_eq_true hopen)]
  rw [Keeps, hstep, Cuts, hrole, hopen, onEventRight]
  by_cases hfails : e.error = true ∨ e.rdhup = true
  · -- it is closed before it reads, so that only the write is left
    have hclose := closeFd_handles hnoted .right
    have hclosed : (((p.noteFailure e).closeFd .right).sticks .right).fdOpen = false := by
      rw [closeFd_self]
    have hread : (if e.input then ((p.noteFailure e).closeFd .right).onReadEvent .right e.reads
        else (p.noteFailure e).closeFd .right) = (p.noteFailure e).closeFd .right := by
      rw [onReadEvent_of_closed _ hclosed, ite_self]
    have hother' := hother ▸ hclose.other
    obtain ⟨hconnected, hsame⟩ := connected_handles hclose.paired
    obtain ⟨hiff, hpaired⟩ := written_keeps hd hclose.paired hother' hconnected hsame e.output
      e.answers rfl
    rw [if_pos hfails, hread]
    refine ⟨hiff.trans (not_congr ?_), hpaired⟩
    rw [if_pos ⟨rfl, hfails⟩, hclosed, hclose.wb, hclose.failed, hself]
    have hfailed : ((p.sticks .right).failed || e.error || e.rdhup) = true := by
      rcases hfails with herror | hrdhup
      · rw [herror, Bool.or_true, Bool.true_or]
      · rw [hrdhup, Bool.or_true]
    dsimp only
    rw [hfailed]
    constructor
    · rintro ⟨-, hwb, houtput | ⟨-, hfalse⟩⟩
      · exact ⟨rfl, hwb, houtput⟩
      · exact Bool.noConfusion hfalse
    · rintro ⟨-, hwb, houtput⟩
      exact ⟨rfl, hwb, .inl houtput⟩
  · -- it reads, and what `connected` notes after that leaves its socket alone
    obtain ⟨hhandles, hends⟩ := onReadEvent_ends (r := .right) hnoted (hself ▸ hopen) e
    have hother' := hother ▸ hhandles.other
    obtain ⟨hconnected, hsame⟩ := connected_handles hhandles.paired
    obtain ⟨hiff, hpaired⟩ := written_keeps hd hhandles.paired hother' hconnected hsame e.output
      e.answers rfl
    rw [if_neg hfails]
    refine ⟨hiff.trans (not_congr ?_), hpaired⟩
    have hcond : ¬(Role.right = Role.right ∧ (e.error = true ∨ e.rdhup = true)) :=
      fun hright => hfails hright.2
    rw [hends, hhandles.wb, hhandles.stickStatus, hhandles.failed, hself, if_neg hcond]
    rw [not_or, Bool.not_eq_true, Bool.not_eq_true] at hfails
    dsimp only
    rw [hfails.1, hfails.2, Bool.or_false, Bool.or_false]
    constructor
    · rintro ⟨hend, hwb, houtput | ⟨hdiscon, hfailed⟩⟩
      · exact ⟨rfl, hwb, hend, .inl houtput⟩
      · exact ⟨rfl, hwb, hend, .inr ⟨hdiscon, hfailed, rfl⟩⟩
    · rintro ⟨-, hwb, hend, houtput | ⟨hdiscon, hfailed, -⟩⟩
      · exact ⟨hend, hwb, .inl houtput⟩
      · exact ⟨hend, hwb, .inr ⟨hdiscon, hfailed⟩⟩

/-- An event keeps the promise, and does not fail the check, exactly if it does not cut. -/
theorem step_keeps (h : Paired p) (hd : Drained p) (e : Event) : (Keeps p e ↔ ¬Cuts p e) ∧
    ∀ p', p.step e = .ok p' → Paired p' := by
  cases hopen : (p.sticks e.role).fdOpen with
  | false =>
    -- no events come for a socket that is closed
    have hstep : p.step e = .ok p := by rw [step, if_pos hopen]
    rw [Keeps, hstep]
    refine ⟨iff_of_true ⟨(nomatch ·), fun p' heq => Except.ok.inj heq ▸ hd⟩ fun hcuts => ?_,
      fun p' heq => Except.ok.inj heq ▸ h⟩
    exact Bool.noConfusion (hopen.symm.trans hcuts.1)
  | true =>
    cases hrole : e.role with
    | left => exact left_keeps h hd e hrole (hrole ▸ hopen)
    | right => exact right_keeps h hd e hrole (hrole ▸ hopen)

/-! ## Runs -/

/-- The runs of a hen in which no event cuts. -/
def system : System Pair where
  init p := (∃ destination found connects, p = createB destination found connects) ∨ p = createC
  step p p' := ∃ e, ¬Cuts p e ∧ p.step e = .ok p'

/-- No stick knows of another one that has disconnected. -/
theorem init_paired (hinit : system.init p) : Paired p ∧ Drained p := by
  have hsticks : ∀ q : Pair, (q.sticks .left).stick = (q.sticks .right).stick →
      (∀ r, (q.sticks r).stick = true → (q.sticks r).fdOpen = true) →
      (q.kind = .c → (q.sticks .left).wb = [] ∧ (q.sticks .right).fdOpen = false) →
      (∀ r, (q.sticks r).stickStatus = .min) → Paired q ∧ Drained q := by
    intro q hmutual hopened hc hstatus
    refine ⟨⟨hmutual, hopened, fun hkind _ => hc hkind⟩, fun r hdiscon => ?_⟩
    exact StickStatus.noConfusion ((hstatus r).symm.trans hdiscon)
  rcases hinit with ⟨destination, found, connects, rfl⟩ | rfl
  · refine hsticks _ ?_ (fun r => ?_) (fun hkind => ?_) fun r => ?_
    · cases found <;> cases connects <;> rfl
    · cases r <;> cases found <;> cases connects <;> first | exact fun _ => rfl | exact id
    · cases found <;> cases connects <;> cases hkind
    · cases r <;> cases found <;> cases connects <;> rfl
  · refine hsticks _ rfl (fun r => ?_) (fun _ => ⟨rfl, rfl⟩) fun r => ?_
    · cases r <;> exact fun hfalse => Bool.noConfusion hfalse
    · cases r <;> rfl

/-- In every run without an event that cuts, a stick whose partner has disconnected closes only
    when all it has is sent, unless its socket failed; and the next event keeps this, and does not
    fail the check of `FlushBuffer`, exactly if it does not cut either. -/
theorem keeps_iff_not_cuts (h : system.Reachable p) :
    Drained p ∧ ∀ e, Keeps p e ↔ ¬Cuts p e := by
  have hinv : Paired p ∧ Drained p := by
    refine h.invariant (fun p => init_paired) ?_
    rintro p p' - ⟨hp, hd⟩ ⟨e, hcuts, hstep⟩
    obtain ⟨hkeeps, hpaired⟩ := step_keeps hp hd e
    exact ⟨hpaired p' hstep, (hkeeps.2 hcuts).2 p' hstep⟩
  exact ⟨hinv.2, fun e => (step_keeps hinv.1 hinv.2 e).1⟩

/-- A right stick takes a hang-up of its peer for a failure of its socket: it closes at once, also
    after its partner has disconnected, and does not send what it has. -/
theorem hangup_unsent {e : Event} (hrole : e.role = .right) (hrdhup : e.rdhup = true)
    (houtput : e.output = false) (hopen : (p.sticks .right).fdOpen = true) :
    ∃ p', p.step e = .ok p' ∧ (p'.sticks .right).fdOpen = false ∧
      (p'.sticks .right).wb = (p.sticks .right).wb ∧
      (p'.sticks .right).sent = (p.sticks .right).sent := by
  have hself : ((p.noteFailure e).sticks .right).wb = (p.sticks .right).wb ∧
      ((p.noteFailure e).sticks .right).sent = (p.sticks .right).sent := by
    rw [noteFailure, hrole, modify_self]
    exact ⟨rfl, rfl⟩
  have hclosed : (((p.noteFailure e).closeFd .right).sticks .right).fdOpen = false := by
    rw [closeFd_self]
  have hread : (if e.input then ((p.noteFailure e).closeFd .right).onReadEvent .right e.reads
      else (p.noteFailure e).closeFd .right) = (p.noteFailure e).closeFd .right := by
    rw [onReadEvent_of_closed _ hclosed, ite_self]
  have hstep : p.step e = .ok ((p.noteFailure e).closeFd .right) := by
    rw [step, hrole, if_neg (ne_false_of_eq_true hopen)]
    dsimp only
    have hfails : e.error = true ∨ e.rdhup = true := .inr hrdhup
    rw [onEventRight, if_pos hfails, hread, houtput, if_neg Bool.false_ne_true]
  refine ⟨_, hstep, hclosed, ?_⟩
  rw [closeFd_self]
  exact hself

/-- A B hen whose right stick connects to port 80 of 10.0.0.1. -/
def henB : Pair := createB [10, 0, 0, 1, 0, 80] true true

/-- The right stick connects, reads three bytes for the client, and disconnects; then one of them
    is sent, and the left stick stays open for the others. -/
theorem keeps_henB : ∃ p, [{ role := .right, output := true, answers := [6] },
      { role := .right, input := true, reads := [[1, 2, 3]] },
      { role := .right, rdhup := true }].foldlM step henB = .ok p ∧
    (p.sticks .left).stickStatus = .discon ∧ (p.sticks .left).wb = [1, 2, 3] ∧
    Keeps p { role := .left, output := true, answers := [1] } := by
  have h₀ : system.Reachable henB := .init (.inl ⟨[10, 0, 0, 1, 0, 80], true, true, rfl⟩)
  have h₁ := h₀.step ⟨{ role := .right, output := true, answers := [6] }, by decide, rfl⟩
  have h₂ := h₁.step ⟨{ role := .right, input := true, reads := [[1, 2, 3]] }, by decide, rfl⟩
  have h₃ := h₂.step ⟨{ role := .right, rdhup := true }, by decide, rfl⟩
  exact ⟨_, rfl, rfl, rfl, ((keeps_iff_not_cuts h₃).2 _).2 (by decide)⟩

/-- If the connection is refused, the right stick can be written too: it closes, and the check
    fails. If the client has no more to send when the other side is gone, the left stick closes,
    and what the client has not received is lost. -/
theorem henB_cut :
    henB.step { role := .right, error := true, input := true, output := true } =
        .error (.flush .pending) ∧
      ∃ p', [{ role := .right, output := true, answers := [6] },
          { role := .right, input := true, reads := [[1, 2, 3]] },
          { role := .right, rdhup := true },
          { role := .left, input := true, reads := [[]] }].foldlM step henB = .ok p' ∧
        (p'.sticks .left).wb = [1, 2, 3] ∧ ¬Drained p' := by
  refine ⟨rfl, _, rfl, rfl, fun hdrained => ?_⟩
  rcases hdrained .left rfl rfl with hnil | hfailed
  · exact List.cons_ne_nil _ _ hnil
  · exact Bool.noConfusion hfailed

end Pair

end Hen

end DashDim
