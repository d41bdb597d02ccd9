import DashDim.Tpproxy.Connection

/-!
# Frames arrive, however the stream is cut

A connection sends frames of data and messages, and writes when it can. The other
end reads the bytes in chunks cut anywhere.

* `Receiver.receiveAll_eq`: a receiver that does not close hands on the frames of
  all it has got, whatever the chunks;
* `sendAll_eq`: what the sender handed to the kernel and has still to write are
  the bytes of its frames;
* `delivery_independent_of_chunks`: so the receiver hands on the frames sent, each
  once and in order, as soon as they are complete, and keeps the bytes of the one
  frame that is not.
-/

namespace DashDim

/-! ## The receiver -/

/-- What a receiver is handed: the data of a frame, or a message. -/
inductive Delivery
  | recvData (offset : UInt64) (pv : Bytes)
  | parseMessage (offset : UInt64) (pv : Bytes)
  deriving DecidableEq, Repr

namespace Delivery

/-- The bytes of the frame that is handed on as `offset` and `pv`. -/
def frameBytes (offset : UInt64) (pv : Bytes) : Bytes :=
  varInt62Bytes offset.toNat ++ varInt62Bytes pv.length ++ pv

/-- The bytes of the frame that is handed on. -/
def bytes : Delivery → Bytes
  | recvData offset pv => frameBytes offset pv
  | parseMessage offset pv => frameBytes offset pv

end Delivery

/-- What a frame is handed on as. -/
def Frame.delivery (f : Frame) : Delivery :=
  if f.offset ≥ kReserveOffset then .recvData f.offset f.payload
  else .parseMessage f.offset f.payload

@[simp] theorem Frame.delivery_bytes (f : Frame) : f.delivery.bytes = f.bytes := by
  rw [delivery]
  split_ifs <;> rfl

/-- A receiver attached to a server that records what it is handed. -/
def recorder : Receiver (List Delivery) where
  attached _ := true
  recvData offset pv log := log ++ [.recvData offset pv]
  parseMessage offset pv log := log ++ [.parseMessage offset pv]
  checkCloseEntity log := log

namespace Receiver

variable {σ : Type} {R : Receiver σ}

/-- The connection receives chunks as the framing does. -/
theorem receiveAll_feedAll (hclose : ∀ s, R.checkCloseEntity s = s) (chunks : List Bytes)
    (fdReadBuffer : Bytes) (s : σ) :
    R.receiveAll chunks fdReadBuffer s =
      (R.handOnAll (tpFraming.feedAll fdReadBuffer chunks).1 s).map fun s =>
        ((tpFraming.feedAll fdReadBuffer chunks).2, s) := by
  induction chunks generalizing fdReadBuffer s with
  | nil => rfl
  | cons chunk chunks ih =>
    rw [receiveAll, receive, deliver_eq, Framing.feedAll, Framing.feed]
    dsimp only
    rw [handOnAll_append]
    cases R.handOnAll (tpFraming.drain (fdReadBuffer ++ chunk)).1 s with
    | none => rfl
    | some s' =>
      simp only [Option.map_some, hclose, ite_self, Option.bind_some]
      exact ih _ s'

/-- Chunks one after the other hand on the frames of all of them at once. -/
theorem receiveAll_eq (hclose : ∀ s, R.checkCloseEntity s = s) {fdReadBuffer : Bytes}
    (h : tpFraming.parse fdReadBuffer = none) (chunks : List Bytes) (s : σ) :
    R.receiveAll chunks fdReadBuffer s =
      (R.handOnAll (tpFraming.drain (fdReadBuffer ++ chunks.flatten)).1 s).map fun s =>
        ((tpFraming.drain (fdReadBuffer ++ chunks.flatten)).2, s) := by
  rw [receiveAll_feedAll hclose, Framing.feedAll_eq h]

/-- The recorder records the frames it is handed, the messages being non-empty. -/
theorem handOnAll_recorder {fs : List Frame}
    (h : ∀ f ∈ fs, ¬f.offset ≥ kReserveOffset → f.payload ≠ []) (log : List Delivery) :
    recorder.handOnAll fs log = some (log ++ fs.map Frame.delivery) := by
  induction fs generalizing log with
  | nil => rw [handOnAll, List.map_nil, List.append_nil]
  | cons f fs ih =>
    have hf : recorder.handOn f.offset f.payload log = some (log ++ [f.delivery]) := by
      rw [handOn, Frame.delivery]
      by_cases hoff : f.offset ≥ kReserveOffset
      · rw [if_pos hoff, if_pos hoff]
        rfl
      · rw [if_neg hoff, if_neg hoff, if_pos (List.length_pos_iff.2 (h f (by simp) hoff))]
        rfl
    rw [handOnAll, hf, Option.bind_some, ih fun g hg => h g (by simp [hg]), List.map_cons,
      List.append_assoc, List.singleton_append]

end Receiver

/-! ## The sender -/

/-- What a connection does with its write buffer. -/
inductive SendAction
  | sendData (offset : UInt64) (pv : Bytes)
  | writeMessage (type : UInt8) (data : Bytes)
  | writable
  deriving DecidableEq, Repr

namespace SendAction

/-- The action, with the answers to its writes. -/
def run (answers : List SendAnswer) : SendAction → TcpConnection → Option (Bytes × TcpConnection)
  | sendData offset pv, c => c.sendData answers offset pv
  | writeMessage type data, c => c.writeMessage answers type data
  | writable, c => some (c.onWriteEvent answers)

/-- Data is sent at an offset of 62 bits from `kReserveOffset` on, and is at most a
    packet. -/
def Admissible : SendAction → Prop
  | sendData offset pv =>
    offset ≥ kReserveOffset ∧ offset.toNat < 2 ^ 62 ∧ pv.length ≤ kMaxPacketLength
  | _ => True

/-- What the other end is to be handed. -/
def delivery : SendAction → Option Delivery
  | sendData offset pv => some (.recvData offset pv)
  | writeMessage type data => some (.parseMessage 0 (type :: data))
  | writable => none

end SendAction

/-- Actions one after the other: the bytes handed to the kernel in all. -/
def sendAll : List (SendAction × List SendAnswer) → TcpConnection →
    Option (Bytes × TcpConnection)
  | [], c => some ([], c)
  | (action, answers) :: actions, c =>
    match action.run answers c with
    | none => none
    | some (out, c) => (sendAll actions c).map fun (out', c) => (out ++ out', c)

/-- What the other end is to be handed for actions. -/
def deliveries (actions : List (SendAction × List SendAnswer)) : List Delivery :=
  actions.filterMap fun p => p.1.delivery

/-- An action appends the frame of what is to be handed on, if there is one. -/
theorem SendAction.run_eq {action : SendAction} {answers : List SendAnswer} {c c' : TcpConnection}
    {out : Bytes} (hadm : action.Admissible) (h : action.run answers c = some (out, c')) :
    ∃ fs : List Frame, fs.map Frame.delivery = action.delivery.toList ∧
      (∀ f ∈ fs, ¬f.offset ≥ kReserveOffset → f.payload ≠ []) ∧
      out ++ c'.fdWriteBuffer = c.fdWriteBuffer ++ tpFraming.encodeAll fs := by
  cases action with
  | sendData offset pv =>
    obtain ⟨hres, hoff, hpv⟩ := hadm
    have hfd := (TcpConnection.sendData_isSome h).1
    rw [run, TcpConnection.sendData_eq hfd hoff hpv] at h
    have happend := TcpConnection.append_eq answers
      (TcpConnection.dataFrame offset pv hoff hpv).bytes c
    rw [Option.some.inj h] at happend
    -- one frame, which is delivered as it is
    refine ⟨[TcpConnection.dataFrame offset pv hoff hpv], ?_, ?_, ?_⟩
    · rw [List.map_singleton, Frame.delivery, TcpConnection.dataFrame, if_pos hres]
      rfl
    · intro f hf hlt
      obtain rfl := List.mem_singleton.1 hf
      exact absurd hres hlt
    · rw [happend, Framing.encodeAll_cons, Framing.encodeAll_nil, List.append_nil]
      rfl
  | writeMessage type data =>
    rw [run] at h
    obtain ⟨f, hoff, hpay, hres⟩ := TcpConnection.writeMessage_eq h
    have happend := TcpConnection.append_eq answers f.bytes c
    rw [← hres] at happend
    refine ⟨[f], ?_, ?_, ?_⟩
    · rw [List.map_singleton, Frame.delivery, hoff, hpay, if_neg (by decide)]
      rfl
    · intro g hg _
      obtain rfl := List.mem_singleton.1 hg
      rw [hpay]
      exact List.cons_ne_nil _ _
    · rw [happend, Framing.encodeAll_cons, Framing.encodeAll_nil, List.append_nil]
      rfl
  | writable =>
    -- nothing new is written
    have hwrite := TcpConnection.onWriteEvent_eq answers c
    rw [Option.some.inj h] at hwrite
    refine ⟨[], rfl, fun f hf => absurd hf List.not_mem_nil, ?_⟩
    rw [hwrite, Framing.encodeAll_nil, List.append_nil]

/-- The bytes handed to the kernel and those still to be written are the bytes of
    the frames appended. -/
theorem sendAll_eq {actions : List (SendAction × List SendAnswer)} {c c' : TcpConnection}
    {out : Bytes} (hadm : ∀ p ∈ actions, p.1.Admissible) (h : sendAll actions c = some (out, c')) :
    ∃ fs : List Frame, fs.map Frame.delivery = deliveries actions ∧
      (∀ f ∈ fs, ¬f.offset ≥ kReserveOffset → f.payload ≠ []) ∧
      out ++ c'.fdWriteBuffer = c.fdWriteBuffer ++ tpFraming.encodeAll fs := by
  induction actions generalizing c out with
  | nil =>
    cases h
    exact ⟨[], rfl, fun f hf => absurd hf List.not_mem_nil, (List.append_nil _).symm⟩
  | cons p actions ih =>
    obtain ⟨action, answers⟩ := p
    rw [sendAll] at h
    cases hrun : action.run answers c with
    | none =>
      rw [hrun] at h
      cases h
    | some res =>
      obtain ⟨out₁, c₁⟩ := res
      rw [hrun] at h
      obtain ⟨⟨out₂, c₂⟩, hrest, heq⟩ := Option.map_eq_some_iff.1 h
      cases heq
      obtain ⟨fs₁, hdel₁, hmsg₁, hbytes₁⟩ :=
        SendAction.run_eq (hadm (action, answers) (by simp)) hrun
      obtain ⟨fs₂, hdel₂, hmsg₂, hbytes₂⟩ := ih (fun q hq => hadm q (by simp [hq])) hrest
      refine ⟨fs₁ ++ fs₂, ?_, ?_, ?_⟩
      · rw [List.map_append, hdel₁, hdel₂, deliveries, deliveries, List.filterMap_cons]
        dsimp only
        cases action.delivery <;> rfl
      · intro f hf
        rcases List.mem_append.1 hf with hf | hf
        · exact hmsg₁ f hf
        · exact hmsg₂ f hf
      · rw [List.append_assoc, hbytes₂, ← List.append_assoc, hbytes₁, Framing.encodeAll_append,
          List.append_assoc]

/-! ## The stream between them -/

/-- However the bytes of a sender are cut, after each chunk the receiver has handed
    on the first frames sent, each once, in order and with its payload; what it
    has read and not handed on is a part of the next one; and when all bytes are
    read, all frames are handed on. -/
theorem delivery_independent_of_chunks {actions : List (SendAction × List SendAnswer)}
    {c c' : TcpConnection} {out : Bytes} (hempty : c.fdWriteBuffer = [])
    (hadm : ∀ p ∈ actions, p.1.Admissible) (hsend : sendAll actions c = some (out, c'))
    {chunks : List Bytes} (hcut : chunks.flatten <+: out ++ c'.fdWriteBuffer) :
    ∃ done todo fdReadBuffer, deliveries actions = done ++ todo ∧
      recorder.receiveAll chunks [] [] = some (fdReadBuffer, done) ∧
      chunks.flatten = done.flatMap Delivery.bytes ++ fdReadBuffer ∧
      (todo = [] ∧ fdReadBuffer = [] ∨ ∃ next rest, todo = next :: rest ∧
        fdReadBuffer <+: next.bytes ∧ fdReadBuffer ≠ next.bytes) ∧
      (chunks.flatten = out ++ c'.fdWriteBuffer → todo = []) := by
  obtain ⟨fs, hdel, hmsg, hbytes⟩ := sendAll_eq hadm hsend
  rw [hempty, List.nil_append] at hbytes
  obtain ⟨later, hlater⟩ := hcut
  rw [hbytes] at hlater
  obtain ⟨todo, hfs, hrest, hor⟩ := Framing.drain_prefix hlater
  -- however the bytes are cut, the receiver has parsed what a single parse of them gives
  have hrecv : recorder.receiveAll chunks [] [] = some ((tpFraming.drain chunks.flatten).2,
      (tpFraming.drain chunks.flatten).1.map Frame.delivery) := by
    rw [Receiver.receiveAll_eq (fun _ => rfl) Framing.parse_nil, List.nil_append,
      Receiver.handOnAll_recorder fun f hf => hmsg f (by rw [hfs]; exact List.mem_append_left _ hf)]
    rfl
  have hdone : tpFraming.encodeAll (tpFraming.drain chunks.flatten).1 =
      ((tpFraming.drain chunks.flatten).1.map Frame.delivery).flatMap Delivery.bytes := by
    rw [Framing.encodeAll, List.flatMap_map]
    exact congrArg (List.flatMap · _) (funext fun f => (Frame.delivery_bytes f).symm)
  refine ⟨(tpFraming.drain chunks.flatten).1.map Frame.delivery, todo.map Frame.delivery,
    (tpFraming.drain chunks.flatten).2, ?_, hrecv, ?_, ?_, ?_⟩
  · rw [← hdel, ← List.map_append, ← hfs]
  · -- both sides followed by what is still to come are all the frames
    have hall : chunks.flatten ++ later = tpFraming.encodeAll (tpFraming.drain chunks.flatten).1 ++
        ((tpFraming.drain chunks.flatten).2 ++ later) := by
      rw [hlater, hrest, ← Framing.encodeAll_append, ← hfs]
    rw [← List.append_assoc, hdone] at hall
    exact List.append_cancel_right hall
  · rcases hor with ⟨rfl, hbuf⟩ | ⟨f, rest, rfl, zs, hzs, hbuf⟩
    · exact .inl ⟨rfl, hbuf⟩
    · refine .inr ⟨f.delivery, rest.map Frame.delivery, rfl, ?_, ?_⟩
      · exact ⟨zs, by rw [hbuf]; exact (Frame.delivery_bytes f).symm⟩
      · intro heq
        rw [heq, Frame.delivery_bytes] at hbuf
        exact hzs (List.append_right_eq_self.1 hbuf)
  · intro hwhole
    have hnil : later = [] := by
      rw [hbytes, ← hlater] at hwhole
      exact List.self_eq_append_right.1 hwhole
    rcases hor with ⟨rfl, -⟩ | ⟨f, rest, rfl, zs, hzs, hbuf⟩
    · rfl
    · -- a proper part of a frame is not as long as the frame
      rw [hnil, List.append_nil] at hrest
      rw [hrest, Framing.encodeAll_cons, List.append_assoc] at hbuf
      have hz := List.append_right_eq_self.1 hbuf
      exact absurd (List.append_eq_nil_iff.1 hz).2 hzs

/-- Two frames of data, the last two bytes of which are not sent yet, read in
    chunks cut within both headers. -/
theorem delivery_two_frames :
    ∃ done todo fdReadBuffer,
      deliveries [(.sendData 1 [7], [.noBudget]), (.sendData 64 [8, 9], [.sent 5])] =
        done ++ todo ∧
      recorder.receiveAll [[1], [1, 7, 0x40], [0x40]] [] [] = some (fdReadBuffer, done) ∧
      [[1], [1, 7, 0x40], [(0x40 : UInt8)]].flatten =
        done.flatMap Delivery.bytes ++ fdReadBuffer ∧
      (todo = [] ∧ fdReadBuffer = [] ∨ ∃ next rest, todo = next :: rest ∧
        fdReadBuffer <+: next.bytes ∧ fdReadBuffer ≠ next.bytes) ∧
      ([[1], [1, 7, 0x40], [(0x40 : UInt8)]].flatten = [1, 1, 7, 0x40, 0x40] ++ [2, 8, 9] →
        todo = []) :=
  @delivery_independent_of_chunks _ ⟨3, true, false, []⟩ ⟨3, true, false, [2, 8, 9]⟩ _
    rfl (by simp [SendAction.Admissible, kReserveOffset, kMaxPacketLength]) (by rfl) _
    ⟨[2, 8, 9], rfl⟩

end DashDim
