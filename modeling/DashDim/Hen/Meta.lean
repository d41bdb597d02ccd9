import DashDim.Codec.RoundTrip
import DashDim.Hen.Draining

/-!
# The metadata between the two hens

The right stick of a B hen first sends where the client wanted to go, in six bytes; the left
stick of a C hen takes them off what it reads, and makes a right stick with this address. What
it reads after that is passed to the right stick.

The reads may cut these bytes anywhere. A C hen is taken here with a record of the addresses its
right sticks were made with, and of what was passed to their `Sink`.

* `step_pair`: it is the C hen of `Hen.Stick`;
* `run_strips`: however the bytes are cut, one right stick is made, with the address of the
  client, and what was passed to it is what was read of the payload.
-/

namespace DashDim

namespace Hen

/-! ## Addresses -/

/-- An `in_addr`, as it lies in memory. -/
structure InAddr where
  bytes : Bytes
  length_bytes : bytes.length = 4
  deriving DecidableEq, Repr

/-- The `memcpy` of an `in_addr` into an integer. -/
def InAddr.toUInt32 (a : InAddr) : UInt32 := UInt32.ofNat (leValue a.bytes)

/-- The `memcpy` of an integer into an `in_addr`. -/
def InAddr.ofUInt32 (v : UInt32) : InAddr := ⟨leBytes 4 v.toNat, leBytes_length 4 _⟩

/-- A `sockaddr_in`: its port is in network order. -/
structure SockaddrIn where
  sinAddr : InAddr
  sinPort : UInt16
  deriving DecidableEq, Repr

/-- A `SocketAddress` of `base/socket_address.cc`, of IPv4: its port is in host order. -/
structure SocketAddress where
  host : InAddr
  port : UInt16
  deriving DecidableEq, Repr

/-- The constructor from a `sockaddr_storage`. -/
def SocketAddress.ofStorage (saddr : SockaddrIn) : SocketAddress where
  host := saddr.sinAddr
  port := UInt16.ofNat (netToHost 2 saddr.sinPort.toNat)

/-- `generic_address` -/
def SocketAddress.genericAddress (a : SocketAddress) : SockaddrIn where
  sinAddr := a.host
  sinPort := UInt16.ofNat (hostToNet 2 a.port.toNat)

theorem InAddr.ofUInt32_toUInt32 (a : InAddr) : ofUInt32 a.toUInt32 = a := by
  obtain ⟨bytes, hlength⟩ := a
  have hvalue : leBytes 4 (leValue bytes) = bytes := hlength ▸ leBytes_leValue bytes
  have hlt : leValue bytes < 256 ^ 4 := hlength ▸ leValue_lt bytes
  rw [mk.injEq]
  exact (congrArg (leBytes 4) (UInt32.toNat_ofNat_of_lt hlt)).trans hvalue

theorem SocketAddress.genericAddress_ofStorage (saddr : SockaddrIn) :
    (ofStorage saddr).genericAddress = saddr := by
  have hport : (UInt16.ofNat (byteSwap 2 saddr.sinPort.toNat)).toNat =
      byteSwap 2 saddr.sinPort.toNat := UInt16.toNat_ofNat_of_lt (byteSwap_lt 2 _)
  obtain ⟨sinAddr, sinPort⟩ := saddr
  rw [ofStorage, genericAddress, SockaddrIn.mk.injEq]
  refine ⟨rfl, ?_⟩
  dsimp only [netToHost, hostToNet] at hport ⊢
  rw [hport, byteSwap_byteSwap sinPort.toNat_lt, UInt16.ofNat_toNat]

/-! ## The metadata -/

/-- What the constructor of `BHenRightStick` writes. -/
def metadata (originDst : SockaddrIn) : Bytes :=
  let socketAddr := SocketAddress.ofStorage originDst
  (writeAll [(DataWriter.writeUInt32 · socketAddr.host.toUInt32),
    (DataWriter.writeUInt16 · socketAddr.port)] (DataWriter.new (List.replicate 6 0))).2.buffer

/-- The right stick of a B hen. -/
def bHenRightStick (originDst : SockaddrIn) : HenBase := HenBase.sink (metadata originDst) {}

/-- The reads of `CreateRightStick`. -/
def metaRead : Read SockaddrIn :=
  Read.andThen DataReader.readUInt32 fun ip =>
  Read.map (fun port => SocketAddress.genericAddress ⟨.ofUInt32 ip, port⟩) DataReader.readUInt16

/-- The address that `CreateRightStick` reads; none if it cannot be read. -/
def readOriginDst (metaBuf : Bytes) : Option SockaddrIn :=
  (metaRead (DataReader.new (metaBuf.take 6))).1

/-- The writes of `metadata`. -/
def metaWrites (originDst : SockaddrIn) : List Write :=
  [.uInt32 (SocketAddress.ofStorage originDst).host.toUInt32,
    .uInt16 (SocketAddress.ofStorage originDst).port]

theorem metadata_eq (originDst : SockaddrIn) :
    metadata originDst = (metaWrites originDst).flatMap (Write.image .networkByteOrder) ∧
      (metadata originDst).length = 6 := by
  have hsize : ((metaWrites originDst).flatMap (Write.image .networkByteOrder)).length = 6 := by
    simp [metaWrites, Write.image]
  have hfixed : ∀ op ∈ metaWrites originDst, op.Fixed := by
    simp [metaWrites, Write.Fixed]
  have hroom : ((metaWrites originDst).flatMap (Write.image .networkByteOrder)).length ≤
      (List.replicate 6 (0 : UInt8)).length := by
    rw [hsize, List.length_replicate]
  obtain ⟨w, hw, hwritten, hlength⟩ := written_of_fixed hfixed hroom
  have hcapacity : w.buffer.length = 6 :=
    (writeAll_eq (Nat.zero_le _) hw).2.2.2.1.trans List.length_replicate
  have hbuffer : metadata originDst = w.buffer := congrArg (fun p => p.2.buffer) hw
  -- the two writes fill the buffer
  rw [DataWriter.written, hlength, hsize, List.take_of_length_le hcapacity.le] at hwritten
  exact ⟨hbuffer.trans hwritten, hbuffer ▸ hcapacity⟩

theorem metaRead_takes (originDst : SockaddrIn) :
    metaRead.Takes (metadata originDst) originDst := by
  have hvalue : SocketAddress.genericAddress
      ⟨.ofUInt32 (SocketAddress.ofStorage originDst).host.toUInt32,
        (SocketAddress.ofStorage originDst).port⟩ = originDst := by
    rw [InAddr.ofUInt32_toUInt32]
    exact SocketAddress.genericAddress_ofStorage originDst
  have hport := (DataReader.readUInt16_takes (SocketAddress.ofStorage originDst).port).map
    fun port => SocketAddress.genericAddress
      ⟨.ofUInt32 (SocketAddress.ofStorage originDst).host.toUInt32, port⟩
  rw [hvalue] at hport
  rw [(metadata_eq originDst).1, metaWrites, List.flatMap_cons, List.flatMap_cons,
    List.flatMap_nil, List.append_nil]
  exact (DataReader.readUInt32_takes _).andThen hport

/-- `CreateRightStick` reads the address that `BHenRightStick` wrote. -/
theorem readOriginDst_metadata (originDst : SockaddrIn) (payload : Bytes) :
    readOriginDst (metadata originDst ++ payload) = some originDst := by
  rw [readOriginDst, ← (metadata_eq originDst).2, List.take_left]
  rw [(metaRead_takes originDst).new (List.append_nil (metadata originDst)).symm]

/-! ## The C hen -/

/-- A C hen, the addresses its right sticks were made with, and what was passed to the `Sink` of
    the right stick. -/
structure CHen where
  pair : Pair := .createC
  created : List (Option SockaddrIn) := []
  sunk : Bytes := []

namespace CHen

/-- `CreateRightStick`, with the address it dials. -/
def createRightStick (connects : Bool) (h : CHen) : CHen :=
  { h with
    pair := h.pair.createRightStick connects
    created := if connects then h.created ++ [readOriginDst h.pair.metaBuf] else h.created }

/-- The bytes handed on to the right stick. -/
def sink (pv : Bytes) (h : CHen) : CHen :=
  { h with pair := h.pair.sink .right pv, sunk := h.sunk ++ pv }

/-- `CHenLeftStick::OnReadEvent` -/
def onReadEvent (connects : Bool) : List Bytes → CHen → Except Abort CHen
  | [], h => .ok h
  | pv :: reads, h =>
    if (h.pair.sticks .left).fdOpen = false then .ok h
    else if pv = [] then onReadEvent connects reads { h with pair := h.pair.closeFd .left }
    else if h.pair.metaParsed = false then
      let metaBuf := h.pair.metaBuf ++ pv
      let h := { h with pair := { h.pair with metaBuf := metaBuf } }
      if metaBuf.length ≥ 6 then
        let h := h.createRightStick connects
        if (h.pair.sticks .left).stick then
          let h := h.sink (metaBuf.drop 6)
          onReadEvent connects reads { h with pair := { h.pair with metaParsed := true } }
        else .error .noStick
      else onReadEvent connects reads h
    else if (h.pair.sticks .left).stick then onReadEvent connects reads (h.sink pv)
    else .ok { h with pair := h.pair.closeFd .left }

/-- What the left stick reads. -/
def readLeft (e : Event) (h : CHen) : Except Abort CHen :=
  if e.input then h.onReadEvent e.connects e.reads else .ok h

/-- What the sticks do without reading from the B hen. -/
def withPair (f : Pair → Except Abort Pair) (h : CHen) : Except Abort CHen :=
  (f h.pair).map ({ h with pair := · })

/-- `OnEvent` of the left stick. -/
def onEventLeft (e : Event) (h : CHen) : Except Abort CHen := do
  let h ← h.readLeft e
  if e.output then h.withPair (Pair.onWriteEvent .left e.answers) else .ok h

/-- An event of an open socket. -/
def step (h : CHen) (e : Event) : Except Abort CHen :=
  if (h.pair.sticks e.role).fdOpen = false then .ok h
  else
    match e.role with
    | .left => { h with pair := h.pair.noteFailure e }.onEventLeft e
    | .right => { h with pair := h.pair.noteFailure e }.withPair (Pair.onEventRight e)

theorem onReadEvent_pair (connects : Bool) (reads : List Bytes) (h : CHen) :
    (h.onReadEvent connects reads).map pair = h.pair.cOnReadEvent connects reads := by
  induction reads generalizing h with
  | nil => rfl
  | cons pv reads ih =>
    rw [onReadEvent, Pair.cOnReadEvent]
    dsimp only [createRightStick, sink]
    split_ifs
    · rfl
    · exact ih _
    · exact ih _
    · exact ih _
    · rfl
    · exact ih _
    · exact ih _
    · rfl

theorem withPair_pair (f : Pair → Except Abort Pair) (h : CHen) :
    (h.withPair f).map pair = f h.pair := by
  rw [withPair]
  cases f h.pair <;> rfl

theorem onEventLeft_pair {h : CHen} (hkind : h.pair.kind = .c) (e : Event) :
    (h.onEventLeft e).map pair = h.pair.onEventLeft e := by
  have hread : (h.readLeft e).map pair = h.pair.readLeft e := by
    rw [readLeft, Pair.readLeft, hkind]
    split_ifs
    · exact onReadEvent_pair ..
    · rfl
  rw [onEventLeft, Pair.onEventLeft, ← hread]
  cases h.readLeft e with
  | error a => rfl
  | ok h' =>
    rw [ok_bind, show (Except.ok h' : Except Abort CHen).map pair = .ok h'.pair from rfl, ok_bind]
    split_ifs
    · exact withPair_pair _ h'
    · rfl

/-- The record does not change what a C hen does. -/
theorem step_pair {h : CHen} (hkind : h.pair.kind = .c) (e : Event) :
    (h.step e).map pair = h.pair.step e := by
  rw [step, Pair.step]
  split_ifs
  · rfl
  · cases e.role with
    | left => exact onEventLeft_pair (h := { h with pair := h.pair.noteFailure e }) hkind e
    | right => exact withPair_pair _ _

end CHen

/-! ## What the sticks do otherwise -/

namespace Pair

/-- A stick with an open socket, whose partner has not disconnected. -/
structure Up (s : Stick) : Prop where
  fdOpen : s.fdOpen = true
  stickStatus : s.stickStatus ≠ .discon

/-- Nothing of what a C hen knows of the metadata has changed, nor has the right stick been given
    or lost bytes; and sticks are up if they were. -/
structure Passes (p p' : Pair) : Prop where
  kind : p'.kind = p.kind
  metaParsed : p'.metaParsed = p.metaParsed
  metaBuf : p'.metaBuf = p.metaBuf
  fdOpen : ∀ r, (p'.sticks r).fdOpen = (p.sticks r).fdOpen
  stick : ∀ r, (p'.sticks r).stick = (p.sticks r).stick
  stickStatus : ∀ r, (p.sticks r).stickStatus ≠ .discon → (p'.sticks r).stickStatus ≠ .discon
  content : (p'.sticks .right).content = (p.sticks .right).content

variable {p p' p'' : Pair} {r : Role}

theorem Passes.refl (p : Pair) : Passes p p :=
  ⟨rfl, rfl, rfl, fun _ => rfl, fun _ => rfl, fun _ h => h, rfl⟩

theorem Passes.trans (h : Passes p p') (h' : Passes p' p'') : Passes p p'' :=
  ⟨h'.kind.trans h.kind, h'.metaParsed.trans h.metaParsed, h'.metaBuf.trans h.metaBuf,
    fun r => (h'.fdOpen r).trans (h.fdOpen r), fun r => (h'.stick r).trans (h.stick r),
    fun r hup => h'.stickStatus r (h.stickStatus r hup), h'.content.trans h.content⟩

theorem Passes.up (h : Passes p p') (hup : Up (p.sticks r)) : Up (p'.sticks r) :=
  ⟨(h.fdOpen r).trans hup.fdOpen, h.stickStatus r hup.stickStatus⟩

/-- A change of one stick, if it keeps these. -/
theorem modify_passes {f : Stick → Stick} (hopen : (f (p.sticks r)).fdOpen = (p.sticks r).fdOpen)
    (hstick : (f (p.sticks r)).stick = (p.sticks r).stick)
    (hstatus : (p.sticks r).stickStatus ≠ .discon → (f (p.sticks r)).stickStatus ≠ .discon)
    (hcontent : r = .right → (f (p.sticks r)).content = (p.sticks r).content) :
    Passes p (p.modify r f) := by
  have hsticks : ∀ r', (p.modify r f).sticks r' = p.sticks r' ∧ r' ≠ r ∨
      (p.modify r f).sticks r' = f (p.sticks r) ∧ r' = r := by
    intro r'
    rcases eq_or_ne r' r with rfl | hne
    · exact .inr ⟨modify_self .., rfl⟩
    · exact .inl ⟨Function.update_of_ne hne _ _, hne⟩
  refine ⟨rfl, rfl, rfl, fun r' => ?_, fun r' => ?_, fun r' => ?_, ?_⟩
  · rcases hsticks r' with ⟨heq, -⟩ | ⟨heq, rfl⟩
    · rw [heq]
    · rw [heq, hopen]
  · rcases hsticks r' with ⟨heq, -⟩ | ⟨heq, rfl⟩
    · rw [heq]
    · rw [heq, hstick]
  · rcases hsticks r' with ⟨heq, -⟩ | ⟨heq, rfl⟩
    · rw [heq]
      exact id
    · rw [heq]
      exact hstatus
  · rcases hsticks .right with ⟨heq, -⟩ | ⟨heq, rfl⟩
    · rw [heq]
    · rw [heq, hcontent rfl]

theorem noteFailure_passes (e : Event) (p : Pair) : Passes p (p.noteFailure e) :=
  modify_passes rfl rfl id fun _ => rfl

/-- A stick that is up writes, and does not close. -/
theorem onWriteEvent_passes (hup : Up (p.sticks r)) (answers : List ℕ) :
    ∃ p', p.onWriteEvent r answers = .ok p' ∧ Passes p p' := by
  obtain ⟨b, hflush, hopen, hcontent⟩ := HenBase.flushBuffer_content hup.fdOpen answers
  have hpasses : Passes p (p.modify r fun s => { s with toHenBase := b }) :=
    modify_passes (hopen.trans hup.fdOpen.symm) rfl id fun _ => hcontent
  refine ⟨_, ?_, hpasses⟩
  rw [onWriteEvent, hflush]
  exact congrArg Except.ok (if_neg fun hclose => (hpasses.up hup).stickStatus hclose.2)

/-- The right stick gets to know that it is connected. -/
theorem connected_passes (p : Pair) : Passes p p.connected := by
  have hright : Passes p (p.modify .right fun s => { s with ownStatus := .connected }) :=
    modify_passes rfl rfl id fun _ => rfl
  rw [connected]
  dsimp only
  split_ifs
  · refine hright.trans (modify_passes rfl rfl (fun _ => ?_) fun h => Role.noConfusion h)
    exact StickStatus.noConfusion
  · exact hright
  · exact .refl p

/-- The right stick passes on what it reads, and does not close. -/
theorem onReadEvent_passes (hopen : (p.sticks .right).fdOpen = true)
    (hstick : (p.sticks .right).stick = true) {reads : List Bytes} (hreads : [] ∉ reads) :
    Passes p (p.onReadEvent .right reads) := by
  induction reads generalizing p with
  | nil => exact .refl p
  | cons pv reads ih =>
    rw [List.mem_cons, not_or] at hreads
    obtain ⟨hpv, hreads⟩ := hreads
    have hsink : Passes p (p.sink .left pv) := by
      refine modify_passes ?_ rfl id fun h => Role.noConfusion h
      rw [HenBase.sink]
      split_ifs <;> rfl
    rw [onReadEvent, if_neg (ne_false_of_eq_true hopen), if_neg (Ne.symm hpv),
      if_pos hstick]
    exact hsink.trans (ih ((hsink.fdOpen .right).trans hopen) ((hsink.stick .right).trans hstick)
      hreads)

theorem createRightStick_sticks (p : Pair) :
    (p.createRightStick true).sticks .left = { p.sticks .left with stick := true } ∧
      (p.createRightStick true).sticks .right = { stick := true, ownStatus := .connecting } := by
  rw [createRightStick, if_pos rfl]
  refine ⟨?_, ?_⟩
  · rw [modify_self]
    exact congrArg (fun s : Stick => { s with stick := true }) (modify_other .right _ _)
  · exact (modify_other .left (fun s => { s with stick := true }) _).trans (modify_self .right _ _)

/-- An event that does not close the right stick, and with which one can be made. -/
structure Steady (e : Event) : Prop where
  connects : e.role = .left → e.connects = true
  reads : [] ∉ e.reads
  right : e.role = .right → e.error = false ∧ e.rdhup = false

/-- The events of a right stick that stays open. -/
theorem onEventRight_passes {e : Event} (he : Steady e) (hrole : e.role = .right)
    (hup : Up (p.sticks .right)) (hstick : (p.sticks .right).stick = true) :
    ∃ p', p.onEventRight e = .ok p' ∧ Passes p p' := by
  have hfails : ¬(e.error = true ∨ e.rdhup = true) := by
    rw [(he.right hrole).1, (he.right hrole).2, or_self]
    exact Bool.false_ne_true
  have hread : Passes p (if e.input then p.onReadEvent .right e.reads else p) := by
    split_ifs
    · exact onReadEvent_passes hup.fdOpen hstick he.reads
    · exact .refl p
  rw [onEventRight, if_neg hfails]
  generalize (if e.input then p.onReadEvent .right e.reads else p) = q at hread ⊢
  split_ifs
  · have hconnected := hread.trans (connected_passes q)
    obtain ⟨p', hok, hwrite⟩ := onWriteEvent_passes (hconnected.up hup) e.answers
    exact ⟨p', hok, hconnected.trans hwrite⟩
  · exact ⟨q, rfl, hread⟩

end Pair

/-! ## Taking the metadata off -/

theorem readOriginDst_append {metaBuf : Bytes} (h : 6 ≤ metaBuf.length) (pv : Bytes) :
    readOriginDst (metaBuf ++ pv) = readOriginDst metaBuf := by
  rw [readOriginDst, List.take_append_of_le_length h, readOriginDst]

/-- The bytes that an event reads from the B hen. -/
def Event.received (e : Event) : Bytes :=
  if e.role = .left ∧ e.input = true then e.reads.flatten else []

namespace CHen

/-- The metadata is not complete yet: no right stick is made. -/
structure Waiting (received : Bytes) (h : CHen) : Prop where
  kind : h.pair.kind = .c
  metaParsed : h.pair.metaParsed = false
  metaBuf : h.pair.metaBuf = received
  short : received.length < 6
  created : h.created = []
  sunk : h.sunk = []
  left : Pair.Up (h.pair.sticks .left)
  right : (h.pair.sticks .right).fdOpen = false

/-- The metadata is off, and the right stick has all that came after it. -/
structure Forwarding (received : Bytes) (h : CHen) : Prop where
  kind : h.pair.kind = .c
  metaParsed : h.pair.metaParsed = true
  complete : 6 ≤ received.length
  created : h.created = [readOriginDst received]
  sunk : h.sunk = received.drop 6
  left : Pair.Up (h.pair.sticks .left)
  leftStick : (h.pair.sticks .left).stick = true
  right : Pair.Up (h.pair.sticks .right)
  rightStick : (h.pair.sticks .right).stick = true
  content : (h.pair.sticks .right).content = h.sunk

/-- What a C hen has done with the bytes received. -/
def Strips (received : Bytes) (h : CHen) : Prop := Waiting received h ∨ Forwarding received h

variable {received : Bytes} {h : CHen}

theorem Strips.kind (hs : Strips received h) : h.pair.kind = .c := by
  rcases hs with hw | hf
  · exact hw.kind
  · exact hf.kind

theorem Strips.left (hs : Strips received h) : Pair.Up (h.pair.sticks .left) := by
  rcases hs with hw | hf
  · exact hw.left
  · exact hf.left

theorem Strips.passes {p' : Pair} (hs : Strips received h) (hp : Pair.Passes h.pair p') :
    Strips received { h with pair := p' } := by
  rcases hs with hw | hf
  · exact .inl ⟨hp.kind.trans hw.kind, hp.metaParsed.trans hw.metaParsed,
      hp.metaBuf.trans hw.metaBuf, hw.short, hw.created, hw.sunk, hp.up hw.left,
      (hp.fdOpen .right).trans hw.right⟩
  · exact .inr ⟨hp.kind.trans hf.kind, hp.metaParsed.trans hf.metaParsed, hf.complete, hf.created,
      hf.sunk, hp.up hf.left, (hp.stick .left).trans hf.leftStick, hp.up hf.right,
      (hp.stick .right).trans hf.rightStick, hp.content.trans hf.content⟩

/-- Bytes are passed to the right stick. -/
theorem Forwarding.sink (hf : Forwarding received h) (pv : Bytes) :
    Forwarding (received ++ pv) (h.sink pv) := by
  have hleft : (h.pair.sink .right pv).sticks .left = h.pair.sticks .left :=
    Pair.modify_other .right _ _
  have hright : (h.pair.sink .right pv).sticks .right =
      { h.pair.sticks .right with toHenBase := (h.pair.sticks .right).toHenBase.sink pv } :=
    Pair.modify_self .right _ _
  obtain ⟨hopen, hcontent⟩ := HenBase.sink_content hf.right.fdOpen pv
  have hcomplete : 6 ≤ (received ++ pv).length := by
    have := hf.complete
    rw [List.length_append]
    omega
  have hsunk : (h.sink pv).sunk = (received ++ pv).drop 6 := by
    rw [List.drop_append_of_le_length hf.complete, ← hf.sunk]
    rfl
  refine ⟨hf.kind, hf.metaParsed, hcomplete, ?_, hsunk, hleft ▸ hf.left,
    (congrArg Stick.stick hleft).trans hf.leftStick, ⟨?_, ?_⟩, ?_, ?_⟩
  · rw [readOriginDst_append hf.complete]
    exact hf.created
  · exact (congrArg (fun s => s.fdOpen) hright).trans hopen
  · rw [CHen.sink, hright]
    exact hf.right.stickStatus
  · exact (congrArg Stick.stick hright).trans hf.rightStick
  · rw [CHen.sink, hright, hcontent, hf.content]

/-- The right stick is made when the metadata is complete. -/
theorem Waiting.createRightStick (hw : Waiting received h) {metaBuf : Bytes}
    (hcomplete : 6 ≤ metaBuf.length) {h' : CHen}
    (h'_eq : h' = CHen.createRightStick true { h with pair := { h.pair with metaBuf } }) :
    (h'.pair.sticks .left).stick = true ∧
      Forwarding (metaBuf.take 6) { h' with pair := { h'.pair with metaParsed := true } } := by
  have hlength : (metaBuf.take 6).length = 6 := List.length_take_of_le hcomplete
  have hleft : h'.pair.sticks .left = { h.pair.sticks .left with stick := true } := by
    rw [h'_eq]
    exact (Pair.createRightStick_sticks _).1
  have hright : h'.pair.sticks .right = { stick := true, ownStatus := .connecting } := by
    rw [h'_eq]
    exact (Pair.createRightStick_sticks _).2
  have hstick : (h'.pair.sticks .left).stick = true := by rw [hleft]
  refine ⟨hstick, ?_, rfl, hlength.ge, ?_, ?_, ⟨?_, ?_⟩, hstick, ⟨?_, ?_⟩, ?_, ?_⟩
  · rw [h'_eq]
    exact hw.kind
  · -- only the first six bytes are read
    have hread : readOriginDst (metaBuf.take 6) = readOriginDst metaBuf := by
      rw [readOriginDst, List.take_take, Nat.min_self, readOriginDst]
    rw [hread, h'_eq, CHen.createRightStick, hw.created, if_pos rfl]
    rfl
  · rw [List.drop_of_length_le hlength.le, h'_eq]
    exact hw.sunk
  · rw [hleft]
    exact hw.left.fdOpen
  · rw [hleft]
    exact hw.left.stickStatus
  · rw [hright]
  · rw [hright]
    exact StickStatus.noConfusion
  · rw [hright]
  · rw [hright, h'_eq]
    exact hw.sunk.symm

/-- The reads of the left stick, cut anywhere. -/
theorem onReadEvent_strips (hs : Strips received h) {reads : List Bytes} (hreads : [] ∉ reads) :
    ∃ h', h.onReadEvent true reads = .ok h' ∧ Strips (received ++ reads.flatten) h' := by
  induction reads generalizing received h with
  | nil => exact ⟨h, rfl, by rwa [List.flatten_nil, List.append_nil]⟩
  | cons pv reads ih =>
    rw [List.mem_cons, not_or] at hreads
    obtain ⟨hpv, hreads⟩ := hreads
    rw [List.flatten_cons, ← List.append_assoc]
    rw [onReadEvent, if_neg (ne_false_of_eq_true hs.left.fdOpen), if_neg (Ne.symm hpv)]
    dsimp only
    rcases hs with hw | hf
    · rw [if_pos hw.metaParsed, hw.metaBuf]
      split_ifs with hcomplete hstick
      · obtain ⟨-, hmade⟩ := hw.createRightStick hcomplete rfl
        have hsink := hmade.sink ((received ++ pv).drop 6)
        rw [List.take_append_drop] at hsink
        exact ih (.inr hsink) hreads
      · exact absurd (hw.createRightStick hcomplete rfl).1 hstick
      · refine ih (.inl ?_) hreads
        exact ⟨hw.kind, hw.metaParsed, rfl, Nat.lt_of_not_le hcomplete, hw.created, hw.sunk,
          hw.left, hw.right⟩
    · rw [if_neg (ne_false_of_eq_true hf.metaParsed), if_pos hf.leftStick]
      exact ih (.inr (hf.sink pv)) hreads

/-- An event, if no socket fails. -/
theorem step_strips (hs : Strips received h) {e : Event} (he : Pair.Steady e) :
    ∃ h', h.step e = .ok h' ∧ Strips (received ++ e.received) h' := by
  have hnoted := hs.passes (Pair.noteFailure_passes e h.pair)
  cases hrole : e.role with
  | left =>
    have hread : ∃ h', readLeft e { h with pair := h.pair.noteFailure e } = .ok h' ∧
        Strips (received ++ e.received) h' := by
      rw [readLeft, he.connects hrole]
      simp only [Event.received, hrole, true_and]
      split_ifs
      · exact onReadEvent_strips hnoted he.reads
      · exact ⟨_, rfl, by rwa [List.append_nil]⟩
    obtain ⟨h', hok, hs'⟩ := hread
    rw [step, hrole, if_neg (ne_false_of_eq_true hs.left.fdOpen)]
    dsimp only
    rw [onEventLeft, hok, ok_bind]
    split_ifs
    · obtain ⟨p', hwrite, hpasses⟩ := Pair.onWriteEvent_passes hs'.left e.answers
      exact ⟨_, by rw [withPair, hwrite]; rfl, hs'.passes hpasses⟩
    · exact ⟨h', rfl, hs'⟩
  | right =>
    have hnone : e.received = [] := if_neg fun hleft => Role.noConfusion (hrole.symm.trans hleft.1)
    rw [hnone, List.append_nil, step, hrole]
    rcases hs with hw | hf
    · -- there is no right stick, and no events of it
      exact ⟨h, if_pos hw.right, .inl hw⟩
    · rw [if_neg (ne_false_of_eq_true hf.right.fdOpen)]
      have hpasses := Pair.noteFailure_passes e h.pair
      obtain ⟨p', hok, hpasses'⟩ := Pair.onEventRight_passes he hrole (hpasses.up hf.right)
        ((hpasses.stick .right).trans hf.rightStick)
      exact ⟨_, by dsimp only; rw [withPair, hok]; rfl, hnoted.passes hpasses'⟩

theorem foldlM_strips {es : List Event} (hs : Strips received h) (hes : ∀ e ∈ es, Pair.Steady e) :
    ∃ h', es.foldlM step h = .ok h' ∧ es.foldlM Pair.step h.pair = .ok h'.pair ∧
      Strips (received ++ es.flatMap Event.received) h' := by
  induction es generalizing received h with
  | nil => exact ⟨h, rfl, rfl, by rwa [List.flatMap_nil, List.append_nil]⟩
  | cons e es ih =>
    obtain ⟨h₁, hok, hs₁⟩ := step_strips hs (hes e List.mem_cons_self)
    have hpair : h.pair.step e = .ok h₁.pair := by
      rw [← step_pair hs.kind, hok]
      rfl
    obtain ⟨h', hrun, hrun', hs'⟩ := ih hs₁ fun e' he' => hes e' (List.mem_cons_of_mem e he')
    refine ⟨h', ?_, ?_, ?_⟩
    · rw [List.foldlM_cons, hok]
      exact hrun
    · rw [List.foldlM_cons, hpair]
      exact hrun'
    · rwa [List.flatMap_cons, ← List.append_assoc]

/-- However the bytes that a B hen writes are cut into reads, and whatever else happens between
    these: a C hen has made no right stick before it has the metadata; after that it has made
    one, with the address of the client, and what was passed to it is what was received of the
    payload. The right stick has it, sent or to be sent. -/
theorem run_strips (originDst : SockaddrIn) (payload rest : Bytes) (es : List Event)
    (hes : ∀ e ∈ es, Pair.Steady e)
    (hcut : es.flatMap Event.received ++ rest =
      ((bHenRightStick originDst).sink payload).content) :
    ∃ h : CHen, es.foldlM step {} = .ok h ∧ es.foldlM Pair.step .createC = .ok h.pair ∧
      if (es.flatMap Event.received).length < 6 then h.created = [] ∧ h.sunk = []
      else h.created = [some originDst] ∧ h.sunk ++ rest = payload ∧
        (h.pair.sticks .right).fdOpen = true ∧ (h.pair.sticks .right).content = h.sunk := by
  have hinit : Strips [] {} := .inl
    ⟨rfl, rfl, rfl, by decide, rfl, rfl, ⟨rfl, StickStatus.noConfusion⟩, rfl⟩
  obtain ⟨h, hrun, hrun', hs⟩ := foldlM_strips hinit hes
  rw [List.nil_append] at hs
  refine ⟨h, hrun, hrun', ?_⟩
  generalize es.flatMap Event.received = received at hcut hs ⊢
  rcases hs with hw | hf
  · rw [if_pos hw.short]
    exact ⟨hw.created, hw.sunk⟩
  · have hlength := (metadata_eq originDst).2
    have hcontent : ((bHenRightStick originDst).sink payload).content =
        metadata originDst ++ payload := rfl
    rw [hcontent] at hcut
    have hcomplete := hf.complete
    -- what is received begins with the metadata
    have hmeta : received.take 6 = metadata originDst := by
      have htake := congrArg (List.take 6) hcut
      rwa [List.take_append_of_le_length hcomplete, List.take_left' hlength] at htake
    have hpayload : received.drop 6 ++ rest = payload := by
      have hdrop := congrArg (List.drop 6) hcut
      rwa [List.drop_append_of_le_length hcomplete, List.drop_left' hlength] at hdrop
    have hread := readOriginDst_metadata originDst (received.drop 6)
    rw [← hmeta, List.take_append_drop] at hread
    rw [if_neg (by omega)]
    refine ⟨?_, ?_, hf.right.fdOpen, hf.content⟩
    · rw [hf.created, hread]
    · rw [hf.sunk, hpayload]

/-- Port 80 of 10.0.0.1. -/
def origin : SockaddrIn := ⟨⟨[10, 0, 0, 1], rfl⟩, 0x5000⟩

/-- The metadata in two parts, the second with some of the payload. -/
def cutMeta : List Event :=
  [{ role := .left, input := true, reads := [[1, 0], [0]] },
    { role := .left, input := true, reads := [[10, 0, 80, 1], [2]], output := true },
    { role := .right, output := true, answers := [1] }]

theorem run_strips_cutMeta : ∃ h : CHen, cutMeta.foldlM step {} = .ok h ∧
    cutMeta.foldlM Pair.step .createC = .ok h.pair ∧
      if (cutMeta.flatMap Event.received).length < 6 then h.created = [] ∧ h.sunk = []
      else h.created = [some origin] ∧ h.sunk ++ [3] = [1, 2, 3] ∧
        (h.pair.sticks .right).fdOpen = true ∧ (h.pair.sticks .right).content = h.sunk := by
  refine run_strips origin [1, 2, 3] [3] cutMeta (fun e he => ?_) (by rfl)
  simp only [cutMeta, List.mem_cons, List.not_mem_nil, or_false] at he
  rcases he with rfl | rfl | rfl
  · exact ⟨fun _ => rfl, by decide, by decide⟩
  · exact ⟨fun _ => rfl, by decide, by decide⟩
  · exact ⟨by decide, by decide, fun _ => ⟨rfl, rfl⟩⟩

end CHen

end Hen

end DashDim
