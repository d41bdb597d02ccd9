import DashDim.Tpproxy.Reading
import DashDim.Tpproxy.Registry
import DashDim.Tpproxy.Servers

/-!
# Servers that are left over

A server posts its deletion when both its descriptor and its entity are closed. The two are
closed in different handlers, and each looks at the other. One way of closing the entity
looks only if there is nothing to write: when the last connection of a server closes while
its descriptor is closed already, and there is something to write, no handler will post the
deletion (`stranded`).

* `leftOver_iff`: in every run, these are the servers that are left over;
* `deletion_posted`: in a run in which no event strands a server, there are none.
-/

namespace DashDim

namespace Mpproxy

namespace TpServerBase

/-! ## What a server keeps -/

/-- A server that is closed has posted its deletion, or it is stranded. A server without
    connections has closed its entity, or there is nothing to write. -/
structure Settled (x : TpServerBase) : Prop where
  fd : x.fd > 0 ∧ x.fdClosed = false ∨ x.fd < 0 ∧ x.fdClosed = true
  waits : x.fdWaitClose = true → x.entityClosed = true
  deletion : x.fdClosed = true → x.entityClosed = true → x.destroyed = true ∨ x.stranded = true
  stranded : x.stranded = true → x.fdClosed = true ∧ x.entityClosed = true
  connections : x.connections = [] →
    x.entityClosed = true ∨ x.destroyed = true ∨ x.fdClosed = true ∧ x.fdWriteBuffer = []

/-- A server whose descriptor is closed, and that waits for its paths with something to
    write. -/
structure Stuck (x : TpServerBase) : Prop where
  fdClosed : x.fdClosed = true
  fdWriteBuffer : x.fdWriteBuffer ≠ []
  entityClosed : x.entityClosed = false
  destroyed : x.destroyed = false

namespace Settled

variable {x : TpServerBase}

theorem closeFd (h : x.Settled) : x.closeFd.Settled := by
  rw [TpServerBase.closeFd, SocketBase.closeFd_eq]
  split_ifs with hfd
  · refine ⟨.inr ⟨Int.negSucc_lt_zero 0, rfl⟩, h.waits, fun _ hentity => .inl ?_,
      fun hstranded => ⟨rfl, (h.stranded hstranded).2⟩, fun hnil => ?_⟩
    · exact Bool.or_eq_true_iff.2 (.inr hentity)
    · rcases h.connections hnil with hentity | hdestroyed | ⟨-, hwb⟩
      · exact .inl hentity
      · exact .inr (.inl (Bool.or_eq_true_iff.2 (.inl hdestroyed)))
      · exact .inr (.inr ⟨rfl, hwb⟩)
  · refine ⟨h.fd, h.waits, fun hclosed hentity => .inl ?_, h.stranded, fun hnil => ?_⟩
    · exact Bool.or_eq_true_iff.2 (.inr (Bool.and_eq_true_iff.2 ⟨hclosed, hentity⟩))
    · rcases h.connections hnil with hentity | hdestroyed | hclosed
      · exact .inl hentity
      · exact .inr (.inl (Bool.or_eq_true_iff.2 (.inl hdestroyed)))
      · exact .inr (.inr hclosed)

theorem checkCloseFd (h : x.Settled) :
    { x with toSocketBase := x.toSocketBase.checkCloseFd }.Settled := by
  rw [SocketBase.checkCloseFd]
  split_ifs
  · exact h.closeFd
  · exact h

/-- Writing, if a closed descriptor is not written. -/
theorem write (h : x.Settled) {wb sent : Bytes} (hwrite : x.fd < 0 → wb = x.fdWriteBuffer) :
    { x with fdWriteBuffer := wb, sent := sent }.Settled := by
  refine ⟨h.fd, h.waits, h.deletion, h.stranded, fun hnil => ?_⟩
  rcases h.connections hnil with hentity | hdestroyed | ⟨hclosed, hwb⟩
  · exact .inl hentity
  · exact .inr (.inl hdestroyed)
  · refine .inr (.inr ⟨hclosed, ?_⟩)
    rcases h.fd with ⟨-, hopen⟩ | ⟨hfd, -⟩
    · rw [hopen] at hclosed
      cases hclosed
    · exact (hwrite hfd).trans hwb

theorem recvData (call : SendCall) (offset : UInt64) (pv : Bytes) (h : x.Settled) :
    (x.recvData call offset pv).Settled := by
  obtain ⟨sequencer, wb, sent, heq, hwrite⟩ := x.recvData_eq call offset pv
  have hsequencer : { x with sequencer := sequencer }.Settled :=
    ⟨h.fd, h.waits, h.deletion, h.stranded, h.connections⟩
  rw [heq]
  exact hsequencer.write hwrite

theorem serverOp {f : TpServerBase → TpServerBase} (hop : World.ServerOp f) (h : x.Settled) :
    (f x).Settled := by
  cases hop with
  | connected => exact ⟨h.fd, h.waits, h.deletion, h.stranded, h.connections⟩
  | onWriteEvent answers =>
    obtain ⟨wb, sent, hflush⟩ := x.toSocketBase.flushBuffer_eq answers
    rw [TpServerBase.onWriteEvent, SocketBase.onWriteEvent, hflush]
    have hflushed : { x with fdWriteBuffer := wb, sent := sent }.Settled := by
      refine h.write fun hfd => ?_
      rw [SocketBase.flushBuffer_of_closed answers hfd] at hflush
      exact (congrArg (·.fdWriteBuffer) hflush).symm
    exact hflushed.checkCloseFd
  | recvData call offset pv => exact h.recvData call offset pv
  | readLoop target reads =>
    obtain ⟨rb, queue, -, hloop | ⟨-, -, -, hloop⟩⟩ := x.readLoop_eq target reads 0
    · rw [hloop]
      exact ⟨h.fd, h.waits, h.deletion, h.stranded, h.connections⟩
    · rw [hloop]
      have hread : { x with fdReadBuffer := rb, queue := queue }.Settled :=
        ⟨h.fd, h.waits, h.deletion, h.stranded, h.connections⟩
      exact hread.closeFd

/-- Other lists of connections. -/
theorem lists {y : TpServerBase} (h : x.Settled) (hsocket : y.toSocketBase = x.toSocketBase)
    (hstranded : y.stranded = x.stranded) (hnil : y.connections = [] → x.connections = []) :
    y.Settled := by
  refine ⟨?_, ?_, ?_, ?_, fun hempty => ?_⟩
  · rw [hsocket]
    exact h.fd
  · rw [hsocket]
    exact h.waits
  · rw [hsocket, hstranded]
    exact h.deletion
  · rw [hsocket, hstranded]
    exact h.stranded
  · rw [hsocket]
    exact h.connections (hnil hempty)

theorem proxyClose (c : ℕ) (h : x.Settled) : (x.proxyClose c).Settled := by
  rw [TpServerBase.proxyClose]
  dsimp only
  split_ifs with hempty
  · have hstranded : (x.stranded || x.fdClosed && !x.fdWriteBuffer.isEmpty) = true →
        x.fdClosed = true := by
      intro hstranded
      rcases Bool.or_eq_true_iff.1 hstranded with hstranded | hclosed
      · exact (h.stranded hstranded).1
      · exact (Bool.and_eq_true_iff.1 hclosed).1
    rw [SocketBase.checkCloseFd]
    split_ifs with hwb
    · rw [SocketBase.closeFd_eq]
      split_ifs
      · refine ⟨.inr ⟨Int.negSucc_lt_zero 0, rfl⟩, fun _ => rfl, fun _ _ => .inl ?_,
          fun _ => ⟨rfl, rfl⟩, fun _ => .inl rfl⟩
        exact Bool.or_true _
      · refine ⟨h.fd, fun _ => rfl, fun hclosed _ => .inl ?_, fun hs => ⟨hstranded hs, rfl⟩,
          fun _ => .inl rfl⟩
        exact Bool.or_eq_true_iff.2 (.inr (Bool.and_eq_true_iff.2 ⟨hclosed, rfl⟩))
    · refine ⟨h.fd, fun _ => rfl, fun hclosed _ => .inr ?_, fun hs => ⟨hstranded hs, rfl⟩,
        fun _ => .inl rfl⟩
      have hne : x.fdWriteBuffer.isEmpty = false := by
        rw [List.isEmpty_eq_false_iff]
        exact fun hnil => hwb ⟨rfl, List.length_eq_zero_iff.2 hnil⟩
      refine Bool.or_eq_true_iff.2 (.inr (Bool.and_eq_true_iff.2 ⟨hclosed, ?_⟩))
      rw [hne]
      rfl
  · refine h.lists rfl rfl fun hnil => absurd ?_ hempty
    obtain ⟨hready, hwait⟩ := List.append_eq_nil_iff.1 hnil
    exact ⟨List.length_eq_zero_iff.2 hwait, List.length_eq_zero_iff.2 hready⟩

theorem register (c : ℕ) (h : x.Settled) : (x.register c).Settled := by
  refine h.lists rfl rfl fun hnil => ?_
  have hmem := (x.mem_connections_register c).2 (.inl rfl)
  rw [hnil] at hmem
  exact absurd hmem List.not_mem_nil

theorem dstConnected (isConnected : ℕ → Bool) (c : ℕ) (h : x.Settled) :
    (x.dstConnected isConnected c).Settled :=
  h.lists (x.dstConnected_toSocketBase c isConnected) (x.dstConnected_stranded c isConnected)
    fun hnil => List.nil_perm.1 (hnil ▸ x.connections_dstConnected c isConnected)

theorem proxyConnected (c : ℕ) (h : x.Settled) : (x.proxyConnected c).Settled :=
  h.lists (x.proxyConnected_toSocketBase c) (x.proxyConnected_stranded c)
    fun hnil => List.nil_perm.1 (hnil ▸ x.connections_proxyConnected c)

theorem listOp {c : ℕ} {f : TpServerBase → TpServerBase} (hop : World.ListOp c f)
    (h : x.Settled) : (f x).Settled := by
  cases hop with
  | register => exact h.register c
  | dstConnected isConnected => exact h.dstConnected isConnected c
  | proxyConnected => exact h.proxyConnected c
  | proxyClose => exact h.proxyClose c

/-- Closing the entity of a server whose descriptor is closed. -/
theorem closeEntity (h : x.Settled) : x.setEntityClosed.clearReadyList.Settled := by
  rw [clearReadyList, SocketBase.checkToDeleteSelf_eq]
  refine ⟨h.fd, fun _ => rfl, fun hclosed _ => .inl ?_, fun hs => ⟨(h.stranded hs).1, rfl⟩,
    fun _ => .inl rfl⟩
  exact Bool.or_eq_true_iff.2 (.inr (Bool.and_eq_true_iff.2 ⟨hclosed, rfl⟩))

end Settled

/-! ## A server that is not left over -/

/-- A server that was stranded has posted its deletion. -/
def Unstranded (x : TpServerBase) : Prop := x.stranded = true → x.destroyed = true

/-- A server that is stuck has another connection. -/
def HasOther (c : ℕ) (x : TpServerBase) : Prop := x.Stuck → ∃ c' ∈ x.connections, c' ≠ c

section stranding

variable {x : TpServerBase} {c : ℕ}

theorem stranded_serverOp {f : TpServerBase → TpServerBase} (hop : World.ServerOp f) :
    (f x).stranded = x.stranded := by
  cases hop with
  | connected => rfl
  | onWriteEvent answers => rfl
  | recvData call offset pv =>
    obtain ⟨sequencer, wb, sent, heq, -⟩ := x.recvData_eq call offset pv
    rw [heq]
  | readLoop target reads =>
    obtain ⟨rb, queue, -, hloop | ⟨-, -, -, hloop⟩⟩ := x.readLoop_eq target reads 0
    · rw [hloop]
    · rw [hloop]
      rfl

theorem Unstranded.serverOp {f : TpServerBase → TpServerBase} (hop : World.ServerOp f)
    (h : x.Unstranded) : (f x).Unstranded := by
  intro hstranded
  rw [stranded_serverOp hop] at hstranded
  exact (SameKey.serverOp hop).destroyed (h hstranded)

theorem HasOther.recvData (call : SendCall) (offset : UInt64) (pv : Bytes) (hx : x.Settled)
    (h : x.HasOther c) : (x.recvData call offset pv).HasOther c := by
  obtain ⟨sequencer, wb, sent, heq, hwrite⟩ := x.recvData_eq call offset pv
  rw [heq]
  intro hstuck
  refine h ⟨hstuck.fdClosed, ?_, hstuck.entityClosed, hstuck.destroyed⟩
  rcases hx.fd with ⟨-, hopen⟩ | ⟨hfd, -⟩
  · have hclosed : x.fdClosed = true := hstuck.fdClosed
    rw [hopen] at hclosed
    cases hclosed
  · rw [← hwrite hfd]
    exact hstuck.fdWriteBuffer

/-- A server that has another connection is not stranded when one closes. -/
theorem Unstranded.proxyClose (hx : x.Settled) (hother : x.HasOther c) (h : x.Unstranded) :
    (x.proxyClose c).Unstranded := by
  rw [TpServerBase.proxyClose]
  dsimp only
  split_ifs with hempty
  · intro hstranded
    by_contra hdestroyed
    have hold : x.destroyed = false := by
      by_contra hx
      rw [Bool.not_eq_false] at hx
      exact hdestroyed (SocketBase.checkCloseFd_destroyed hx)
    rcases Bool.or_eq_true_iff.1 hstranded with hstranded | hclosed
    · rw [h hstranded] at hold
      cases hold
    · rw [Bool.and_eq_true, Bool.not_eq_true', List.isEmpty_eq_false_iff] at hclosed
      have hentity : x.entityClosed = false := by
        by_contra hentity
        rw [Bool.not_eq_false] at hentity
        rcases hx.deletion hclosed.1 hentity with hd | hs
        · rw [hd] at hold
          cases hold
        · rw [h hs] at hold
          cases hold
      obtain ⟨c', hmem, hne⟩ := hother ⟨hclosed.1, hclosed.2, hentity, hold⟩
      -- the other connection is still listed
      rw [connections, List.mem_append, ← List.mem_erase_of_ne hne,
        ← List.mem_erase_of_ne (l := x.waitList) hne, List.length_eq_zero_iff.1 hempty.1,
        List.length_eq_zero_iff.1 hempty.2] at hmem
      exact hmem.elim List.not_mem_nil List.not_mem_nil
  · exact h

/-- What a server does to its lists. -/
theorem listOp {f : TpServerBase → TpServerBase} (hop : World.ListOp c f) (hx : x.Settled)
    (hother : x.HasOther c) (h : x.Unstranded) : (f x).Unstranded ∧ (f x).HasOther c := by
  -- the server is the same, but for its lists
  have hsame : ∀ {y : TpServerBase}, y.toSocketBase = x.toSocketBase → y.stranded = x.stranded →
      (∀ c', c' ∈ x.connections → c' ∈ y.connections) → y.Unstranded ∧ y.HasOther c := by
    intro y hsocket hstranded hmem
    refine ⟨fun hs => ?_, fun hstuck => ?_⟩
    · rw [hsocket]
      exact h (hstranded ▸ hs)
    · obtain ⟨hclosed, hwb, hentity, hdestroyed⟩ := hstuck
      rw [hsocket] at hclosed hwb hentity hdestroyed
      obtain ⟨c', hc', hne⟩ := hother ⟨hclosed, hwb, hentity, hdestroyed⟩
      exact ⟨c', hmem c' hc', hne⟩
  cases hop with
  | register => exact hsame rfl rfl fun c' hc' => (x.mem_connections_register c).2 (.inr hc')
  | dstConnected isConnected =>
    exact hsame (x.dstConnected_toSocketBase c isConnected) (x.dstConnected_stranded c isConnected)
      fun c' hc' => (x.connections_dstConnected c isConnected).mem_iff.2 hc'
  | proxyConnected =>
    exact hsame (x.proxyConnected_toSocketBase c) (x.proxyConnected_stranded c)
      fun c' hc' => (x.connections_proxyConnected c).mem_iff.2 hc'
  | proxyClose =>
    refine ⟨h.proxyClose hx hother, ?_⟩
    have hmem := fun c' (hne : c' ≠ c) => x.mem_connections_proxyClose c hne
    rw [TpServerBase.proxyClose] at hmem ⊢
    dsimp only at hmem ⊢
    split_ifs at hmem ⊢
    · intro hstuck
      have hentity := hstuck.entityClosed
      rw [SocketBase.checkCloseFd_entityClosed] at hentity
      cases hentity
    · intro hstuck
      obtain ⟨c', hc', hne⟩ := hother ⟨hstuck.fdClosed, hstuck.fdWriteBuffer, hstuck.entityClosed,
        hstuck.destroyed⟩
      exact ⟨c', (hmem c' hne).2 hc', hne⟩

end stranding

end TpServerBase

/-! ## Events -/

namespace World

variable {w : World} {c s : ℕ}

theorem settled_local : Local fun _ => TpServerBase.Settled where
  server hop h := h.serverOp hop
  closeEntity _ _ h := h.closeEntity
  schedule _ _ h := ⟨h.fd, h.waits, h.deletion, h.stranded, h.connections⟩

/-- A server of a new session. -/
theorem settled_session (c : ℕ) (uuid sid : UInt64) (originDst : OriginDst) :
    ((TpServerBase.newRight uuid sid originDst).register c).started.Settled := by
  refine ⟨.inl ⟨Int.one_pos, rfl⟩, fun h => ?_, fun h => ?_, fun h => ?_, fun h => ?_⟩
  all_goals cases h

theorem settled_newLeft {x : TpServerBase} {originDst : OriginDst} (h : NewLeft originDst x) :
    x.Settled ∧ x.stranded = false := by
  cases h with
  | abandoned =>
    refine ⟨⟨.inr ⟨Int.negSucc_lt_zero 0, rfl⟩, fun h => ?_, fun _ _ => .inl rfl, fun h => ?_,
      fun _ => .inr (.inl rfl)⟩, rfl⟩
    all_goals cases h
  | closed =>
    refine ⟨⟨.inr ⟨Int.negSucc_lt_zero 0, rfl⟩, fun _ => rfl, fun _ _ => .inl rfl, fun h => ?_,
      fun _ => .inl rfl⟩, rfl⟩
    cases h
  | waiting waitList hne =>
    refine ⟨⟨.inl ⟨Int.one_pos, rfl⟩, fun h => ?_, fun h => ?_, fun h => ?_, fun h => ?_⟩, rfl⟩
    · cases h
    · cases h
    · cases h
    · exact absurd h hne

theorem settled_empty (uuid : UInt64) (s : ℕ) : ((empty uuid).servers s).Settled := by
  refine ⟨.inr ⟨Int.negSucc_lt_zero 0, rfl⟩, fun h => ?_, fun _ h => ?_, fun h => ?_,
    fun _ => .inr (.inr ⟨rfl, rfl⟩)⟩
  all_goals cases h

/-- What is left over in any run is stranded: it has lost its last connection when its
    descriptor was closed, with something to write. -/
theorem leftOver_iff (h : (system fun _ _ => True).Reachable w) (s : ℕ) :
    (w.servers s).fdClosed = true ∧ (w.servers s).entityClosed = true ∧
        (w.servers s).destroyed = false ↔
      (w.servers s).stranded = true ∧ (w.servers s).destroyed = false := by
  have hsettled : ∀ s, (w.servers s).Settled := by
    refine h.invariant (P := fun w => ∀ s, (w.servers s).Settled) ?_ fun w w' _ hw hnext => ?_
    · rintro w ⟨uuid, rfl⟩
      exact settled_empty uuid
    · obtain ⟨i, -, hi⟩ := hnext
      have hstep : Outcome (fun w => ∀ s, (w.servers s).Settled) (fun _ => True) (w.step i) := by
        refine settled_local.handle (fun h => h.closeFd) (fun h => h.closeEntity)
          (fun hnew => (settled_newLeft hnew).1)
          (fun _ _ _ _ h => ⟨h.fd, h.waits, h.deletion, h.stranded, h.connections⟩) i.event
          (fun {c _ _ _ _} _ _ => ?_) hw
        exact (byServers_local (L := fun _ => TpServerBase.Settled) (c := c)
          (fun call offset pv h => h.recvData call offset pv) (fun hop h => h.listOp hop)
          fun _ uuid sid originDst => settled_session c uuid sid originDst).connectionParts
            trivial trivial _ hw
      exact hstep.of_ok hi
  constructor
  · rintro ⟨hfd, hentity, hdestroyed⟩
    refine ⟨((hsettled s).deletion hfd hentity).resolve_left fun hposted => ?_, hdestroyed⟩
    rw [hdestroyed] at hposted
    cases hposted
  · rintro ⟨hstranded, hdestroyed⟩
    obtain ⟨hfd, hentity⟩ := (hsettled s).stranded hstranded
    exact ⟨hfd, hentity, hdestroyed⟩

/-- Servers that are not left over. -/
def Sound (_ : ℕ) (x : TpServerBase) : Prop := x.Settled ∧ x.Unstranded

theorem sound_local : Local Sound where
  server hop h := ⟨h.1.serverOp hop, h.2.serverOp hop⟩
  closeEntity _ _ h := ⟨h.1.closeEntity, fun hs => SameKey.clearReadyList.destroyed (h.2 hs)⟩
  schedule _ _ h := ⟨⟨h.1.fd, h.1.waits, h.1.deletion, h.1.stranded, h.1.connections⟩, h.2⟩

theorem sound_session (s c : ℕ) (uuid sid : UInt64) (originDst : OriginDst) :
    Sound s ((TpServerBase.newRight uuid sid originDst).register c).started :=
  ⟨settled_session c uuid sid originDst, fun h => by cases h⟩

/-- An event of a connection `c`, if a server that is stuck has another one. -/
theorem sound_byServers : ByServers c (fun w => ∀ s, Sound s (w.servers s) ∧
    (w.servers s).HasOther c) fun _ => True :=
  byServers_local (L := fun s x => Sound s x ∧ x.HasOther c)
    (fun call offset pv h => ⟨⟨h.1.1.recvData call offset pv, h.1.2.serverOp (.recvData _ _ _)⟩,
      h.2.recvData call offset pv h.1.1⟩)
    (fun hop h => by
      obtain ⟨hun, hother⟩ := TpServerBase.listOp hop h.1.1 h.2 h.1.2
      exact ⟨⟨h.1.1.listOp hop, hun⟩, hother⟩)
    fun s uuid sid originDst => ⟨sound_session s c uuid sid originDst, fun hstuck => by
      cases hstuck.fdClosed⟩

/-- A connection that leaves the servers as they are, but for their data and their lists. If
    it is calm, neither its descriptor nor its entity waits to close. -/
structure Calm (c : ℕ) (role : ConnectionRole) (calm : Prop) (w : World) : Prop where
  servers : ∀ s, Sound s (w.servers s)
  role : (w.connections c).role = role
  waits : calm →
    (w.connections c).fdWaitClose = false ∧ (w.connections c).entityWaitClose = false

namespace Calm

variable {role : ConnectionRole} {calm : Prop}

/-- What is done to a connection leaves the other calm, or itself. -/
theorem updateConnection {c' : ℕ} {f : TcpConnectionBase → TcpConnectionBase}
    (h : w.Calm c role calm) (hf : c' = c → (f (w.connections c)).role = role ∧ (calm →
      (f (w.connections c)).fdWaitClose = false ∧ (f (w.connections c)).entityWaitClose = false)) :
    (w.updateConnection c' f).Calm c role calm := by
  by_cases hc : c' = c
  · subst hc
    obtain ⟨hrole, hwaits⟩ := hf rfl
    refine ⟨h.servers, ?_, ?_⟩
    · rwa [updateConnection_self]
    · rwa [updateConnection_self]
  · have hsame := updateConnection_ne w c' f (Ne.symm hc)
    refine ⟨h.servers, ?_, ?_⟩
    · rw [hsame, h.role]
    · rw [hsame]
      exact h.waits

theorem write {c' : ℕ} {f : TcpConnectionBase → TcpConnectionBase} (hop : WriteOp f)
    (h : w.Calm c role calm) : (w.updateConnection c' f).Calm c role calm := by
  refine h.updateConnection fun _ => ⟨?_, fun hcalm => ?_⟩
  · cases hop with
    | onWriteEvent answers => exact h.role
    | setWriteBuffer wb => exact h.role
    | connectMsg => exact h.role
  · obtain ⟨wb, sent, msg, heq⟩ := hop.eq (h.waits hcalm).1
    rw [heq]
    exact h.waits hcalm

theorem note {f : TcpConnectionBase → TcpConnectionBase} (hop : NoteOp f)
    (h : w.Calm c role calm) : (w.updateConnection c f).Calm c role calm := by
  refine h.updateConnection fun _ => ?_
  cases hop with
  | setReadBuffer rb => exact ⟨h.role, h.waits⟩
  | originConnected => exact ⟨h.role, h.waits⟩
  | connected => exact ⟨h.role, h.waits⟩

/-- The connection notes its session, and joins a server. -/
theorem session (uuid : UInt64) (h : w.Calm c role calm) :
    (w.updateConnection c ({ · with uuid := uuid })).Calm c role calm :=
  h.updateConnection fun _ => ⟨h.role, h.waits⟩

theorem joined (s : ℕ) (h : w.Calm c role calm) :
    (w.updateConnection c (.joined s)).Calm c role calm :=
  h.updateConnection fun _ => ⟨h.role, h.waits⟩

/-- What a server does that leaves it sound. -/
theorem updateServer {f : TpServerBase → TpServerBase} (h : w.Calm c role calm)
    (hf : Sound s (f (w.servers s))) :
    Outcome (Calm c role calm) (fun _ => True) (w.updateServer s f) :=
  updateServer_outcome trivial fun _ => ⟨forall_update h.servers rfl hf, h.role, h.waits⟩

theorem writes : Writes (Calm c role calm) fun _ => True where
  packet := trivial
  deleted := trivial
  calls _ h := ⟨h.servers, h.role, h.waits⟩
  write _ _ hop h := h.write hop

/-- What a message leads to, if it is none of failure. -/
theorem delivers : Delivers c (fun data => role = .connectionRight →
    data.head? ≠ some proxyMessageOriginFail) (Calm c role calm) fun _ => True where
  toWrites := writes
  noServer := trivial
  note hop h := h.note hop
  recvData s call offset pv h := h.updateServer
    ⟨(h.servers s).1.recvData call offset pv, (h.servers s).2.serverOp (.recvData _ _ _)⟩
  register {_ _ s} _ _ _ _ _ h :=
    ((h.session _).joined s).updateServer ⟨(h.servers s).1.register c, (h.servers s).2⟩
  create {w data} _ _ _ _ hfind h := by
    have hset := h.session (readMeta data).1
    refine createServer_outcome hfind ?_ (fun _ => trivial) fun sessions _ => ?_
    · exact ⟨hset.servers, hset.role, hset.waits⟩
    · have hjoined := hset.joined w.serverCount
      exact ⟨forall_update hjoined.servers rfl (sound_session _ _ _ _ _), hjoined.role,
        hjoined.waits⟩
  connected {_ s} isConnected _ h := by
    refine h.updateServer ⟨(h.servers s).1.dstConnected isConnected c, fun hstranded => ?_⟩
    rw [TpServerBase.dstConnected_stranded] at hstranded
    rw [TpServerBase.dstConnected_toSocketBase]
    exact (h.servers s).2 hstranded
  failed hheard hfail hrole h := absurd hfail (hheard (h.role.symm.trans hrole))

theorem checkCloseEntity (h : w.Calm c role calm) (hcalm : calm) :
    Outcome (Calm c role calm) (fun _ => True) (w.connectionCheckCloseEntity c) := by
  rw [connectionCheckCloseEntity, if_neg]
  · exact h
  · rw [(h.waits hcalm).2]
    exact fun hwait => Bool.noConfusion hwait.1

/-- The connection hands on its frames: it does not close, or some of the last one is
    missing. -/
theorem deliver (h : w.Calm c role calm)
    (hheard : ∀ f ∈ (w.frames c).1, f.offset < kReserveOffset → role = .connectionRight →
      f.payload.head? ≠ some proxyMessageOriginFail)
    (hopen : calm ∨ ¬((w.frames c).1 ≠ [] ∧ (w.frames c).2 = [])) :
    Outcome (Calm c role calm) (fun _ => True) (w.deliver c) := by
  refine delivers.reads.deliver hheard (fun hlast {_} h' => ?_) h
  rcases hopen with hcalm | hmissing
  · exact h'.checkCloseEntity hcalm
  · exact absurd hlast hmissing

/-- The connection reads: it does not close, or it is at the end of the stream and some of
    the last frame is missing. -/
theorem onReadEvent (h : w.Calm c role calm) {reads : List ReadResult}
    (hheard : ∀ f ∈ (w.framesRead c reads).1, f.offset < kReserveOffset →
      role = .connectionRight → f.payload.head? ≠ some proxyMessageOriginFail)
    (hopen : calm ∨ ¬((w.framesRead c reads).1 ≠ [] ∧ (w.framesRead c reads).2 = []))
    (heof : calm → .eof ∉ reads) :
    Outcome (Calm c role calm) (fun _ => True) (w.connectionOnReadEvent c reads) := by
  refine delivers.reads.onReadEvent hheard (fun hlast {_} h' => ?_) (fun hmem {_} h' => ?_)
    (fun _ => trivial) trivial h
  · rcases hopen with hcalm | hmissing
    · exact h'.checkCloseEntity hcalm
    · exact absurd hlast hmissing
  · exact h'.updateConnection fun _ => ⟨h'.role, fun hcalm => absurd hmem (heof hcalm)⟩

/-- The connection can be written: it may tell its server that it is connected. -/
theorem writable (h : w.Calm c role calm) :
    Outcome (Calm c role calm) (fun _ => True) (w.connectionPart c .writable) := by
  refine writes.writable (fun h' => h'.note .connected) (fun {w s} _ h' => ?_) h
  refine proxyConnected_outcome trivial h' ?_
  refine h'.updateServer ⟨(h'.servers s).1.proxyConnected c, fun hstranded => ?_⟩
  rw [TpServerBase.proxyConnected_stranded] at hstranded
  rw [TpServerBase.proxyConnected_toSocketBase]
  exact (h'.servers s).2 hstranded

end Calm

namespace Calm

variable {role : ConnectionRole} {calm : Prop}

/-- A hangup of a connection that has a part of a frame left. -/
theorem hangup (h : w.Calm c .connectionLeft False) (hrest : w.rest c ≠ []) :
    Outcome (Calm c .connectionLeft False) (fun _ => True) (w.connectionPart c .hangup) := by
  have hdeliver := (h.deliver (fun _ _ _ hrole => ConnectionRole.noConfusion hrole)
    (.inr fun hlast => hrest hlast.2)).and (deliver_rest c w)
  rw [World.connectionPart.eq_def, h.role]
  refine hdeliver.bind fun w₁ h₁ => ?_
  have hclosed : (w₁.updateConnection c .closeFd).Calm c .connectionLeft False :=
    h₁.1.updateConnection fun _ => ⟨h₁.1.role, False.elim⟩
  have hcheck : (w₁.updateConnection c .closeFd).connectionCheckCloseEntity c =
      .ok (w₁.updateConnection c .closeFd) := by
    rw [connectionCheckCloseEntity, if_neg]
    rw [updateConnection_self, TcpConnectionBase.closeFd, SocketBase.closeFd_fdReadBuffer, h₁.2]
    exact fun hwait => hrest (List.length_eq_zero_iff.1 hwait.2)
  rw [hcheck, ok_bind]
  split_ifs
  · exact hclosed
  · trivial

end Calm

/-! ## Events of connections -/

/-- The entity of a connection closes in an event: its path is hung up, or has ended and the
    last frame is complete, or the origin has failed. A `TcpConnectionLeft` that is hung up
    waits for the rest of a frame. -/
def Closes (c : ℕ) (input hup : Bool) (reads : List ReadResult) (w : World) : Prop :=
  let ended := input = true ∧ .eof ∈ reads ∧ (w.framesOf c input reads).1 ≠ []
  match (w.connections c).role with
  | .connectionLeft => (hup = true ∨ ended) ∧ (w.framesOf c input reads).2 = []
  | .connectionRight => hup = true ∨ ended ∧ (w.framesOf c input reads).2 = [] ∨
      input = true ∧ ∃ f ∈ (w.framesOf c input reads).1, f.offset < kReserveOffset ∧
        f.payload.head? = some proxyMessageOriginFail

/-- The event closes the last connection of a server that is stuck. A connection that waits
    to close may do so in any event. -/
def Strands (w : World) : Event → Prop
  | .connection c input _ hup reads =>
    (∃ s, (w.servers s).Stuck ∧ ∀ c' ∈ (w.servers s).connections, c' = c) ∧
      ((w.connections c).fdWaitClose = true ∨ (w.connections c).entityWaitClose = true ∨
        w.Closes c input hup reads)
  | _ => False

namespace Calm

variable {role : ConnectionRole} {calm : Prop} {input output hup : Bool} {reads : List ReadResult}

/-- The parts of a handler of a `TcpConnectionLeft`: a hangup finds a part of a frame. -/
theorem connectionParts_left (h : w.Calm c .connectionLeft calm) (hfd : (w.connections c).fd > 0)
    (hopen : input = true →
      calm ∨ ¬((w.framesRead c reads).1 ≠ [] ∧ (w.framesRead c reads).2 = []))
    (heof : input = true → calm → .eof ∉ reads)
    (hhup : hup = true → (w.framesOf c input reads).2 ≠ []) :
    Outcome (fun w => ∀ s, Sound s (w.servers s)) (fun _ => True)
      ((World.connectionParts .connectionLeft input output hup reads).foldlM
        (fun w part => w.connectionPart c part) w) := by
  let After := fun w' : World => w'.Calm c .connectionLeft calm ∧
    w'.rest c = (w.framesOf c input reads).2
  rw [World.connectionParts, List.foldlM_append, List.foldlM_append, bind_assoc]
  refine Outcome.bind (P := After) ?_ fun w₁ h₁ => Outcome.bind (P := After) ?_ fun w₂ h₂ => ?_
  · refine Outcome.foldlM_ite (fun hin => ?_) fun hin => ⟨h, ?_⟩
    · have hread := (h.onReadEvent (fun _ _ _ hrole => ConnectionRole.noConfusion hrole)
        (hopen hin) (heof hin)).and (onReadEvent_frames hfd reads)
      rw [World.connectionPart.eq_def]
      refine hread.mono (fun w' h' => ⟨h'.1, h'.2.2.trans ?_⟩) fun _ he => he
      rw [framesOf, if_pos hin]
    · rw [hin, framesOf_false]
      rfl
  · refine Outcome.foldlM_ite (fun _ => ?_) fun _ => h₁
    refine (h₁.1.writable.and (writable_readBuffer c w₁)).mono (fun w' h' => ⟨h'.1, ?_⟩)
      fun _ he => he
    rw [← h₁.2, rest, rest, frames, frames, h'.2]
  · refine Outcome.foldlM_ite (fun hh => ?_) fun _ => h₂.1.servers
    have hweak : w₂.Calm c .connectionLeft False := ⟨h₂.1.servers, h₂.1.role, False.elim⟩
    refine (hweak.hangup ?_).mono (fun w' h' => h'.servers) fun _ he => he
    rw [h₂.2]
    exact hhup hh

/-- The parts of a handler of a `TcpConnectionRight` that is not hung up. -/
theorem connectionParts_right (h : w.Calm c .connectionRight calm)
    (hheard : input = true → ∀ f ∈ (w.framesRead c reads).1, f.offset < kReserveOffset →
      f.payload.head? ≠ some proxyMessageOriginFail)
    (hopen : input = true →
      calm ∨ ¬((w.framesRead c reads).1 ≠ [] ∧ (w.framesRead c reads).2 = []))
    (heof : input = true → calm → .eof ∉ reads) :
    Outcome (fun w => ∀ s, Sound s (w.servers s)) (fun _ => True)
      ((World.connectionParts .connectionRight input output false reads).foldlM
        (fun w part => w.connectionPart c part) w) := by
  let After := fun w' : World => w'.Calm c .connectionRight calm ∧
    (w'.connections c).fdReadBuffer = (w.connections c).fdReadBuffer
  rw [World.connectionParts, if_neg Bool.false_ne_true, List.nil_append, List.foldlM_append]
  refine Outcome.bind (P := After) ?_ fun w₁ h₁ => ?_
  · refine Outcome.foldlM_ite (fun _ => ?_) fun _ => ⟨h, rfl⟩
    exact h.writable.and (writable_readBuffer c w)
  · refine Outcome.foldlM_ite (fun hin => ?_) fun _ => h₁.1.servers
    have hframes : w₁.framesRead c reads = w.framesRead c reads := by
      rw [framesRead, framesRead, h₁.2]
    rw [World.connectionPart.eq_def]
    refine (h₁.1.onReadEvent (fun f hf hoff _ => hheard hin f (hframes ▸ hf) hoff) ?_
      (heof hin)).mono (fun w' h' => h'.servers) fun _ he => he
    rw [hframes]
    exact hopen hin

/-- A connection whose entity does not close in the event. It is calm, but at the end of the
    stream. -/
theorem connectionParts (h : w.Calm c role True) (hfd : (w.connections c).fd > 0)
    (hopen : ¬w.Closes c input hup reads) :
    Outcome (fun w => ∀ s, Sound s (w.servers s)) (fun _ => True)
      ((World.connectionParts role input output hup reads).foldlM
        (fun w part => w.connectionPart c part) w) := by
  have hcalm : w.Calm c role (.eof ∉ reads) := ⟨h.servers, h.role, fun _ => h.waits trivial⟩
  have hof : input = true → w.framesOf c input reads = w.framesRead c reads := by
    intro hin
    rw [framesOf, if_pos hin]
  rw [Closes, h.role] at hopen
  cases role with
  | connectionLeft =>
    refine hcalm.connectionParts_left hfd (fun hin => ?_) (fun _ heof => heof) fun hh hnil =>
      hopen ⟨.inl hh, hnil⟩
    by_cases heof : .eof ∈ reads
    · refine .inr fun hlast => hopen ⟨.inr ⟨hin, heof, ?_⟩, ?_⟩
      · rw [hof hin]
        exact hlast.1
      · rw [hof hin]
        exact hlast.2
    · exact .inl heof
  | connectionRight =>
    rw [not_or, not_or] at hopen
    obtain ⟨hhup, hended, hfail⟩ := hopen
    rw [Bool.not_eq_true] at hhup
    rw [hhup]
    refine hcalm.connectionParts_right (fun hin f hf hoff hhead => hfail ⟨hin, f, ?_, hoff, hhead⟩)
      (fun hin => ?_) fun _ heof => heof
    · rwa [hof hin]
    · -- the end of the stream closes the entity only after frames with nothing behind them
      by_cases heof : .eof ∈ reads
      · refine .inr fun hlast => hended ⟨⟨hin, heof, ?_⟩, ?_⟩
        · rw [hof hin]
          exact hlast.1
        · rw [hof hin]
          exact hlast.2
      · exact .inl heof

end Calm

/-- An event of a connection that strands no server. -/
theorem sound_connection {input output hup : Bool} {reads : List ReadResult}
    (hfd : (w.connections c).fd > 0) (h : ∀ s, Sound s (w.servers s))
    (hstrands : ¬w.Strands (.connection c input output hup reads)) :
    Outcome (fun w => ∀ s, Sound s (w.servers s)) (fun _ => True)
      ((World.connectionParts (w.connections c).role input output hup reads).foldlM
        (fun w part => w.connectionPart c part) w) := by
  by_cases hother : ∀ s, (w.servers s).HasOther c
  · exact (sound_byServers.connectionParts trivial trivial _ fun s => ⟨h s, hother s⟩).mono
      (fun _ h' s => (h' s).1) fun _ he => he
  · simp only [TpServerBase.HasOther, not_forall, not_exists, not_and, ne_eq, not_not] at hother
    obtain ⟨s, hstuck, honly⟩ := hother
    rw [Strands, not_and, not_or, not_or, Bool.not_eq_true, Bool.not_eq_true] at hstrands
    obtain ⟨hwait, hentity, hopen⟩ := hstrands ⟨s, hstuck, honly⟩
    have hcalm : w.Calm c (w.connections c).role True := ⟨h, rfl, fun _ => ⟨hwait, hentity⟩⟩
    exact hcalm.connectionParts hfd hopen

/-- In a run in which no event strands a server, a server whose descriptor and entity are
    closed has posted its deletion, and so has one that has lost its paths and whose descriptor
    is closed. -/
theorem deletion_posted (h : (system fun w i => ¬w.Strands i.event).Reachable w) (s : ℕ) :
    ((w.servers s).fdClosed = true → (w.servers s).entityClosed = true →
      (w.servers s).destroyed = true) ∧
    ((w.servers s).fdWaitClose = true → (w.servers s).connections = [] →
      (w.servers s).fdClosed = true → (w.servers s).destroyed = true) := by
  have hsound : ∀ s, Sound s (w.servers s) := by
    refine h.invariant (P := fun w => ∀ s, Sound s (w.servers s)) ?_ fun w w' _ hw hnext => ?_
    · rintro w ⟨uuid, rfl⟩ s
      exact ⟨settled_empty uuid s, fun h => by cases h⟩
    · obtain ⟨i, hstrands, hi⟩ := hnext
      have hstep : Outcome (fun w => ∀ s, Sound s (w.servers s)) (fun _ => True) (w.step i) := by
        refine sound_local.handle
          (fun h => ⟨h.1.closeFd, fun hs => SocketBase.closeFd_destroyed (h.2 hs)⟩)
          (fun h => ⟨h.1.closeEntity, fun hs => SameKey.clearReadyList.destroyed (h.2 hs)⟩)
          (fun hnew => ?_)
          (fun _ _ _ _ h => ⟨⟨h.1.fd, h.1.waits, h.1.deletion, h.1.stranded, h.1.connections⟩,
            h.2⟩) i.event (fun he hfd => sound_connection hfd hw (he ▸ hstrands)) hw
        obtain ⟨hsettled, hstranded⟩ := settled_newLeft hnew
        exact ⟨hsettled, fun hs => by rw [hstranded] at hs; cases hs⟩
      exact hstep.of_ok hi
  obtain ⟨hsettled, hunstranded⟩ := hsound s
  have hposted : (w.servers s).fdClosed = true → (w.servers s).entityClosed = true →
      (w.servers s).destroyed = true := by
    intro hfd hentity
    exact (hsettled.deletion hfd hentity).elim id hunstranded
  exact ⟨hposted, fun hwait _ hfd => hposted hfd (hsettled.waits hwait)⟩

/-- A plain connection that closes before its path is there. -/
def closesFirst : List Input :=
  [{ event := .createEndpoint (some (1, 80)) [.started] }, { event := .peerCloses 0 },
    { event := .server 0 false false true 0 [] }]

theorem deletion_posted_closes_first : ∃ w : World, (w.servers 0).fdClosed = true ∧
    (w.servers 0).entityClosed = true ∧ (w.servers 0).destroyed = true := by
  have hrun : (closesFirst.foldlM step (empty 0)).map (fun w => ((w.servers 0).fdClosed,
      (w.servers 0).entityClosed)) = .ok (true, true) := by
    decide +kernel
  obtain ⟨w, hw, heq⟩ := exists_of_map_eq_ok hrun
  rw [Prod.mk.injEq] at heq
  obtain ⟨hfd, hentity⟩ := heq
  refine ⟨w, hfd, hentity, (deletion_posted ?_ 0).1 hfd hentity⟩
  refine reachable_of_run (fun i hi w hstrands => ?_) (.init ⟨0, rfl⟩) hw
  simp only [closesFirst, List.mem_cons, List.not_mem_nil, or_false] at hi
  rcases hi with rfl | rfl | rfl
  all_goals exact hstrands

/-- A plain connection with a byte to write closes when one byte of it waits for the path,
    and then the path is hung up. -/
def bothClose : List Input :=
  [{ event := .createEndpoint (some (1, 80)) [.started] },
    { event := .connection 0 false true false [], calls := [{ flush := [.sent 1500] }] },
    { event := .connection 0 true false false [.data 1 [1, 9]]
      calls := [{ flush := [.noBudget] }] },
    { event := .peerSends 0 [5] }, { event := .server 0 true false false 1500 [1] },
    { event := .peerCloses 0 }, { event := .server 0 false false true 0 [] },
    { event := .connection 0 false false true [] }]

theorem both_close_left_over : ∃ w : World, (system fun _ _ => True).Reachable w ∧
    (w.servers 0).fdClosed = true ∧ (w.servers 0).entityClosed = true ∧
    (w.servers 0).destroyed = false := by
  have hrun : (bothClose.foldlM step (empty 0)).map (fun w => ((w.servers 0).fdClosed,
      (w.servers 0).entityClosed, (w.servers 0).destroyed)) = .ok (true, true, false) := by
    decide +kernel
  obtain ⟨w, hw, heq⟩ := exists_of_map_eq_ok hrun
  simp only [Prod.mk.injEq] at heq
  obtain ⟨hfd, hentity, hdestroyed⟩ := heq
  exact ⟨w, reachable_of_run (fun _ _ _ => trivial) (.init ⟨0, rfl⟩) hw, hfd, hentity, hdestroyed⟩

end World

end Mpproxy

end DashDim
