import DashDim.Tpproxy.Listed
import DashDim.Tpproxy.Rejoining

/-!
# Connections that are ready

A server sends data over the connections that are ready, and relies on their descriptors being
open. A connection that closes its descriptor is taken off the list when its entity closes. Two
events do the one and not the other (`Orphans`): the end of the stream without data, and the
hangup of a `TcpConnectionLeft` when it waits for the rest of a frame.

* `Linked.connection`: a connection that no event orphans leaves the lists when it closes;
* `Ready.handle`: what holds of the lists is kept by all events but those that orphan a
  connection or give one a second server;
* `ready_usable`: in runs without these, a connection that is ready can be used;
* `ready_closed`: in other runs, data is sent to one that is closed.
-/

namespace DashDim

namespace Mpproxy

namespace World

/-! ## Events of connections -/

/-- What a connection does by itself, but for getting a session. -/
inductive SelfOp : (TcpConnectionBase → TcpConnectionBase) → Prop
  | write {f : TcpConnectionBase → TcpConnectionBase} (hop : WriteOp f) : SelfOp f
  | note {f : TcpConnectionBase → TcpConnectionBase} (hop : NoteOp f) : SelfOp f
  | closeFd : SelfOp .closeFd
  | setEntityClosed : SelfOp .setEntityClosed
  | detach : SelfOp .detach

namespace SelfOp

variable {f : TcpConnectionBase → TcpConnectionBase} {x : TcpConnectionBase}

/-- A connection by itself keeps its role, its session and, unless it leaves it, its server. -/
theorem same (hop : SelfOp f) (x : TcpConnectionBase) : (f x).role = x.role ∧
    (f x).uuid = x.uuid ∧ ((f x).server = x.server ∨ (f x).server = none) := by
  cases hop with
  | write hop => exact ⟨(hop.same x).2.1, (hop.same x).2.2.1, .inl (hop.same x).2.2.2⟩
  | note hop =>
    cases hop with
    | setReadBuffer rb => exact ⟨rfl, rfl, .inl rfl⟩
    | originConnected => exact ⟨rfl, rfl, .inl rfl⟩
    | connected => exact ⟨rfl, rfl, .inl rfl⟩
  | closeFd => exact ⟨rfl, rfl, .inl rfl⟩
  | setEntityClosed => exact ⟨rfl, rfl, .inl rfl⟩
  | detach => exact ⟨rfl, rfl, .inr rfl⟩

theorem role (hop : SelfOp f) (h : x.role = .connectionRight) : (f x).role = .connectionRight :=
  (hop.same x).1.trans h

theorem uuid (hop : SelfOp f) (x : TcpConnectionBase) : (f x).uuid = x.uuid := (hop.same x).2.1

theorem server (hop : SelfOp f) (h : x.server = none) : (f x).server = none :=
  (hop.same x).2.2.elim (fun hsame => hsame.trans h) id

/-- A descriptor that is closed stays so. -/
theorem closed (hop : SelfOp f) (hfd : ¬x.fd > 0) : ¬(f x).fd > 0 := by
  cases hop with
  | write hop =>
    cases hop with
    | onWriteEvent answers => exact fun hpos => hfd (SocketBase.onWriteEvent_fd answers hpos)
    | setWriteBuffer wb => exact hfd
    | connectMsg => exact hfd
  | note hop =>
    cases hop with
    | setReadBuffer rb => exact hfd
    | originConnected => exact hfd
    | connected => exact hfd
  | closeFd => exact SocketBase.closeFd_fd _
  | setEntityClosed => exact hfd
  | detach =>
    rw [TcpConnectionBase.detach, SocketBase.checkToDeleteSelf_eq]
    exact hfd

end SelfOp

/-- An event of the connection `c`, of which `X` holds. If it is calm, it is usable but for
    what is said of it to its server. -/
structure Within (c : ℕ) (calm : Prop) (X : TcpConnectionBase → Prop) (w : World) : Prop where
  linked : w.Linked c calm
  made : c < w.connectionCount
  opened : calm → (w.connections c).fd > 0 ∨ (w.connections c).entityClosed = true ∨
    (w.connections c).fdWaitClose = true
  self : X (w.connections c)

namespace Within

variable {w : World} {c s : ℕ} {calm : Prop} {X : TcpConnectionBase → Prop}

/-- A write of a connection, of this one or another. -/
theorem write (hX : ∀ {f x}, SelfOp f → X x → X (f x)) {c' : ℕ}
    {f : TcpConnectionBase → TcpConnectionBase} (hop : WriteOp f) (h : w.Within c calm X) :
    (w.updateConnection c' f).Within c calm X := by
  have hlinked : (w.updateConnection c' f).Linked c calm := h.linked.write hop
  by_cases hc : c = c'
  · subst hc
    refine ⟨hlinked, h.made, fun hcalm => ?_, ?_⟩
    · rw [updateConnection_self]
      by_cases hwait : (w.connections c).fdWaitClose = true
      · refine .inr (.inr ?_)
        cases hop with
        | onWriteEvent answers => exact (SocketBase.onWriteEvent_fdWaitClose _ _).trans hwait
        | setWriteBuffer wb => exact hwait
        | connectMsg => exact hwait
      · rw [Bool.not_eq_true] at hwait
        obtain ⟨wb, sent, msg, heq⟩ := hop.eq hwait
        rw [heq]
        exact h.opened hcalm
    · rw [updateConnection_self]
      exact hX (.write hop) h.self
  · have hsame := updateConnection_ne w c' f hc
    refine ⟨hlinked, h.made, ?_, ?_⟩
    · rw [hsame]
      exact h.opened
    · rw [hsame]
      exact h.self

theorem note (hX : ∀ {f x}, SelfOp f → X x → X (f x))
    {f : TcpConnectionBase → TcpConnectionBase} (hop : NoteOp f) (h : w.Within c calm X) :
    (w.updateConnection c f).Within c calm X := by
  refine ⟨h.linked.note hop, h.made, ?_, ?_⟩
  · rw [updateConnection_self]
    cases hop with
    | setReadBuffer rb => exact h.opened
    | originConnected => exact h.opened
    | connected => exact h.opened
  · rw [updateConnection_self]
    exact hX (.note hop) h.self

/-- The entity closes, of a connection whose descriptor may be closed. -/
theorem closeEntity (hX : ∀ {f x}, SelfOp f → X x → X (f x)) (hlinked : w.Linked c calm)
    (hmade : c < w.connectionCount) (hself : X (w.connections c)) :
    Outcome (fun w' => w'.Within c True X ∧ (w'.connections c).server = none) (· ≠ Fault.fd)
      (w.connectionCloseEntity c) := by
  refine hlinked.connectionCloseEntity.mono (fun w' h' => ?_) fun _ he => he
  obtain ⟨hlinked', hcount, hc⟩ := h'
  refine ⟨⟨hlinked', hcount ▸ hmade, fun _ => .inr (.inl ?_), ?_⟩, ?_⟩
  · rw [hc, TcpConnectionBase.detach, SocketBase.checkToDeleteSelf_eq]
    rfl
  · rw [hc]
    exact hX .detach (hX .setEntityClosed hself)
  · rw [hc]
    rfl

theorem weaken (h : w.Within c True X) (calm : Prop) : w.Within c calm X :=
  ⟨h.linked.weaken c calm, h.made, fun _ => h.opened trivial, h.self⟩

/-- The connection notes its session, but gets no server. -/
theorem session {uuid : UInt64} (h : w.Within c calm X)
    (hself : X { w.connections c with uuid := uuid }) :
    (w.updateConnection c ({ · with uuid := uuid })).Within c calm X := by
  refine ⟨?_, h.made, ?_, ?_⟩
  · exact h.linked.keep (h.linked.consistent c) id rfl rfl rfl fun _ hu =>
      ⟨hu.fd, hu.fdWaitClose, hu.entityClosed⟩
  · rw [updateConnection_self]
    exact h.opened
  · rwa [updateConnection_self]

/-- Answers of the system are used. -/
theorem answers {calls : List SendCall} {starts : List SocketStart} (h : w.Within c calm X) :
    ({ w with calls := calls, starts := starts } : World).Within c calm X :=
  ⟨h.linked.answers, h.made, h.opened, h.self⟩

/-- The connection joins a server. -/
theorem join {w' : World} {uuid : UInt64} {x : TpServerBase} (h : w.Within c calm X)
    (hconnections : w'.connections = ((w.updateConnection c ({ · with uuid := uuid
      })).updateConnection c (.joined s)).connections)
    (hcount : w'.connectionCount = w.connectionCount)
    (hservers : w'.servers = Function.update w.servers s x)
    (hmem : ∀ c' ∈ x.connections, c' = c ∨ c' ∈ (w.servers s).connections)
    (hwait : ∀ c' ∈ x.waitList, c' ∈ (w.servers s).waitList) (hnodup : x.connections.Nodup)
    (hself : X ({ w.connections c with uuid := uuid }.joined s)) : w'.Within c calm X := by
  refine ⟨h.linked.join h.made h.opened hconnections hcount hservers hmem hwait hnodup,
    hcount ▸ h.made, ?_, ?_⟩
  · rw [hconnections, updateConnection_self, updateConnection_self]
    exact h.opened
  · rw [hconnections, updateConnection_self, updateConnection_self]
    exact hself

theorem writes (hX : ∀ {f x}, SelfOp f → X x → X (f x)) :
    Writes (Within c calm X) (· ≠ Fault.fd) where
  packet := by decide
  deleted := by decide
  calls _ h := h.answers
  write _ _ hop h := h.write hX hop

/-- A server that may change the order of its lists. -/
theorem updateServer {f : TpServerBase → TpServerBase} (h : w.Within c calm X)
    (hmem : ∀ c' ∈ (f (w.servers s)).connections, c' ∈ (w.servers s).connections)
    (hwait : ∀ c' ∈ (f (w.servers s)).waitList, c' ∈ (w.servers s).waitList)
    (hnodup : (f (w.servers s)).connections.Nodup) :
    Outcome (Within c calm X) (· ≠ Fault.fd) (w.updateServer s f) :=
  updateServer_outcome (by decide) fun _ =>
    ⟨h.linked.setServer rfl rfl rfl hmem hwait hnodup, h.made, h.opened, h.self⟩

theorem sameLists {f : TpServerBase → TpServerBase} (h : w.Within c calm X)
    (hready : (f (w.servers s)).readyList = (w.servers s).readyList)
    (hwait : (f (w.servers s)).waitList = (w.servers s).waitList) :
    Outcome (Within c calm X) (· ≠ Fault.fd) (w.updateServer s f) := by
  have hsame : (f (w.servers s)).connections = (w.servers s).connections := by
    rw [TpServerBase.connections, hready, hwait]
    rfl
  exact h.updateServer (fun c' hc => hsame ▸ hc) (fun c' hc => hwait ▸ hc)
    (hsame ▸ h.linked.nodup s)

/-- What messages lead to. -/
theorem delivers (hX : ∀ {f x}, SelfOp f → X x → X (f x)) {hears : Bytes → Prop}
    (hjoin : ∀ {x data} s, hears data → data.head? = some proxyMessageMeta →
      x.role = .connectionLeft → x.uuid = 0 → X x → X { x with uuid := (readMeta data).1 } ∧
        X ({ x with uuid := (readMeta data).1 }.joined s)) :
    Delivers c hears (Within c calm X) (· ≠ Fault.fd) where
  toWrites := writes hX
  noServer := by decide
  note hop h := h.note hX hop
  recvData {w} s call offset pv h := by
    have hlists := (w.servers s).recvData_lists call offset pv
    exact h.sameLists hlists.1 hlists.2
  register {w data s} hheard hmeta hrole huuid _ h := by
    refine updateServer_outcome (by decide) fun sessions => ?_
    refine h.join (x := (w.servers s).register c) rfl rfl rfl (fun c' hc => ?_) (fun c' hc => hc) ?_
      (hjoin s hheard hmeta hrole huuid h.self).2
    · exact ((w.servers s).mem_connections_register c).1 hc
    · refine (w.servers s).nodup_register c (h.linked.nodup s) fun hc => ?_
      have hright := h.linked.waiting s c hc
      rw [hrole] at hright
      cases hright
  create {w data} hheard hmeta hrole huuid hfind h := by
    refine createServer_outcome hfind ?_ (fun _ => by decide) fun sessions _ => ?_
    · exact (h.session (hjoin 0 hheard hmeta hrole huuid h.self).1).answers
    · exact h.join rfl rfl rfl (fun c' hc => .inl (List.mem_singleton.1 hc))
        (fun c' hc => absurd hc List.not_mem_nil) (List.nodup_singleton c)
        (hjoin _ hheard hmeta hrole huuid h.self).2
  connected {w s} isConnected _ h := by
    have hperm := (w.servers s).connections_dstConnected c isConnected
    exact h.updateServer (fun c' hc => hperm.mem_iff.1 hc)
      (fun c' hc => TpServerBase.waitList_dstConnected hc) (hperm.nodup_iff.2 (h.linked.nodup s))
  failed {w data} _ _ _ h := by
    have hclosed : X ((w.updateConnection c .closeFd).connections c) := by
      rw [updateConnection_self]
      exact hX .closeFd h.self
    exact (closeEntity hX h.linked.closeFd h.made hclosed).mono (fun w' h' => h'.1.weaken calm)
      fun _ he => he

theorem closeFd (hX : ∀ {f x}, SelfOp f → X x → X (f x)) (h : w.Within c calm X) :
    (w.updateConnection c .closeFd).Within c False X := by
  refine ⟨h.linked.closeFd, h.made, False.elim, ?_⟩
  rw [updateConnection_self]
  exact hX .closeFd h.self

theorem checkCloseEntity (hX : ∀ {f x}, SelfOp f → X x → X (f x)) (h : w.Within c calm X) :
    Outcome (Within c calm X) (· ≠ Fault.fd) (w.connectionCheckCloseEntity c) := by
  rw [connectionCheckCloseEntity]
  split_ifs
  · exact (closeEntity hX h.linked h.made h.self).mono (fun _ h' => h'.1.weaken calm)
      fun _ he => he
  · exact h

/-- The entity closes that waits for that. -/
theorem checkCloseEntity_closed (hX : ∀ {f x}, SelfOp f → X x → X (f x)) (h : w.Within c calm X)
    (hfd : ¬(w.connections c).fd > 0) (hrb : (w.connections c).fdReadBuffer = []) :
    Outcome (fun w' => w'.Within c True X ∧ (w'.connections c).server = none) (· ≠ Fault.fd)
      (w.connectionCheckCloseEntity c) := by
  have hwait := (h.linked.consistent c).entityWaitClose hfd
  rw [connectionCheckCloseEntity, if_pos ⟨hwait, List.length_eq_zero_iff.2 hrb⟩]
  exact closeEntity hX h.linked h.made h.self

/-- The connection is writable. -/
theorem writable (hX : ∀ {f x}, SelfOp f → X x → X (f x)) (h : w.Within c calm X) :
    Outcome (Within c calm X) (· ≠ Fault.fd) (w.connectionPart c .writable) := by
  refine (writes hX).writable (fun h' => h'.note hX .connected) (fun {w s} _ h' => ?_) h
  have hperm := (w.servers s).connections_proxyConnected c
  refine proxyConnected_outcome (by decide) h' ?_
  exact h'.updateServer (fun c' hc => hperm.mem_iff.1 hc)
    (fun c' hc => (w.servers s).waitList_proxyConnected c hc)
    (hperm.nodup_iff.2 (h'.linked.nodup s))

/-- The connection reads, and may be closed then. -/
theorem onReadEvent (hX : ∀ {f x}, SelfOp f → X x → X (f x)) (hears : Bytes → Prop)
    (hjoin : ∀ {x data} s, hears data → data.head? = some proxyMessageMeta →
      x.role = .connectionLeft → x.uuid = 0 → X x → X { x with uuid := (readMeta data).1 } ∧
        X ({ x with uuid := (readMeta data).1 }.joined s)) (reads : List ReadResult)
    (hheard : ∀ f ∈ (w.framesRead c reads).1, f.offset < kReserveOffset → hears f.payload)
    (hopen : calm → .eof ∉ reads) (h : w.Within c calm X) :
    Outcome (Within c calm X) (· ≠ Fault.fd) (w.connectionOnReadEvent c reads) := by
  refine (delivers hX hjoin).reads.onReadEvent hheard (fun _ {_} h' => h'.checkCloseEntity hX)
    (fun hmem {_} h' => ?_) (fun _ => by decide) (by decide) h
  by_cases hcalm : calm
  · exact absurd hmem (hopen hcalm)
  · obtain rfl : calm = False := eq_false hcalm
    exact h'.closeFd hX

/-- A connection that is closed hands on what it has read: its entity closes, or some of the
    last frame is missing. -/
theorem deliver_closed (h : w.Within c False fun x => ¬x.fd > 0)
    (hne : (w.connections c).fdReadBuffer ≠ []) :
    Outcome (fun w' => w'.Linked c True ∨
      (w'.connections c).fdClosed = true ∧ (w'.connections c).fdReadBuffer ≠ [])
      (· ≠ Fault.fd) (w.deliver c) := by
  have hfrom : Delivers c (fun _ => True) (Within c False fun x => ¬x.fd > 0) (· ≠ Fault.fd) :=
    delivers SelfOp.closed fun s _ _ _ _ hfd => ⟨hfd, hfd⟩
  rw [deliver_eq]
  refine (hfrom.reads.handFrames (fun _ _ _ => trivial) h).bind fun w₁ h₁ => ?_
  have hset := h₁.note SelfOp.closed (.setReadBuffer [])
  split_ifs with hlast
  · have hrb : ((w₁.updateConnection c (.setReadBuffer [])).connections c).fdReadBuffer = [] := by
      rw [updateConnection_self]
      rfl
    refine (hset.checkCloseEntity_closed SelfOp.closed hset.self hrb).bind fun w₂ h₂ => ?_
    exact .inl (h₂.1.linked.note (.setReadBuffer _))
  · refine .inr ?_
    rw [updateConnection_self]
    refine ⟨(h₁.linked.consistent c).fdClosed h₁.self, fun hnil => hlast ⟨fun hframes => ?_, hnil⟩⟩
    have hall := Framing.drain_snd_of_fst_nil hframes
    exact hne (hall.symm.trans hnil)

/-- The connection reads up to the end of the stream, and is in no list then, unless there is
    nothing to read and it has a server. -/
theorem onReadEvent_eof (h : w.Within c True fun _ => True) (hfd : (w.connections c).fd > 0)
    {reads : List ReadResult} (heof : .eof ∈ reads)
    (hdata : ReadResult.bytes reads = [] → (w.connections c).fdReadBuffer = [] →
      (w.connections c).server = none) :
    Outcome (fun w' => w'.Linked c True) (· ≠ Fault.fd) (w.connectionOnReadEvent c reads) := by
  have hset := h.note (fun _ _ => trivial)
    (.setReadBuffer ((w.connections c).fdReadBuffer ++ ReadResult.bytes reads))
  have hclosed := hset.closeFd fun _ _ => trivial
  rw [connectionOnReadEvent, if_pos hfd]
  -- the descriptor is closed, then the frames are handed on, then the last check is made
  refine Outcome.bind (P := fun w' => w'.Within c False (fun x => ¬x.fd > 0) ∧
    (w'.connections c).fdReadBuffer = (w.connections c).fdReadBuffer ++ ReadResult.bytes reads ∧
    (w'.connections c).server = (w.connections c).server) ?_ fun w₁ h₁ =>
      Outcome.bind (P := fun w' => w'.Linked c True ∨ (w'.connections c).fdClosed = true ∧
        (w'.connections c).fdReadBuffer ≠ []) ?_ fun w₂ h₂ => ?_
  · rw [if_pos heof]
    split_ifs
    · refine ⟨⟨hclosed.linked, hclosed.made, False.elim, ?_⟩, ?_, ?_⟩
      · rw [updateConnection_self]
        exact SocketBase.closeFd_fd _
      · rw [updateConnection_self, TcpConnectionBase.closeFd, SocketBase.closeFd_fdReadBuffer,
          updateConnection_self]
        rfl
      · rw [updateConnection_self, updateConnection_self]
        rfl
    · exact (by decide : Fault.writeBuffer ≠ .fd)
  · split_ifs with hnil
    · -- nothing was read: there may be a part of a frame from before
      by_cases hrb : (w.connections c).fdReadBuffer = []
      · exact .inl (h₁.1.linked.of_noServer (h₁.2.2.trans (hdata hnil hrb)))
      · refine .inr ⟨(h₁.1.linked.consistent c).fdClosed h₁.1.self, ?_⟩
        rw [h₁.2.1, hnil, List.append_nil]
        exact hrb
    · refine h₁.1.deliver_closed ?_
      rw [h₁.2.1]
      exact List.append_ne_nil_of_right_ne_nil _ hnil
  · split_ifs with hcheck
    · exact (by decide : Fault.readBuffer ≠ .fd)
    · -- a part of a frame that is left fails the check
      refine h₂.resolve_right fun hleft => hcheck ⟨hleft.1, fun hzero => hleft.2 ?_⟩
      exact List.length_eq_zero_iff.1 hzero

/-- Nothing is read of a descriptor that is closed. -/
theorem onReadEvent_of_closed (hfd : ¬(w.connections c).fd > 0) (reads : List ReadResult) :
    w.connectionOnReadEvent c reads = w.connectionOnReadEvent c [] := by
  rw [connectionOnReadEvent, connectionOnReadEvent, if_neg hfd, ite_self]

/-- The connection is readable, and no more. -/
theorem readable (h : w.Within c True fun _ => True) {reads : List ReadResult}
    (hdata : .eof ∈ reads → ReadResult.bytes reads = [] →
      (w.connections c).fdReadBuffer = [] → (w.connections c).server = none) :
    Outcome (fun w' => w'.Linked c True) (· ≠ Fault.fd) (w.connectionOnReadEvent c reads) := by
  have hopen : ∀ {reads : List ReadResult}, .eof ∉ reads →
      Outcome (fun w' => w'.Linked c True) (· ≠ Fault.fd) (w.connectionOnReadEvent c reads) := by
    intro reads heof
    have hread := h.onReadEvent (fun _ _ => trivial) (fun _ => True)
      (fun _ _ _ _ _ _ => ⟨trivial, trivial⟩) reads (fun _ _ _ => trivial) fun _ => heof
    exact hread.mono (fun w' h' => h'.linked) fun _ he => he
  by_cases hfd : (w.connections c).fd > 0
  · by_cases heof : .eof ∈ reads
    · exact h.onReadEvent_eof hfd heof (hdata heof)
    · exact hopen heof
  · rw [onReadEvent_of_closed hfd]
    exact hopen List.not_mem_nil

/-- The connection is hung up: it leaves its server, or it had none. -/
theorem hangup (hX : ∀ {f x}, SelfOp f → X x → X (f x)) (hears : Bytes → Prop)
    (hjoin : ∀ {x data} s, hears data → data.head? = some proxyMessageMeta →
      x.role = .connectionLeft → x.uuid = 0 → X x → X { x with uuid := (readMeta data).1 } ∧
        X ({ x with uuid := (readMeta data).1 }.joined s))
    (hheard : ∀ f ∈ (w.frames c).1, f.offset < kReserveOffset → hears f.payload)
    (hend : w.rest c = [] ∨ ∀ x, X x → x.server = none) (h : w.Within c False X) :
    Outcome (Linked c True) (· ≠ Fault.fd) (w.connectionPart c .hangup) := by
  rw [World.connectionPart.eq_def]
  cases (w.connections c).role with
  | connectionLeft =>
    have hdeliver := ((delivers hX hjoin).reads.deliver hheard
      (fun _ {_} h' => h'.checkCloseEntity hX) h).and (deliver_rest c w)
    refine hdeliver.bind fun w₁ h₁ => Outcome.bind (P := Linked c True) ?_ fun w₂ h₂ => ?_
    · have hclosed := h₁.1.closeFd hX
      rcases hend with hrest | hnone
      · -- with nothing unread it closes its entity, which takes it out of the list
        refine (hclosed.checkCloseEntity_closed hX ?_ ?_).mono (fun _ h' => h'.1.linked)
          fun _ he => he
        · rw [updateConnection_self]
          exact SocketBase.closeFd_fd _
        · rw [updateConnection_self, TcpConnectionBase.closeFd, SocketBase.closeFd_fdReadBuffer,
            h₁.2, hrest]
      · exact (hclosed.checkCloseEntity hX).mono
          (fun _ h' => h'.linked.of_noServer (hnone _ h'.self)) fun _ he => he
    · split_ifs
      · exact h₂
      · exact (by decide : Fault.writeBuffer ≠ .fd)
  | connectionRight =>
    have hclosed := h.closeFd hX
    refine (closeEntity hX hclosed.linked hclosed.made hclosed.self).bind fun w₁ h₁ => ?_
    split_ifs
    · exact h₁.1.linked
    · exact (by decide : Fault.writeBuffer ≠ .fd)

end Within

/-! ### Connections that are orphaned -/

/-- The event closes the descriptor of a connection that a server has, and not its entity: it
    reads the end of the stream and nothing else, and is not hung up; or it is a
    `TcpConnectionLeft` that is hung up and has a part of a frame, with a server or a message
    that gives it one. -/
def Orphans (w : World) : Event → Prop
  | .connection c input _ hup reads =>
    hup = false ∧ input = true ∧ .eof ∈ reads ∧ ReadResult.bytes reads = [] ∧
        (w.connections c).fdReadBuffer = [] ∧ (w.connections c).server ≠ none ∨
      hup = true ∧ (w.connections c).role = .connectionLeft ∧
        (w.framesOf c input reads).2 ≠ [] ∧
        ((w.connections c).server ≠ none ∨ (w.connections c).uuid = 0 ∧
          ∃ f ∈ (w.framesOf c input reads).1, IsSession f)
  | _ => False

section parts

variable {w : World} {c : ℕ} {input output : Bool} {reads : List ReadResult}

theorem linked_writes {calm : Prop} : Writes (Linked c calm) (· ≠ Fault.fd) where
  packet := by decide
  deleted := by decide
  calls _ h := h.answers
  write _ _ hop h := h.write hop

theorem Linked.writable {calm : Prop} (h : w.Linked c calm) :
    Outcome (Linked c calm) (· ≠ Fault.fd) (w.connectionPart c .writable) := by
  refine linked_writes.writable (fun h' => h'.note .connected) (fun {w s} _ h' => ?_) h
  have hperm := (w.servers s).connections_proxyConnected c
  refine proxyConnected_outcome (by decide) h' ?_
  exact h'.updateServer (by decide) (fun c' hc => hperm.mem_iff.1 hc)
    (fun c' hc => (w.servers s).waitList_proxyConnected c hc) (hperm.nodup_iff.2 (h'.nodup s))

namespace Within

/-- A `TcpConnectionLeft` that is not hung up. -/
theorem parts_left (h : w.Within c True fun _ => True)
    (hdata : input = true → .eof ∈ reads → ReadResult.bytes reads = [] →
      (w.connections c).fdReadBuffer = [] → (w.connections c).server = none) :
    Outcome (Linked c True) (· ≠ Fault.fd)
      ((World.connectionParts .connectionLeft input output false reads).foldlM
        (fun w part => w.connectionPart c part) w) := by
  rw [World.connectionParts, if_neg Bool.false_ne_true, List.append_nil, List.foldlM_append]
  refine Outcome.bind (P := Linked c True) ?_ fun w₁ h₁ => ?_
  · refine Outcome.foldlM_ite (fun hin => ?_) fun _ => h.linked
    rw [World.connectionPart.eq_def]
    exact h.readable (hdata hin)
  · exact Outcome.foldlM_ite (fun _ => h₁.writable) fun _ => h₁

/-- A `TcpConnectionLeft` that is hung up. -/
theorem parts_left_hangup {X : TcpConnectionBase → Prop}
    (hX : ∀ {f x}, SelfOp f → X x → X (f x)) (hears : Bytes → Prop)
    (hjoin : ∀ {x data} s, hears data → data.head? = some proxyMessageMeta →
      x.role = .connectionLeft → x.uuid = 0 → X x → X { x with uuid := (readMeta data).1 } ∧
        X ({ x with uuid := (readMeta data).1 }.joined s))
    (hheard : ∀ f ∈ (w.framesOf c input reads).1, f.offset < kReserveOffset → hears f.payload)
    (hend : (w.framesOf c input reads).2 = [] ∨ ∀ x, X x → x.server = none)
    (hfd : (w.connections c).fd > 0) (h : w.Within c False X) :
    Outcome (Linked c True) (· ≠ Fault.fd)
      ((World.connectionParts .connectionLeft input output true reads).foldlM
        (fun w part => w.connectionPart c part) w) := by
  -- what is left to read is known before the hangup is handled, and the writing keeps it
  let After := fun w' : World => w'.Within c False X ∧
    (w'.frames c).1 ⊆ (w.framesOf c input reads).1 ∧ w'.rest c = (w.framesOf c input reads).2
  rw [World.connectionParts, List.foldlM_append, List.foldlM_append, bind_assoc]
  refine Outcome.bind (P := After) ?_ fun w₁ h₁ => Outcome.bind (P := After) ?_ fun w₂ h₂ => ?_
  · refine Outcome.foldlM_ite (fun hin => ?_) fun hin => ⟨h, ?_⟩
    · have hof : w.framesOf c input reads = w.framesRead c reads := by
        rw [framesOf, if_pos hin]
      rw [hof] at hheard
      have hread := (h.onReadEvent hX hears hjoin reads hheard False.elim).and
        (onReadEvent_frames hfd reads)
      rw [World.connectionPart.eq_def]
      refine hread.mono (fun w' h' => ?_) fun _ he => he
      exact ⟨h'.1, hof ▸ h'.2⟩
    · rw [hin, framesOf_false]
      exact ⟨List.Subset.refl _, rfl⟩
  · refine Outcome.foldlM_ite (fun _ => ?_) fun _ => h₁
    refine ((h₁.1.writable hX).and (writable_readBuffer c w₁)).mono (fun w' h' => ?_) fun _ he => he
    have hframes : w'.frames c = w₁.frames c := by rw [frames, frames, h'.2]
    refine ⟨h'.1, ?_⟩
    rw [rest, hframes]
    exact h₁.2
  · refine Outcome.foldlM_ite (fun _ => ?_) fun hhup => Bool.noConfusion hhup
    refine h₂.1.hangup hX hears hjoin (fun f hf => hheard f (h₂.2.1 hf)) ?_
    rw [h₂.2.2]
    exact hend

/-- A `TcpConnectionRight`: a hangup comes first. -/
theorem parts_right {hup : Bool} (h : w.Within c True fun _ => True)
    (hrole : (w.connections c).role = .connectionRight)
    (hdata : hup = false → input = true → .eof ∈ reads → ReadResult.bytes reads = [] →
      (w.connections c).fdReadBuffer = [] → (w.connections c).server = none) :
    Outcome (Linked c True) (· ≠ Fault.fd)
      ((World.connectionParts .connectionRight input output hup reads).foldlM
        (fun w part => w.connectionPart c part) w) := by
  -- when the connection is hung up, it has no server then
  let After := fun w' : World => w'.Within c True (fun x => x.role = .connectionRight) ∧
    (hup = true → (w'.connections c).server = none) ∧
    (hup = false → (w'.connections c).server = (w.connections c).server ∧
      (w'.connections c).fdReadBuffer = (w.connections c).fdReadBuffer)
  have hright : w.Within c True fun x => x.role = .connectionRight :=
    ⟨h.linked, h.made, h.opened, hrole⟩
  rw [World.connectionParts, List.foldlM_append, List.foldlM_append, bind_assoc]
  refine Outcome.bind (P := After) ?_ fun w₁ h₁ => Outcome.bind (P := After) ?_ fun w₂ h₂ => ?_
  · refine Outcome.foldlM_ite (fun hhup => ?_)
      fun hhup => ⟨hright, fun hh => ?_, fun _ => ⟨rfl, rfl⟩⟩
    · have hclosed := hright.closeFd SelfOp.role
      rw [World.connectionPart.eq_def, hrole]
      refine (closeEntity (X := fun x => x.role = .connectionRight) SelfOp.role hclosed.linked
        hclosed.made hclosed.self).bind fun w₁ h₁ => ?_
      split_ifs
      · exact ⟨h₁.1, fun _ => h₁.2, fun hh => absurd (hhup.symm.trans hh) (by decide)⟩
      · exact (by decide : Fault.writeBuffer ≠ .fd)
    · exact absurd (hhup.symm.trans hh) (by decide)
  · refine Outcome.foldlM_ite (fun _ => ?_) fun _ => h₁
    refine (((h₁.1.writable SelfOp.role).and (writable_server c w₁)).and
      (writable_readBuffer c w₁)).mono (fun w' h' => ?_) fun _ he => he
    refine ⟨h'.1.1, fun hh => h'.1.2.trans (h₁.2.1 hh), fun hh => ?_⟩
    exact ⟨h'.1.2.trans (h₁.2.2 hh).1, h'.2.trans (h₁.2.2 hh).2⟩
  · have hany : w₂.Within c True fun _ => True := ⟨h₂.1.linked, h₂.1.made, h₂.1.opened, trivial⟩
    refine Outcome.foldlM_ite (fun hin => ?_) fun _ => h₂.1.linked
    rw [World.connectionPart.eq_def]
    refine hany.readable fun heof hbytes hrb => ?_
    by_cases hhup : hup = true
    · exact h₂.2.1 hhup
    · rw [Bool.not_eq_true] at hhup
      obtain ⟨hserver, hbuffer⟩ := h₂.2.2 hhup
      rw [hserver]
      exact hdata hhup hin heof hbytes (hbuffer.symm.trans hrb)

end Within

/-- An event of a connection that orphans none. -/
theorem Linked.connection {hup : Bool} (h : w.Linked c True) (hfd : (w.connections c).fd > 0)
    (horphans : ¬w.Orphans (.connection c input output hup reads)) :
    Outcome (Linked c True) (· ≠ Fault.fd)
      ((World.connectionParts (w.connections c).role input output hup reads).foldlM
        (fun w part => w.connectionPart c part) w) := by
  have hwithin : ∀ (calm : Prop) (X : TcpConnectionBase → Prop), X (w.connections c) →
      w.Within c calm X := fun calm X hself =>
    ⟨h.weaken c calm, h.made c hfd, fun _ => .inl hfd, hself⟩
  rw [Orphans, not_or] at horphans
  obtain ⟨hended, hhung⟩ := horphans
  -- a connection that ends without a byte has no server that could list it
  have hdata : hup = false → input = true → .eof ∈ reads → ReadResult.bytes reads = [] →
      (w.connections c).fdReadBuffer = [] → (w.connections c).server = none := by
    intro hhup hin heof hbytes hrb
    by_contra hserver
    exact hended ⟨hhup, hin, heof, hbytes, hrb, hserver⟩
  cases hrole : (w.connections c).role with
  | connectionRight => exact (hwithin True _ trivial).parts_right hrole hdata
  | connectionLeft =>
    cases hup with
    | false => exact (hwithin True _ trivial).parts_left (hdata rfl)
    | true =>
      by_cases hrest : (w.framesOf c input reads).2 = []
      · -- all that was read is frames, after which it closes with its entity
        exact (hwithin False (fun _ => True) trivial).parts_left_hangup (fun _ _ => trivial)
          (fun _ => True) (fun _ _ _ _ _ _ => ⟨trivial, trivial⟩) (fun _ _ _ => trivial)
          (.inl hrest) hfd
      · -- the connection has no server, and gets none
        have hnone : ¬((w.connections c).server ≠ none ∨ (w.connections c).uuid = 0 ∧
            ∃ f ∈ (w.framesOf c input reads).1, IsSession f) :=
          fun hserver => hhung ⟨rfl, hrole, hrest, hserver⟩
        rw [not_or, ne_eq, not_not] at hnone
        let X := fun x : TcpConnectionBase => x.server = none ∧
          ((w.connections c).uuid ≠ 0 → x.uuid ≠ 0)
        have hX : ∀ {f x}, SelfOp f → X x → X (f x) := by
          intro f x hop hx
          exact ⟨hop.server hx.1, fun hne => (hop.uuid x).symm ▸ hx.2 hne⟩
        refine (hwithin False X ⟨hnone.1, id⟩).parts_left_hangup hX
          (fun data => data.head? = some proxyMessageMeta → (w.connections c).uuid ≠ 0) ?_ ?_
          (.inr fun x hx => hx.1) hfd
        · intro x data s hheard hmeta _ huuid hx
          exact absurd huuid (hx.2 (hheard hmeta))
        · intro f hf hoff hmeta huuid
          exact hnone.2 ⟨huuid, f, hf, hoff, hmeta⟩

end parts

/-! ## Events -/

section unrejoined

variable {w : World} {s : ℕ}

theorem unrejoined_writes : Writes Unrejoined fun _ => True where
  packet := trivial
  deleted := trivial
  calls _ h := h
  write c _ hop h := h.update ((hop.same _).1.trans (h c))

/-- A server that closes gives no connection a server. -/
theorem Unrejoined.serverCloseEntity (h : w.Unrejoined) :
    Outcome Unrejoined (fun _ => True) (w.serverCloseEntity s) := by
  refine unrejoined_writes.serverCloseEntity (fun c h' => h'.update (h' c)) ?_ fun h' => ?_
  · exact updateServer_outcome trivial fun _ => h
  · exact updateServer_outcome trivial fun _ => h'

theorem Unrejoined.newConnection {x : TcpConnectionBase} (hx : x.rejoined = false)
    (h : w.Unrejoined) : (w.newConnection x).Unrejoined := by
  have hcount : ({ w with connectionCount := w.connectionCount + 1 } : World).Unrejoined := h
  exact hcount.update hx

end unrejoined

/-- The lists of all servers, with connections that were given one server at most. -/
structure Ready (w : World) : Prop where
  linked : w.Linked 0 True
  unrejoined : w.Unrejoined

namespace Ready

variable {w : World} {c s : ℕ}

/-- A server that leaves its lists as they are. -/
theorem sameLists {f : TpServerBase → TpServerBase} (h : w.Ready)
    (hready : (f (w.servers s)).readyList = (w.servers s).readyList)
    (hwait : (f (w.servers s)).waitList = (w.servers s).waitList) :
    Outcome Ready (· ≠ Fault.fd) (w.updateServer s f) := by
  have hsingle : Outcome Unrejoined (fun _ => True) (w.updateServer s f) :=
    updateServer_outcome trivial fun _ => h.unrejoined
  exact ((h.linked.sameLists (by decide) hready hwait).and hsingle).mono (fun w' h' => ⟨h'.1, h'.2⟩)
    fun _ he => he

theorem writes : Writes Ready (· ≠ Fault.fd) where
  packet := by decide
  deleted := by decide
  calls _ h := ⟨h.linked.answers, h.unrejoined⟩
  write c _ hop h := ⟨h.linked.write hop, unrejoined_writes.write c hop h.unrejoined⟩

theorem serverCloseEntity (h : w.Ready) :
    Outcome Ready (· ≠ Fault.fd) (w.serverCloseEntity s) :=
  (h.linked.serverCloseEntity.and h.unrejoined.serverCloseEntity).mono
    (fun _ h' => ⟨h'.1, h'.2⟩) fun _ he => he

/-- A server sends data over connections that are ready. -/
theorem schedule (share : ℕ → ℕ → ℕ) (h : w.Ready) :
    Outcome Ready (· ≠ Fault.fd) (w.schedule s share) := by
  -- the list stays as it is
  let Same := fun w' : World => w'.Ready ∧ (w'.servers s).readyList = (w.servers s).readyList
  have hwrites : Writes Same (· ≠ Fault.fd) :=
    ⟨by decide, by decide, fun calls h' => ⟨writes.calls calls h'.1, h'.2⟩,
      fun c _ hop h' => ⟨writes.write c hop h'.1, h'.2⟩⟩
  have hserver : ∀ {f : TpServerBase → TpServerBase} {w' : World}, Same w' →
      (∀ x, (f x).readyList = x.readyList ∧ (f x).waitList = x.waitList) →
      Outcome Same (· ≠ Fault.fd) (w'.updateServer s f) := by
    intro f w' h' hf
    have hlist : Outcome (fun w'' => (w''.servers s).readyList = (w.servers s).readyList)
        (fun _ => True) (w'.updateServer s f) := by
      refine updateServer_outcome trivial fun _ => ?_
      change ((w'.setServer s _).servers s).readyList = _
      rw [setServer_self, (hf _).1, h'.2]
    exact (h'.1.sameLists (hf _).1 (hf _).2).and hlist
  refine (schedule_outcome (P := Same) (fun c hc w' offset pv h' => ?_)
    (fun _ h' => hserver h' fun _ => ⟨rfl, rfl⟩) (fun _ h' => hserver h' fun _ => ⟨rfl, rfl⟩)
    share ⟨h, rfl⟩).mono (fun w' h' => h'.1) fun _ he => he
  refine hwrites.sendData (.inl ?_) offset pv h'
  have hlisted : c ∈ (w'.servers s).connections := List.mem_append_left _ (h'.2 ▸ hc)
  exact (h'.1.linked.usable s c hlisted (h'.1.unrejoined c) (.inl trivial)).fd

theorem serves : Serves Ready (· ≠ Fault.fd) where
  toWrites := writes
  server s _ hop h :=
    have hlists := TpServerBase.serverOp_lists hop _
    h.sameLists hlists.1 hlists.2
  checkCloseEntity s h := by
    rw [serverCheckCloseEntity]
    split_ifs
    · exact h.serverCloseEntity
    · exact h
  schedule s share h := h.schedule share

theorem serverPart (part : ServerPart) (h : w.Ready) :
    Outcome Ready (· ≠ Fault.fd) (w.serverPart s part) := by
  by_cases hpart : part = .hangup
  · have hclosed : Outcome Ready (· ≠ Fault.fd) (w.updateServer s .closeFd) :=
      h.sameLists rfl rfl
    subst hpart
    rw [World.serverPart.eq_def]
    cases (w.servers s).role with
    | serverLeft => exact hclosed.bind fun w₁ h₁ => serves.checkCloseEntity s h₁
    | serverRight => exact hclosed.bind fun w₁ h₁ => h₁.serverCloseEntity
  · exact serves.serverPart s hpart h

/-! ### New objects -/

theorem newConnection {x : TcpConnectionBase} (h : w.Ready) (hx : x.Consistent)
    (hrejoined : x.rejoined = false) : (w.newConnection x).Ready :=
  ⟨(h.linked.newConnection hx).1, h.unrejoined.newConnection hrejoined⟩

/-- A connection that starts waits in the list of its server. -/
theorem wait (h : w.Ready) (hmade : c < w.connectionCount)
    (hun : ∀ s, c ∉ (w.servers s).connections)
    (hrole : (w.connections c).role = .connectionRight)
    (hserver : (w.connections c).server = some s) (husable : (w.connections c).Usable) :
    Outcome Ready (· ≠ Fault.fd)
      (w.updateServer s fun x => { x with waitList := x.waitList ++ [c] }) := by
  refine updateServer_outcome (by decide) fun sessions => ⟨?_, h.unrejoined⟩
  have hmem : ∀ c' ∈ (w.servers s).readyList ++ ((w.servers s).waitList ++ [c]),
      c' ∈ (w.servers s).connections ∨ c' = c := by
    intro c' hc
    rwa [← List.append_assoc, List.mem_append, List.mem_singleton] at hc
  refine h.linked.relist rfl rfl rfl ?_ (fun c' hc => ?_) fun c' hc => ?_
  · rw [TpServerBase.connections]
    dsimp only
    rw [← List.append_assoc]
    exact (h.linked.nodup s).append (List.nodup_singleton c) (List.disjoint_singleton.2 (hun s))
  · rcases List.mem_append.1 hc with hc | hc
    · exact h.linked.waiting s c' hc
    · rw [List.mem_singleton.1 hc]
      exact hrole
  · rcases hmem c' hc with hc | rfl
    · exact ⟨h.linked.listed s c' hc, fun hr => ⟨h.linked.server s c' hc hr,
        h.linked.usable s c' hc hr⟩⟩
    · exact ⟨hmade, fun _ => ⟨hserver, fun _ => husable⟩⟩

theorem createConnection (uuid sid : UInt64) (originDst : OriginDst) (start : SocketStart)
    (h : w.Ready) : Outcome Ready (· ≠ Fault.fd)
      (World.createConnection s uuid sid originDst w start) := by
  have hnew : (TcpConnectionBase.newRight s uuid sid originDst).Consistent :=
    .inl ⟨Int.one_pos, rfl, rfl⟩
  have hready := h.newConnection hnew rfl
  have hself : (w.newConnection (.newRight s uuid sid originDst)).connections w.connectionCount =
      .newRight s uuid sid originDst := Function.update_self ..
  have hun := (h.linked.newConnection hnew).2
  rw [World.createConnection]
  split_ifs
  · exact h
  · refine ⟨hready.linked.update ?_ (fun hpos => ?_) rfl fun s' hc => absurd hc (hun s'),
      hready.unrejoined.update (hready.unrejoined _)⟩
    · rw [hself]
      exact .inr ⟨(by decide : ¬(-1 : ℤ) > 0), rfl, rfl⟩
    · rw [hself] at hpos
      exact absurd hpos (by decide : ¬(-1 : ℤ) > 0)
  · have hconnecting : ((w.newConnection (.newRight s uuid sid originDst)).updateConnection
        w.connectionCount ({ · with connecting := true })).Ready :=
      ⟨hready.linked.keep (hready.linked.consistent _) id rfl rfl rfl fun _ hu =>
        ⟨hu.fd, hu.fdWaitClose, hu.entityClosed⟩, hready.unrejoined.update (hready.unrejoined _)⟩
    refine hconnecting.wait (Nat.lt_succ_self _) hun ?_ ?_ ?_
    · rw [updateConnection_self, hself]
      rfl
    · rw [updateConnection_self, hself]
      rfl
    · rw [updateConnection_self, hself]
      exact ⟨Int.one_pos, rfl, rfl⟩

theorem createEndpoint (originDst : OriginDst) (starts : List SocketStart) (h : w.Ready) :
    Outcome Ready (· ≠ Fault.fd) (w.createEndpoint originDst starts) := by
  have hnew : ({ w with sid := w.sid + 1 }.newServer (.newLeft originDst)).Ready := by
    refine ⟨?_, h.unrejoined⟩
    refine h.linked.relist (s := w.serverCount) rfl rfl rfl List.nodup_nil (fun c' hc => ?_)
      fun c' hc => ?_
    · exact absurd hc List.not_mem_nil
    · exact absurd hc List.not_mem_nil
  rw [World.createEndpoint]
  split_ifs
  · exact (by decide : Fault.addresses ≠ .fd)
  · exact hnew.sameLists rfl rfl
  · refine (hnew.sameLists rfl rfl).bind fun w₁ h₁ => ?_
    refine (Outcome.foldlM (fun w' start h' => h'.createConnection _ _ originDst start) starts
      h₁).bind fun w₂ h₂ => ?_
    split_ifs
    · exact (h₂.sameLists rfl rfl).bind fun w₃ h₃ => h₃.serverCloseEntity
    · exact h₂

/-- An event that orphans no connection, and gives none a second server. -/
theorem handle {e : Event} (horphans : ¬w.Orphans e) (hrejoins : ¬w.Rejoins e) (h : w.Ready) :
    Outcome Ready (· ≠ Fault.fd) (w.handle e) := by
  cases e with
  | createEndpoint originDst starts => exact h.createEndpoint originDst starts
  | acceptPath => exact h.newConnection (.inl ⟨Int.one_pos, rfl, rfl⟩) rfl
  | connection c input output hup reads =>
    rw [World.handle]
    split_ifs with hfd
    · have hlinked := (h.linked.weaken c True).connection hfd horphans
      exact (hlinked.and (rejoined_connection h.unrejoined hfd hrejoins)).mono
        (fun w' h' => ⟨h'.1.weaken 0 True, h'.2⟩) fun _ he => he
    · exact h
  | server s input output hup target reads =>
    rw [World.handle]
    split_ifs
    · exact Outcome.foldlM (fun w part h => h.serverPart part) _ h
    · exact h
  | budgetAlarm s target reads share =>
    rw [World.handle]
    split_ifs
    · exact serves.serverOnBudgetAlarm s target reads share h
    · exact h
  | deleteConnection c =>
    refine ⟨h.linked.keep (h.linked.consistent c) id rfl rfl rfl fun _ hu =>
      ⟨hu.fd, hu.fdWaitClose, hu.entityClosed⟩, h.unrejoined.update (h.unrejoined c)⟩
  | deleteServer s =>
    rw [World.handle]
    exact h.sameLists rfl rfl
  | peerSends s data =>
    rw [World.handle]
    refine h.sameLists ?_ ?_
    · split_ifs <;> rfl
    · split_ifs <;> rfl
  | peerCloses s =>
    rw [World.handle]
    exact h.sameLists rfl rfl

theorem empty (uuid : UInt64) : (World.empty uuid).Ready := by
  have hclosed : ¬(-1 : ℤ) > 0 := by decide
  exact ⟨⟨fun _ => .inr ⟨hclosed, rfl, rfl⟩, fun _ hfd => absurd hfd hclosed,
    fun _ _ hc => absurd hc List.not_mem_nil, fun _ => List.nodup_nil,
    fun _ _ hc => absurd hc List.not_mem_nil, fun _ _ hc => absurd hc List.not_mem_nil,
    fun _ _ hc => absurd hc List.not_mem_nil⟩, fun _ => rfl⟩

end Ready

/-- In a run in which no event orphans a connection or gives one a second server, a connection
    that is ready is listed once, is open, has not posted its deletion and points back to its
    server; and no event, of this kind, sends data to a closed descriptor. -/
theorem ready_usable {w : World}
    (h : (system fun w i => ¬w.Orphans i.event ∧ ¬w.Rejoins i.event).Reachable w) :
    (∀ s, (w.servers s).readyList.Nodup ∧ ∀ c ∈ (w.servers s).readyList,
      (w.connections c).fd > 0 ∧ (w.connections c).destroyed = false ∧
        (w.connections c).server = some s) ∧
    ∀ i : Input, ¬w.Orphans i.event → ¬w.Rejoins i.event → w.step i ≠ .error .fd := by
  have hstep : ∀ {w : World} (i : Input), ¬w.Orphans i.event → ¬w.Rejoins i.event → w.Ready →
      Outcome Ready (· ≠ Fault.fd) (w.step i) := by
    intro w i horphans hrejoins hw
    have hset : ({ w with calls := i.calls, starts := i.starts } : World).Ready :=
      ⟨hw.linked.answers, hw.unrejoined⟩
    exact hset.handle horphans hrejoins
  have hready : w.Ready := by
    refine h.invariant (P := Ready) ?_ fun w w' _ hw hnext => ?_
    · rintro w ⟨uuid, rfl⟩
      exact Ready.empty uuid
    · obtain ⟨i, ⟨horphans, hrejoins⟩, hi⟩ := hnext
      exact (hstep i horphans hrejoins hw).of_ok hi
  refine ⟨fun s => ⟨(List.nodup_append.1 (hready.linked.nodup s)).1, fun c hc => ?_⟩,
    fun i ho hr he => ?_⟩
  · have hlisted : c ∈ (w.servers s).connections := List.mem_append_left _ hc
    have husable := hready.linked.usable s c hlisted (hready.unrejoined c) (.inl trivial)
    exact ⟨husable.fd, (hready.linked.consistent c).destroyed husable.fd,
      hready.linked.server s c hlisted (hready.unrejoined c)⟩
  · exact (hstep i ho hr hready).of_error he rfl

/-- A plain connection whose path connects. -/
def connects : List Input :=
  [{ event := .createEndpoint (some (1, 80)) [.started] }] ++
    [{ event := .connection 0 false true false [], calls := [{ flush := [.sent 1500] }] }]

/-- The path is told that the origin is connected, and is ready. -/
def getsReady : List Input :=
  connects ++ [{ event := .connection 0 true false false [.data 0 [1, 2]] }]

theorem ready_usable_path : ∃ w : World, (w.servers 0).readyList = [0] ∧
    (w.connections 0).fd > 0 ∧ (w.connections 0).server = some 0 := by
  have hmade : (List.foldlM step (empty 0) [{ event := .createEndpoint (some (1, 80)) [.started]
      }]).map (fun w => (w.connections 0).role) = .ok .connectionRight := by
    decide +kernel
  have hconnected : (connects.foldlM step (empty 0)).map (fun w => (w.connections 0).role) =
      .ok .connectionRight := by
    decide +kernel
  have hready : (getsReady.foldlM step (empty 0)).map (fun w => (w.servers 0).readyList) =
      .ok [0] := by
    decide +kernel
  obtain ⟨w₁, hw₁, hrole₁⟩ := exists_of_map_eq_ok hmade
  obtain ⟨w₂, hw₂, hrole₂⟩ := exists_of_map_eq_ok hconnected
  obtain ⟨w, hw, hlist⟩ := exists_of_map_eq_ok hready
  -- a `TcpConnectionRight` has its server from the start, and does not read the end here
  have hallowed : ∀ {w : World} {input output : Bool} {reads : List ReadResult},
      (w.connections 0).role = .connectionRight → .eof ∉ reads →
      ¬w.Orphans (.connection 0 input output false reads) ∧
        ¬w.Rejoins (.connection 0 input output false reads) := by
    intro w input output reads hrole heof
    refine ⟨?_, fun hrejoins => absurd (hrejoins.1.symm.trans hrole) (by decide)⟩
    rintro (hended | hhung)
    · exact heof hended.2.2.1
    · exact Bool.noConfusion hhung.1
  have hreach₁ : (system fun w i => ¬w.Orphans i.event ∧ ¬w.Rejoins i.event).Reachable w₁ :=
    reachable_of_step (.init ⟨0, rfl⟩) ⟨id, id⟩ (show List.foldlM step _ [] = _ from rfl) hw₁
  have hreach₂ := reachable_of_step hreach₁ (hallowed hrole₁ (by decide)) hw₁ hw₂
  have hreach := reachable_of_step hreach₂ (hallowed hrole₂ (by decide)) hw₂ hw
  obtain ⟨hfd, -, hserver⟩ := ((ready_usable hreach).1 0).2 0 (by rw [hlist]; decide)
  exact ⟨w, hlist, hfd, hserver⟩

/-- A path that is ready, and then ends with nothing to read, when the plain connection has
    data for it. -/
def endsReady : List Input :=
  getsReady ++ [{ event := .peerSends 0 [5] }, { event := .server 0 true false false 1500 [1] },
    { event := .connection 0 true false false [.eof] }]

theorem ready_closed : ∃ w : World, (system fun _ _ => True).Reachable w ∧
    0 ∈ (w.servers 0).readyList ∧ ¬(w.connections 0).fd > 0 ∧
    w.step { event := .budgetAlarm 0 1500 [] fun _ _ => 0 } = .error .fd := by
  have hrun : (endsReady.foldlM step (empty 0)).map (fun w => ((w.servers 0).readyList,
      (w.connections 0).fd)) = .ok ([0], -1) := by
    decide +kernel
  have halarm : (endsReady.foldlM step (empty 0) >>= fun w =>
      w.step { event := .budgetAlarm 0 1500 [] fun _ _ => 0 }).map (fun _ => ()) = .error .fd := by
    decide +kernel
  obtain ⟨w, hw, heq⟩ := exists_of_map_eq_ok hrun
  rw [Prod.mk.injEq] at heq
  obtain ⟨hready, hfd⟩ := heq
  rw [hw, ok_bind] at halarm
  refine ⟨w, reachable_of_run (fun _ _ _ => trivial) (.init ⟨0, rfl⟩) hw, ?_, ?_,
    eq_error_of_map halarm⟩
  · rw [hready]
    decide
  · rw [hfd]
    decide

end World

end Mpproxy

end DashDim
