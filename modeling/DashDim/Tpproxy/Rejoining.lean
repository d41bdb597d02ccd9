import DashDim.Tpproxy.Listed
import DashDim.Tpproxy.Reading

/-!
# Connections that are given a second server

A `TcpConnectionLeft` takes a session from a message if it has none yet, and a session whose
number is zero counts as none: a second message gives it another server then. It is also given
a server when it has been told to close.

* `handFrames_rejoined`: frames of which at most the first message is for a session that is
  zero give no connection a second server;
* `rejoined_connection`: nor does an event with such frames only.
-/

namespace DashDim

namespace Mpproxy

namespace World

/-- A message that gives a connection its session. -/
def IsSession (f : Frame) : Prop :=
  f.offset < kReserveOffset ∧ f.payload.head? = some proxyMessageMeta

/-- The session of a message is kept, or no other message comes after it. -/
def Last (f g : Frame) : Prop := IsSession f → IsSession g → (readMeta f.payload).1 ≠ 0

/-- The event gives a connection another server than it has, or one when it has to close: its
    session is zero, and so is that of a message with another one after it. -/
def Rejoins (w : World) : Event → Prop
  | .connection c input _ _ reads =>
    (w.connections c).role = .connectionLeft ∧ (w.connections c).uuid = 0 ∧
      ((∃ f ∈ (w.framesOf c input reads).1, IsSession f) ∧
          ((w.connections c).server ≠ none ∨ (w.connections c).fdWaitClose = true ∨
            (w.connections c).entityClosed = true) ∨
        ¬(w.framesOf c input reads).1.Pairwise Last)
  | _ => False

/-- No connection was given a second server. -/
def Unrejoined (w : World) : Prop := ∀ c, (w.connections c).rejoined = false

/-- No connection was given a second server; and the role of one of them. -/
structure Single (c : ℕ) (role : ConnectionRole) (w : World) : Prop where
  rejoined : w.Unrejoined
  role : (w.connections c).role = role

variable {w : World} {c : ℕ} {role : ConnectionRole}

theorem Unrejoined.update {c' : ℕ} {f : TcpConnectionBase → TcpConnectionBase}
    (hf : (f (w.connections c')).rejoined = false) (h : w.Unrejoined) :
    (w.updateConnection c' f).Unrejoined := by
  intro c''
  rcases eq_or_ne c'' c' with rfl | hne
  · rw [updateConnection_self, hf]
  · rw [updateConnection_ne w c' f hne]
    exact h c''

namespace Single

theorem update {c' : ℕ} {f : TcpConnectionBase → TcpConnectionBase}
    (hf : ∀ x, (f x).rejoined = x.rejoined ∧ (f x).role = x.role) (h : w.Single c role) :
    (w.updateConnection c' f).Single c role := by
  refine ⟨h.rejoined.update ((hf _).1.trans (h.rejoined c')), ?_⟩
  rcases eq_or_ne c c' with rfl | hne
  · rw [updateConnection_self, (hf _).2]
    exact h.role
  · rw [updateConnection_ne w c' f hne]
    exact h.role

/-- Servers have no part in it. -/
theorem congr {w' : World} (h : w.Single c role) (hconnections : w'.connections = w.connections) :
    w'.Single c role := by
  refine ⟨?_, ?_⟩
  · rw [Unrejoined, hconnections]
    exact h.rejoined
  · rw [hconnections]
    exact h.role

theorem notifyServer {s c' : ℕ} {signal : ProxySignal} (h : w.Single c role) :
    Outcome (Single c role) (fun _ => True) (w.notifyServer s c' signal) :=
  Outcome.intro (fun _ hw' => h.congr (notifyServer_connections hw')) fun _ _ => trivial

theorem closeFd (h : w.Single c role) : (w.updateConnection c .closeFd).Single c role :=
  h.update fun _ => ⟨rfl, rfl⟩

theorem closeEntity (h : w.Single c role) :
    Outcome (Single c role) (fun _ => True) (w.connectionCloseEntity c) := by
  have hset : (w.updateConnection c .setEntityClosed).Single c role := h.update fun _ => ⟨rfl, rfl⟩
  rw [connectionCloseEntity]
  refine Outcome.bind (P := Single c role) ?_ fun w₁ h₁ => h₁.update fun _ => ⟨rfl, rfl⟩
  split
  · exact hset
  · exact hset.notifyServer

theorem checkCloseEntity (h : w.Single c role) :
    Outcome (Single c role) (fun _ => True) (w.connectionCheckCloseEntity c) := by
  rw [connectionCheckCloseEntity]
  split_ifs
  · exact h.closeEntity
  · exact h

theorem writes : Writes (Single c role) fun _ => True where
  packet := trivial
  deleted := trivial
  calls _ h := ⟨h.rejoined, h.role⟩
  write _ _ hop h := h.update fun x => ⟨(hop.same x).1, (hop.same x).2.1⟩

theorem writable (h : w.Single c role) :
    Outcome (Single c role) (fun _ => True) (w.connectionPart c .writable) :=
  writes.writable (fun h' => h'.update fun _ => ⟨rfl, rfl⟩) (fun {_ _} _ h' => h'.notifyServer) h

end Single

/-! ## Sessions -/

/-- A connection that gets a server from frames at most once: it has a session, there is none
    in the frames, or it has had no server yet, and keeps its first session. -/
def JoinsOnce (fs : List Frame) (x : TcpConnectionBase) : Prop :=
  x.uuid ≠ 0 ∨ (∀ f ∈ fs, ¬IsSession f) ∨
    x.server = none ∧ x.fdWaitClose = false ∧ x.entityClosed = false ∧ fs.Pairwise Last

theorem JoinsOnce.tail {f : Frame} {fs : List Frame} {x : TcpConnectionBase}
    (h : JoinsOnce (f :: fs) x) : JoinsOnce fs x := by
  rcases h with huuid | hnone | ⟨hserver, hwait, hentity, hlast⟩
  · exact .inl huuid
  · exact .inr (.inl fun g hg => hnone g (List.mem_cons_of_mem f hg))
  · exact .inr (.inr ⟨hserver, hwait, hentity, (List.pairwise_cons.1 hlast).2⟩)

/-- A `TcpConnectionLeft` that has frames to hand on. -/
structure Joining (c : ℕ) (fs : List Frame) (w : World) : Prop extends
    Single c .connectionLeft w where
  joins : JoinsOnce fs (w.connections c)

/-- The connection has noted the session of a message. -/
structure Noted (c : ℕ) (uuid : UInt64) (w : World) : Prop extends
    Single c .connectionLeft w where
  uuid : (w.connections c).uuid = uuid

theorem noted_writes (c : ℕ) (uuid : UInt64) : Writes (Noted c uuid) fun _ => True where
  packet := trivial
  deleted := trivial
  calls _ h := ⟨⟨h.rejoined, h.role⟩, h.uuid⟩
  write {w} c' f hop h := by
    refine ⟨Single.writes.write c' hop h.toSingle, ?_⟩
    rcases eq_or_ne c c' with rfl | hne
    · rw [updateConnection_self, (hop.same _).2.2.1, h.uuid]
    · rw [updateConnection_ne w c' f hne, h.uuid]

/-- A frame that is no message for a session, to a connection that has none. -/
theorem handFrame_connections {f : Frame} (hrole : (w.connections c).role = .connectionLeft)
    (hno : IsSession f → (w.connections c).uuid ≠ 0) :
    Outcome (fun w' => w'.connections = w.connections) (fun _ => True) (w.handFrame c f) := by
  rw [handFrame]
  split_ifs with hoff hpos
  · rw [recvFrame]
    split
    · trivial
    · next s _ =>
      refine (useServer_outcome trivial w s).bind fun _ _ => ?_
      exact (updateServer_outcome (P := fun w' => w'.connections = w.connections) trivial
        fun _ => rfl).bind fun w' h' => h'
  · rw [parseMessage, hrole]
    dsimp only
    rw [parseMessageLeft, if_neg]
    · exact rfl
    · exact fun hmeta => hno ⟨UInt64.not_le.1 hoff, hmeta.1⟩ hmeta.2
  · exact rfl

theorem Single.session (uuid : UInt64) (h : w.Single c .connectionLeft) :
    (w.updateConnection c ({ · with uuid := uuid })).Noted c uuid := by
  refine ⟨h.update fun _ => ⟨rfl, rfl⟩, ?_⟩
  rw [updateConnection_self]

/-- A connection that had no server yet joins one. -/
theorem Single.join (s : ℕ) (uuid : UInt64) (h : w.Single c .connectionLeft)
    (hserver : (w.connections c).server = none) (hwait : (w.connections c).fdWaitClose = false)
    (hentity : (w.connections c).entityClosed = false) :
    ((w.updateConnection c ({ · with uuid := uuid })).updateConnection c (.joined s)).Noted c
      uuid := by
  have hset := h.session uuid
  refine ⟨⟨hset.rejoined.update ?_, ?_⟩, ?_⟩
  · rw [updateConnection_self, TcpConnectionBase.joined]
    dsimp only
    rw [hserver, hwait, hentity, h.rejoined c]
    rfl
  · rw [updateConnection_self]
    exact hset.role
  · rw [updateConnection_self]
    exact hset.uuid

/-- A message for a session, to a connection that had no server yet. -/
theorem handFrame_session {f : Frame} (hf : IsSession f) (h : w.Single c .connectionLeft)
    (huuid : (w.connections c).uuid = 0)
    (hserver : (w.connections c).server = none) (hwait : (w.connections c).fdWaitClose = false)
    (hentity : (w.connections c).entityClosed = false) :
    Outcome (Noted c (readMeta f.payload).1) (fun _ => True) (w.handFrame c f) := by
  have hjoined := fun s => h.join s (readMeta f.payload).1 hserver hwait hentity
  rw [handFrame, if_neg (UInt64.not_le.2 hf.1)]
  split_ifs with hpos
  · rw [parseMessage, h.role]
    dsimp only
    rw [parseMessageLeft, if_pos ⟨hf.2, huuid⟩]
    dsimp only
    split
    · next s hfind =>
      refine join_outcome trivial ?_ fun h' => (noted_writes c _).notifyConnected c h'
      exact updateServer_outcome trivial fun _ =>
        ⟨(hjoined s).toSingle.congr rfl, (hjoined s).uuid⟩
    · next hfind =>
      refine createServer_outcome hfind ?_ (fun _ => trivial) fun sessions _ => ?_
      · have hset := h.session (readMeta f.payload).1
        exact ⟨hset.toSingle.congr rfl, hset.uuid⟩
      · exact ⟨(hjoined _).toSingle.congr rfl, (hjoined _).uuid⟩
  · have hnil : f.payload = [] := List.length_eq_zero_iff.1 (Nat.eq_zero_of_not_pos hpos)
    rw [IsSession, hnil] at hf
    cases hf.2

/-- The connection hands on its frames. -/
theorem Joining.handFrames {fs : List Frame} (h : w.Joining c fs) :
    Outcome (Single c .connectionLeft) (fun _ => True) (fs.foldlM (handFrame c) w) := by
  induction fs generalizing w with
  | nil => exact h.toSingle
  | cons f fs ih =>
    rw [List.foldlM_cons]
    by_cases hjoin : IsSession f ∧ (w.connections c).uuid = 0
    · obtain ⟨hf, huuid⟩ := hjoin
      rcases h.joins with hne | hnone | ⟨hserver, hwait, hentity, hlast⟩
      · exact absurd huuid hne
      · exact absurd hf (hnone f List.mem_cons_self)
      · refine (handFrame_session hf h.toSingle huuid hserver hwait hentity).bind
          fun w₁ h₁ => ih ⟨h₁.toSingle, ?_⟩
        by_cases hzero : (readMeta f.payload).1 = 0
        · refine .inr (.inl fun g hg hsession => ?_)
          exact (List.pairwise_cons.1 hlast).1 g hg hf hsession hzero
        · exact .inl (h₁.uuid ▸ hzero)
    · refine (handFrame_connections h.role fun hf huuid => hjoin ⟨hf, huuid⟩).bind fun w₁ h₁ =>
        ih ⟨h.toSingle.congr h₁, ?_⟩
      rw [h₁]
      exact h.joins.tail

theorem Joining.deliver (h : w.Joining c (w.frames c).1) :
    Outcome (Single c .connectionLeft) (fun _ => True) (w.deliver c) := by
  rw [deliver_eq]
  refine h.handFrames.bind fun w₁ h₁ => Outcome.bind (P := Single c .connectionLeft) ?_
    fun w₂ h₂ => h₂.update fun _ => ⟨rfl, rfl⟩
  split_ifs
  · have hset : (w₁.updateConnection c (.setReadBuffer [])).Single c .connectionLeft :=
      h₁.update fun _ => ⟨rfl, rfl⟩
    exact hset.checkCloseEntity
  · exact h₁

/-! ## Events of connections -/

/-- What decides whether a connection is given a server. -/
def joinKey (x : TcpConnectionBase) : UInt64 × Option ℕ × Bool × Bool :=
  (x.uuid, x.server, x.fdWaitClose, x.entityClosed)

theorem JoinsOnce.congr {fs : List Frame} {x y : TcpConnectionBase} (h : JoinsOnce fs x)
    (hkey : joinKey y = joinKey x) : JoinsOnce fs y := by
  simp only [joinKey, Prod.mk.injEq] at hkey
  obtain ⟨huuid, hserver, hwait, hentity⟩ := hkey
  rw [JoinsOnce, huuid, hserver, hwait, hentity]
  exact h

theorem WriteOp.joinKey {f : TcpConnectionBase → TcpConnectionBase} (hop : WriteOp f)
    (x : TcpConnectionBase) : joinKey (f x) = joinKey x := by
  cases hop with
  | onWriteEvent answers =>
    have hwait := SocketBase.onWriteEvent_fdWaitClose answers x.toSocketBase
    have hentity := SocketBase.onWriteEvent_entityClosed answers x.toSocketBase
    rw [World.joinKey, World.joinKey, TcpConnectionBase.onWriteEvent]
    dsimp only
    rw [hwait, hentity]
  | setWriteBuffer wb => rfl
  | connectMsg => rfl

namespace Joining

variable {input output hup : Bool} {reads : List ReadResult}

/-- The connection reads: it hands on all of the frames, or none. -/
theorem onReadEvent (h : w.Joining c (w.framesRead c reads).1) (hfd : (w.connections c).fd > 0) :
    Outcome (fun w' => w'.Joining c (w'.frames c).1) (fun _ => True)
      (w.connectionOnReadEvent c reads) := by
  let Joins := fun w' : World => w'.Joining c (w'.frames c).1
  have hset : ((w.updateConnection c (.setReadBuffer ((w.connections c).fdReadBuffer ++
      ReadResult.bytes reads)))).Joining c (w.framesRead c reads).1 := by
    refine ⟨h.toSingle.update fun _ => ⟨rfl, rfl⟩, ?_⟩
    rw [updateConnection_self]
    exact h.joins
  rw [connectionOnReadEvent, if_pos hfd]
  refine Outcome.bind (P := Joins) ?_ fun w₁ h₁ => Outcome.bind (P := Joins) ?_ fun w₂ h₂ => ?_
  · split_ifs
    · refine ⟨hset.toSingle.closeFd, ?_⟩
      rw [frames, updateConnection_self, TcpConnectionBase.closeFd,
        SocketBase.closeFd_fdReadBuffer, updateConnection_self]
      refine hset.joins.congr ?_
      rw [updateConnection_self, joinKey, joinKey]
      dsimp only
      rw [SocketBase.closeFd_fdWaitClose, SocketBase.closeFd_entityClosed]
    · trivial
    · change Joining c _ _
      rw [frames, updateConnection_self]
      exact hset
  · split_ifs
    · exact h₁
    · refine (h₁.deliver.and (deliver_rest c w₁)).mono (fun w' h' => ⟨h'.1, ?_⟩) fun _ he => he
      rw [frames_of_rest h'.2]
      exact .inr (.inl fun f hf => absurd hf List.not_mem_nil)
  · split_ifs
    · trivial
    · exact h₂

theorem hangup (h : w.Joining c (w.frames c).1) :
    Outcome (Single c .connectionLeft) (fun _ => True) (w.connectionPart c .hangup) := by
  rw [World.connectionPart.eq_def, h.role]
  refine h.deliver.bind fun w₁ h₁ => h₁.closeFd.checkCloseEntity.bind fun w₂ h₂ => ?_
  split_ifs
  · exact h₂
  · trivial

/-- The parts of a handler of a `TcpConnectionLeft`. -/
theorem connectionParts (h : w.Joining c (w.framesOf c input reads).1)
    (hfd : (w.connections c).fd > 0) :
    Outcome (Single c .connectionLeft) (fun _ => True)
      ((World.connectionParts .connectionLeft input output hup reads).foldlM
        (fun w part => w.connectionPart c part) w) := by
  let Joins := fun w' : World => w'.Joining c (w'.frames c).1
  rw [World.connectionParts, List.foldlM_append, List.foldlM_append, bind_assoc]
  refine Outcome.bind (P := Joins) ?_ fun w₁ h₁ => Outcome.bind (P := Joins) ?_ fun w₂ h₂ => ?_
  · refine Outcome.foldlM_ite (fun hin => ?_) fun hin => ?_
    · rw [framesOf, if_pos hin] at h
      rw [World.connectionPart.eq_def]
      exact h.onReadEvent hfd
    · rw [hin, framesOf_false] at h
      exact h
  · refine Outcome.foldlM_ite (fun _ => ?_) fun _ => h₁
    have hkey := writable_kept joinKey (fun hop => hop.joinKey _) (fun _ => rfl) c w₁
    refine ((h₁.toSingle.writable.and hkey).and (writable_readBuffer c w₁)).mono
      (fun w' h' => ⟨h'.1.1, ?_⟩) fun _ he => he
    rw [frames, h'.2]
    exact h₁.joins.congr h'.1.2
  · exact Outcome.foldlM_ite (fun _ => h₂.hangup) fun _ => h₂.toSingle

end Joining

/-! ### A `TcpConnectionRight` -/

theorem Single.delivers :
    Delivers c (fun _ => True) (Single c .connectionRight) fun _ => True where
  toWrites := Single.writes
  noServer := trivial
  note hop h := by
    cases hop with
    | setReadBuffer rb => exact h.update fun _ => ⟨rfl, rfl⟩
    | originConnected => exact h.update fun _ => ⟨rfl, rfl⟩
    | connected => exact h.update fun _ => ⟨rfl, rfl⟩
  recvData _ _ _ _ h := updateServer_outcome trivial fun _ => h.congr rfl
  register _ _ hrole _ _ h := absurd (h.role.symm.trans hrole) (by decide)
  create _ _ hrole _ _ h := absurd (h.role.symm.trans hrole) (by decide)
  connected _ _ h := updateServer_outcome trivial fun _ => h.congr rfl
  failed _ _ _ h := h.closeFd.closeEntity

/-- The parts of a handler of a `TcpConnectionRight`. -/
theorem Single.connectionParts {input output hup : Bool} {reads : List ReadResult}
    (h : w.Single c .connectionRight) :
    Outcome (Single c .connectionRight) (fun _ => True)
      ((World.connectionParts .connectionRight input output hup reads).foldlM
        (fun w part => w.connectionPart c part) w) := by
  refine Outcome.foldlM (fun w part h => ?_) _ h
  cases part with
  | writable => exact h.writable
  | readable reads =>
    rw [World.connectionPart.eq_def]
    exact Single.delivers.reads.onReadEvent (fun _ _ _ => trivial)
      (fun _ {_} h => h.checkCloseEntity) (fun _ {_} h => h.closeFd) (fun _ => trivial) trivial h
  | hangup =>
    rw [World.connectionPart.eq_def, h.role]
    refine h.closeFd.closeEntity.bind fun w₁ h₁ => ?_
    split_ifs
    · exact h₁
    · trivial

/-- An event of a connection that gives it no second server. -/
theorem rejoined_connection {input output hup : Bool} {reads : List ReadResult}
    (h : w.Unrejoined) (hfd : (w.connections c).fd > 0)
    (hrejoins : ¬w.Rejoins (.connection c input output hup reads)) :
    Outcome Unrejoined (fun _ => True)
      ((World.connectionParts (w.connections c).role input output hup reads).foldlM
        (fun w part => w.connectionPart c part) w) := by
  cases hrole : (w.connections c).role with
  | connectionRight =>
    have hsingle : w.Single c .connectionRight := ⟨h, hrole⟩
    exact hsingle.connectionParts.mono (fun w' h' => h'.rejoined) fun _ he => he
  | connectionLeft =>
    have hjoining : w.Joining c (w.framesOf c input reads).1 := by
      refine ⟨⟨h, hrole⟩, ?_⟩
      rw [Rejoins, not_and, not_and, not_or] at hrejoins
      by_cases huuid : (w.connections c).uuid = 0
      · obtain ⟨hfirst, hlast⟩ := hrejoins hrole huuid
        rw [not_not] at hlast
        by_cases hsession : ∃ f ∈ (w.framesOf c input reads).1, IsSession f
        · rw [not_and, not_or, not_or, ne_eq, not_not, Bool.not_eq_true, Bool.not_eq_true]
            at hfirst
          obtain ⟨hserver, hwait, hentity⟩ := hfirst hsession
          exact .inr (.inr ⟨hserver, hwait, hentity, hlast⟩)
        · exact .inr (.inl fun f hf hs => hsession ⟨f, hf, hs⟩)
      · exact .inl huuid
    exact (hjoining.connectionParts hfd).mono (fun w' h' => h'.rejoined) fun _ he => he

end World

end Mpproxy

end DashDim
