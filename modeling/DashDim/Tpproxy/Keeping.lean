import DashDim.Tpproxy.Events

/-!
# What the handlers of the multipath proxy keep

`deliver_eq` says what `Deliver` does: it hands on the frames that are complete, up to a
failure.

An invariant of the proxy is proved of the functions that handlers are made of; what is
kept by them is kept by the handlers.

* `Writes`: the writes of connections. They give the functions that send;
* `Reads`: what a connection does with its frames. It gives `Deliver` and `OnReadEvent`;
* `Delivers`: what a connection does with its messages. It gives `Reads`;
* `Serves`: what servers do, but for a hangup. It gives their alarm and the parts of their
  handler;
* `ByServers`: an invariant that connections have no part in is kept by all of these.
-/

namespace DashDim

namespace Mpproxy

namespace World

/-! ## Handing on frames -/

/-- A connection hands on a frame. -/
def handFrame (c : ℕ) (w : World) (f : Frame) : Except Fault World :=
  if f.offset ≥ kReserveOffset then w.recvFrame c f.offset f.payload
  else if f.payload.length > 0 then w.parseMessage c f.payload
  else .ok w

/-- The frames a connection has read, and what is left. -/
def frames (c : ℕ) (w : World) : List Frame × Bytes :=
  tpFraming.drain (w.connections c).fdReadBuffer

theorem handOnAll_error (c : ℕ) (fs : List Frame) (e : Fault) :
    (receiver c).handOnAll fs (.error e) = some (.error e) := by
  induction fs with
  | nil => rfl
  | cons f fs ih =>
    rw [Receiver.handOnAll, Receiver.handOn]
    split_ifs with hoff hatt hpos
    · exact ih
    · exact absurd rfl hatt
    · exact ih
    · exact ih

/-- Handing on frames, of which one may find no server. -/
theorem handOnAll_ok (c : ℕ) (fs : List Frame) (w : World) :
    ((receiver c).handOnAll fs (.ok w)).getD (.error .server) = fs.foldlM (handFrame c) w := by
  induction fs generalizing w with
  | nil => rfl
  | cons f fs ih =>
    have hrest : ∀ x : Except Fault World, ((receiver c).handOnAll fs x).getD (.error .server) =
        x >>= fun w => fs.foldlM (handFrame c) w := by
      rintro (e | w)
      · rw [handOnAll_error]
        rfl
      · exact ih w
    rw [Receiver.handOnAll, Receiver.handOn, List.foldlM_cons, handFrame]
    by_cases hoff : f.offset ≥ kReserveOffset
    · rw [if_pos hoff, if_pos hoff]
      split_ifs with hatt
      · exact hrest _
      · -- the connection has no server
        have hnone : (w.connections c).server = none := by
          cases hserver : (w.connections c).server with
          | none => rfl
          | some s => exact absurd (by rw [receiver]; dsimp only; rw [hserver]; rfl) hatt
        rw [recvFrame, hnone]
        rfl
    · rw [if_neg hoff, if_neg hoff]
      split_ifs with hpos
      · exact hrest _
      · exact hrest _

/-- `Deliver` hands on the frames that are complete; what is left stays, and if it is
    nothing, the connection may have to close. -/
theorem deliver_eq (c : ℕ) (w : World) : w.deliver c =
    (w.frames c).1.foldlM (handFrame c) w >>= fun w' =>
      (if (w.frames c).1 ≠ [] ∧ (w.frames c).2 = [] then
        (w'.updateConnection c (.setReadBuffer [])).connectionCheckCloseEntity c
      else .ok w') >>= fun w' => .ok (w'.updateConnection c (.setReadBuffer (w.frames c).2)) := by
  rw [deliver, Receiver.deliver_eq, ← handOnAll_ok, frames]
  cases (receiver c).handOnAll (tpFraming.drain (w.connections c).fdReadBuffer).1 (.ok w) with
  | none => rfl
  | some x =>
    rw [Option.map_some, Option.getD_some]
    dsimp only
    split_ifs
    · cases x <;> rfl
    · cases x <;> rfl

/-! ## New servers -/

/-- The server of a new session, and the connection that joins it. -/
def newSession (c : ℕ) (x : TpServerBase) (w : World) : World :=
  { w.updateConnection c (.joined w.serverCount) with
    servers := Function.update w.servers w.serverCount x
    serverCount := w.serverCount + 1
    starts := w.starts.tail }

section createServer

variable {w : World} {c : ℕ} {uuid sid : UInt64}

/-- A server that is made has the connection, and has nothing to tell it yet. -/
theorem join_newServer (c : ℕ) (uuid sid : UInt64) (originDst : OriginDst) (w : World) :
    ({ w with starts := w.starts.tail }.newServer (.newRight uuid sid originDst)).join c
      w.serverCount =
        .ok (w.newSession c ((TpServerBase.newRight uuid sid originDst).register c)) := by
  have hnew : ({ w with starts := w.starts.tail }.newServer (.newRight uuid sid originDst)).servers
      w.serverCount = .newRight uuid sid originDst := Function.update_self ..
  have hfreed : ¬(TpServerBase.newRight uuid sid originDst).freed = true := Bool.false_ne_true
  have hconnected : ¬(TpServerBase.newRight uuid sid originDst).isConnected = true :=
    Bool.false_ne_true
  rw [join, useServer, hnew, if_neg hfreed, ok_bind, updateServer_eq (by rfl)]
  rw [updateConnection_servers, hnew, ok_bind, if_neg hconnected, newServer, setServer, setServer,
    updateConnection]
  dsimp only
  rw [Function.update_idem]
  rfl

/-- A server that fails to start takes itself out of the registry it is not in. -/
theorem createServer_failed (originDst : OriginDst)
    (hfind : w.uuidSessions.find uuid sid = none) (hstart : w.starts.headD .noSocket = .failed) :
    w.createServer c uuid sid originDst = .error .registry := by
  have hnew : (w.newSession c ((TpServerBase.newRight uuid sid originDst).register c)).servers
      w.serverCount = (TpServerBase.newRight uuid sid originDst).register c :=
    Function.update_self ..
  have habandon : (w.newSession c ((TpServerBase.newRight uuid sid originDst).register c)
      ).updateServer w.serverCount .abandon = .error .registry := by
    rw [updateServer, hnew]
    dsimp only
    rw [if_pos ⟨rfl, rfl, rfl⟩, show (w.newSession c _).uuidSessions = w.uuidSessions from rfl]
    erw [UuidSessions.unRegsiterSink_of_find_eq_none hfind]
  rw [createServer, hstart]
  dsimp only
  rw [if_neg (by decide), join_newServer, ok_bind, if_pos rfl, habandon, error_bind]

/-- A server that starts is in the registry. -/
theorem createServer_started (originDst : OriginDst)
    (hfind : w.uuidSessions.find uuid sid = none) (hstart : w.starts.headD .noSocket = .started) :
    ∃ sessions, w.uuidSessions.regsiterSink w.serverCount uuid sid = .ok sessions ∧
      w.createServer c uuid sid originDst =
        .ok { w.newSession c ((TpServerBase.newRight uuid sid originDst).register c).started with
          uuidSessions := sessions } := by
  obtain ⟨sessions, hsessions⟩ :=
    UuidSessions.regsiterSink_of_find_eq_none w.serverCount hfind
  have hnew : (w.newSession c ((TpServerBase.newRight uuid sid originDst).register c)).servers
      w.serverCount = (TpServerBase.newRight uuid sid originDst).register c :=
    Function.update_self ..
  have hstarted : (w.newSession c ((TpServerBase.newRight uuid sid originDst).register c)
      ).updateServer w.serverCount .started =
        .ok (w.newSession c ((TpServerBase.newRight uuid sid originDst).register c).started) := by
    rw [updateServer_eq (by rw [hnew]; rfl), hnew, newSession, newSession, setServer]
    dsimp only
    rw [Function.update_idem]
  refine ⟨sessions, hsessions, ?_⟩
  rw [createServer, hstart]
  dsimp only
  rw [if_neg (by decide), join_newServer, ok_bind, if_neg (by decide), hstarted, ok_bind]
  rw [show (w.newSession c _).uuidSessions = w.uuidSessions from rfl, hsessions]

/-- A server of a new session: there is no socket, it fails to start, or it starts. -/
theorem createServer_outcome {P : World → Prop} {E : Fault → Prop} {originDst : OriginDst}
    (hfind : w.uuidSessions.find uuid sid = none)
    (hnone : P { w with starts := w.starts.tail })
    (hfailed : w.starts.headD .noSocket = .failed → E .registry)
    (hstarted : ∀ sessions, w.uuidSessions.regsiterSink w.serverCount uuid sid = .ok sessions →
      P { w.newSession c ((TpServerBase.newRight uuid sid originDst).register c).started with
        uuidSessions := sessions }) :
    Outcome P E (w.createServer c uuid sid originDst) := by
  cases hstart : w.starts.headD .noSocket with
  | noSocket =>
    rw [createServer, hstart]
    exact hnone
  | failed =>
    rw [createServer_failed originDst hfind hstart]
    exact hfailed hstart
  | started =>
    obtain ⟨sessions, hsessions, hcreate⟩ := createServer_started (c := c) originDst hfind hstart
    rw [hcreate]
    exact hstarted sessions hsessions

end createServer

/-! ## What the functions keep -/

/-- A write of a connection: by the system, or into its buffer. -/
inductive WriteOp : (TcpConnectionBase → TcpConnectionBase) → Prop
  | onWriteEvent (answers : List SendAnswer) : WriteOp (.onWriteEvent answers)
  | setWriteBuffer (wb : Bytes) : WriteOp (.setWriteBuffer wb)
  | connectMsg : WriteOp ({ · with dstConnectMsgSent := true })

/-- What a server does without its connections. -/
inductive ServerOp : (TpServerBase → TpServerBase) → Prop
  | onWriteEvent (answers : List SendAnswer) : ServerOp (.onWriteEvent answers)
  | recvData (call : SendCall) (offset : UInt64) (pv : Bytes) : ServerOp (.recvData call offset pv)
  | readLoop (target : ℤ) (reads : List ℕ) : ServerOp (.readLoop target reads 0)
  | connected : ServerOp .connected

/-- What a connection notes of itself. -/
inductive NoteOp : (TcpConnectionBase → TcpConnectionBase) → Prop
  | setReadBuffer (rb : Bytes) : NoteOp (.setReadBuffer rb)
  | originConnected : NoteOp ({ · with originConnected := true })
  | connected : NoteOp ({ · with isConnected := true, connecting := false })

/-- What a server does to its lists when a connection tells it something. -/
inductive ListOp (c : ℕ) : (TpServerBase → TpServerBase) → Prop
  | register : ListOp c (.register c)
  | dstConnected (isConnected : ℕ → Bool) : ListOp c (.dstConnected isConnected c)
  | proxyConnected : ListOp c (.proxyConnected c)
  | proxyClose : ListOp c (.proxyClose c)

/-- The frames a connection gets to know when it reads, and what is left then. -/
def framesRead (c : ℕ) (reads : List ReadResult) (w : World) : List Frame × Bytes :=
  tpFraming.drain ((w.connections c).fdReadBuffer ++ ReadResult.bytes reads)

section outcomes

variable {P : World → Prop} {E : Fault → Prop} {w : World} {c s : ℕ}

theorem useConnection_outcome (hE : E .deleted) (w : World) (c : ℕ) :
    Outcome (fun x => x = w.connections c) E (w.useConnection c) := by
  rw [useConnection]
  split_ifs
  · exact hE
  · rfl

theorem useServer_outcome (hE : E .deleted) (w : World) (s : ℕ) :
    Outcome (fun x => x = w.servers s) E (w.useServer s) := by
  rw [useServer]
  split_ifs
  · exact hE
  · rfl

/-- Sending data, if sending and passing on are kept. -/
theorem sendDataLoop_outcome
    (hsend : ∀ w offset pv, P w → Outcome P E (w.sendData c offset pv))
    (hpass : ∀ {w} pv, P w → Outcome P E (w.updateServer s (.pass pv))) (rounds : ℕ) (pv : Bytes)
    (h : P w) : Outcome P E (w.sendDataLoop s c rounds pv) := by
  induction rounds generalizing pv w with
  | zero => exact h
  | succ rounds ih =>
    rw [sendDataLoop]
    split_ifs
    · refine (hsend _ _ _ h).bind fun w₁ h₁ => ?_
      exact (hpass _ h₁).bind fun w₂ h₂ => ih _ h₂
    · exact h

theorem scheduleLoop_outcome {connections : List ℕ}
    (hsend : ∀ c ∈ connections, ∀ w offset pv, P w → Outcome P E (w.sendData c offset pv))
    (hpass : ∀ {w} pv, P w → Outcome P E (w.updateServer s (.pass pv))) (share : ℕ → ℕ → ℕ)
    (data : Bytes) (h : P w) :
    Outcome (fun res => P res.2) E (w.scheduleLoop s share connections data) := by
  induction connections generalizing data w with
  | nil => exact h
  | cons c connections ih =>
    have hfirst := hsend c List.mem_cons_self
    have hrest := fun w => ih (w := w) fun c hc => hsend c (List.mem_cons_of_mem _ hc)
    cases connections with
    | nil => exact (sendDataLoop_outcome hfirst hpass _ _ h).bind fun w₁ h₁ => h₁
    | cons c' connections =>
      rw [scheduleLoop]
      split_ifs
      · exact (sendDataLoop_outcome hfirst hpass _ _ h).bind fun w₁ h₁ => hrest w₁ _ h₁
      · exact h

theorem schedule_outcome
    (hsend : ∀ c ∈ (w.servers s).readyList, ∀ w offset pv, P w →
      Outcome P E (w.sendData c offset pv))
    (hpass : ∀ {w} pv, P w → Outcome P E (w.updateServer s (.pass pv)))
    (hremain : ∀ {w} remain, P w →
      Outcome P E (w.updateServer s ({ · with fdReadBuffer := remain })))
    (share : ℕ → ℕ → ℕ) (h : P w) : Outcome P E (w.schedule s share) := by
  rw [schedule]
  split_ifs
  · exact h
  · refine (scheduleLoop_outcome (fun c hc => ?_) hpass share _ h).bind fun res h' => hremain _ h'
    exact hsend c (List.mem_of_mem_filter hc)

/-- Joining a server, if that is kept. -/
theorem join_outcome (hE : E .deleted)
    (hjoin : Outcome P E ((w.updateConnection c (.joined s)).updateServer s (.register c)))
    (hnotify : ∀ {w}, P w → Outcome P E (w.notifyConnected c)) : Outcome P E (w.join c s) := by
  rw [join]
  refine (useServer_outcome hE w s).bind fun x _ => hjoin.bind fun w₁ h₁ => ?_
  split_ifs
  · exact hnotify h₁
  · exact h₁

/-- A connection that is connected tells its server: only a `TpServerLeft` heeds it. -/
theorem proxyConnected_outcome (hE : E .deleted) (h : P w)
    (hlist : Outcome P E (w.updateServer s (.proxyConnected c))) :
    Outcome P E (w.notifyServer s c .proxyConnected) := by
  rw [notifyServer]
  refine (useServer_outcome hE w s).bind fun x _ => ?_
  cases x.role with
  | serverRight => exact h
  | serverLeft => exact hlist

theorem updateServer_connections {f : TpServerBase → TpServerBase} {w' : World}
    (h : w.updateServer s f = .ok w') : w'.connections = w.connections := by
  rw [updateServer] at h
  dsimp only at h
  split_ifs at h
  · split at h
    · cases h
    · cases h
      rfl
  · cases h
    rfl

/-- A server that is told something does not change connections. -/
theorem notifyServer_connections {signal : ProxySignal} {w' : World}
    (h : w.notifyServer s c signal = .ok w') : w'.connections = w.connections := by
  rw [notifyServer, useServer] at h
  split_ifs at h
  · cases h
  · rw [ok_bind] at h
    split at h
    · exact updateServer_connections h
    · exact updateServer_connections h
    · exact updateServer_connections h
    · cases h
      rfl

end outcomes

/-! ### Writing -/

/-- A write of a connection that is not to close. -/
theorem WriteOp.eq {f : TcpConnectionBase → TcpConnectionBase} (hop : WriteOp f)
    {x : TcpConnectionBase} (hwait : x.fdWaitClose = false) :
    ∃ wb sent msg, f x =
      { x with fdWriteBuffer := wb, sent := sent, dstConnectMsgSent := msg } := by
  cases hop with
  | onWriteEvent answers =>
    obtain ⟨wb, sent, heq⟩ := SocketBase.onWriteEvent_eq answers hwait
    exact ⟨wb, sent, x.dstConnectMsgSent, by rw [TcpConnectionBase.onWriteEvent, heq]⟩
  | setWriteBuffer wb => exact ⟨wb, x.sent, x.dstConnectMsgSent, rfl⟩
  | connectMsg => exact ⟨x.fdWriteBuffer, x.sent, true, rfl⟩

/-- An invariant of writing, with what may fail. -/
structure Writes (P : World → Prop) (E : Fault → Prop) : Prop where
  packet : E .packet
  deleted : E .deleted
  calls : ∀ {w} calls, P w → P { w with calls := calls }
  write : ∀ {w} c {f}, WriteOp f → P w → P (w.updateConnection c f)

namespace Writes

variable {P : World → Prop} {E : Fault → Prop} {w : World}

theorem onWriteEvent (K : Writes P E) (c : ℕ) (h : P w) : P (w.connectionOnWriteEvent c) :=
  K.calls _ (K.write c (.onWriteEvent _) h)

theorem writeFrame (K : Writes P E) (c : ℕ) (frame : Option (Bytes × TcpConnection)) (h : P w) :
    Outcome P E (w.writeFrame c frame) := by
  rw [World.writeFrame.eq_def]
  cases frame with
  | none => exact K.packet
  | some out =>
    have hset := K.write c (.setWriteBuffer out.2.fdWriteBuffer) h
    dsimp only
    split_ifs
    · exact K.onWriteEvent c hset
    · exact hset

theorem writeMessage (K : Writes P E) (c : ℕ) (type : UInt8) (data : Bytes) (h : P w) :
    Outcome P E (w.writeMessage c type data) := by
  rw [World.writeMessage]
  exact K.writeFrame c _ h

/-- Sending data, if the descriptor is open or may be closed. -/
theorem sendData (K : Writes P E) {c : ℕ} (hfd : (w.connections c).fd > 0 ∨ E .fd)
    (offset : UInt64) (pv : Bytes) (h : P w) : Outcome P E (w.sendData c offset pv) := by
  rw [World.sendData]
  refine (useConnection_outcome K.deleted w c).bind ?_
  rintro x rfl
  split_ifs with hclosed
  · exact K.writeFrame c _ h
  · exact hfd.resolve_left hclosed

theorem notifyConnected (K : Writes P E) (c : ℕ) (h : P w) :
    Outcome P E (w.notifyConnected c) := by
  rw [World.notifyConnected]
  refine (useConnection_outcome K.deleted w c).bind fun x _ => ?_
  cases x.role with
  | connectionLeft =>
    rw [sendDstConnectMessage]
    split_ifs
    · exact h
    · refine (K.writeMessage c proxyMessageOriginConnected [] h).bind fun w' h' => ?_
      exact K.write c .connectMsg (K.onWriteEvent c h')
  | connectionRight => exact h

theorem notifyConnected_all (K : Writes P E) (connections : List ℕ) (h : P w) :
    Outcome P E (connections.foldlM (fun w c => w.notifyConnected c) w) :=
  Outcome.foldlM (fun _ c h => K.notifyConnected c h) connections h

theorem writeMetaData (K : Writes P E) (c : ℕ) (h : P w) : Outcome P E (w.writeMetaData c) := by
  rw [World.writeMetaData]
  refine (K.writeMessage c proxyMessageMeta _ h).bind fun w' h' => ?_
  split_ifs
  · exact h'
  · exact K.packet

/-- A connection that is writable: when it connects, it tells its server. -/
theorem writable (K : Writes P E) {c : ℕ}
    (hconnected : P w →
      P (w.updateConnection c ({ · with isConnected := true, connecting := false })))
    (hnotify : ∀ {w s}, (w.connections c).server = some s → P w →
      Outcome P E (w.notifyServer s c .proxyConnected)) (h : P w) :
    Outcome P E (w.connectionPart c .writable) := by
  rw [World.connectionPart.eq_def]
  cases (w.connections c).role with
  | connectionLeft => exact K.onWriteEvent c h
  | connectionRight =>
    refine Outcome.bind (P := P) ?_ fun w₁ h₁ => K.onWriteEvent c h₁
    split_ifs
    · refine (K.writeMetaData c (hconnected h)).bind fun w₁ h₁ => ?_
      split
      · exact h₁
      · next s hserver => exact hnotify hserver h₁
    · exact h

/-- Closing the entity of a server, if telling its connections is kept. -/
theorem serverCloseEntity (K : Writes P E) {s : ℕ}
    (hnotify : ∀ {w} c, P w → P (w.updateConnection c .proxyClose))
    (hset : Outcome P E (w.updateServer s .setEntityClosed))
    (hclear : ∀ {w}, P w → Outcome P E (w.updateServer s .clearReadyList)) :
    Outcome P E (w.serverCloseEntity s) := by
  rw [World.serverCloseEntity]
  refine hset.bind fun w₁ h₁ => Outcome.bind (P := P) ?_ fun w₂ h₂ => hclear h₂
  refine Outcome.foldlM (fun w c h => ?_) _ h₁
  exact (useConnection_outcome K.deleted w c).bind fun _ _ => hnotify c h

end Writes

/-! ### Reading from paths -/

/-- An invariant of handing on frames, with what may fail, for messages of some kind. -/
structure Reads (c : ℕ) (hears : Bytes → Prop) (P : World → Prop) (E : Fault → Prop) : Prop where
  noServer : E .server
  deleted : E .deleted
  calls : ∀ {w} calls, P w → P { w with calls := calls }
  setReadBuffer : ∀ {w} rb, P w → P (w.updateConnection c (.setReadBuffer rb))
  recvData : ∀ {w} s call offset pv, P w →
    Outcome P E (w.updateServer s (.recvData call offset pv))
  parseMessage : ∀ {w data}, hears data → P w → Outcome P E (w.parseMessage c data)

section reading

variable {P : World → Prop} {E : Fault → Prop} {w : World} {c : ℕ} {hears : Bytes → Prop}

namespace Reads

theorem recvFrame (K : Reads c hears P E) (offset : UInt64) (pv : Bytes) (h : P w) :
    Outcome P E (w.recvFrame c offset pv) := by
  rw [World.recvFrame]
  split
  · exact K.noServer
  · next s _ =>
    refine (useServer_outcome K.deleted w s).bind fun _ _ => ?_
    exact (K.recvData s _ _ _ h).bind fun w' h' => K.calls _ h'

theorem handFrame (K : Reads c hears P E) {f : Frame}
    (hheard : f.offset < kReserveOffset → hears f.payload) (h : P w) :
    Outcome P E (w.handFrame c f) := by
  rw [World.handFrame]
  split_ifs with hoff
  · exact K.recvFrame _ _ h
  · exact K.parseMessage (hheard (UInt64.not_le.1 hoff)) h
  · exact h

theorem handFrames (K : Reads c hears P E) {fs : List Frame}
    (hheard : ∀ f ∈ fs, f.offset < kReserveOffset → hears f.payload) (h : P w) :
    Outcome P E (fs.foldlM (World.handFrame c) w) :=
  Outcome.foldlM_mem (fun _ f hf h => K.handFrame (hheard f hf) h) h

theorem deliver (K : Reads c hears P E)
    (hheard : ∀ f ∈ (w.frames c).1, f.offset < kReserveOffset → hears f.payload)
    (hclose : (w.frames c).1 ≠ [] ∧ (w.frames c).2 = [] →
      ∀ {w}, P w → Outcome P E (w.connectionCheckCloseEntity c)) (h : P w) :
    Outcome P E (w.deliver c) := by
  rw [deliver_eq]
  refine (K.handFrames hheard h).bind fun w₁ h₁ => ?_
  refine Outcome.bind (P := P) ?_ fun w₂ h₂ => K.setReadBuffer _ h₂
  split_ifs with hlast
  · exact hclose hlast (K.setReadBuffer [] h₁)
  · exact h₁

/-- Reading, if closing the descriptor at the end of the stream is kept. -/
theorem onReadEvent (K : Reads c hears P E) {reads : List ReadResult}
    (hheard : ∀ f ∈ (w.framesRead c reads).1, f.offset < kReserveOffset → hears f.payload)
    (hclose : (w.framesRead c reads).1 ≠ [] ∧ (w.framesRead c reads).2 = [] →
      ∀ {w}, P w → Outcome P E (w.connectionCheckCloseEntity c))
    (hcloseFd : .eof ∈ reads → ∀ {w}, P w → P (w.updateConnection c .closeFd))
    (hwrite : .eof ∈ reads → E .writeBuffer) (hread : E .readBuffer) (h : P w) :
    Outcome P E (w.connectionOnReadEvent c reads) := by
  have hset := K.setReadBuffer ((w.connections c).fdReadBuffer ++
    ReadResult.bytes (if (w.connections c).fd > 0 then reads else [])) h
  have hmem : .eof ∈ (if (w.connections c).fd > 0 then reads else []) → .eof ∈ reads := by
    split_ifs
    · exact id
    · exact fun hnil => absurd hnil List.not_mem_nil
  have hbytes : ReadResult.bytes (if (w.connections c).fd > 0 then reads else []) ≠ [] →
      ReadResult.bytes (if (w.connections c).fd > 0 then reads else []) =
        ReadResult.bytes reads := by
    split_ifs
    · exact fun _ => rfl
    · exact fun hne => absurd rfl hne
  rw [connectionOnReadEvent]
  -- a closed socket reads nothing; from here on these are the reads there are
  generalize (if (w.connections c).fd > 0 then reads else []) = reads' at hset hmem hbytes ⊢
  refine Outcome.bind (P := fun w' => P w' ∧ (w'.connections c).fdReadBuffer =
    (w.connections c).fdReadBuffer ++ ReadResult.bytes reads') ?_ fun w₁ h₁ =>
      Outcome.bind (P := P) ?_ fun w₂ h₂ => ?_
  · split_ifs with heof
    · refine ⟨hcloseFd (hmem heof) hset, ?_⟩
      rw [updateConnection_self, TcpConnectionBase.closeFd, SocketBase.closeFd_fdReadBuffer,
        updateConnection_self]
      rfl
    · exact hwrite (hmem heof)
    · refine ⟨hset, ?_⟩
      rw [updateConnection_self]
      rfl
  · split_ifs with hdata
    · exact h₁.1
    · have hframes : w₁.frames c = w.framesRead c reads := by
        rw [frames, h₁.2, hbytes hdata]
        rfl
      refine K.deliver ?_ ?_ h₁.1
      · rw [hframes]
        exact hheard
      · rw [hframes]
        exact hclose
  · split_ifs
    · exact hread
    · exact h₂

end Reads

/-- An invariant of handing on frames, with what may fail, by what messages lead to. -/
structure Delivers (c : ℕ) (hears : Bytes → Prop) (P : World → Prop) (E : Fault → Prop) : Prop
    extends Writes P E where
  noServer : E .server
  note : ∀ {w f}, NoteOp f → P w → P (w.updateConnection c f)
  recvData : ∀ {w} s call offset pv, P w →
    Outcome P E (w.updateServer s (.recvData call offset pv))
  register : ∀ {w data s}, hears data → data.head? = some proxyMessageMeta →
    (w.connections c).role = .connectionLeft → (w.connections c).uuid = 0 →
    w.uuidSessions.find (readMeta data).1 (readMeta data).2.1 = some s → P w →
    Outcome P E (((w.updateConnection c ({ · with uuid := (readMeta data).1 })).updateConnection c
      (.joined s)).updateServer s (.register c))
  create : ∀ {w data}, hears data → data.head? = some proxyMessageMeta →
    (w.connections c).role = .connectionLeft → (w.connections c).uuid = 0 →
    w.uuidSessions.find (readMeta data).1 (readMeta data).2.1 = none → P w →
    Outcome P E ((w.updateConnection c ({ · with uuid := (readMeta data).1 })).createServer c
      (readMeta data).1 (readMeta data).2.1 (readMeta data).2.2.1)
  connected : ∀ {w s} isConnected, (w.connections c).server = some s → P w →
    Outcome P E (w.updateServer s (.dstConnected isConnected c))
  failed : ∀ {w data}, hears data → data.head? = some proxyMessageOriginFail →
    (w.connections c).role = .connectionRight → P w →
    Outcome P E ((w.updateConnection c .closeFd).connectionCloseEntity c)

namespace Delivers

theorem parseMessageLeft (K : Delivers c hears P E) {data : Bytes} (hheard : hears data)
    (hrole : (w.connections c).role = .connectionLeft) (h : P w) :
    Outcome P E (w.parseMessageLeft c data) := by
  rw [World.parseMessageLeft]
  split_ifs with hmeta
  · dsimp only
    split
    · next s hfind =>
      exact join_outcome K.deleted (K.register hheard hmeta.1 hrole hmeta.2 hfind h) fun h =>
        K.notifyConnected c h
    · next hfind => exact K.create hheard hmeta.1 hrole hmeta.2 hfind h
  · exact h

theorem parseMessageRight (K : Delivers c hears P E) {data : Bytes} (hheard : hears data)
    (hrole : (w.connections c).role = .connectionRight) (h : P w) :
    Outcome P E (w.parseMessageRight c data) := by
  have hset := K.note .originConnected h
  rw [World.parseMessageRight]
  refine Outcome.bind (P := fun w' => P w' ∧ (w'.connections c).role = .connectionRight) ?_
    fun w' h' => ?_
  · split_ifs
    · dsimp only
      split
      · exact ⟨hset, by rwa [updateConnection_self]⟩
      · next s hserver =>
        have hnotify : Outcome P E ((w.updateConnection c ({ · with originConnected := true })
            ).notifyServer s c .proxyDstConnected) := by
          rw [notifyServer]
          refine (useServer_outcome K.deleted _ s).bind fun x _ => ?_
          cases x.role with
          | serverLeft => exact K.connected _ (by rwa [updateConnection_self]) hset
          | serverRight => exact hset
        refine Outcome.intro (fun w' hw' => ⟨hnotify.of_ok hw', ?_⟩) fun e he => hnotify.of_error he
        rw [notifyServer_connections hw', updateConnection_self]
        exact hrole
    · exact ⟨h, hrole⟩
  · split_ifs with hfail
    · exact K.failed hheard hfail h'.2 h'.1
    · exact h'.1

theorem reads (K : Delivers c hears P E) : Reads c hears P E where
  noServer := K.noServer
  deleted := K.deleted
  calls := K.calls
  setReadBuffer rb h := K.note (.setReadBuffer rb) h
  recvData := K.recvData
  parseMessage hheard h := by
    rw [World.parseMessage]
    split
    · next hrole => exact K.parseMessageLeft hheard hrole h
    · next hrole => exact K.parseMessageRight hheard hrole h

end Delivers

end reading

/-! ### Servers -/

/-- An invariant of what servers do, with what may fail. -/
structure Serves (P : World → Prop) (E : Fault → Prop) : Prop extends Writes P E where
  server : ∀ {w} s {f}, ServerOp f → P w → Outcome P E (w.updateServer s f)
  checkCloseEntity : ∀ {w} s, P w → Outcome P E (w.serverCheckCloseEntity s)
  schedule : ∀ {w} s share, P w → Outcome P E (w.schedule s share)

namespace Serves

variable {P : World → Prop} {E : Fault → Prop} {w : World}

theorem serverOnReadEvent (K : Serves P E) (s : ℕ) (target : ℤ) (reads : List ℕ) (h : P w) :
    Outcome P E (w.serverOnReadEvent s target reads) := by
  rw [World.serverOnReadEvent]
  split_ifs
  · exact h
  · exact (K.server s (.readLoop _ _) h).bind fun w' h' => K.checkCloseEntity s h'

theorem serverOnWriteEvent (K : Serves P E) (s : ℕ) (h : P w) :
    Outcome P E (w.serverOnWriteEvent s) :=
  (K.server s (.onWriteEvent _) h).bind fun _ h' => K.calls _ h'

/-- The parts of a handler of a server, but for a hangup. -/
theorem serverPart (K : Serves P E) (s : ℕ) {part : ServerPart} (hpart : part ≠ .hangup)
    (h : P w) : Outcome P E (w.serverPart s part) := by
  rw [World.serverPart.eq_def]
  split
  · exact K.serverOnReadEvent s _ _ h
  · exact K.serverOnWriteEvent s h
  · refine Outcome.bind (P := P) ?_ fun w₁ h₁ => K.serverOnWriteEvent s h₁
    split_ifs
    · exact (K.server s .connected h).bind fun w₁ h₁ => K.notifyConnected_all _ h₁
    · exact h
  · exact absurd rfl hpart
  · exact absurd rfl hpart

theorem serverOnBudgetAlarm (K : Serves P E) (s : ℕ) (target : ℤ) (reads : List ℕ)
    (share : ℕ → ℕ → ℕ) (h : P w) : Outcome P E (w.serverOnBudgetAlarm s target reads share) := by
  rw [World.serverOnBudgetAlarm]
  split_ifs
  · exact K.deleted
  · refine Outcome.bind (P := P) ?_ fun w₁ h₁ => Outcome.bind (P := P) ?_ fun w₂ h₂ => ?_
    · split_ifs
      · exact K.serverOnReadEvent s target reads h
      · exact h
    · split_ifs
      · exact K.schedule s share h₁
      · exact h₁
    · split_ifs
      · exact K.checkCloseEntity s h₂
      · exact h₂

end Serves

/-! ### Invariants of servers -/

/-- An invariant that connections have no part in, when one of them does something. -/
structure ByServers (c : ℕ) (P : World → Prop) (E : Fault → Prop) : Prop where
  packet : E .packet
  deleted : E .deleted
  noServer : E .server
  calls : ∀ {w} calls, P w → P { w with calls := calls }
  connection : ∀ {w} c f, P w → P (w.updateConnection c f)
  recvData : ∀ {w} s call offset pv, P w →
    Outcome P E (w.updateServer s (.recvData call offset pv))
  list : ∀ {w} s {f}, ListOp c f → P w → Outcome P E (w.updateServer s f)
  create : ∀ {w uuid sid} originDst, w.uuidSessions.find uuid sid = none → P w →
    Outcome P E (w.createServer c uuid sid originDst)

namespace ByServers

variable {P : World → Prop} {E : Fault → Prop} {w : World} {c : ℕ}

theorem writes (K : ByServers c P E) : Writes P E where
  packet := K.packet
  deleted := K.deleted
  calls := K.calls
  write c _ _ h := K.connection c _ h

theorem connectionCloseEntity (K : ByServers c P E) (h : P w) :
    Outcome P E (w.connectionCloseEntity c) := by
  rw [World.connectionCloseEntity]
  refine Outcome.bind (P := P) ?_ fun w₁ h₁ => K.connection c _ h₁
  split
  · exact K.connection c _ h
  · next s _ =>
    rw [notifyServer]
    refine (useServer_outcome K.deleted _ s).bind fun x _ => ?_
    exact K.list s .proxyClose (K.connection c _ h)

theorem connectionCheckCloseEntity (K : ByServers c P E) (h : P w) :
    Outcome P E (w.connectionCheckCloseEntity c) := by
  rw [World.connectionCheckCloseEntity]
  split_ifs
  · exact K.connectionCloseEntity h
  · exact h

theorem delivers (K : ByServers c P E) : Delivers c (fun _ => True) P E where
  toWrites := K.writes
  noServer := K.noServer
  note _ h := K.connection c _ h
  recvData := K.recvData
  register _ _ _ _ _ h := K.list _ .register (K.connection c _ (K.connection c _ h))
  create _ _ _ _ hfind h := K.create _ hfind (K.connection c _ h)
  connected _ _ h := K.list _ (.dstConnected _) h
  failed _ _ _ h := K.connectionCloseEntity (K.connection c _ h)

theorem deliver (K : ByServers c P E) (h : P w) : Outcome P E (w.deliver c) :=
  K.delivers.reads.deliver (fun _ _ _ => trivial) (fun _ {_} h => K.connectionCheckCloseEntity h) h

/-- The parts of a handler of a connection, if the checks of one that closes may fail. -/
theorem connectionPart (K : ByServers c P E) (hwrite : E .writeBuffer) (hread : E .readBuffer)
    (part : ConnectionPart) (h : P w) : Outcome P E (w.connectionPart c part) := by
  have hclosed : ∀ x : Except Fault World, Outcome P E x → Outcome P E (x >>= fun w =>
      if (w.connections c).fdWriteBuffer.length = 0 then .ok w else .error .writeBuffer) := by
    intro x hx
    refine hx.bind fun w' h' => ?_
    split_ifs
    · exact h'
    · exact hwrite
  cases part with
  | writable =>
    refine K.writes.writable (K.connection c _) (fun {w s} _ h => ?_) h
    exact proxyConnected_outcome K.deleted h (K.list s .proxyConnected h)
  | readable reads =>
    rw [World.connectionPart.eq_def]
    exact K.delivers.reads.onReadEvent (fun _ _ _ => trivial)
      (fun _ {_} h => K.connectionCheckCloseEntity h) (fun _ {_} h => K.connection c _ h)
      (fun _ => hwrite) hread h
  | hangup =>
    rw [World.connectionPart.eq_def]
    cases (w.connections c).role with
    | connectionLeft =>
      have hdeliver := (K.deliver h).bind fun w₁ h₁ =>
        K.connectionCheckCloseEntity (K.connection c .closeFd h₁)
      have hall := hclosed _ hdeliver
      rwa [bind_assoc] at hall
    | connectionRight => exact hclosed _ (K.connectionCloseEntity (K.connection c _ h))

/-- A handler of a connection, if the checks of one that closes may fail. -/
theorem connectionParts (K : ByServers c P E) (hwrite : E .writeBuffer) (hread : E .readBuffer)
    (parts : List ConnectionPart) (h : P w) :
    Outcome P E (parts.foldlM (fun w part => w.connectionPart c part) w) :=
  Outcome.foldlM (fun _ part h => K.connectionPart hwrite hread part h) parts h

end ByServers

end World

end Mpproxy

end DashDim
