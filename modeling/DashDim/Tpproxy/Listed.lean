import DashDim.Tpproxy.Servers

/-!
# Connections and the lists of their servers

A server lists its connections, and they point back to it. A connection closes its descriptor
in one function, and leaves the list in another: between the two it is listed and cannot be
used. What holds of the lists at any time is `Linked`; the connection that is just handled is
left out of what is said of listed ones (`calm`), while it is closing.

* `Linked.connectionCloseEntity`, `Linked.serverCloseEntity`: who closes leaves the lists;
* `Linked.join`: a connection that joins a server is listed by it.
-/

namespace DashDim

namespace SocketBase

/-- A descriptor is open, or it is closed and its entity waits to close. -/
def Consistent (s : SocketBase) : Prop :=
  s.fd > 0 ∧ s.fdClosed = false ∧ s.destroyed = false ∨
    ¬s.fd > 0 ∧ s.fdClosed = true ∧ s.entityWaitClose = true

namespace Consistent

variable {s : SocketBase}

theorem closeFd (h : s.Consistent) : s.closeFd.Consistent := by
  rw [closeFd_eq]
  split_ifs with hfd
  · exact .inr ⟨not_lt.2 (Int.negSucc_lt_zero 0).le, rfl, rfl⟩
  · rcases h with ⟨hopen, -⟩ | hclosed
    · exact absurd hopen hfd
    · exact .inr hclosed

theorem checkCloseFd (h : s.Consistent) : s.checkCloseFd.Consistent := by
  rw [SocketBase.checkCloseFd]
  split_ifs
  · exact h.closeFd
  · exact h

theorem onWriteEvent (answers : List SendAnswer) (h : s.Consistent) :
    (s.onWriteEvent answers).Consistent := by
  obtain ⟨wb, sent, hflush⟩ := s.flushBuffer_eq answers
  rw [SocketBase.onWriteEvent, hflush]
  exact checkCloseFd h

theorem checkToDeleteSelf (h : s.Consistent) : s.checkToDeleteSelf.Consistent := by
  rw [checkToDeleteSelf_eq]
  rcases h with ⟨hfd, hopen, hdestroyed⟩ | hclosed
  · refine .inl ⟨hfd, hopen, ?_⟩
    dsimp only
    rw [hdestroyed, hopen]
    rfl
  · exact .inr hclosed

/-- A descriptor that is closed has its entity wait. -/
theorem entityWaitClose (h : s.Consistent) (hfd : ¬s.fd > 0) : s.entityWaitClose = true := by
  rcases h with ⟨hopen, -⟩ | hclosed
  · exact absurd hopen hfd
  · exact hclosed.2.2

theorem fdClosed (h : s.Consistent) (hfd : ¬s.fd > 0) : s.fdClosed = true := by
  rcases h with ⟨hopen, -⟩ | hclosed
  · exact absurd hopen hfd
  · exact hclosed.2.1

theorem destroyed (h : s.Consistent) (hfd : s.fd > 0) : s.destroyed = false := by
  rcases h with hopen | ⟨hclosed, -⟩
  · exact hopen.2.2
  · exact absurd hfd hclosed

end Consistent

theorem onWriteEvent_fdWaitClose (answers : List SendAnswer) (s : SocketBase) :
    (s.onWriteEvent answers).fdWaitClose = s.fdWaitClose := by
  obtain ⟨wb, sent, hflush⟩ := s.flushBuffer_eq answers
  rw [onWriteEvent, hflush, checkCloseFd]
  split_ifs
  · rw [closeFd_fdWaitClose]
  · rfl

theorem onWriteEvent_entityClosed (answers : List SendAnswer) (s : SocketBase) :
    (s.onWriteEvent answers).entityClosed = s.entityClosed := by
  obtain ⟨wb, sent, hflush⟩ := s.flushBuffer_eq answers
  rw [onWriteEvent, hflush, checkCloseFd_entityClosed]

/-- A descriptor that is open is so before it is written. -/
theorem onWriteEvent_fd {s : SocketBase} (answers : List SendAnswer)
    (h : (s.onWriteEvent answers).fd > 0) : s.fd > 0 := by
  obtain ⟨wb, sent, hflush⟩ := s.flushBuffer_eq answers
  rw [onWriteEvent, hflush, checkCloseFd] at h
  split_ifs at h
  · exact absurd h (closeFd_fd _)
  · exact h

end SocketBase

namespace Mpproxy

/-- A connection that its server may use: none of what closes it has begun. -/
structure TcpConnectionBase.Usable (x : TcpConnectionBase) : Prop where
  fd : x.fd > 0
  fdWaitClose : x.fdWaitClose = false
  entityClosed : x.entityClosed = false

/-- A connection whose server closes. -/
theorem TcpConnectionBase.proxyClose_consistent {x : TcpConnectionBase} (h : x.Consistent) :
    x.proxyClose.Consistent := by
  have hset : SocketBase.Consistent { x.toSocketBase with
    fdWaitClose := true, entityClosed := true } := h
  exact hset.checkCloseFd

theorem TcpConnectionBase.fd_of_proxyClose {x : TcpConnectionBase} (h : x.proxyClose.fd > 0) :
    x.fd > 0 := by
  rw [TcpConnectionBase.proxyClose, SocketBase.checkCloseFd] at h
  dsimp only at h
  split_ifs at h
  · exact absurd h (SocketBase.closeFd_fd _)
  · exact h

namespace TpServerBase

variable (x : TpServerBase) (c : ℕ)

theorem proxyClose_sublist : (x.proxyClose c).connections.Sublist x.connections := by
  rw [connections_proxyClose]
  exact List.erase_sublist.append List.erase_sublist

/-- A connection that does not wait is listed once. -/
theorem nodup_register (hnodup : x.connections.Nodup) (hwait : c ∉ x.waitList) :
    (x.register c).connections.Nodup := by
  have hcons : (c :: (x.readyList.erase c ++ x.waitList)).Nodup := by
    rw [connections, List.nodup_append] at hnodup
    obtain ⟨hready, hwaits, hdisjoint⟩ := hnodup
    rw [List.nodup_cons, List.mem_append, not_or, List.nodup_append]
    exact ⟨⟨hready.not_mem_erase, hwait⟩, hready.erase c, hwaits,
      fun a ha b hb => hdisjoint a (List.mem_of_mem_erase ha) b hb⟩
  rw [connections, register]
  dsimp only
  rw [List.append_assoc, List.singleton_append]
  exact List.perm_middle.nodup_iff.2 hcons

theorem waitList_makeReady {c' : ℕ} (h : c' ∈ (x.makeReady c).waitList) : c' ∈ x.waitList := by
  rw [makeReady] at h
  split_ifs at h
  · exact List.mem_of_mem_erase h
  · exact h

variable {x c} in
theorem waitList_dstConnected {isConnected : ℕ → Bool} {c' : ℕ}
    (h : c' ∈ (x.dstConnected isConnected c).waitList) : c' ∈ x.waitList :=
  x.waitList_makeReady c (List.mem_of_mem_filter h)

theorem waitList_proxyConnected {c' : ℕ} (h : c' ∈ (x.proxyConnected c).waitList) :
    c' ∈ x.waitList := by
  rw [proxyConnected] at h
  split_ifs at h
  · exact x.waitList_makeReady c h
  · exact h

theorem recvData_lists (call : SendCall) (offset : UInt64) (pv : Bytes) :
    (x.recvData call offset pv).readyList = x.readyList ∧
      (x.recvData call offset pv).waitList = x.waitList := by
  obtain ⟨sequencer, wb, sent, heq, -⟩ := x.recvData_eq call offset pv
  rw [heq]
  exact ⟨rfl, rfl⟩

/-- What a server does without its connections leaves its lists. -/
theorem serverOp_lists {f : TpServerBase → TpServerBase} (hop : World.ServerOp f)
    (x : TpServerBase) : (f x).readyList = x.readyList ∧ (f x).waitList = x.waitList := by
  cases hop with
  | connected => exact ⟨rfl, rfl⟩
  | onWriteEvent answers => exact ⟨rfl, rfl⟩
  | recvData call offset pv => exact x.recvData_lists call offset pv
  | readLoop target reads =>
    obtain ⟨rb, queue, -, hloop | ⟨-, -, -, hloop⟩⟩ := x.readLoop_eq target reads 0
    · rw [hloop]
      exact ⟨rfl, rfl⟩
    · rw [hloop]
      exact ⟨rfl, rfl⟩

theorem waitList_proxyClose : (x.proxyClose c).waitList = x.waitList.erase c := by
  rw [proxyClose]
  dsimp only
  split_ifs <;> rfl

end TpServerBase

namespace World

/-- The lists of the servers: a connection is listed once. One that was given one server only
    points back to it, and is usable, or it is `c` and does not need to be (`calm`). -/
structure Linked (c : ℕ) (calm : Prop) (w : World) : Prop where
  consistent : ∀ c', (w.connections c').Consistent
  made : ∀ c', (w.connections c').fd > 0 → c' < w.connectionCount
  listed : ∀ s, ∀ c' ∈ (w.servers s).connections, c' < w.connectionCount
  nodup : ∀ s, (w.servers s).connections.Nodup
  waiting : ∀ s, ∀ c' ∈ (w.servers s).waitList, (w.connections c').role = .connectionRight
  server : ∀ s, ∀ c' ∈ (w.servers s).connections, (w.connections c').rejoined = false →
    (w.connections c').server = some s
  usable : ∀ s, ∀ c' ∈ (w.servers s).connections, (w.connections c').rejoined = false →
    calm ∨ c' ≠ c → (w.connections c').Usable

namespace Linked

variable {w : World} {c s : ℕ} {calm : Prop}

theorem weaken (h : w.Linked c True) (c' : ℕ) (calm : Prop) : w.Linked c' calm :=
  ⟨h.consistent, h.made, h.listed, h.nodup, h.waiting, h.server, fun s c'' hc hr _ =>
    h.usable s c'' hc hr (.inl trivial)⟩

/-- Nothing is said of the connection that is closing. -/
theorem closing (h : w.Linked c calm) : w.Linked c False :=
  ⟨h.consistent, h.made, h.listed, h.nodup, h.waiting, h.server, fun s c' hc hr hne =>
    h.usable s c' hc hr (.inr (hne.resolve_left id))⟩

/-- A connection that is in no list needs not be usable. -/
theorem of_unlisted (h : w.Linked c calm)
    (hun : ∀ s, c ∈ (w.servers s).connections → (w.connections c).rejoined = true) :
    w.Linked c True := by
  refine ⟨h.consistent, h.made, h.listed, h.nodup, h.waiting, h.server, fun s c' hc hr _ => ?_⟩
  refine h.usable s c' hc hr (.inr ?_)
  rintro rfl
  rw [hun s hc] at hr
  cases hr

theorem of_noServer (h : w.Linked c calm) (hnone : (w.connections c).server = none) :
    w.Linked c True := by
  refine h.of_unlisted fun s hc => ?_
  by_contra hr
  rw [Bool.not_eq_true] at hr
  have hserver := h.server s c hc hr
  rw [hnone] at hserver
  cases hserver

/-- A connection does something. -/
theorem update {c' : ℕ} {f : TcpConnectionBase → TcpConnectionBase} (h : w.Linked c calm)
    (hconsistent : (f (w.connections c')).Consistent)
    (hfd : (f (w.connections c')).fd > 0 → (w.connections c').fd > 0)
    (hrole : (f (w.connections c')).role = (w.connections c').role)
    (hlisted : ∀ s, c' ∈ (w.servers s).connections → (f (w.connections c')).rejoined = false →
      (f (w.connections c')).server = some s ∧
        (calm ∨ c' ≠ c → (f (w.connections c')).Usable)) :
    (w.updateConnection c' f).Linked c calm := by
  have hcases : ∀ (Q : ℕ → TcpConnectionBase → Prop) (c'' : ℕ), Q c' (f (w.connections c')) →
      (c'' ≠ c' → Q c'' (w.connections c'')) →
      Q c'' ((w.updateConnection c' f).connections c'') := by
    intro Q c'' hself hother
    by_cases hc : c'' = c'
    · subst hc
      rwa [updateConnection_self]
    · rw [updateConnection_ne w c' f hc]
      exact hother hc
  refine ⟨fun c'' => hcases (fun _ x => x.Consistent) c'' hconsistent fun _ => h.consistent c'',
    fun c'' => hcases (fun c'' x => x.fd > 0 → c'' < w.connectionCount) c''
      (fun hpos => h.made c' (hfd hpos)) fun _ => h.made c'', h.listed, h.nodup,
    fun s c'' => hcases (fun c'' x => c'' ∈ (w.servers s).waitList → x.role = .connectionRight) c''
      (fun hc => hrole.trans (h.waiting s c' hc)) fun _ => h.waiting s c'',
    fun s c'' => hcases (fun c'' x => c'' ∈ (w.servers s).connections → x.rejoined = false →
      x.server = some s) c'' (fun hc hr => (hlisted s hc hr).1) fun _ => h.server s c'',
    fun s c'' => hcases (fun c'' x => c'' ∈ (w.servers s).connections → x.rejoined = false →
      calm ∨ c'' ≠ c → x.Usable) c'' (fun hc hr => (hlisted s hc hr).2) fun _ => h.usable s c''⟩

/-- A connection does something that does not change its server. -/
theorem keep {c' : ℕ} {f : TcpConnectionBase → TcpConnectionBase} (h : w.Linked c calm)
    (hconsistent : (f (w.connections c')).Consistent)
    (hfd : (f (w.connections c')).fd > 0 → (w.connections c').fd > 0)
    (hrole : (f (w.connections c')).role = (w.connections c').role)
    (hserver : (f (w.connections c')).server = (w.connections c').server)
    (hrejoined : (f (w.connections c')).rejoined = (w.connections c').rejoined)
    (husable : calm ∨ c' ≠ c → (w.connections c').Usable → (f (w.connections c')).Usable) :
    (w.updateConnection c' f).Linked c calm := by
  refine h.update hconsistent hfd hrole fun s hc hr => ?_
  rw [hrejoined] at hr
  refine ⟨hserver.trans (h.server s c' hc hr), fun hcalm => ?_⟩
  exact husable hcalm (h.usable s c' hc hr hcalm)

theorem write {c' : ℕ} {f : TcpConnectionBase → TcpConnectionBase} (hop : WriteOp f)
    (h : w.Linked c calm) : (w.updateConnection c' f).Linked c calm := by
  have husable : (w.connections c').Usable → (f (w.connections c')).Usable := by
    intro hx
    obtain ⟨wb, sent, msg, heq⟩ := hop.eq hx.fdWaitClose
    rw [heq]
    exact ⟨hx.fd, hx.fdWaitClose, hx.entityClosed⟩
  cases hop with
  | onWriteEvent answers =>
    exact h.keep ((h.consistent c').onWriteEvent answers) (SocketBase.onWriteEvent_fd answers)
      rfl rfl rfl fun _ => husable
  | setWriteBuffer wb => exact h.keep (h.consistent c') id rfl rfl rfl fun _ => husable
  | connectMsg => exact h.keep (h.consistent c') id rfl rfl rfl fun _ => husable

theorem note {c' : ℕ} {f : TcpConnectionBase → TcpConnectionBase} (hop : NoteOp f)
    (h : w.Linked c calm) : (w.updateConnection c' f).Linked c calm := by
  have hx := h.consistent c'
  cases hop with
  | setReadBuffer rb =>
    exact h.keep hx id rfl rfl rfl fun _ hu => ⟨hu.fd, hu.fdWaitClose, hu.entityClosed⟩
  | originConnected =>
    exact h.keep hx id rfl rfl rfl fun _ hu => ⟨hu.fd, hu.fdWaitClose, hu.entityClosed⟩
  | connected =>
    exact h.keep hx id rfl rfl rfl fun _ hu => ⟨hu.fd, hu.fdWaitClose, hu.entityClosed⟩

/-- Closing the descriptor: the connection is not usable then. -/
theorem closeFd (h : w.Linked c calm) : (w.updateConnection c .closeFd).Linked c False :=
  h.closing.keep (h.consistent c).closeFd (fun hpos => absurd hpos (SocketBase.closeFd_fd _)) rfl
    rfl rfl fun hne => absurd rfl (hne.resolve_left id)

/-- A server has other lists, of connections that point back to it. -/
theorem relist {w' : World} {x : TpServerBase} (h : w.Linked c calm)
    (hconnections : w'.connections = w.connections)
    (hcount : w'.connectionCount = w.connectionCount)
    (hservers : w'.servers = Function.update w.servers s x) (hnodup : x.connections.Nodup)
    (hwait : ∀ c' ∈ x.waitList, (w.connections c').role = .connectionRight)
    (hlisted : ∀ c' ∈ x.connections, c' < w.connectionCount ∧
      ((w.connections c').rejoined = false → (w.connections c').server = some s ∧
        (calm ∨ c' ≠ c → (w.connections c').Usable))) : w'.Linked c calm := by
  refine ⟨?_, ?_, ?_, forall_update (L := fun _ x => x.connections.Nodup) h.nodup hservers hnodup,
    ?_, ?_, ?_⟩
  · rw [hconnections]
    exact h.consistent
  · rw [hconnections, hcount]
    exact h.made
  · rw [hcount]
    exact forall_update (L := fun _ x => ∀ c' ∈ x.connections, c' < w.connectionCount) h.listed
      hservers fun c' hc => (hlisted c' hc).1
  · rw [hconnections]
    exact forall_update (L := fun _ x => ∀ c' ∈ x.waitList,
      (w.connections c').role = .connectionRight) h.waiting hservers hwait
  · rw [hconnections]
    exact forall_update (L := fun s x => ∀ c' ∈ x.connections,
      (w.connections c').rejoined = false → (w.connections c').server = some s) h.server hservers
      fun c' hc hr => ((hlisted c' hc).2 hr).1
  · rw [hconnections]
    exact forall_update (L := fun _ x => ∀ c' ∈ x.connections,
      (w.connections c').rejoined = false → calm ∨ c' ≠ c → (w.connections c').Usable) h.usable
      hservers fun c' hc hr => ((hlisted c' hc).2 hr).2

/-- A server takes connections off its lists, or puts them elsewhere. -/
theorem setServer {w' : World} {x : TpServerBase} (h : w.Linked c calm)
    (hconnections : w'.connections = w.connections)
    (hcount : w'.connectionCount = w.connectionCount)
    (hservers : w'.servers = Function.update w.servers s x)
    (hmem : ∀ c' ∈ x.connections, c' ∈ (w.servers s).connections)
    (hwait : ∀ c' ∈ x.waitList, c' ∈ (w.servers s).waitList) (hnodup : x.connections.Nodup) :
    w'.Linked c calm := by
  refine h.relist hconnections hcount hservers hnodup (fun c' hc => h.waiting s c' (hwait c' hc))
    fun c' hc => ⟨h.listed s c' (hmem c' hc), fun hr => ?_⟩
  exact ⟨h.server s c' (hmem c' hc) hr, h.usable s c' (hmem c' hc) hr⟩

theorem updateServer {f : TpServerBase → TpServerBase} {E : Fault → Prop} (hE : E .registry)
    (h : w.Linked c calm)
    (hmem : ∀ c' ∈ (f (w.servers s)).connections, c' ∈ (w.servers s).connections)
    (hwait : ∀ c' ∈ (f (w.servers s)).waitList, c' ∈ (w.servers s).waitList)
    (hnodup : (f (w.servers s)).connections.Nodup) :
    Outcome (Linked c calm) E (w.updateServer s f) :=
  updateServer_outcome hE fun _ => h.setServer rfl rfl rfl hmem hwait hnodup

/-- A server that does not change its lists. -/
theorem sameLists {f : TpServerBase → TpServerBase} {E : Fault → Prop} (hE : E .registry)
    (h : w.Linked c calm) (hready : (f (w.servers s)).readyList = (w.servers s).readyList)
    (hwait : (f (w.servers s)).waitList = (w.servers s).waitList) :
    Outcome (Linked c calm) E (w.updateServer s f) := by
  have hsame : (f (w.servers s)).connections = (w.servers s).connections := by
    rw [TpServerBase.connections, hready, hwait]
    rfl
  exact h.updateServer hE (fun c' hc => hsame ▸ hc) (fun c' hc => hwait ▸ hc) (hsame ▸ h.nodup s)

/-- The server that a connection points back to takes it off its lists: it is in none then. -/
theorem unlisted_proxyClose (h : w.Linked c calm)
    (hserver : (w.connections c).server = some s) (sessions : UuidSessions) (s' : ℕ)
    (hc : c ∈ (({ w.setServer s ((w.servers s).proxyClose c) with
      uuidSessions := sessions } : World).servers s').connections) :
    (w.connections c).rejoined = true := by
  by_contra hr
  rw [Bool.not_eq_true] at hr
  change c ∈ ((w.setServer s ((w.servers s).proxyClose c)).servers s').connections at hc
  by_cases hs : s' = s
  · subst hs
    rw [setServer_self, TpServerBase.connections_proxyClose, List.mem_append] at hc
    have hnodup := List.nodup_append.1 (h.nodup s')
    exact hc.elim hnodup.1.not_mem_erase hnodup.2.1.not_mem_erase
  · rw [setServer_ne _ _ _ hs] at hc
    have hother := h.server s' c hc hr
    rw [hserver] at hother
    exact hs (Option.some.inj hother).symm

/-- The entity of the connection closes: it is in no list then. -/
theorem connectionCloseEntity (h : w.Linked c calm) :
    Outcome (fun w' => w'.Linked c True ∧ w'.connectionCount = w.connectionCount ∧
      w'.connections c = (w.connections c).setEntityClosed.detach) (· ≠ Fault.fd)
      (w.connectionCloseEntity c) := by
  have hset : (w.updateConnection c .setEntityClosed).Linked c False :=
    h.closing.keep (h.consistent c) id rfl rfl rfl fun hne => absurd rfl (hne.resolve_left id)
  rw [World.connectionCloseEntity]
  -- after its server is told, a list with it in is one of a server that it has left
  refine Outcome.bind (P := fun w' => w'.Linked c True ∧
    w'.connections = (w.updateConnection c .setEntityClosed).connections ∧
    w'.connectionCount = w.connectionCount ∧
    ∀ s, c ∈ (w'.servers s).connections → (w'.connections c).rejoined = true) ?_
    fun w₁ h₁ => ?_
  · split
    · -- without a server it is in a list only if it was given a second one
      next hnone =>
      have hlinked := hset.of_noServer hnone
      refine ⟨hlinked, rfl, rfl, fun s hc => ?_⟩
      by_contra hr
      have hserver := hset.server s c hc (Bool.not_eq_true _ ▸ hr)
      rw [hnone] at hserver
      cases hserver
    · -- its server takes it out of both lists
      next s hserver =>
      rw [notifyServer]
      refine (useServer_outcome (by decide) _ s).bind fun x _ => ?_
      refine updateServer_outcome (by decide) fun sessions => ?_
      have hun := hset.unlisted_proxyClose hserver sessions
      have hlinked : ({ (w.updateConnection c .setEntityClosed).setServer s
          (((w.updateConnection c .setEntityClosed).servers s).proxyClose c) with
            uuidSessions := sessions } : World).Linked c False := by
        refine hset.setServer rfl rfl rfl ?_ ?_ ?_
        · exact fun c' hc => (TpServerBase.proxyClose_sublist _ c).subset hc
        · rw [TpServerBase.waitList_proxyClose]
          exact fun c' hc => List.mem_of_mem_erase hc
        · exact (hset.nodup s).sublist (TpServerBase.proxyClose_sublist _ c)
      exact ⟨hlinked.of_unlisted hun, rfl, rfl, hun⟩
  · have hdetached : (w₁.updateConnection c .detach).Linked c True := by
      refine h₁.1.update (h₁.1.consistent c).checkToDeleteSelf (fun hpos => ?_) rfl
        fun s hc hr => ?_
      · rw [TcpConnectionBase.detach, SocketBase.checkToDeleteSelf_eq] at hpos
        exact hpos
      · have hrejoined := h₁.2.2.2 s hc
        have hr' : (w₁.connections c).rejoined = false := hr
        rw [hrejoined] at hr'
        cases hr'
    refine ⟨hdetached, h₁.2.2.1, ?_⟩
    rw [updateConnection_self, h₁.2.1, updateConnection_self]

/-- The connection gets a server, and is not listed by it yet. -/
theorem joined (s : ℕ) (uuid : UInt64) (h : w.Linked c calm) :
    ((w.updateConnection c ({ · with uuid := uuid })).updateConnection c (.joined s)).Linked c
      calm := by
  have huuid : (w.updateConnection c ({ · with uuid := uuid })).Linked c calm :=
    h.keep (h.consistent c) id rfl rfl rfl fun _ hu => ⟨hu.fd, hu.fdWaitClose, hu.entityClosed⟩
  refine huuid.update (huuid.consistent c) id rfl fun s' hc hr => ?_
  rw [TcpConnectionBase.joined, Bool.or_eq_false_iff, Bool.or_eq_false_iff,
    Bool.or_eq_false_iff] at hr
  obtain ⟨⟨⟨hrejoined, -⟩, -⟩, hsame⟩ := hr
  have hserver := huuid.server s' c hc hrejoined
  rw [hserver, Option.isSome_some, Bool.true_and, bne_eq_false_iff_eq] at hsame
  refine ⟨hsame.symm, fun hcalm => ?_⟩
  have hu := huuid.usable s' c hc hrejoined hcalm
  exact ⟨hu.fd, hu.fdWaitClose, hu.entityClosed⟩

/-- A connection that joins a server is listed by it. A connection that is not closing is
    usable then, unless it was given another server before. -/
theorem join {w' : World} {uuid : UInt64} {x : TpServerBase} (h : w.Linked c calm)
    (hmade : c < w.connectionCount)
    (hopened : calm → (w.connections c).fd > 0 ∨ (w.connections c).entityClosed = true ∨
      (w.connections c).fdWaitClose = true)
    (hconnections : w'.connections = ((w.updateConnection c ({ · with uuid := uuid
      })).updateConnection c (.joined s)).connections)
    (hcount : w'.connectionCount = w.connectionCount)
    (hservers : w'.servers = Function.update w.servers s x)
    (hmem : ∀ c' ∈ x.connections, c' = c ∨ c' ∈ (w.servers s).connections)
    (hwait : ∀ c' ∈ x.waitList, c' ∈ (w.servers s).waitList) (hnodup : x.connections.Nodup) :
    w'.Linked c calm := by
  have hjoined := h.joined s uuid
  refine hjoined.relist hconnections hcount hservers hnodup
    (fun c' hc => hjoined.waiting s c' (hwait c' hc)) fun c' hc => ?_
  rcases hmem c' hc with rfl | hc
  · rw [updateConnection_self, updateConnection_self]
    refine ⟨hmade, fun hr => ⟨rfl, fun hcalm => ?_⟩⟩
    rw [TcpConnectionBase.joined, Bool.or_eq_false_iff, Bool.or_eq_false_iff,
      Bool.or_eq_false_iff] at hr
    obtain ⟨⟨⟨-, hwaits⟩, hentity⟩, -⟩ := hr
    refine ⟨?_, hwaits, hentity⟩
    rcases hopened (hcalm.resolve_right fun hne => hne rfl) with hfd | hclosed | hclosing
    · exact hfd
    · exact absurd (hclosed.symm.trans hentity) (by decide)
    · exact absurd (hclosing.symm.trans hwaits) (by decide)
  · exact ⟨hjoined.listed s c' hc, fun hr => ⟨hjoined.server s c' hc hr, hjoined.usable s c' hc hr⟩⟩

/-! ### Servers -/

/-- Answers of the system are used, and sessions noted. -/
theorem answers {calls : List SendCall} {starts : List SocketStart} {sid : UInt64}
    (h : w.Linked c calm) :
    ({ w with calls := calls, starts := starts, sid := sid } : World).Linked c calm :=
  ⟨h.consistent, h.made, h.listed, h.nodup, h.waiting, h.server, h.usable⟩

/-- A connection is made, and is in no list yet. -/
theorem newConnection {x : TcpConnectionBase} (h : w.Linked c True) (hx : x.Consistent) :
    (w.newConnection x).Linked c True ∧
      ∀ s, w.connectionCount ∉ ((w.newConnection x).servers s).connections := by
  have hnew : ∀ s, w.connectionCount ∉ (w.servers s).connections := fun s hc =>
    lt_irrefl _ (h.listed s _ hc)
  have hold : ∀ s, ∀ c' ∈ (w.servers s).connections,
      (w.newConnection x).connections c' = w.connections c' := by
    intro s c' hc
    refine Function.update_of_ne ?_ _ _
    rintro rfl
    exact hnew s hc
  have hself : (w.newConnection x).connections w.connectionCount = x := Function.update_self ..
  refine ⟨⟨fun c' => ?_, fun c' hfd => ?_, fun s c' hc => ?_, h.nodup, fun s c' hc => ?_,
    fun s c' hc hr => ?_, fun s c' hc hr hcalm => ?_⟩, hnew⟩
  · rcases eq_or_ne c' w.connectionCount with rfl | hne
    · rw [hself]
      exact hx
    · rw [World.newConnection, updateConnection_ne _ _ _ hne]
      exact h.consistent c'
  · rcases eq_or_ne c' w.connectionCount with rfl | hne
    · exact Nat.lt_succ_self _
    · rw [World.newConnection, updateConnection_ne _ _ _ hne] at hfd
      exact (h.made c' hfd).trans (Nat.lt_succ_self _)
  · exact (h.listed s c' hc).trans (Nat.lt_succ_self _)
  · rw [hold s c' (List.mem_append_right _ hc)]
    exact h.waiting s c' hc
  · rw [hold s c' hc] at hr ⊢
    exact h.server s c' hc hr
  · rw [hold s c' hc] at hr ⊢
    exact h.usable s c' hc hr hcalm

/-- A connection that is told is in no other list: it points to the server that tells it. -/
theorem rejoined_of_ready (h : w.Linked c calm) {c' s' : ℕ} (hready : c' ∈ (w.servers s).readyList)
    {x : TpServerBase} (hlist : x.connections = (w.servers s).waitList)
    (hc : c' ∈ (Function.update w.servers s x s').connections) :
    (w.connections c').rejoined = true := by
  by_contra hr
  rw [Bool.not_eq_true] at hr
  rcases eq_or_ne s' s with rfl | hs
  · rw [Function.update_self, hlist] at hc
    exact (List.nodup_append.1 (h.nodup s')).2.2 c' hready c' hc rfl
  · rw [Function.update_of_ne hs] at hc
    have hself := h.server s c' (List.mem_append_left _ hready) hr
    rw [h.server s' c' hc hr] at hself
    exact hs (Option.some.inj hself)

/-- A server that closes tells its connections, and forgets them. -/
theorem serverCloseEntity (h : w.Linked c True) :
    Outcome (Linked c True) (· ≠ Fault.fd) (w.serverCloseEntity s) := by
  -- the server when it has forgotten them, and a world in which some of them are told
  let forgotten : TpServerBase := { (w.servers s).setEntityClosed with readyList := [] }
  let Told := fun w' : World => w'.servers = Function.update w.servers s
      (w.servers s).setEntityClosed ∧ (w'.setServer s forgotten).Linked c True ∧
    ∀ c' ∈ (w.servers s).readyList, ∀ s', c' ∈ (Function.update w.servers s forgotten s'
      ).connections → (w'.connections c').rejoined = true
  have hset : Told (w.setServer s (w.servers s).setEntityClosed) := by
    refine ⟨rfl, ?_, fun c' hready s' hc => h.rejoined_of_ready hready rfl hc⟩
    refine h.setServer rfl rfl (Function.update_idem ..) (fun c' hc => List.mem_append_right _ hc)
      (fun c' hc => hc) ?_
    exact (List.nodup_append.1 (h.nodup s)).2.1
  rw [World.serverCloseEntity, updateServer_eq (by rfl), ok_bind, setServer_self]
  refine Outcome.bind (P := Told) ?_ fun w₂ h₂ => ?_
  · refine Outcome.foldlM_mem (fun w' c' hready h' => ?_) hset
    obtain ⟨hservers, hlinked, hrejoined⟩ := h'
    rw [notifyClose]
    refine (useConnection_outcome (by decide) w' c').bind fun _ _ => ⟨hservers, ?_, ?_⟩
    · have hclosed :
          ((w'.setServer s forgotten).updateConnection c' .proxyClose).Linked c True := by
        refine hlinked.update (TcpConnectionBase.proxyClose_consistent (hlinked.consistent c'))
          TcpConnectionBase.fd_of_proxyClose rfl fun s' hc hr => ?_
        have hs : (w'.setServer s forgotten).servers = Function.update w.servers s forgotten := by
          rw [World.setServer, hservers, Function.update_idem]
        rw [hs] at hc
        exact absurd ((hrejoined c' hready s' hc).symm.trans hr) (by decide)
      exact hclosed
    · intro c'' hready'' s' hc
      have hr := hrejoined c'' hready'' s' hc
      rcases eq_or_ne c'' c' with rfl | hne
      · rwa [updateConnection_self]
      · rwa [updateConnection_ne _ _ _ hne]
  · obtain ⟨hservers, hlinked, -⟩ := h₂
    have hself : w₂.servers s = (w.servers s).setEntityClosed := by
      rw [hservers, Function.update_self]
    refine updateServer_outcome (by decide) fun sessions => ?_
    have hmem : ∀ c' ∈ (w₂.servers s).clearReadyList.connections,
        c' ∈ ((w₂.setServer s forgotten).servers s).connections := by
      rw [setServer_self, hself]
      exact fun c' hc => hc
    refine hlinked.setServer rfl rfl (Function.update_idem ..).symm hmem ?_ ?_
    · rw [setServer_self, hself]
      exact fun c' hc => hc
    · rw [hself]
      exact (List.nodup_append.1 (h.nodup s)).2.1

end Linked

end World

end Mpproxy

end DashDim
