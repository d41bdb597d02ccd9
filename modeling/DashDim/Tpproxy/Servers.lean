import DashDim.Tpproxy.Keeping

/-!
# Invariants of single servers

What holds of each server by itself is kept if each server keeps it by what it does
(`Local`). Three functions are more than one such step, and it is said what they come to:

* `serverCloseEntity_servers`: closing the entity closes it, and clears the list;
* `schedule_servers`: what `Schedule` passes on is a prefix of the read buffer, and the
  rest stays there;
* `createEndpoint_servers`: a server that is made waits for its connections, or is closed.
-/

namespace DashDim

namespace Mpproxy

namespace World

variable {w : World} {s : ℕ} {E : Fault → Prop}

/-! ## What the servers come to -/

theorem updateServer_servers {f : TpServerBase → TpServerBase} (hE : E .registry) :
    Outcome (fun w' => w'.servers = Function.update w.servers s (f (w.servers s))) E
      (w.updateServer s f) :=
  updateServer_outcome hE fun _ => rfl

theorem serverCloseEntity_servers (hdeleted : E .deleted) (hregistry : E .registry) :
    Outcome (fun w' => w'.servers =
      Function.update w.servers s (w.servers s).setEntityClosed.clearReadyList) E
      (w.serverCloseEntity s) := by
  have hset : (w.setServer s (w.servers s).setEntityClosed).servers =
      Function.update w.servers s (w.servers s).setEntityClosed := rfl
  rw [serverCloseEntity, updateServer_eq (by rfl), ok_bind]
  refine Outcome.bind (P := fun w' => w'.servers =
    Function.update w.servers s (w.servers s).setEntityClosed) ?_ fun w' h' => ?_
  · refine Outcome.foldlM (fun w' c h' => ?_) _ hset
    rw [notifyClose]
    exact (useConnection_outcome hdeleted w' c).bind fun _ _ => h'
  · refine (updateServer_servers hregistry).mono (fun w'' h'' => ?_) fun _ he => he
    rw [h'', h', Function.update_self, Function.update_idem]

section passing

/-- Sending does not change servers. -/
theorem sendData_servers (c : ℕ) (offset : UInt64) (pv : Bytes) :
    Outcome (fun w' => w'.servers = w.servers) (fun _ => True) (w.sendData c offset pv) := by
  have K : Writes (fun w' => w'.servers = w.servers) fun _ => True :=
    ⟨trivial, trivial, fun _ h => h, fun _ _ _ h => h⟩
  exact K.sendData (.inr trivial) offset pv rfl

/-- When nothing is passed on. -/
theorem servers_of_nothing (w : World) (s : ℕ) :
    w.servers = Function.update w.servers s { w.servers s with
      writeOffset := (w.servers s).writeOffset, passed := (w.servers s).passed ++ [] } := by
  rw [List.append_nil]
  exact (Function.update_eq_self s w.servers).symm

/-- `SendDataWithLimit` passes on what it is given: each round at least one byte. -/
theorem sendDataLoop_servers (c : ℕ) {rounds : ℕ} {pv : Bytes} (hrounds : pv.length ≤ rounds) :
    Outcome (fun w' => ∃ offset, w'.servers = Function.update w.servers s { w.servers s with
      writeOffset := offset, passed := (w.servers s).passed ++ pv }) (fun _ => True)
      (w.sendDataLoop s c rounds pv) := by
  induction rounds generalizing pv w with
  | zero =>
    obtain rfl : pv = [] := List.length_eq_zero_iff.1 (Nat.le_zero.1 hrounds)
    exact ⟨_, servers_of_nothing w s⟩
  | succ rounds ih =>
    rw [sendDataLoop]
    split_ifs with hpos
    · have hmax : 0 < kMaxPacketLength := by decide
      have hrest : (pv.drop (min pv.length kMaxPacketLength)).length ≤ rounds := by
        rw [List.length_drop]
        omega
      refine (sendData_servers c _ _).bind fun w₁ h₁ => ?_
      refine (updateServer_servers (s := s) trivial).bind fun w₂ h₂ => ?_
      refine (ih hrest).mono (fun w' h' => ?_) fun _ he => he
      obtain ⟨offset, hw'⟩ := h'
      refine ⟨offset, ?_⟩
      rw [hw', h₂, h₁, Function.update_self, Function.update_idem, TpServerBase.pass]
      dsimp only
      rw [List.append_assoc, List.take_append_drop]
    · obtain rfl : pv = [] := List.length_eq_zero_iff.1 (Nat.eq_zero_of_not_pos hpos)
      exact ⟨_, servers_of_nothing w s⟩

theorem scheduleLoop_servers (share : ℕ → ℕ → ℕ) (connections : List ℕ) (data : Bytes) :
    Outcome (fun res : Bytes × World => ∃ passed offset, data = passed ++ res.1 ∧
      res.2.servers = Function.update w.servers s { w.servers s with
        writeOffset := offset, passed := (w.servers s).passed ++ passed }) (fun _ => True)
      (w.scheduleLoop s share connections data) := by
  induction connections generalizing data w with
  | nil => exact ⟨[], _, rfl, servers_of_nothing w s⟩
  | cons c connections ih =>
    cases connections with
    | nil =>
      refine (sendDataLoop_servers c le_rfl).bind fun w₁ h₁ => ?_
      obtain ⟨offset, h₁⟩ := h₁
      exact ⟨data, offset, (List.append_nil data).symm, h₁⟩
    | cons c' connections =>
      rw [scheduleLoop]
      split_ifs
      · dsimp only
        generalize min (max (share c data.length) kMinPayloadSize) data.length = sent
        have hlen : (data.take sent).length ≤ sent := List.length_take_le sent data
        refine (sendDataLoop_servers (s := s) c hlen).bind fun w₁ h₁ => ?_
        obtain ⟨offset₁, h₁⟩ := h₁
        refine (ih (data.drop sent)).mono (fun res hloop => ?_) fun _ he => he
        obtain ⟨passed, offset, hdata, hres⟩ := hloop
        refine ⟨data.take sent ++ passed, offset, ?_, ?_⟩
        · rw [List.append_assoc, ← hdata, List.take_append_drop]
        · rw [hres, h₁, Function.update_self, Function.update_idem]
          dsimp only
          rw [List.append_assoc]
      · exact ⟨[], _, rfl, servers_of_nothing w s⟩

/-- `Schedule` passes on a part of the read buffer, and leaves the rest. -/
theorem schedule_servers (share : ℕ → ℕ → ℕ) :
    Outcome (fun w' => ∃ passed offset remain, (w.servers s).fdReadBuffer = passed ++ remain ∧
      w'.servers = Function.update w.servers s { w.servers s with
        writeOffset := offset, passed := (w.servers s).passed ++ passed, fdReadBuffer := remain })
      (fun _ => True) (w.schedule s share) := by
  rw [schedule]
  split_ifs
  · exact ⟨[], _, (w.servers s).fdReadBuffer, rfl, servers_of_nothing w s⟩
  · refine (scheduleLoop_servers share _ _).bind fun res hloop => ?_
    obtain ⟨passed, offset, hdata, hres⟩ := hloop
    refine (updateServer_servers (s := s) trivial).mono (fun w' hw' => ?_) fun _ he => he
    refine ⟨passed, offset, res.1, hdata, ?_⟩
    rw [hw', hres, Function.update_self, Function.update_idem]

end passing

/-- What becomes of a `TpServerLeft` that is made: its origin is not known, it gets no
    connection, or it waits for those it has. -/
inductive NewLeft (originDst : OriginDst) : TpServerBase → Prop
  | abandoned : NewLeft originDst (TpServerBase.newLeft originDst).abandon
  | closed : NewLeft originDst
      ({ TpServerBase.newLeft originDst with isConnected := true }
        ).closeFd.setEntityClosed.clearReadyList
  | waiting (waitList : List ℕ) (hne : waitList ≠ []) : NewLeft originDst
      { TpServerBase.newLeft originDst with isConnected := true, waitList := waitList }

theorem createEndpoint_servers (originDst : OriginDst) (starts : List SocketStart) :
    Outcome (fun w' => ∃ x, NewLeft originDst x ∧
      w'.servers = Function.update w.servers w.serverCount x) (fun _ => True)
      (w.createEndpoint originDst starts) := by
  have hnew : ({ w with sid := w.sid + 1 }.newServer (.newLeft originDst)).servers =
      Function.update w.servers w.serverCount (.newLeft originDst) := rfl
  rw [createEndpoint]
  split_ifs
  · trivial
  · -- there is no origin
    refine (updateServer_servers (s := w.serverCount) trivial).mono (fun w' h' => ?_) fun _ he => he
    refine ⟨_, .abandoned, ?_⟩
    rw [h', hnew, Function.update_self, Function.update_idem]
  · refine (updateServer_servers (s := w.serverCount) trivial).bind fun w₁ h₁ => ?_
    refine Outcome.bind (P := fun w' => ∃ waitList, w'.servers = Function.update w.servers
      w.serverCount { TpServerBase.newLeft originDst with
        isConnected := true, waitList := waitList }) ?_ fun w₂ ⟨waitList, h₂⟩ => ?_
    · -- each connection that starts waits
      refine Outcome.foldlM (fun w' start ⟨waitList, h'⟩ => ?_) _ ⟨[], ?_⟩
      · rw [h₁, hnew, Function.update_self, Function.update_idem]
        rfl
      · rw [createConnection]
        split_ifs
        · exact ⟨waitList, h'⟩
        · exact ⟨waitList, h'⟩
        · refine (updateServer_servers (s := w.serverCount) trivial).mono (fun w'' h'' => ?_)
            fun _ he => he
          refine ⟨waitList ++ [w'.connectionCount], ?_⟩
          rw [h'', updateConnection_servers]
          rw [show (w'.newConnection _).servers = w'.servers from rfl, h', Function.update_self,
            Function.update_idem]
    · split_ifs with hempty
      · -- none of them did
        refine (updateServer_servers (s := w.serverCount) trivial).bind fun w₃ h₃ => ?_
        refine (serverCloseEntity_servers trivial trivial).mono (fun w₄ h₄ => ?_) fun _ he => he
        rw [h₂, Function.update_self] at hempty
        obtain rfl : waitList = [] := List.length_eq_zero_iff.1 hempty
        refine ⟨_, .closed, ?_⟩
        rw [h₄, h₃, h₂, Function.update_self, Function.update_self, Function.update_idem,
          Function.update_idem]
        rfl
      · refine ⟨_, .waiting waitList ?_, h₂⟩
        rintro rfl
        rw [h₂, Function.update_self] at hempty
        exact hempty rfl

/-! ## What each server keeps -/

/-- What holds of each server is kept by what they do by themselves. -/
structure Local (L : ℕ → TpServerBase → Prop) : Prop where
  server : ∀ {s x f}, ServerOp f → L s x → L s (f x)
  closeEntity : ∀ {s x}, x.entityWaitClose = true → x.fdReadBuffer = [] → L s x →
    L s x.setEntityClosed.clearReadyList
  schedule : ∀ {s x passed remain} offset, x.fdReadBuffer = passed ++ remain → L s x →
    L s { x with
      writeOffset := offset, passed := x.passed ++ passed, fdReadBuffer := remain }

section Local

variable {L : ℕ → TpServerBase → Prop}

theorem forall_update {w' : World} {x : TpServerBase} (h : ∀ s, L s (w.servers s))
    (hservers : w'.servers = Function.update w.servers s x) (hx : L s x) :
    ∀ s, L s (w'.servers s) := by
  intro s'
  rw [hservers]
  by_cases hs : s' = s
  · subst hs
    rw [Function.update_self]
    exact hx
  · rw [Function.update_of_ne hs]
    exact h s'

theorem updateServer_local {f : TpServerBase → TpServerBase} (h : ∀ s, L s (w.servers s))
    (hf : L s (f (w.servers s))) :
    Outcome (fun w => ∀ s, L s (w.servers s)) (fun _ => True) (w.updateServer s f) :=
  (updateServer_servers trivial).mono (fun _ h' => forall_update h h' hf) fun _ he => he

theorem serverCloseEntity_local (h : ∀ s, L s (w.servers s))
    (hclose : L s (w.servers s).setEntityClosed.clearReadyList) :
    Outcome (fun w => ∀ s, L s (w.servers s)) (fun _ => True) (w.serverCloseEntity s) :=
  (serverCloseEntity_servers trivial trivial).mono (fun _ h' => forall_update h h' hclose)
    fun _ he => he

/-- An event of a connection, if what it makes servers do is kept. -/
theorem byServers_local {c : ℕ}
    (hrecv : ∀ {s x} call offset pv, L s x → L s (.recvData call offset pv x))
    (hlist : ∀ {s x f}, ListOp c f → L s x → L s (f x))
    (hsession : ∀ s uuid sid originDst,
      L s ((TpServerBase.newRight uuid sid originDst).register c).started) :
    ByServers c (fun w => ∀ s, L s (w.servers s)) fun _ => True where
  packet := trivial
  deleted := trivial
  noServer := trivial
  calls _ h := h
  connection _ _ h := h
  recvData s _ _ _ h := updateServer_local h (hrecv _ _ _ (h s))
  list s _ hop h := updateServer_local h (hlist hop (h s))
  create originDst hfind h :=
    createServer_outcome hfind h (fun _ => trivial) fun _ _ =>
      forall_update h rfl (hsession _ _ _ originDst)

namespace Local

theorem serves (K : Local L) : Serves (fun w => ∀ s, L s (w.servers s)) fun _ => True where
  packet := trivial
  deleted := trivial
  calls _ h := h
  write _ _ _ h := h
  server s _ hop h := updateServer_local h (K.server hop (h s))
  checkCloseEntity s h := by
    rw [serverCheckCloseEntity]
    split_ifs with hcheck
    · exact serverCloseEntity_local h
        (K.closeEntity hcheck.1 (List.length_eq_zero_iff.1 hcheck.2) (h s))
    · exact h
  schedule s share h := by
    refine (schedule_servers share).mono (fun w' ⟨passed, offset, remain, hrb, hw'⟩ => ?_)
      fun _ he => he
    exact forall_update h hw' (K.schedule offset hrb (h s))

/-- An event of a server, if it is kept when the server is hung up. -/
theorem serverParts (K : Local L) {parts : List ServerPart}
    (hhangup : .hangup ∈ parts → ∀ {w : World}, (∀ s, L s (w.servers s)) →
      Outcome (fun w => ∀ s, L s (w.servers s)) (fun _ => True) (w.serverPart s .hangup))
    (h : ∀ s, L s (w.servers s)) :
    Outcome (fun w => ∀ s, L s (w.servers s)) (fun _ => True)
      (parts.foldlM (fun w part => w.serverPart s part) w) := by
  refine Outcome.foldlM_mem (fun w part hmem h => ?_) h
  by_cases hpart : part = .hangup
  · subst hpart
    exact hhangup hmem h
  · exact K.serves.serverPart s hpart h

/-- A hangup closes the descriptor and, maybe, the entity. -/
theorem hangup (K : Local L) (hcloseFd : ∀ {s x}, L s x → L s x.closeFd)
    (hclose : ∀ {s x}, L s x → L s x.setEntityClosed.clearReadyList) (s : ℕ)
    (h : ∀ s, L s (w.servers s)) :
    Outcome (fun w => ∀ s, L s (w.servers s)) (fun _ => True) (w.serverPart s .hangup) := by
  have hfd : Outcome (fun w => ∀ s, L s (w.servers s)) (fun _ => True)
      (w.updateServer s .closeFd) := updateServer_local h (hcloseFd (h s))
  rw [World.serverPart.eq_def]
  cases (w.servers s).role with
  | serverLeft => exact hfd.bind fun w₁ h₁ => K.serves.checkCloseEntity s h₁
  | serverRight => exact hfd.bind fun w₁ h₁ => serverCloseEntity_local h₁ (hclose (h₁ s))

/-- An event, if it is kept in those of connections. It is kept when servers close, and
    whatever their peers do. -/
theorem handle (K : Local L) (hcloseFd : ∀ {s x}, L s x → L s x.closeFd)
    (hclose : ∀ {s x}, L s x → L s x.setEntityClosed.clearReadyList)
    (hnew : ∀ {s originDst x}, NewLeft originDst x → L s x)
    (hpeer : ∀ {s x} freed queue peerSent peerClosed, L s x → L s { x with
      freed := freed, queue := queue, peerSent := peerSent, peerClosed := peerClosed })
    (e : Event) (hconnection : ∀ {c input output hup reads},
      e = .connection c input output hup reads → (w.connections c).fd > 0 →
      Outcome (fun w => ∀ s, L s (w.servers s)) (fun _ => True)
        ((World.connectionParts (w.connections c).role input output hup reads).foldlM
          (fun w part => w.connectionPart c part) w))
    (h : ∀ s, L s (w.servers s)) :
    Outcome (fun w => ∀ s, L s (w.servers s)) (fun _ => True) (w.handle e) := by
  cases e with
  | createEndpoint originDst starts =>
    refine (createEndpoint_servers originDst starts).mono (fun w' h' => ?_) fun _ he => he
    obtain ⟨x, hx, hservers⟩ := h'
    exact forall_update h hservers (hnew hx)
  -- an accepted path is a connection, which no server knows of yet
  | acceptPath => exact h
  | connection c input output hup reads =>
    rw [World.handle]
    split_ifs with hfd
    · exact hconnection rfl hfd
    · exact h
  | server s input output hup target reads =>
    rw [World.handle]
    split_ifs
    · exact K.serverParts (fun _ {_} h => K.hangup hcloseFd hclose s h) h
    · exact h
  | budgetAlarm s target reads share =>
    rw [World.handle]
    split_ifs
    · exact K.serves.serverOnBudgetAlarm s target reads share h
    · exact h
  | deleteConnection c => exact h
  | deleteServer s =>
    rw [World.handle]
    refine updateServer_local h ?_
    exact hpeer _ _ _ _ (h s)
  | peerSends s data =>
    rw [World.handle]
    refine updateServer_local h ?_
    split_ifs
    · exact hpeer _ _ _ _ (h s)
    · exact h s
  | peerCloses s =>
    rw [World.handle]
    refine updateServer_local h ?_
    exact hpeer _ _ _ _ (h s)

end Local

end Local

end World

end Mpproxy

end DashDim
