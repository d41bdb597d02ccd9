import DashDim.Tpproxy.Servers

/-!
# Half-close of the plain connection

When the peer of a plain connection closes, what it has sent may be in the queue of the
descriptor, in the read buffer of the server, or passed on to the paths. The server closes
its descriptor at the end of the stream, and its entity when the read buffer is empty: then
all has been passed on.

The handlers of a hangup do not wait. A `TpServerLeft` closes the descriptor before it
reads, a `TpServerRight` the entity too, after it has read. What is still to be read, or to
be passed on, is lost (`CutsOff`).

* `passed_of_entityClosed`: in a run in which no hangup cuts off, a server that has closed
  its entity, not for want of paths, has passed on all its peer sent.
-/

namespace DashDim

namespace Mpproxy

/-! ## What a server does with its bytes -/

/-- What the peer sent is passed on, read or in the queue. The queue of a closed descriptor
    is empty, and so is the read buffer of a server that has closed its entity, or it has
    lost its paths. -/
structure TpServerBase.Conserves (x : TpServerBase) : Prop where
  content : x.peerSent = x.passed ++ x.fdReadBuffer ++ x.queue
  fd : x.fd > 0 ↔ x.fdClosed = false
  waits : x.entityWaitClose = true → x.fdClosed = true
  queue : x.fdClosed = true → x.fdWaitClose = true ∨ x.queue = []
  entity : x.entityClosed = true →
    x.fdWaitClose = true ∨ x.fdClosed = true ∧ x.fdReadBuffer = [] ∧ x.queue = []

namespace TpServerBase.Conserves

variable {x : TpServerBase}

/-- A server that is made. -/
theorem new {isConnected connecting : Bool} (hsocket : x.toSocketBase =
    { SocketBase.new 1 with isConnected := isConnected, connecting := connecting })
    (hsent : x.peerSent = []) (hpassed : x.passed = []) (hqueue : x.queue = []) : x.Conserves := by
  refine ⟨?_, ?_, ?_, ?_, ?_⟩
  · rw [hsent, hpassed, hqueue, hsocket]
    rfl
  · rw [hsocket]
    exact ⟨fun _ => rfl, fun _ => Int.one_pos⟩
  · rw [hsocket]
    exact fun h => absurd h Bool.false_ne_true
  · rw [hsocket]
    exact fun h => absurd h Bool.false_ne_true
  · rw [hsocket]
    exact fun h => absurd h Bool.false_ne_true

/-- Closing the descriptor, when there is nothing to read. -/
theorem closeFd (h : x.Conserves) (hqueue : x.fdWaitClose = true ∨ x.queue = []) :
    x.closeFd.Conserves := by
  rw [TpServerBase.closeFd, SocketBase.closeFd_eq]
  split_ifs with hfd
  · refine ⟨h.content, ⟨fun hpos => ?_, fun hopen => ?_⟩, fun _ => rfl, fun _ => hqueue,
      fun hentity => ?_⟩
    · cases hpos
    · cases hopen
    · rcases h.entity hentity with hwait | ⟨-, hrest⟩
      · exact .inl hwait
      · exact .inr ⟨rfl, hrest⟩
  · exact ⟨h.content, h.fd, h.waits, h.queue, h.entity⟩

theorem checkCloseFd (h : x.Conserves) :
    { x with toSocketBase := x.toSocketBase.checkCloseFd }.Conserves := by
  rw [SocketBase.checkCloseFd]
  split_ifs with hcheck
  · exact h.closeFd (.inl hcheck.1)
  · exact h

theorem serverOp {f : TpServerBase → TpServerBase} (hop : World.ServerOp f) (h : x.Conserves) :
    (f x).Conserves := by
  cases hop with
  | connected => exact ⟨h.content, h.fd, h.waits, h.queue, h.entity⟩
  | onWriteEvent answers =>
    obtain ⟨wb, sent, hflush⟩ := x.toSocketBase.flushBuffer_eq answers
    rw [TpServerBase.onWriteEvent, SocketBase.onWriteEvent, hflush]
    have hflushed : { x with fdWriteBuffer := wb, sent := sent }.Conserves :=
      ⟨h.content, h.fd, h.waits, h.queue, h.entity⟩
    exact hflushed.checkCloseFd
  | recvData call offset pv =>
    obtain ⟨sequencer, wb, sent, heq, -⟩ := x.recvData_eq call offset pv
    rw [heq]
    exact ⟨h.content, h.fd, h.waits, h.queue, h.entity⟩
  | readLoop target reads =>
    by_cases hfd : x.fd > 0
    · have hopen := h.fd.1 hfd
      obtain ⟨rb, queue, heq, hloop⟩ := x.readLoop_eq target reads 0
      have hread : { x with fdReadBuffer := rb, queue := queue }.Conserves := by
        refine ⟨?_, h.fd, h.waits, fun hclosed => ?_, fun hentity => ?_⟩
        · dsimp only
          rw [h.content, List.append_assoc, List.append_assoc, heq]
        · rw [hopen] at hclosed
          cases hclosed
        · rcases h.entity hentity with hwait | ⟨hclosed, -⟩
          · exact .inl hwait
          · rw [hopen] at hclosed
            cases hclosed
      rcases hloop with hloop | ⟨-, -, rfl, hloop⟩
      · rw [hloop]
        exact hread
      · rw [hloop]
        exact hread.closeFd (.inr rfl)
    · rw [TpServerBase.readLoop_of_closed target reads 0 hfd]
      exact h

theorem listOp {c : ℕ} {f : TpServerBase → TpServerBase} (hop : World.ListOp c f)
    (h : x.Conserves) : (f x).Conserves := by
  have hready : (x.makeReady c).Conserves := by
    rw [TpServerBase.makeReady]
    split_ifs
    · exact ⟨h.content, h.fd, h.waits, h.queue, h.entity⟩
    · exact h
  cases hop with
  | register => exact ⟨h.content, h.fd, h.waits, h.queue, h.entity⟩
  | dstConnected isConnected =>
    exact ⟨hready.content, hready.fd, hready.waits, hready.queue, hready.entity⟩
  | proxyConnected =>
    rw [TpServerBase.proxyConnected]
    split_ifs
    · exact hready
    · exact h
  | proxyClose =>
    rw [TpServerBase.proxyClose]
    dsimp only
    split_ifs
    · -- the last of the paths is lost
      have hlost : { x with
          waitList := x.waitList.erase c
          readyList := x.readyList.erase c
          stranded := x.stranded || x.fdClosed && !x.fdWriteBuffer.isEmpty
          fdWaitClose := true
          entityClosed := true }.Conserves :=
        ⟨h.content, h.fd, h.waits, fun _ => .inl rfl, fun _ => .inl rfl⟩
      exact hlost.checkCloseFd
    · exact ⟨h.content, h.fd, h.waits, h.queue, h.entity⟩

theorem closeFd_fdClosed (h : x.Conserves) : x.closeFd.fdClosed = true := by
  rw [TpServerBase.closeFd, SocketBase.closeFd_eq]
  split_ifs with hfd
  · rfl
  · rw [h.fd, Bool.not_eq_false] at hfd
    exact hfd

/-- Closing the entity, when all is passed on. -/
theorem closeEntity (h : x.Conserves)
    (hall : x.fdWaitClose = true ∨ x.fdClosed = true ∧ x.fdReadBuffer = [] ∧ x.queue = []) :
    x.setEntityClosed.clearReadyList.Conserves := by
  rw [TpServerBase.clearReadyList, SocketBase.checkToDeleteSelf_eq]
  exact ⟨h.content, h.fd, h.waits, h.queue, fun _ => hall⟩

end TpServerBase.Conserves

/-- There is nothing to read, or to pass on, or there are no paths to pass it to. -/
def TpServerBase.Spent (x : TpServerBase) : Prop :=
  x.fdWaitClose = true ∨ x.fdReadBuffer = [] ∧ x.queue = []

theorem TpServerBase.Spent.closeFd {x : TpServerBase} (h : x.Spent) : x.closeFd.Spent := by
  rw [TpServerBase.closeFd, SocketBase.closeFd_eq]
  split_ifs
  · exact h
  · exact h

theorem TpServerBase.Spent.serverOp {x : TpServerBase} {f : TpServerBase → TpServerBase}
    (hop : World.ServerOp f) (h : x.Spent) : (f x).Spent := by
  cases hop with
  | connected => exact h
  | onWriteEvent answers =>
    obtain ⟨wb, sent, hflush⟩ := x.toSocketBase.flushBuffer_eq answers
    rw [TpServerBase.onWriteEvent, SocketBase.onWriteEvent, hflush, SocketBase.checkCloseFd]
    have hflushed : { x with fdWriteBuffer := wb, sent := sent }.Spent := h
    split_ifs
    · exact hflushed.closeFd
    · exact hflushed
  | recvData call offset pv =>
    obtain ⟨sequencer, wb, sent, heq, -⟩ := x.recvData_eq call offset pv
    rw [heq]
    exact h
  | readLoop target reads =>
    obtain ⟨rb, queue, heq, hloop⟩ := x.readLoop_eq target reads 0
    have hread : { x with fdReadBuffer := rb, queue := queue }.Spent := by
      rcases h with hwait | ⟨hrb, hqueue⟩
      · exact .inl hwait
      · rw [hrb, hqueue, List.append_nil] at heq
        exact .inr (List.append_eq_nil_iff.1 heq)
    rcases hloop with hloop | ⟨-, -, -, hloop⟩
    · rw [hloop]
      exact hread
    · rw [hloop]
      exact hread.closeFd

namespace World

variable {w : World}

theorem conserves_local : Local fun _ => TpServerBase.Conserves where
  server hop h := h.serverOp hop
  closeEntity hwait hrb h := h.closeEntity <| (h.queue (h.waits hwait)).imp id fun hqueue =>
    ⟨h.waits hwait, hrb, hqueue⟩
  schedule {_ x passed remain} _ hrb h := by
    refine ⟨?_, h.fd, h.waits, h.queue, fun hentity => ?_⟩
    · dsimp only
      rw [h.content, hrb, List.append_assoc x.passed passed]
    · rcases h.entity hentity with hlost | ⟨hclosed, hnil, hqueue⟩
      · exact .inl hlost
      · rw [hrb] at hnil
        exact .inr ⟨hclosed, (List.append_eq_nil_iff.1 hnil).2, hqueue⟩

/-- What holds of each server, and a server with nothing to pass on. -/
theorem spent_local (s : ℕ) : Local fun s' x => x.Conserves ∧ (s' = s → x.Spent) where
  server hop h := ⟨h.1.serverOp hop, fun hs => (h.2 hs).serverOp hop⟩
  closeEntity hwait hrb h := by
    refine ⟨conserves_local.closeEntity (s := s) hwait hrb h.1, fun hs => ?_⟩
    rw [TpServerBase.clearReadyList, SocketBase.checkToDeleteSelf_eq]
    exact h.2 hs
  schedule {s' _ _ _} _ hrb h := by
    refine ⟨conserves_local.schedule (s := s') _ hrb h.1, fun hs => (h.2 hs).imp id ?_⟩
    rintro ⟨hnil, hqueue⟩
    rw [hrb] at hnil
    exact ⟨(List.append_eq_nil_iff.1 hnil).2, hqueue⟩

/-- A hangup closes a descriptor that is still to be read, or an entity that has still to
    pass something on, when there are paths. -/
def CutsOff (w : World) (i : Input) : Prop :=
  match i.event with
  | .server s _ _ true _ _ =>
    ((w.servers s).fd > 0 ∧ (w.servers s).peerClosed = true ∧ (w.servers s).fdWaitClose = false) ∧
      ((w.servers s).queue ≠ [] ∨
        (w.servers s).role = .serverRight ∧ (w.servers s).fdReadBuffer ≠ [])
  | _ => False

theorem mem_serverParts {role : ServerRole} {input output hup : Bool} {target : ℤ}
    {reads : List ℕ} (h : .hangup ∈ serverParts role input output hup target reads) :
    hup = true := by
  cases hup with
  | true => rfl
  | false =>
    cases role <;> cases input <;> cases output <;>
      simp [serverParts] at h

/-- A server that is hung up keeps its bytes, if it does not cut off. -/
theorem conserves_server {s : ℕ} {input output hup : Bool} {target : ℤ} {reads : List ℕ}
    (h : ∀ s, (w.servers s).Conserves)
    (hspent : hup = true → (w.servers s).fdWaitClose = true ∨ (w.servers s).queue = [] ∧
      ((w.servers s).role = .serverRight → (w.servers s).fdReadBuffer = [])) :
    Outcome (fun w => ∀ s, (w.servers s).Conserves) (fun _ => True)
      ((serverParts (w.servers s).role input output hup target reads).foldlM
        (fun w part => w.serverPart s part) w) := by
  cases hup with
  | false =>
    refine conserves_local.serverParts (fun hmem => ?_) h
    cases mem_serverParts hmem
  | true =>
    have hspent := hspent rfl
    cases hrole : (w.servers s).role with
    | serverLeft =>
      -- the hangup comes first
      have hrest : .hangup ∉ (if input then [.readable target reads] else []) ++
          (if output then [ServerPart.writable] else []) := by
        cases input <;> cases output <;> simp
      rw [serverParts, if_pos rfl, List.append_assoc, List.singleton_append, List.foldlM_cons,
        World.serverPart.eq_def, hrole]
      refine Outcome.bind (P := fun w => ∀ s, (w.servers s).Conserves) ?_ fun w₁ h₁ =>
        conserves_local.serverParts (fun hmem => absurd hmem hrest) h₁
      refine (updateServer_local (L := fun _ => TpServerBase.Conserves) h
        ((h s).closeFd (hspent.imp id And.left))).bind fun w₁ h₁ => ?_
      exact conserves_local.serves.checkCloseEntity s h₁
    | serverRight =>
      have hall : ∀ s', (w.servers s').Conserves ∧ (s' = s → (w.servers s').Spent) := by
        intro s'
        refine ⟨h s', ?_⟩
        rintro rfl
        exact hspent.imp id fun hempty => ⟨hempty.2 hrole, hempty.1⟩
      refine ((spent_local s).serverParts (fun _ w h => ?_) hall).mono
        (fun w' h' s' => (h' s').1) fun _ he => he
      have hspent := (h s).2 rfl
      have hclosed : (w.servers s).closeFd.Conserves ∧ (s = s → (w.servers s).closeFd.Spent) :=
        ⟨(h s).1.closeFd (hspent.imp id And.right), fun _ => hspent.closeFd⟩
      rw [World.serverPart.eq_def]
      cases (w.servers s).role with
      | serverLeft =>
        refine (updateServer_local (L := fun s' x => x.Conserves ∧ (s' = s → x.Spent)) h
          hclosed).bind fun w₁ h₁ => ?_
        exact (spent_local s).serves.checkCloseEntity s h₁
      | serverRight =>
        refine (updateServer_servers (s := s) trivial).bind fun w₁ h₁ => ?_
        have hclosed₁ := forall_update (L := fun s' x => x.Conserves ∧ (s' = s → x.Spent)) h h₁
          hclosed
        refine serverCloseEntity_local (L := fun s' x => x.Conserves ∧ (s' = s → x.Spent))
          hclosed₁ ?_
        rw [h₁, Function.update_self]
        refine ⟨hclosed.1.closeEntity (hspent.closeFd.imp id fun hempty =>
          ⟨(h s).1.closeFd_fdClosed, hempty⟩), fun _ => ?_⟩
        rw [TpServerBase.clearReadyList, SocketBase.checkToDeleteSelf_eq]
        exact hspent.closeFd

/-- Each event keeps the bytes of the servers, if no hangup cuts off. -/
theorem conserves_handle (i : Input) (hcut : ¬w.CutsOff i) (h : ∀ s, (w.servers s).Conserves) :
    Outcome (fun w => ∀ s, (w.servers s).Conserves) (fun _ => True) (w.handle i.event) := by
  have K := conserves_local
  obtain ⟨event, calls, starts⟩ := i
  rw [CutsOff] at hcut
  dsimp only at hcut ⊢
  cases event with
  | createEndpoint originDst starts =>
    -- the new server has received nothing, whether or not it is closed at once
    refine (createEndpoint_servers originDst starts).mono (fun w' ⟨x, hx, hw'⟩ => ?_) fun _ he => he
    refine forall_update h hw' ?_
    have hnew : (TpServerBase.newLeft originDst).Conserves := .new rfl rfl rfl rfl
    have hconnected : ({ TpServerBase.newLeft originDst with isConnected := true }).Conserves :=
      .new rfl rfl rfl rfl
    cases hx with
    | abandoned =>
      have hclosed := hnew.closeFd (.inr rfl)
      exact ⟨hclosed.content, hclosed.fd, hclosed.waits, hclosed.queue, hclosed.entity⟩
    | closed =>
      refine (hconnected.closeFd (.inr rfl)).closeEntity
        (.inr ⟨hconnected.closeFd_fdClosed, ?_, rfl⟩)
      rw [TpServerBase.closeFd, SocketBase.closeFd_fdReadBuffer]
      rfl
    | waiting waitList hne => exact .new rfl rfl rfl rfl
  | acceptPath => exact h
  | connection c input output hup reads =>
    rw [World.handle]
    split_ifs
    · refine (byServers_local (L := fun _ => TpServerBase.Conserves)
        (fun _ _ _ h => h.serverOp (.recvData _ _ _)) (fun hop h => h.listOp hop)
        fun _ _ _ _ => ?_).connectionParts (c := c) trivial trivial _ h
      exact .new rfl rfl rfl rfl
    · exact h
  | server s input output hup target reads =>
    rw [World.handle]
    split_ifs with hfd
    · refine conserves_server h fun hhup => ?_
      rw [Bool.and_eq_true] at hhup
      obtain ⟨rfl, hpeer⟩ := hhup
      -- a hangup: the server waits already, or there is nothing that it has yet to read
      rw [not_and_or, not_or] at hcut
      rcases hcut with hopen | ⟨hqueue, hright⟩
      · refine .inl ?_
        by_contra hwait
        exact hopen ⟨hfd, hpeer, Bool.not_eq_true _ ▸ hwait⟩
      · exact .inr ⟨not_not.1 hqueue, fun hrole => not_not.1 fun hrb => hright ⟨hrole, hrb⟩⟩
    · exact h
  | budgetAlarm s target reads share =>
    rw [World.handle]
    split_ifs
    · exact K.serves.serverOnBudgetAlarm s target reads share h
    · exact h
  | deleteConnection c => exact h
  | deleteServer s =>
    rw [World.handle]
    refine updateServer_local (L := fun _ => TpServerBase.Conserves) h ?_
    exact ⟨(h s).content, (h s).fd, (h s).waits, (h s).queue, (h s).entity⟩
  | peerSends s data =>
    refine updateServer_local (L := fun _ => TpServerBase.Conserves) h ?_
    split_ifs with hopen
    · -- the peer can send to an open descriptor only
      have hfd := (h s).fd.1 hopen.1
      refine ⟨?_, (h s).fd, (h s).waits, fun hclosed => ?_, fun hentity => ?_⟩
      · dsimp only
        rw [(h s).content, List.append_assoc]
      · rw [hfd] at hclosed
        cases hclosed
      · refine ((h s).entity hentity).imp id fun hclosed => ?_
        rw [hfd] at hclosed
        cases hclosed.1
    · exact h s
  | peerCloses s =>
    rw [World.handle]
    refine updateServer_local (L := fun _ => TpServerBase.Conserves) h ?_
    exact ⟨(h s).content, (h s).fd, (h s).waits, (h s).queue, (h s).entity⟩

theorem conserves_empty (uuid : UInt64) (s : ℕ) : ((empty uuid).servers s).Conserves := by
  refine ⟨rfl, ⟨fun hfd => ?_, fun hopen => ?_⟩, fun _ => rfl, fun _ => .inr rfl, fun hentity => ?_⟩
  · cases hfd
  · cases hopen
  · cases hentity

/-- In a run in which no hangup cuts off, a server that has closed its entity has passed on
    all that its peer sent, or it has lost its paths. -/
theorem passed_of_entityClosed (h : (system fun w i => ¬w.CutsOff i).Reachable w) (s : ℕ)
    (hpaths : (w.servers s).fdWaitClose = false) (hclosed : (w.servers s).entityClosed = true) :
    (w.servers s).passed = (w.servers s).peerSent := by
  have hconserves : ∀ s, (w.servers s).Conserves := by
    refine h.invariant (P := fun w => ∀ s, (w.servers s).Conserves) ?_ fun w w' _ hw hnext => ?_
    · rintro w ⟨uuid, rfl⟩
      exact conserves_empty uuid
    · obtain ⟨i, hcut, hi⟩ := hnext
      have hstep : Outcome (fun w => ∀ s, (w.servers s).Conserves) (fun _ => True) (w.step i) :=
        conserves_handle i hcut hw
      exact hstep.of_ok hi
  rcases (hconserves s).entity hclosed with hwait | ⟨-, hrb, hqueue⟩
  · rw [hpaths] at hwait
    cases hwait
  · rw [(hconserves s).content, hrb, hqueue, List.append_nil, List.append_nil]

/-- A path, its session, and the server of it with one byte read or to be read. -/
def sessionInputs : List Input :=
  [{ event := .acceptPath },
    { event := .connection 0 true false false [.data 0 [9, 1, 5, 1, 127, 0, 0, 1, 0, 80]]
      starts := [.started] },
    { event := .server 0 false true false 0 [] },
    { event := .peerSends 0 [7] }]

/-- The byte is passed on in an alarm, then the end of the stream is read. -/
def readToEnd : List Input :=
  sessionInputs ++ [{ event := .budgetAlarm 0 1 [1] fun _ _ => 0 }, { event := .peerCloses 0 },
    { event := .server 0 true false false 1 [1] }]

theorem passed_of_entityClosed_one_byte : ∃ w : World, (w.servers 0).entityClosed = true ∧
    (w.servers 0).peerSent = [7] ∧ (w.servers 0).passed = (w.servers 0).peerSent := by
  have hrun : (readToEnd.foldlM step (empty 0)).map (fun w => ((w.servers 0).fdWaitClose,
      (w.servers 0).entityClosed, (w.servers 0).peerSent)) = .ok (false, true, [7]) := by
    decide +kernel
  obtain ⟨w, hw, heq⟩ := exists_of_map_eq_ok hrun
  simp only [Prod.mk.injEq] at heq
  obtain ⟨hpaths, hclosed, hsent⟩ := heq
  refine ⟨w, hclosed, hsent, passed_of_entityClosed ?_ 0 hpaths hclosed⟩
  refine reachable_of_run (fun i hi w hcut => ?_) (.init ⟨0, rfl⟩) hw
  simp only [readToEnd, sessionInputs, List.cons_append, List.nil_append, List.mem_cons,
    List.not_mem_nil, or_false] at hi
  rcases hi with rfl | rfl | rfl | rfl | rfl | rfl | rfl
  all_goals exact hcut

/-- The byte is in the queue when the hangup comes. -/
def hungUp : List Input :=
  sessionInputs ++ [{ event := .peerCloses 0 }, { event := .server 0 true false true 1 [1] }]

theorem half_close_loses_byte : ∃ w : World, (system fun _ _ => True).Reachable w ∧
    (w.servers 0).fdWaitClose = false ∧ (w.servers 0).peerClosed = true ∧
    (w.servers 0).entityClosed = true ∧ (w.servers 0).passed ≠ (w.servers 0).peerSent := by
  have hrun : (hungUp.foldlM step (empty 0)).map (fun w => ((w.servers 0).fdWaitClose,
      (w.servers 0).peerClosed, (w.servers 0).entityClosed, (w.servers 0).passed,
      (w.servers 0).peerSent)) = .ok (false, true, true, [], [7]) := by
    decide +kernel
  obtain ⟨w, hw, heq⟩ := exists_of_map_eq_ok hrun
  simp only [Prod.mk.injEq] at heq
  obtain ⟨hpaths, hpeer, hclosed, hpassed, hsent⟩ := heq
  refine ⟨w, reachable_of_run (fun _ _ _ => trivial) (.init ⟨0, rfl⟩) hw, hpaths, hpeer, hclosed,
    ?_⟩
  rw [hpassed, hsent]
  exact (List.cons_ne_nil 7 []).symm

end World

end Mpproxy

end DashDim
