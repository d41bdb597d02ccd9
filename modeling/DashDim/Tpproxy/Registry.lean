import DashDim.Tpproxy.Keeping

/-!
# The registry mirrors the servers

A `TpServerRight` is put into the registry of sessions when it has started to connect, and
takes itself out when it posts its deletion. The two are in different objects, and in
different handlers.

Between handlers the registry has exactly the servers that were registered and have not
posted their deletion (`Mirrors`). Their checks fail in one case: a server whose
`AsynConnect` fails posts its deletion, before it was put in.

* `registry_mirrors`: what is reached mirrors the servers, and the checks of the registry
  fail only when a server fails to start;
* `createServer_failed`, of `Tpproxy.Keeping`: they always fail then.
-/

namespace DashDim

namespace Mpproxy

/-! ## What servers keep of themselves -/

/-- What a server is in the registry with, and whether it was put there. -/
def TpServerBase.key (x : TpServerBase) : ServerRole × UInt64 × UInt64 × Bool :=
  (x.role, x.uuid, x.sid, x.registered)

/-- A server that is the same to the registry, or has posted its deletion. -/
structure SameKey (x y : TpServerBase) : Prop where
  key : y.key = x.key
  destroyed : x.destroyed = true → y.destroyed = true

namespace SameKey

variable {x : TpServerBase}

/-- Only the socket is another one. -/
theorem socket {socket : SocketBase} (h : x.destroyed = true → socket.destroyed = true) :
    SameKey x { x with toSocketBase := socket } := ⟨rfl, h⟩

theorem closeFd : SameKey x x.closeFd := socket SocketBase.closeFd_destroyed

theorem serverOp {f : TpServerBase → TpServerBase} (h : World.ServerOp f) : SameKey x (f x) := by
  cases h with
  | onWriteEvent answers => exact socket (SocketBase.onWriteEvent_destroyed answers)
  | connected => exact ⟨rfl, id⟩
  | recvData call offset pv =>
    obtain ⟨sequencer, wb, sent, heq, -⟩ := x.recvData_eq call offset pv
    rw [heq]
    exact ⟨rfl, id⟩
  | readLoop target reads =>
    obtain ⟨rb, queue, -, heq | ⟨-, -, -, heq⟩⟩ := x.readLoop_eq target reads 0
    · rw [heq]
      exact ⟨rfl, id⟩
    · rw [heq]
      refine ⟨rfl, fun hx => ?_⟩
      exact SocketBase.closeFd_destroyed hx

theorem listOp {c : ℕ} {f : TpServerBase → TpServerBase} (h : World.ListOp c f) :
    SameKey x (f x) := by
  have hready : ∀ c, SameKey x (x.makeReady c) := by
    intro c
    rw [TpServerBase.makeReady]
    split_ifs
    · exact ⟨rfl, id⟩
    · exact ⟨rfl, id⟩
  cases h with
  | register => exact ⟨rfl, id⟩
  | dstConnected isConnected => exact ⟨(hready c).key, (hready c).destroyed⟩
  | proxyConnected =>
    rw [TpServerBase.proxyConnected]
    split_ifs
    · exact hready c
    · exact ⟨rfl, id⟩
  | proxyClose =>
    rw [TpServerBase.proxyClose]
    dsimp only
    split_ifs
    · refine ⟨rfl, fun hx => ?_⟩
      exact SocketBase.checkCloseFd_destroyed hx
    · exact ⟨rfl, id⟩

theorem clearReadyList : SameKey x x.clearReadyList := by
  refine ⟨rfl, fun hx => ?_⟩
  dsimp only [TpServerBase.clearReadyList]
  rw [SocketBase.checkToDeleteSelf_eq, hx, Bool.true_or]

end SameKey

/-- The server is to be in the registry: it is a `TpServerRight` with this key that was
    registered, and has not posted its deletion. -/
def TpServerBase.Live (uuid sid : UInt64) (x : TpServerBase) : Prop :=
  x.key = (.serverRight, uuid, sid, true) ∧ x.destroyed = false

theorem SameKey.live_iff {x y : TpServerBase} (h : SameKey x y) {uuid sid : UInt64} :
    y.Live uuid sid ↔ x.Live uuid sid ∧ y.destroyed = false := by
  rw [TpServerBase.Live, TpServerBase.Live, h.key]
  constructor
  · rintro ⟨hkey, hy⟩
    refine ⟨⟨hkey, ?_⟩, hy⟩
    by_contra hx
    rw [Bool.not_eq_false] at hx
    rw [h.destroyed hx] at hy
    cases hy
  · rintro ⟨⟨hkey, -⟩, hy⟩
    exact ⟨hkey, hy⟩

/-! ## The registry and the servers -/

namespace World

/-- The registry has exactly the servers that are to be in it, and no inner map is empty.
    Each server that has not posted its deletion was registered. -/
structure Mirrors (w : World) : Prop where
  find : ∀ uuid sid s, w.uuidSessions.find uuid sid = some s ↔ (w.servers s).Live uuid sid
  nonempty : w.uuidSessions.Nonempty
  registered : ∀ s, (w.servers s).role = .serverRight → (w.servers s).destroyed = false →
    (w.servers s).registered = true
  fresh : ∀ s, w.serverCount ≤ s → (w.servers s).role = .serverLeft

variable {w : World} {s : ℕ} {f : TpServerBase → TpServerBase}

/-- Another server in one place, with the registry it is in or not. -/
theorem Mirrors.update {w' : World} {x : TpServerBase} (h : w.Mirrors)
    (hservers : w'.servers = Function.update w.servers s x)
    (hfind : ∀ uuid sid s', w'.uuidSessions.find uuid sid = some s' ↔
      if s' = s then x.Live uuid sid else (w.servers s').Live uuid sid)
    (hnonempty : w'.uuidSessions.Nonempty)
    (hregistered : x.role = .serverRight → x.destroyed = false → x.registered = true)
    (hfresh : ∀ s', w'.serverCount ≤ s' → w.serverCount ≤ s' ∧ (s' = s → x.role = .serverLeft)) :
    w'.Mirrors := by
  have hself : w'.servers s = x := by rw [hservers, Function.update_self]
  have hne : ∀ {s'}, s' ≠ s → w'.servers s' = w.servers s' := by
    intro s' hs
    rw [hservers, Function.update_of_ne hs]
  refine ⟨fun uuid sid s' => (hfind uuid sid s').trans ?_, hnonempty, fun s' hs' hdel => ?_,
    fun s' hs' => ?_⟩
  · split_ifs with hs
    · rw [hs, hself]
    · rw [hne hs]
  · by_cases hs : s' = s
    · rw [hs, hself] at hs' hdel ⊢
      exact hregistered hs' hdel
    · rw [hne hs] at hs' hdel ⊢
      exact h.registered s' hs' hdel
  · obtain ⟨hold, hnew⟩ := hfresh s' hs'
    by_cases hs : s' = s
    · rw [hs, hself]
      exact hnew hs
    · rw [hne hs]
      exact h.fresh s' hold

/-- What a server does keeps the registry in step, when it is the same to the registry. -/
theorem Mirrors.setServer (h : w.Mirrors) (hf : SameKey (w.servers s) (f (w.servers s)))
    {sessions : UuidSessions} (hnonempty : sessions.Nonempty)
    (hfind : ∀ uuid sid s', sessions.find uuid sid = some s' ↔ (w.servers s').Live uuid sid ∧
      (s' = s → (f (w.servers s)).destroyed = false)) :
    Mirrors { w.setServer s (f (w.servers s)) with uuidSessions := sessions } := by
  have hkey := hf.key
  simp only [TpServerBase.key, Prod.mk.injEq] at hkey
  obtain ⟨hrole, -, -, hregistered⟩ := hkey
  refine h.update rfl (fun uuid sid s' => (hfind uuid sid s').trans ?_) hnonempty
    (fun hright hdel => ?_) fun s' hs' => ⟨hs', ?_⟩
  · split_ifs with hs
    · rw [hf.live_iff, hs]
      exact and_congr_right fun _ => ⟨fun himp => himp rfl, fun hdel _ => hdel⟩
    · exact and_iff_left fun heq => absurd heq hs
  · rw [hregistered]
    refine h.registered s (hrole ▸ hright) ?_
    by_contra hx
    rw [Bool.not_eq_false] at hx
    rw [hf.destroyed hx] at hdel
    cases hdel
  · rintro rfl
    rw [hrole]
    exact h.fresh s' hs'

/-- The same, with what `DeleteSelf` does to the registry. It finds the server there. -/
theorem Mirrors.updateServer {E : Fault → Prop} (h : w.Mirrors)
    (hf : SameKey (w.servers s) (f (w.servers s))) :
    Outcome (fun w' => w'.Mirrors ∧ w'.starts = w.starts) E (w.updateServer s f) := by
  have hkey := hf.key
  simp only [TpServerBase.key, Prod.mk.injEq] at hkey
  obtain ⟨hrole, huuid, hsid, -⟩ := hkey
  rw [World.updateServer]
  dsimp only
  split_ifs with hdel
  · obtain ⟨hright, hold, hnew⟩ := hdel
    rw [hrole] at hright
    -- the server is in the registry under its key
    have hlive : (w.servers s).Live (w.servers s).uuid (w.servers s).sid := by
      refine ⟨?_, hold⟩
      rw [TpServerBase.key, hright, h.registered s hright hold]
    have hfind := (h.find _ _ s).2 hlive
    rw [huuid, hsid]
    split
    · next e he =>
      obtain ⟨-, hnone⟩ := UuidSessions.unRegsiterSink_eq_error he
      rw [hnone] at hfind
      cases hfind
    · next sessions hsessions =>
      refine ⟨h.setServer hf (UuidSessions.nonempty_unRegsiterSink h.nonempty hsessions) ?_, rfl⟩
      intro uuid sid s'
      rw [UuidSessions.find_unRegsiterSink hsessions]
      split_ifs with hsame
      · obtain ⟨rfl, rfl⟩ := hsame
        refine ⟨False.elim, ?_⟩
        rintro ⟨hlive', himp⟩
        have hs' := (h.find _ _ s').2 hlive'
        rw [hfind] at hs'
        cases hs'
        rw [himp rfl] at hnew
        cases hnew
      · rw [h.find]
        refine ⟨fun hlive' => ⟨hlive', ?_⟩, fun hlive' => hlive'.1⟩
        rintro rfl
        have hkey' := hlive'.1
        simp only [TpServerBase.key, Prod.mk.injEq] at hkey'
        exact absurd ⟨hkey'.2.1.symm, hkey'.2.2.1.symm⟩ hsame
  · refine ⟨h.setServer hf h.nonempty fun uuid sid s' => ?_, rfl⟩
    rw [h.find]
    refine ⟨fun hlive => ⟨hlive, ?_⟩, fun hlive => hlive.1⟩
    rintro rfl
    have hkey := hlive.1
    simp only [TpServerBase.key, Prod.mk.injEq] at hkey
    rw [← Bool.not_eq_true]
    exact fun hnew => hdel ⟨hrole.trans hkey.1, hlive.2, hnew⟩

/-! ## Handlers -/

theorem Mirrors.congr {w' : World} (h : w.Mirrors) (hservers : w'.servers = w.servers)
    (hcount : w'.serverCount = w.serverCount) (hsessions : w'.uuidSessions = w.uuidSessions) :
    w'.Mirrors := by
  refine ⟨?_, ?_, ?_, ?_⟩
  · rw [hservers, hsessions]
    exact h.find
  · rw [hsessions]
    exact h.nonempty
  · rw [hservers]
    exact h.registered
  · rw [hservers, hcount]
    exact h.fresh

/-- The registry mirrors the servers, and what sockets do when they start is among these. -/
def MirrorsWith (starts : List SocketStart) (w : World) : Prop := w.Mirrors ∧ w.starts ⊆ starts

/-- A check of the registry fails only when a socket fails to start. -/
def RegistryFault (starts : List SocketStart) (e : Fault) : Prop := e = .registry → .failed ∈ starts

section handlers

variable {starts : List SocketStart}

theorem MirrorsWith.updateServer (h : w.MirrorsWith starts)
    (hf : SameKey (w.servers s) (f (w.servers s))) :
    Outcome (MirrorsWith starts) (RegistryFault starts) (w.updateServer s f) := by
  refine (h.1.updateServer hf).mono (fun w' h' => ⟨h'.1, ?_⟩) fun _ he => he
  rw [h'.2]
  exact h.2

theorem MirrorsWith.connection (h : w.MirrorsWith starts) (c : ℕ)
    (g : TcpConnectionBase → TcpConnectionBase) : (w.updateConnection c g).MirrorsWith starts :=
  ⟨h.1.congr rfl rfl rfl, h.2⟩

/-- A `TpServerLeft` that is made. -/
theorem Mirrors.newServer (h : w.Mirrors) (originDst : OriginDst) :
    ({ w with sid := w.sid + 1 }.newServer (.newLeft originDst)).Mirrors := by
  refine h.update rfl (fun uuid sid s' => ?_) h.nonempty (fun hright => by cases hright)
    fun s' hs' => ⟨Nat.le_of_succ_le hs', fun _ => rfl⟩
  refine (h.find uuid sid s').trans ?_
  split_ifs with hs
  · subst hs
    refine ⟨fun hlive => ?_, fun hlive => ?_⟩
    · have hkey := hlive.1
      rw [TpServerBase.key, h.fresh _ le_rfl] at hkey
      cases hkey
    · cases congrArg Prod.fst hlive.1
  · exact Iff.rfl

/-- A server that is made when it is not in the registry, and put there. -/
theorem Mirrors.newSession {uuid sid : UInt64} {sessions : UuidSessions} (h : w.Mirrors) (c : ℕ)
    (originDst : OriginDst)
    (hsessions : w.uuidSessions.regsiterSink w.serverCount uuid sid = .ok sessions)
    (hfind : w.uuidSessions.find uuid sid = none) :
    Mirrors { w.newSession c ((TpServerBase.newRight uuid sid originDst).register c).started with
      uuidSessions := sessions } := by
  refine h.update rfl (fun uuid' sid' s' => ?_)
    (UuidSessions.nonempty_regsiterSink h.nonempty hsessions) (fun _ _ => rfl)
    fun s' hs' => ⟨Nat.le_of_succ_le hs', ?_⟩
  · rw [UuidSessions.find_regsiterSink hsessions]
    split_ifs with hkey hs hs
    · obtain ⟨rfl, rfl⟩ := hkey
      exact ⟨fun _ => ⟨rfl, rfl⟩, fun _ => hs ▸ rfl⟩
    · obtain ⟨rfl, rfl⟩ := hkey
      rw [← h.find, hfind]
      exact ⟨fun heq => absurd (Option.some.inj heq).symm hs,
        fun heq => absurd heq (Option.some_ne_none s').symm⟩
    · -- the new server is found under its key only
      subst hs
      refine ⟨fun hfind' => ?_, fun hlive => ?_⟩
      · have hkey' := ((h.find _ _ _).1 hfind').1
        rw [TpServerBase.key, h.fresh _ le_rfl] at hkey'
        cases congrArg Prod.fst hkey'
      · have hkey' := hlive.1
        simp only [TpServerBase.key, Prod.mk.injEq] at hkey'
        exact absurd ⟨hkey'.2.1.symm, hkey'.2.2.1.symm⟩ hkey
    · exact h.find uuid' sid' s'
  · rintro rfl
    exact absurd hs' (Nat.not_succ_le_self _)

/-- An answer that is not the one given when there is none. -/
theorem mem_of_headD {list : List SocketStart} {start none : SocketStart} (hne : start ≠ none)
    (h : list.headD none = start) : start ∈ list := by
  cases list with
  | nil => exact absurd h.symm hne
  | cons first rest =>
    obtain rfl : first = start := h
    exact List.mem_cons_self

theorem mirrors_writes : Writes (MirrorsWith starts) (RegistryFault starts) where
  packet he := by cases he
  deleted he := by cases he
  calls _ h := ⟨h.1.congr rfl rfl rfl, h.2⟩
  write c _ _ h := h.connection c _

theorem MirrorsWith.serverCloseEntity (h : w.MirrorsWith starts) (s : ℕ) :
    Outcome (MirrorsWith starts) (RegistryFault starts) (w.serverCloseEntity s) :=
  mirrors_writes.serverCloseEntity (fun c h => h.connection c _) (h.updateServer ⟨rfl, id⟩)
    fun h => h.updateServer .clearReadyList

theorem mirrors_serves : Serves (MirrorsWith starts) (RegistryFault starts) where
  toWrites := mirrors_writes
  server s _ hop h := h.updateServer (.serverOp hop)
  checkCloseEntity s h := by
    rw [serverCheckCloseEntity]
    split_ifs
    · exact h.serverCloseEntity s
    · exact h
  schedule s share h := by
    refine schedule_outcome (fun c _ w offset pv h => ?_) (fun _ h => h.updateServer ⟨rfl, id⟩)
      (fun _ h => h.updateServer ⟨rfl, id⟩) share h
    exact mirrors_writes.sendData (.inr fun he => by cases he) offset pv h

theorem mirrors_byServers (c : ℕ) : ByServers c (MirrorsWith starts) (RegistryFault starts) where
  packet := mirrors_writes.packet
  deleted := mirrors_writes.deleted
  noServer he := by cases he
  calls := mirrors_writes.calls
  connection c f h := h.connection c f
  recvData _ _ _ _ h := h.updateServer (.serverOp (.recvData _ _ _))
  list _ _ hop h := h.updateServer (.listOp hop)
  create originDst hfind h := by
    refine createServer_outcome hfind ⟨h.1.congr rfl rfl rfl, fun _ hx => h.2 ?_⟩
      (fun hstart _ => ?_) fun sessions hsessions =>
        ⟨h.1.newSession c originDst hsessions hfind, fun _ hx => h.2 ?_⟩
    · exact List.mem_of_mem_tail hx
    · exact h.2 (mem_of_headD (by decide) hstart)
    · exact List.mem_of_mem_tail hx

theorem MirrorsWith.createEndpoint {w₀ : World} (h : w₀.MirrorsWith starts) (originDst : OriginDst)
    (paths : List SocketStart) :
    Outcome (MirrorsWith starts) (RegistryFault starts) (w₀.createEndpoint originDst paths) := by
  have hnew : ({ w₀ with sid := w₀.sid + 1 }.newServer (.newLeft originDst)).MirrorsWith starts :=
    ⟨h.1.newServer originDst, h.2⟩
  rw [World.createEndpoint]
  split_ifs
  · exact fun he => by cases he
  · refine hnew.updateServer ?_
    exact ⟨rfl, fun _ => rfl⟩
  · have hconnected : Outcome (MirrorsWith starts) (RegistryFault starts)
        (({ w₀ with sid := w₀.sid + 1 }.newServer (.newLeft originDst)).updateServer w₀.serverCount
          ({ · with isConnected := true })) := hnew.updateServer ⟨rfl, id⟩
    refine hconnected.bind fun w₁ h₁ => ?_
    refine Outcome.bind (P := MirrorsWith starts) ?_ fun w₂ h₂ => ?_
    · refine Outcome.foldlM (fun w start h => ?_) _ h₁
      rw [createConnection]
      have hmade : (w.newConnection (.newRight w₀.serverCount w₀.uuid w₀.sid originDst)).MirrorsWith
          starts := ⟨h.1.congr rfl rfl rfl, h.2⟩
      split_ifs
      · exact h
      · exact hmade.connection _ _
      · refine (hmade.connection _ _).updateServer ?_
        exact ⟨rfl, id⟩
    · split_ifs
      · exact (h₂.updateServer .closeFd).bind fun w₃ h₃ => h₃.serverCloseEntity _
      · exact h₂

/-- Each event keeps the registry in step. -/
theorem MirrorsWith.handle (h : w.MirrorsWith starts) (event : Event) :
    Outcome (MirrorsWith starts) (RegistryFault starts) (w.handle event) := by
  have K : Serves (MirrorsWith starts) (RegistryFault starts) := mirrors_serves
  cases event with
  | createEndpoint originDst paths => exact h.createEndpoint originDst paths
  | acceptPath => exact ⟨h.1.congr rfl rfl rfl, h.2⟩
  | connection c input output hup reads =>
    rw [World.handle]
    split_ifs
    · exact (mirrors_byServers c).connectionParts (fun he => by cases he)
        (fun he => by cases he) _ h
    · exact h
  | server s input output hup target reads =>
    rw [World.handle]
    split_ifs
    · refine Outcome.foldlM (fun w part h => ?_) _ h
      by_cases hpart : part = .hangup
      · -- a hangup closes the socket first, which no session's entry depends on
        subst hpart
        rw [World.serverPart.eq_def]
        cases (w.servers s).role with
        | serverLeft =>
          exact (h.updateServer .closeFd).bind fun w₁ h₁ => K.checkCloseEntity s h₁
        | serverRight => exact (h.updateServer .closeFd).bind fun w₁ h₁ => h₁.serverCloseEntity s
      · exact K.serverPart s hpart h
    · exact h
  | budgetAlarm s target reads share =>
    rw [World.handle]
    split_ifs
    · exact K.serverOnBudgetAlarm s target reads share h
    · exact h
  | deleteConnection c => exact h.connection c _
  | deleteServer s =>
    rw [World.handle]
    refine h.updateServer ?_
    exact ⟨rfl, id⟩
  | peerSends s data =>
    refine h.updateServer ?_
    split_ifs
    · exact ⟨rfl, id⟩
    · exact ⟨rfl, id⟩
  | peerCloses s =>
    rw [World.handle]
    refine h.updateServer ?_
    exact ⟨rfl, id⟩

end handlers

/-! ## Runs -/

theorem mirrors_empty (uuid : UInt64) : (empty uuid).Mirrors := by
  refine ⟨fun uuid sid s => ⟨fun hfind => ?_, fun hlive => ?_⟩, UuidSessions.nonempty_empty,
    fun s hright => ?_, fun _ _ => rfl⟩
  · cases hfind
  · cases congrArg Prod.fst hlive.1
  · cases hright

/-- In every run the registry has exactly the servers that were registered and have not
    posted their deletion, and a step in which no server fails to start passes its checks. -/
theorem registry_mirrors (h : (system fun _ _ => True).Reachable w) :
    w.Mirrors ∧ ∀ i : Input, .failed ∉ i.starts → w.step i ≠ .error .registry := by
  have hstep : ∀ {w : World}, w.Mirrors → ∀ i : Input,
      Outcome (MirrorsWith i.starts) (RegistryFault i.starts) (w.step i) := by
    intro w hw i
    have hwith : MirrorsWith i.starts { w with calls := i.calls, starts := i.starts } :=
      ⟨hw.congr rfl rfl rfl, fun _ hx => hx⟩
    exact hwith.handle i.event
  have hmirrors : w.Mirrors := by
    refine h.invariant ?_ fun w w' _ hw hnext => ?_
    · rintro w ⟨uuid, rfl⟩
      exact mirrors_empty uuid
    · obtain ⟨i, -, hi⟩ := hnext
      exact ((hstep hw i).of_ok hi).1
  exact ⟨hmirrors, fun i hi he => hi ((hstep hmirrors i).of_error he rfl)⟩

/-- A connection reads that it belongs to session 1 of the client 5. -/
def metaInput (starts : List SocketStart) : Input where
  event := .connection 0 true false false
    [.data 0 [9, 1, 5, 1, 127, 0, 0, 1, 0, 80]]
  starts := starts

/-- A path is accepted, and its session is made. -/
theorem registry_mirrors_session : ∃ w : World, w.uuidSessions.find 5 1 = some 0 ∧ w.Mirrors ∧
    ∀ i : Input, .failed ∉ i.starts → w.step i ≠ .error .registry := by
  have hrun : ([{ event := .acceptPath }, metaInput [.started]].foldlM step (empty 0)).map
      (fun w => w.uuidSessions.find 5 1) = .ok (some 0) := by decide +kernel
  obtain ⟨w, hw, hfind⟩ := exists_of_map_eq_ok hrun
  exact ⟨w, hfind, registry_mirrors (reachable_of_run (fun _ _ _ => trivial) (.init ⟨0, rfl⟩) hw)⟩

/-- A path is accepted, and the server of its session fails to start. -/
theorem registry_failed_start : ∃ w : World, (system fun _ _ => True).Reachable w ∧
    ∃ i : Input, w.step i = .error .registry := by
  have hinit : (system fun _ _ => True).Reachable (empty 0) := .init ⟨0, rfl⟩
  refine ⟨(empty 0).acceptPath, hinit.step ⟨{ event := .acceptPath }, trivial, rfl⟩,
    metaInput [.failed], eq_error_of_map (f := fun _ => ()) ?_⟩
  decide +kernel

end World

end Mpproxy

end DashDim
