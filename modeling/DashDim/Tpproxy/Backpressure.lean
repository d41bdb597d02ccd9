import DashDim.Tpproxy.Servers

/-!
# Reading while the paths are full

Before it reads from its plain connection, the alarm of a server looks whether a path has
room. The handler of its descriptor does not, and reads whenever there is something to read.

* `unread_eq_iff`: while no path that is ready has room, an event of a server leaves what its
  peer has sent unread, exactly if it is not one that the descriptor can be read, with the
  descriptor open, a budget that is not negative, and something to read.
-/

namespace DashDim

namespace Mpproxy

/-! ## What is read -/

namespace TpServerBase

/-- What is read is taken off the bytes that the peer has sent. -/
theorem readLoop_queue_length_le (target : ℤ) (reads : List ℕ) (readBytes : ℕ)
    (x : TpServerBase) : (readLoop target reads readBytes x).queue.length ≤ x.queue.length := by
  induction reads generalizing readBytes x with
  | nil => exact le_rfl
  | cons n reads ih =>
    rw [readLoop]
    split_ifs
    · exact le_rfl
    · exact le_rfl
    · dsimp only
      have hdrop : (x.queue.drop (min (max n 1) (min kBufferSize x.queue.length))).length ≤
          x.queue.length := by
        rw [List.length_drop]
        exact Nat.sub_le _ _
      split_ifs
      · exact hdrop
      · exact (ih _ _).trans hdrop
    · exact le_rfl

/-- Something is read exactly if the descriptor is open and there is something to read. -/
theorem readLoop_queue_eq_iff (target : ℤ) (reads : List ℕ) (x : TpServerBase) :
    (readLoop target reads 0 x).queue = x.queue ↔ ¬(x.fd > 0 ∧ reads ≠ [] ∧ x.queue ≠ []) := by
  cases reads with
  | nil => exact iff_of_true rfl fun h => h.2.1 rfl
  | cons n reads =>
    by_cases hfd : x.fd > 0
    · by_cases hqueue : x.queue = []
      · refine iff_of_true ?_ fun h => h.2.2 hqueue
        rw [readLoop, if_neg (not_not.2 hfd), if_pos hqueue]
        split_ifs
        · rfl
        · rfl
      · refine iff_of_false (fun heq => ?_) fun h => h ⟨hfd, List.cons_ne_nil n reads, hqueue⟩
        have hpos := List.length_pos_iff.2 hqueue
        have hsize : 0 < kBufferSize := by decide
        rw [readLoop, if_neg (not_not.2 hfd), if_neg hqueue] at heq
        dsimp only at heq
        -- the first read takes a byte at least, and no later one gives it back
        have hlt : (x.queue.drop (min (max n 1) (min kBufferSize x.queue.length))).length <
            x.queue.length := by
          rw [List.length_drop]
          omega
        split_ifs at heq
        · exact hlt.ne (congrArg List.length heq)
        · have hle := readLoop_queue_length_le target reads
            (0 + min (max n 1) (min kBufferSize x.queue.length)) { x with
            fdReadBuffer := x.fdReadBuffer ++
              x.queue.take (min (max n 1) (min kBufferSize x.queue.length))
            queue := x.queue.drop (min (max n 1) (min kBufferSize x.queue.length)) }
          rw [heq] at hle
          exact absurd hlt (not_lt.2 hle)
    · exact iff_of_true (by rw [readLoop, if_pos hfd]) fun h => hfd h.1

end TpServerBase

namespace World

variable {w w' : World} {s : ℕ}

/-! ## What handlers leave unread -/

/-- What the peer of a server has sent and the server has not read. -/
def unread (w : World) (s : ℕ) : Bytes := (w.servers s).queue

theorem unread_of_update {x : TpServerBase} (hw' : w'.servers = Function.update w.servers s x)
    (hx : x.queue = (w.servers s).queue) : w'.unread s = w.unread s := by
  rw [unread, hw', Function.update_self, hx]
  rfl

theorem updateServer_unread {f : TpServerBase → TpServerBase} (hf : ∀ x, (f x).queue = x.queue) :
    Outcome (fun w' => w'.unread s = w.unread s) (fun _ => True) (w.updateServer s f) :=
  (updateServer_servers trivial).mono (fun _ hw' => unread_of_update hw' (hf _)) fun _ he => he

theorem serverCloseEntity_unread :
    Outcome (fun w' => w'.unread s = w.unread s) (fun _ => True) (w.serverCloseEntity s) :=
  (serverCloseEntity_servers trivial trivial).mono (fun _ hw' => unread_of_update hw' rfl)
    fun _ he => he

theorem serverCheckCloseEntity_unread :
    Outcome (fun w' => w'.unread s = w.unread s) (fun _ => True) (w.serverCheckCloseEntity s) := by
  rw [serverCheckCloseEntity]
  split_ifs
  · exact serverCloseEntity_unread
  · rfl

theorem schedule_unread (share : ℕ → ℕ → ℕ) :
    Outcome (fun w' => w'.unread s = w.unread s) (fun _ => True) (w.schedule s share) :=
  (schedule_servers share).mono (fun _ ⟨_, _, _, _, hw'⟩ => unread_of_update hw' rfl) fun _ he => he

theorem serverOnWriteEvent_unread :
    Outcome (fun w' => w'.unread s = w.unread s) (fun _ => True) (w.serverOnWriteEvent s) :=
  (updateServer_unread (f := .onWriteEvent _) fun _ => rfl).bind fun _ h => .ok h

/-- The parts of a handler but for reading. -/
theorem serverPart_unread {part : ServerPart}
    (hpart : ∀ target reads, part ≠ .readable target reads) :
    Outcome (fun w' => w'.unread s = w.unread s) (fun _ => True) (w.serverPart s part) := by
  rw [serverPart.eq_def]
  split
  · exact absurd rfl (hpart _ _)
  · exact serverOnWriteEvent_unread
  · refine Outcome.bind (P := fun w' => w'.unread s = w.unread s) ?_ fun w₁ h₁ => ?_
    · split_ifs
      · refine (updateServer_unread (f := .connected) fun _ => rfl).bind fun w₁ h₁ => ?_
        -- telling the connections does not change the server
        have K : Writes (fun w' => w'.unread s = w.unread s) fun _ => True :=
          ⟨trivial, trivial, fun _ h => h, fun _ _ _ h => h⟩
        exact K.notifyConnected_all _ h₁
      · rfl
    · exact serverOnWriteEvent_unread.mono (fun _ h => h.trans h₁) fun _ he => he
  · refine (updateServer_unread (f := .closeFd) fun _ => rfl).bind fun w₁ h₁ => ?_
    exact serverCheckCloseEntity_unread.mono (fun _ h => h.trans h₁) fun _ he => he
  · refine (updateServer_unread (f := .closeFd) fun _ => rfl).bind fun w₁ h₁ => ?_
    exact serverCloseEntity_unread.mono (fun _ h => h.trans h₁) fun _ he => he

theorem serverParts_unread {parts : List ServerPart}
    (hparts : ∀ part ∈ parts, ∀ target reads, part ≠ .readable target reads) :
    Outcome (fun w' => w'.unread s = w.unread s) (fun _ => True)
      (parts.foldlM (fun w part => w.serverPart s part) w) := by
  refine Outcome.foldlM_mem (fun w₁ part hmem h₁ => ?_) rfl
  exact (serverPart_unread (hparts part hmem)).mono (fun _ h => h.trans h₁) fun _ he => he

/-- Reading reads something exactly if it may, and there is something. -/
theorem serverOnReadEvent_unread_iff {target : ℤ} {reads : List ℕ}
    (h : w.serverOnReadEvent s target reads = .ok w') : w'.unread s = w.unread s ↔
      ¬(0 ≤ target ∧ (w.servers s).fd > 0 ∧ reads ≠ [] ∧ w.unread s ≠ []) := by
  rw [serverOnReadEvent] at h
  split_ifs at h with htarget
  · cases h
    exact iff_of_true rfl fun hread => absurd hread.1 (not_le.2 htarget)
  · rw [and_iff_right (not_lt.1 htarget)]
    have hread : Outcome (fun w' => w'.unread s =
        ((w.servers s).readLoop target reads 0).queue) (fun _ => True)
        (w.updateServer s (.readLoop target reads 0) >>= fun w => w.serverCheckCloseEntity s) := by
      refine (updateServer_servers (s := s) trivial).bind fun w₁ h₁ => ?_
      refine serverCheckCloseEntity_unread.mono (fun w₂ h₂ => h₂.trans ?_) fun _ he => he
      rw [unread, h₁, Function.update_self]
    rw [hread.of_ok h]
    exact TpServerBase.readLoop_queue_eq_iff target reads (w.servers s)

/-! ## Events while the paths are full -/

/-- Each connection that is ready has too much to write, or there is none. -/
def Full (w : World) (s : ℕ) : Prop :=
  ∀ c ∈ (w.servers s).readyList, (w.connections c).isBufferAboveThreshold = true

/-- An event of a server: of its descriptor, or its alarm. -/
def OfServer (s : ℕ) : Event → Prop
  | .server s' _ _ _ _ _ => s' = s
  | .budgetAlarm s' _ _ _ => s' = s
  | _ => False

/-- A server that waits for its plain connection, and now has it, tells its paths. -/
def tellConnected (w : World) (s : ℕ) : Except Fault World :=
  if (w.servers s).connecting then do
    let w ← w.updateServer s .connected
    (w.servers s).readyList.foldlM (fun w c => w.notifyConnected c) w
  else .ok w

/-- The descriptor of a server is still open when its handler comes to read it. A
    `TpServerLeft` looks whether it is hung up before. A `TpServerRight` writes before, and
    closes it if `FD_WAIT_CLOSE` is set and `send()` takes all that waits: the answers are
    those that telling the paths has left. -/
def OpenToRead (w : World) (s : ℕ) (output hup : Bool) : Prop :=
  (w.servers s).fd > 0 ∧
    match (w.servers s).role with
    | .serverLeft => ¬(hup = true ∧ (w.servers s).peerClosed = true)
    | .serverRight => output = true → ∀ w', w.tellConnected s = .ok w' →
      ¬((w.servers s).fdWaitClose = true ∧
        (TcpConnection.flushLoop w'.nextCall.flush (w.servers s).fdWriteBuffer).2 = [])

/-- The event is one that the descriptor can be read, it is open, there is a budget, and
    there is something to read. -/
def Readable (w : World) (i : Input) : Prop :=
  match i.event with
  | .server s input output hup target reads =>
    input = true ∧ { w with calls := i.calls, starts := i.starts }.OpenToRead s output hup ∧
      0 ≤ target ∧ reads ≠ [] ∧ w.unread s ≠ []
  | _ => False

/-- An alarm that finds no room reads nothing. -/
theorem serverOnBudgetAlarm_unread {target : ℤ} {reads : List ℕ} {share : ℕ → ℕ → ℕ}
    (hfull : w.Full s) : Outcome (fun w' => w'.unread s = w.unread s) (fun _ => True)
      (w.serverOnBudgetAlarm s target reads share) := by
  rw [serverOnBudgetAlarm]
  split_ifs
  · trivial
  · have hall : ((w.servers s).readyList.all fun c =>
        (w.connections c).isBufferAboveThreshold) = true := List.all_eq_true.2 hfull
    rw [hall]
    dsimp only
    rw [if_neg fun h => Bool.false_ne_true h.2.symm, ok_bind]
    refine Outcome.bind (P := fun w' => w'.unread s = w.unread s) ?_ fun w₁ h₁ => ?_
    · split_ifs
      · exact schedule_unread share
      · rfl
    · split_ifs
      · exact serverCheckCloseEntity_unread.mono (fun _ h => h.trans h₁) fun _ he => he
      · exact h₁

/-- A handler reads in one of its parts, and what that finds is what the parts before it
    leave. -/
theorem serverParts_unread_iff {before after : List ServerPart} {target : ℤ} {reads : List ℕ}
    (hbefore : ∀ part ∈ before, ∀ target reads, part ≠ .readable target reads)
    (hafter : ∀ part ∈ after, ∀ target reads, part ≠ .readable target reads)
    (h : (before ++ .readable target reads :: after).foldlM (fun w part => w.serverPart s part) w =
      .ok w') :
    ∃ w₁, before.foldlM (fun w part => w.serverPart s part) w = .ok w₁ ∧
      (w'.unread s = w.unread s ↔
        ¬(0 ≤ target ∧ (w₁.servers s).fd > 0 ∧ reads ≠ [] ∧ w.unread s ≠ [])) := by
  rw [List.foldlM_append] at h
  cases hw₁ : before.foldlM (fun w part => w.serverPart s part) w with
  | error e =>
    rw [hw₁] at h
    cases h
  | ok w₁ =>
    rw [hw₁, ok_bind, List.foldlM_cons] at h
    have h₁ := (serverParts_unread hbefore).of_ok hw₁
    cases hw₂ : w₁.serverPart s (.readable target reads) with
    | error e =>
      rw [hw₂] at h
      cases h
    | ok w₂ =>
      rw [hw₂, ok_bind] at h
      refine ⟨w₁, rfl, ?_⟩
      rw [(serverParts_unread hafter).of_ok h, ← h₁]
      exact serverOnReadEvent_unread_iff hw₂

/-- A hangup closes the descriptor of a `TpServerLeft`. -/
theorem hangup_fd (hrole : (w.servers s).role = .serverLeft) :
    Outcome (fun w' => ¬(w'.servers s).fd > 0) (fun _ => True) (w.serverPart s .hangup) := by
  rw [serverPart.eq_def, hrole]
  dsimp only
  refine (updateServer_servers (s := s) (f := .closeFd) trivial).bind fun w₁ h₁ => ?_
  have hfd : ¬(w₁.servers s).fd > 0 := by
    rw [h₁, Function.update_self]
    exact SocketBase.closeFd_fd _
  rw [serverCheckCloseEntity]
  split_ifs
  · refine (serverCloseEntity_servers trivial trivial).mono (fun w₂ h₂ => ?_) fun _ he => he
    rw [h₂, Function.update_self, TpServerBase.clearReadyList, SocketBase.checkToDeleteSelf_eq]
    exact hfd
  · exact hfd

/-- A flush closes an open descriptor exactly if it is to be closed and nothing waits any
    more. -/
theorem onWriteEvent_fd_iff (answers : List SendAnswer) {x : TpServerBase} (hfd : x.fd > 0) :
    (x.onWriteEvent answers).fd > 0 ↔ ¬(x.fdWaitClose = true ∧
      (TcpConnection.flushLoop answers x.fdWriteBuffer).2 = []) := by
  rw [TpServerBase.onWriteEvent, SocketBase.onWriteEvent, SocketBase.flushBuffer,
    TcpConnection.flushBuffer, if_neg (by omega : ¬x.fd < 0), SocketBase.checkCloseFd]
  dsimp only
  rw [← List.length_eq_zero_iff]
  split_ifs with hclose
  · exact iff_of_false (SocketBase.closeFd_fd _) (not_not.2 hclose)
  · exact iff_of_true hfd hclose

/-- Telling the paths changes nothing of how a server writes. -/
theorem tellConnected_socket : Outcome (fun w' => (w'.servers s).fd = (w.servers s).fd ∧
    (w'.servers s).fdWaitClose = (w.servers s).fdWaitClose ∧
    (w'.servers s).fdWriteBuffer = (w.servers s).fdWriteBuffer) (fun _ => True)
    (w.tellConnected s) := by
  rw [tellConnected]
  split_ifs
  · refine (updateServer_servers (s := s) (f := .connected) trivial).bind fun w₁ h₁ => ?_
    have K : Writes (fun w' => (w'.servers s).fd = (w.servers s).fd ∧
        (w'.servers s).fdWaitClose = (w.servers s).fdWaitClose ∧
        (w'.servers s).fdWriteBuffer = (w.servers s).fdWriteBuffer) fun _ => True :=
      ⟨trivial, trivial, fun _ h => h, fun _ _ _ h => h⟩
    refine K.notifyConnected_all _ ?_
    rw [h₁, Function.update_self]
    exact ⟨rfl, rfl, rfl⟩
  · exact ⟨rfl, rfl, rfl⟩

/-- What a `TpServerRight` that can write leaves of its descriptor. -/
theorem writable_fd_iff (hrole : (w.servers s).role = .serverRight) (hfd : (w.servers s).fd > 0)
    (h : w.serverPart s .writable = .ok w') : ∃ w₁, w.tellConnected s = .ok w₁ ∧
      ((w'.servers s).fd > 0 ↔ ¬((w.servers s).fdWaitClose = true ∧
        (TcpConnection.flushLoop w₁.nextCall.flush (w.servers s).fdWriteBuffer).2 = [])) := by
  have hpart : w.serverPart s .writable =
      w.tellConnected s >>= fun w => w.serverOnWriteEvent s := by
    rw [serverPart.eq_def, hrole]
    rfl
  rw [hpart] at h
  cases hw₁ : w.tellConnected s with
  | error e =>
    rw [hw₁] at h
    cases h
  | ok w₁ =>
    rw [hw₁, ok_bind, serverOnWriteEvent] at h
    refine ⟨w₁, rfl, ?_⟩
    obtain ⟨hsame, hwait, hbuffer⟩ := tellConnected_socket.of_ok hw₁
    rw [← hsame] at hfd
    have hwrite : Outcome (fun w' => w'.servers s =
        (w₁.servers s).onWriteEvent w₁.nextCall.flush) (fun _ => True)
        (w₁.updateServer s (.onWriteEvent w₁.nextCall.flush) >>= fun w => .ok w.popCall) := by
      refine (updateServer_servers (s := s) trivial).bind fun w₂ h₂ => ?_
      exact (congrFun h₂ s).trans (Function.update_self ..)
    rw [hwrite.of_ok h, onWriteEvent_fd_iff _ hfd, hwait, hbuffer]

/-- The parts of a handler that come before it reads leave the descriptor open, exactly if
    it is open to be read. -/
theorem openToRead_iff (output hup : Bool) (hfd : (w.servers s).fd > 0) {before : List ServerPart}
    (hbefore : before = match (w.servers s).role with
      | .serverLeft => if hup && (w.servers s).peerClosed then [.hangup] else []
      | .serverRight => if output then [.writable] else []) {w₁ : World}
    (h : before.foldlM (fun w part => w.serverPart s part) w = .ok w₁) :
    w.OpenToRead s output hup ↔ (w₁.servers s).fd > 0 := by
  rw [OpenToRead, and_iff_right hfd]
  cases hrole : (w.servers s).role with
  | serverLeft =>
    rw [hrole] at hbefore
    dsimp only at hbefore ⊢
    rw [← Bool.and_eq_true]
    cases hclosed : hup && (w.servers s).peerClosed with
    | true =>
      -- a left server closes its descriptor when it is hung up, before it reads
      rw [hclosed, if_pos rfl] at hbefore
      rw [hbefore, List.foldlM_cons] at h
      cases hw₂ : w.serverPart s .hangup with
      | error e =>
        rw [hw₂] at h
        cases h
      | ok w₂ =>
        rw [hw₂, ok_bind] at h
        cases h
        exact iff_of_false (fun hopen => hopen rfl) ((hangup_fd hrole).of_ok hw₂)
    | false =>
      rw [hclosed, if_neg Bool.false_ne_true] at hbefore
      rw [hbefore] at h
      cases h
      exact iff_of_true Bool.false_ne_true hfd
  | serverRight =>
    rw [hrole] at hbefore
    dsimp only at hbefore ⊢
    cases output with
    | true =>
      -- a right server writes first, which may close it
      rw [if_pos rfl] at hbefore
      rw [hbefore, List.foldlM_cons] at h
      cases hw₂ : w.serverPart s .writable with
      | error e =>
        rw [hw₂] at h
        cases h
      | ok w₂ =>
        rw [hw₂, ok_bind] at h
        cases h
        obtain ⟨w₃, htell, hiff⟩ := writable_fd_iff hrole hfd hw₂
        rw [hiff, htell]
        refine ⟨fun hopen => hopen rfl w₃ rfl, fun hopen _ w' hw' => ?_⟩
        cases hw'
        exact hopen
    | false =>
      rw [if_neg Bool.false_ne_true] at hbefore
      rw [hbefore] at h
      cases h
      exact iff_of_true (fun hout => absurd hout Bool.false_ne_true) hfd

/-- What a handler of a descriptor reads. -/
theorem server_unread_iff {input output hup : Bool} {target : ℤ} {reads : List ℕ}
    (hfd : (w.servers s).fd > 0)
    (h : (serverParts (w.servers s).role input output (hup && (w.servers s).peerClosed) target
      reads).foldlM (fun w part => w.serverPart s part) w = .ok w') :
    w'.unread s = w.unread s ↔ ¬(input = true ∧ w.OpenToRead s output hup ∧ 0 ≤ target ∧
      reads ≠ [] ∧ w.unread s ≠ []) := by
  have hwritable : ∀ part ∈ (if output then [ServerPart.writable] else []), ∀ target reads,
      part ≠ .readable target reads := by
    intro part hpart target reads heq
    rw [heq] at hpart
    split_ifs at hpart <;> simp at hpart
  have hhangup : ∀ part ∈ (if hup && (w.servers s).peerClosed then [ServerPart.hangup] else []),
      ∀ target reads, part ≠ .readable target reads := by
    intro part hpart target reads heq
    rw [heq] at hpart
    split_ifs at hpart <;> simp at hpart
  cases input with
  | false =>
    -- no part of the handler reads then
    refine iff_of_true ?_ fun hread => Bool.false_ne_true hread.1
    refine (serverParts_unread fun part hpart => ?_).of_ok h
    rw [serverParts.eq_def] at hpart
    cases hrole : (w.servers s).role with
    | serverLeft =>
      rw [hrole] at hpart
      dsimp only at hpart
      rw [if_neg Bool.false_ne_true, List.append_nil] at hpart
      rcases List.mem_append.1 hpart with hpart | hpart
      · exact hhangup part hpart
      · exact hwritable part hpart
    | serverRight =>
      rw [hrole] at hpart
      dsimp only at hpart
      rw [if_neg Bool.false_ne_true, List.append_nil] at hpart
      rcases List.mem_append.1 hpart with hpart | hpart
      · exact hwritable part hpart
      · exact hhangup part hpart
  | true =>
    rw [serverParts.eq_def, if_pos rfl] at h
    rw [and_iff_right rfl]
    cases hrole : (w.servers s).role with
    | serverLeft =>
      rw [hrole] at h
      dsimp only at h
      rw [List.append_assoc, List.singleton_append] at h
      obtain ⟨w₁, hw₁, hiff⟩ := serverParts_unread_iff hhangup hwritable h
      have hopen := openToRead_iff output _ hfd (by rw [hrole]) hw₁
      rw [hiff, hopen]
      tauto
    | serverRight =>
      rw [hrole] at h
      dsimp only at h
      rw [List.append_assoc, List.singleton_append] at h
      obtain ⟨w₁, hw₁, hiff⟩ := serverParts_unread_iff hwritable hhangup h
      have hopen := openToRead_iff _ hup hfd (by rw [hrole]) hw₁
      rw [hiff, hopen]
      tauto

/-- While no path that is ready has room, a handler of a server reads nothing, exactly if it
    is not one that the descriptor can be read, and there is nothing to stop it. -/
theorem unread_eq_iff (hfull : w.Full s) {i : Input} (hi : OfServer s i.event)
    (h : w.step i = .ok w') : w'.unread s = w.unread s ↔ ¬w.Readable i := by
  obtain ⟨event, calls, starts⟩ := i
  rw [step] at h
  rw [Readable]
  dsimp only at h hi ⊢
  -- the answers are no part of what a server has
  obtain ⟨w₀, hw₀⟩ : ∃ w₀, w₀ = { w with calls := calls, starts := starts } := ⟨_, rfl⟩
  have hservers : w₀.servers = w.servers := by rw [hw₀]
  have hfull₀ : w₀.Full s := by
    rw [hw₀]
    exact hfull
  have hunread : w₀.unread s = w.unread s := by rw [unread, hservers, unread]
  rw [← hw₀] at h ⊢
  cases event with
  | server s' input output hup target reads =>
    obtain rfl : s' = s := hi
    rw [handle] at h
    change _ ↔ ¬(input = true ∧ w₀.OpenToRead s' output hup ∧ 0 ≤ target ∧ reads ≠ [] ∧
      w.unread s' ≠ [])
    rw [← hunread]
    split_ifs at h with hfd
    · exact server_unread_iff hfd h
    · cases h
      exact iff_of_true rfl fun hread => hfd hread.2.1.1
  | budgetAlarm s' target reads share =>
    obtain rfl : s' = s := hi
    rw [handle] at h
    refine iff_of_true ?_ id
    rw [← hunread]
    split_ifs at h
    · exact (serverOnBudgetAlarm_unread hfull₀).of_ok h
    · cases h
      rfl
  | createEndpoint originDst starts => exact hi.elim
  | acceptPath => exact hi.elim
  | connection c input output hup reads => exact hi.elim
  | deleteConnection c => exact hi.elim
  | deleteServer s' => exact hi.elim
  | peerSends s' data => exact hi.elim
  | peerCloses s' => exact hi.elim

/-- A server is connected, and gets data that it cannot write at once. Then its only path is
    lost, and its peer sends a byte. -/
def pathless : List Input :=
  [{ event := .acceptPath },
    { event := .connection 0 true false false [.data 0 [9, 1, 5, 1, 127, 0, 0, 1, 0, 80]]
      starts := [.started] },
    { event := .server 0 false true false 0 [], calls := [{ flush := [.sent 1500] }] },
    { event := .connection 0 true false false [.data 1 [1, 9]] },
    { event := .connection 0 false false true [] },
    { event := .peerSends 0 [7] }]

theorem pathless_full : ∃ w, pathless.foldlM step (empty 0) = .ok w ∧ w.Full 0 ∧
    w.unread 0 = [7] := by
  have hrun : (pathless.foldlM step (empty 0)).map (fun w =>
      ((w.servers 0).readyList, w.unread 0)) = .ok ([], [7]) := by
    decide +kernel
  obtain ⟨w, hw, heq⟩ := exists_of_map_eq_ok hrun
  obtain ⟨hready, hunread⟩ := Prod.mk.inj heq
  refine ⟨w, hw, fun c hc => ?_, hunread⟩
  rw [hready] at hc
  cases hc

/-- What happens after it. -/
theorem step_of_pathless {i : Input} {α : Type} {f : World → α} {a : α}
    (hrun : ((pathless ++ [i]).foldlM step (empty 0)).map f = .ok a)
    (hw : pathless.foldlM step (empty 0) = .ok w) : ∃ w', w.step i = .ok w' ∧ f w' = a := by
  obtain ⟨w', hw', hf⟩ := exists_of_map_eq_ok hrun
  rw [List.foldlM_append, hw, ok_bind, List.foldlM_cons] at hw'
  cases hstep : w.step i with
  | error e =>
    rw [hstep] at hw'
    cases hw'
  | ok w₁ =>
    rw [hstep] at hw'
    cases hw'
    exact ⟨w', rfl, hf⟩

/-- The alarm goes off, and could read the byte. -/
def alarmInput : Input := { event := .budgetAlarm 0 1 [1] fun _ _ => 0 }

/-- The descriptor can be read. -/
def readInput : Input := { event := .server 0 true false false 1 [1] }

/-- A server with one path, which has more to write than it may be given; its peer has sent
    a byte. -/
def crowded : World :=
  { empty 0 with
    connections := fun _ => { TcpConnectionBase.newLeft with
      server := some 0
      uuid := 5
      fdWriteBuffer := List.replicate 15001 0 }
    servers := fun _ => { TpServerBase.newRight 5 0 none with
      isConnected := true
      budgetAlarm := true
      readyList := [0]
      queue := [7]
      peerSent := [7] }
    connectionCount := 1
    serverCount := 1 }

theorem crowded_full : crowded.Full 0 := by
  intro c _
  have hlength : (crowded.connections c).fdWriteBuffer.length = 15001 := List.length_replicate
  rw [TcpConnection.isBufferAboveThreshold, hlength]
  rfl

/-- While its paths are full, the alarm of a server that has nothing to schedule does
    nothing. -/
theorem budgetAlarm_of_full (hfull : w.Full s) (halarm : (w.servers s).budgetAlarm = true)
    (hfreed : (w.servers s).freed = false)
    (hpaths : ∀ c ∈ (w.servers s).readyList, (w.connections c).freed = false)
    (hbuffer : (w.servers s).fdReadBuffer = []) (hclosed : (w.servers s).fdClosed = false)
    (target : ℤ) (reads : List ℕ) (share : ℕ → ℕ → ℕ) :
    w.handle (.budgetAlarm s target reads share) = .ok w := by
  have hall : ((w.servers s).readyList.all fun c =>
      (w.connections c).isBufferAboveThreshold) = true := List.all_eq_true.2 hfull
  have hany : ((w.servers s).readyList.any fun c => (w.connections c).freed) = false :=
    List.any_eq_false.2 fun c hc => by rw [hpaths c hc]; exact Bool.false_ne_true
  rw [handle, if_pos ⟨halarm, hfreed⟩, serverOnBudgetAlarm, hall, hany]
  dsimp only
  rw [if_neg Bool.false_ne_true, if_neg fun h => Bool.false_ne_true h.2.symm, ok_bind, hbuffer,
    List.length_nil, if_neg (lt_irrefl 0), ok_bind, hclosed, if_neg Bool.false_ne_true]

/-- The alarm leaves the byte unread, though the path is ready. -/
theorem unread_eq_iff_alarm : ∃ w w' : World, w.Full 0 ∧ (w.servers 0).readyList = [0] ∧
    w.unread 0 = [7] ∧ w.step alarmInput = .ok w' ∧ w'.unread 0 = w.unread 0 := by
  have hstep : crowded.step alarmInput = .ok { crowded with calls := [], starts := [] } :=
    budgetAlarm_of_full (w := { crowded with calls := [], starts := [] }) crowded_full rfl rfl
      (fun _ _ => rfl) rfl rfl 1 [1] _
  have hof : OfServer 0 alarmInput.event := rfl
  exact ⟨crowded, _, crowded_full, rfl, rfl, hstep,
    (unread_eq_iff crowded_full hof hstep).2 id⟩

/-- The handler of the descriptor reads it. -/
theorem reads_while_full : ¬ ∀ (w w' : World) (s : ℕ) (i : Input),
    (system fun _ _ => True).Reachable w → w.Full s → OfServer s i.event → w.step i = .ok w' →
      w'.unread s = w.unread s := by
  intro h
  obtain ⟨w, hw, hfull, hunread⟩ := pathless_full
  have hreach : (system fun _ _ => True).Reachable w :=
    reachable_of_run (fun _ _ _ => trivial) (.init ⟨0, rfl⟩) hw
  have hrun : ((pathless ++ [readInput]).foldlM step (empty 0)).map (fun w => w.unread 0) =
      .ok [] := by
    decide +kernel
  obtain ⟨w', hstep, hread⟩ := step_of_pathless hrun hw
  have hof : OfServer 0 readInput.event := rfl
  have hsame := h w w' 0 readInput hreach hfull hof hstep
  rw [hread, hunread] at hsame
  cases hsame

end World

end Mpproxy

end DashDim
