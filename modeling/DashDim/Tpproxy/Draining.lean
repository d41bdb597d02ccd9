import DashDim.Lib.Outcome
import DashDim.Lib.Run
import DashDim.Tpproxy.Proxy

/-!
# Draining ends of the transparent proxy

An end whose peer closed keeps its descriptor, and its alarm for reading, until it has
sent what waits. Two checks are not up to that: who reads data has a peer, which a
draining end has not; and a closed descriptor has nothing to write, which fails if the
descriptor is closed while an event with a writable socket is handled.

* `paired_step`: an open end has its peer, or it drains: it was told to close, and has
  something to write;
* `proxy_fails_iff`: a run fails a check exactly if it gets to an event with which a draining
  end reads data, or an end that closes writes what waits.
-/

namespace DashDim

namespace TpProxy

namespace TpProxyBase

/-- An end that was told to close is open until it has written what waits. -/
structure Drains (e : TpProxyBase) : Prop where
  fdOpen : e.fdOpen = true
  signalClose : e.signalClose = true
  fdWriteBuffer : e.fdWriteBuffer ≠ []

/-- An end with a peer is open and was not told to close, and an open one without drains. -/
structure Sound (e : TpProxyBase) : Prop where
  attached : e.peer = true → e.fdOpen = true ∧ e.signalClose = false
  drains : e.fdOpen = true → e.peer = false → e.Drains

end TpProxyBase

namespace Pair

/-- The first thing that is read is data. -/
def readsData : List ReadResult → Bool
  | .data _ _ :: _ => true
  | _ => false

/-- The end of the stream is read within the budget. -/
def readsEof (target : ℕ) : List ReadResult → ℕ → Bool
  | [], _ => false
  | .eof :: _, _ => true
  | .data first rest :: reads, readBytes =>
    let readBytes := readBytes + (first :: rest).length
    !decide (readBytes ≥ target) && readsEof target reads readBytes

/-- The right end closes because its peer hangs up. -/
def hangsUp (x : Side) (hup : Bool) : Bool := decide (x = .right) && hup

/-- An end without a peer reads data. -/
def ReadsAlone (p : Pair) : Event → Prop
  | .onEvent x input _ hup _ reads => (p.ends x).fdOpen = true ∧ (p.ends x).peer = false ∧
    hangsUp x hup = false ∧ input = true ∧ readsData reads = true
  | .readBudgetAlarm x _ reads => (p.ends x).fdOpen = true ∧ (p.ends x).peer = false ∧
    (p.ends x).readBudgetAlarm = true ∧ (p.ends x).status = .tcpConnected ∧ readsData reads = true
  | .delete _ => False

/-- A draining end, which was told to close and has something to write, reads data. -/
def ReadsDraining (p : Pair) : Event → Prop
  | .onEvent x input _ hup _ reads => (p.ends x).Drains ∧ hangsUp x hup = false ∧ input = true ∧
    readsData reads = true
  | .readBudgetAlarm x _ reads => (p.ends x).Drains ∧ (p.ends x).readBudgetAlarm = true ∧
    (p.ends x).status = .tcpConnected ∧ readsData reads = true
  | .delete _ => False

/-- The socket of an end can be written, and has something to write, when the end closes. -/
def WritesClosed (p : Pair) : Event → Prop
  | .onEvent x input output hup target reads => (p.ends x).fdOpen = true ∧ output = true ∧
    (p.ends x).fdWriteBuffer ≠ [] ∧
    (hangsUp x hup = true ∨ input = true ∧ readsEof target reads 0 = true)
  | _ => False

/-! ## What reading does -/

@[simp] theorem closeFd_ends_self (x : Side) (p : Pair) :
    (p.closeFd x).ends x = (p.ends x).close := by
  rw [closeFd]
  split_ifs
  · rw [set_other_ends, set_ends_self]
  · rw [set_ends_self]

/-- The end that reads is as it was, but for closing at the end of the stream. -/
theorem readLoop_ends_self {x : Side} {target : ℕ} {reads : List ReadResult} {readBytes : ℕ}
    {p p' : Pair} (h : p.readLoop x target reads readBytes = .ok p') :
    p'.ends x = if readsEof target reads readBytes then (p.ends x).close else p.ends x := by
  induction reads generalizing p readBytes with
  | nil =>
    cases h
    rfl
  | cons read reads ih =>
    cases read with
    | eof =>
      cases h
      exact closeFd_ends_self x p
    | data first rest =>
      rw [readLoop] at h
      split_ifs at h
      split at h
      · cases h
      · next e _ =>
        have hself : ((p.set x.other e).popCall).ends x = p.ends x := by
          rw [popCall_ends, set_other_ends]
        rw [readsEof]
        dsimp only at h ⊢
        split_ifs at h with htarget
        · cases h
          rw [hself, decide_eq_true htarget]
          rfl
        · rw [ih h, hself, decide_eq_false htarget]
          rfl

/-- Reading fails exactly for data, without a peer. -/
theorem fails_readLoop_iff {x : Side} {target : ℕ} {reads : List ReadResult} {readBytes : ℕ}
    {p : Pair} : Fails (p.readLoop x target reads readBytes) ↔
      (p.ends x).peer = false ∧ readsData reads = true := by
  induction reads generalizing p readBytes with
  | nil => simp [readLoop, readsData]
  | cons read reads ih =>
    cases read with
    | eof => simp [readLoop, readsData]
    | data first rest =>
      rw [readLoop]
      split_ifs with hpeer
      · obtain ⟨e, hsend⟩ := (p.ends x.other).sendData_isOk p.nextCall (first :: rest)
        have hself : ((p.set x.other e).popCall).ends x = p.ends x := by
          rw [popCall_ends, set_other_ends]
        rw [hsend]
        dsimp only
        split_ifs
        · simp [hpeer]
        · simp [ih, hself, hpeer]
      · simp [readsData, Bool.of_not_eq_true hpeer]

theorem onReadEvent_ends_self {x : Side} {target : ℕ} {reads : List ReadResult} {p p' : Pair}
    (h : p.onReadEvent x target reads = .ok p') : p'.ends x =
      if (p.ends x).fdOpen && readsEof target reads 0 then (p.ends x).close else p.ends x := by
  rw [onReadEvent] at h
  split_ifs at h with hopen
  · rw [readLoop_ends_self h, hopen, Bool.true_and]
  · cases h
    rw [Bool.of_not_eq_true hopen, Bool.false_and]
    rfl

theorem fails_onReadEvent_iff {x : Side} {target : ℕ} {reads : List ReadResult} {p : Pair} :
    Fails (p.onReadEvent x target reads) ↔ (p.ends x).fdOpen = true ∧
      (p.ends x).peer = false ∧ readsData reads = true := by
  rw [onReadEvent]
  split_ifs with hopen
  · rw [fails_readLoop_iff]
    exact (and_iff_right hopen).symm
  · simp [hopen]

/-! ## What writing does -/

theorem fails_flushBuffer_iff {answers : List SendAnswer} {e : TpProxyBase} :
    Fails (e.flushBuffer answers) ↔ e.fdOpen = false ∧ e.fdWriteBuffer ≠ [] := by
  rw [TpProxyBase.flushBuffer]
  split_ifs with hopen hempty
  · simp [hopen]
  · simp [hempty]
  · simp [hopen, hempty]

theorem fails_onWriteEvent_iff {x : Side} {p : Pair} :
    Fails (p.onWriteEvent x) ↔ (p.ends x).fdOpen = false ∧ (p.ends x).fdWriteBuffer ≠ [] := by
  have hflush : Fails ((p.ends x).flushBuffer p.nextCall.flush) ↔ _ := fails_flushBuffer_iff
  rw [onWriteEvent, ← hflush]
  split
  · next h => simp [h]
  · next h => simp [h]

/-- Connecting concerns neither the descriptor nor what waits. -/
theorem onConnected_ends (p : Pair) (x : Side) : (p.onConnected.ends x).fdOpen = (p.ends x).fdOpen ∧
    (p.onConnected.ends x).fdWriteBuffer = (p.ends x).fdWriteBuffer := by
  rw [onConnected]
  split_ifs
  · dsimp only
    split_ifs <;> cases x <;> simp [createReadAlarm, set]
  · exact ⟨rfl, rfl⟩

/-! ## Events that fail -/

/-- Writing after what came before in an event. -/
theorem fails_output_iff {x : Side} {output : Bool} {p : Pair} :
    Fails (if output then (if x = .right then p.onConnected else p).onWriteEvent x else .ok p) ↔
      output = true ∧ (p.ends x).fdOpen = false ∧ (p.ends x).fdWriteBuffer ≠ [] := by
  split_ifs with houtput hx
  · obtain ⟨hopen, hbuffer⟩ := onConnected_ends p x
    rw [fails_onWriteEvent_iff, hopen, hbuffer]
    exact (and_iff_right houtput).symm
  · rw [fails_onWriteEvent_iff]
    exact (and_iff_right houtput).symm
  · simp [houtput]

/-- Closing shuts the descriptor, and leaves what waits. -/
theorem close_ends (e : TpProxyBase) :
    e.close.fdOpen = false ∧ e.close.fdWriteBuffer = e.fdWriteBuffer :=
  ⟨rfl, rfl⟩

theorem fails_onEvent_iff {x : Side} {input output hup : Bool} {target : ℕ}
    {reads : List ReadResult} {p : Pair} (hopen : (p.ends x).fdOpen = true) :
    Fails (p.onEvent x input output hup target reads) ↔
      ReadsAlone p (.onEvent x input output hup target reads) ∨
      WritesClosed p (.onEvent x input output hup target reads) := by
  have hhup : (x = .right ∧ hup = true) ↔ hangsUp x hup = true := by simp [hangsUp]
  rw [onEvent, ReadsAlone, WritesClosed]
  simp only [hhup, hopen, true_and]
  by_cases hclose : hangsUp x hup = true
  · -- the end is closed when it reads
    have hread : (p.closeFd x).onReadEvent x target reads = .ok (p.closeFd x) := by
      rw [onReadEvent, closeFd_ends_self]
      rfl
    rw [if_pos hclose, hread, ite_self]
    rw [fails_output_iff, closeFd_ends_self]
    simp [hclose, close_ends]
  · rw [if_neg hclose]
    cases input with
    | false =>
      rw [if_neg Bool.false_ne_true]
      rw [fails_output_iff]
      simp [hclose, hopen]
    | true =>
      rw [if_pos rfl]
      have hfails : Fails (p.onReadEvent x target reads) ↔ _ := fails_onReadEvent_iff
      cases hread : p.onReadEvent x target reads with
      | error e =>
        -- data was read, and there is no peer to take it
        rw [hread] at hfails
        obtain ⟨-, hpeer, hdata⟩ := hfails.1 (fails_error e)
        simp [hpeer, hdata, hclose]
      | ok p₁ =>
        rw [hread] at hfails
        have hends := onReadEvent_ends_self hread
        rw [hopen, Bool.true_and] at hends
        rw [fails_output_iff, hends]
        have hnot : ¬ ((p.ends x).peer = false ∧ readsData reads = true) :=
          fun h => not_fails_ok p₁ (hfails.2 ⟨hopen, h⟩)
        by_cases heof : readsEof target reads 0 = true
        · -- the end is closed when it is written
          rw [if_pos heof]
          simp only [heof, close_ends]
          tauto
        · rw [if_neg heof, hopen]
          tauto

/-- The alarm for reading fails exactly for data, without a peer. -/
theorem fails_onReadBudgetAlarm_iff {x : Side} {target : ℕ} {reads : List ReadResult}
    {p : Pair} : Fails (p.onReadBudgetAlarm x target reads) ↔ (p.ends x).fdOpen = true ∧
      (p.ends x).peer = false ∧ (p.ends x).status = .tcpConnected ∧ readsData reads = true := by
  have hfails : Fails (p.onReadEvent x target reads) ↔ _ := fails_onReadEvent_iff
  rw [onReadBudgetAlarm]
  split_ifs with halarm
  · obtain ⟨hfull, hstatus⟩ := halarm
    cases hread : p.onReadEvent x target reads with
    | error e =>
      rw [hread] at hfails
      obtain ⟨hopen, hpeer, hdata⟩ := hfails.1 (fails_error e)
      simp [hopen, hpeer, hdata, hstatus]
    | ok p₁ =>
      rw [hread] at hfails
      have hnot := fun h => not_fails_ok p₁ (hfails.2 h)
      simp only [not_fails_ok, false_iff]
      tauto
  · -- without a peer no buffer is full
    simp only [not_fails_ok, false_iff]
    rintro ⟨-, hpeer, hstatus, -⟩
    exact halarm ⟨by rw [hpeer, Bool.false_and], hstatus⟩

theorem fails_handle_iff {p : Pair} {event : Event} :
    Fails (handle p event) ↔ ReadsAlone p event ∨ WritesClosed p event := by
  cases event with
  | onEvent x input output hup target reads =>
    rw [handle]
    split_ifs with hopen
    · exact fails_onEvent_iff hopen
    · simp [ReadsAlone, WritesClosed, hopen]
  | readBudgetAlarm x target reads =>
    rw [handle]
    split_ifs with halarm
    · rw [fails_onReadBudgetAlarm_iff]
      simp only [ReadsAlone, WritesClosed, or_false]
      tauto
    · simp [ReadsAlone, WritesClosed, halarm]
  | delete x =>
    rw [handle]
    split_ifs <;> simp [ReadsAlone, WritesClosed]

/-- A step fails exactly if it does what a check is not up to. -/
theorem fails_step_iff {p : Pair} {e : Event × List SendCall} :
    Fails (step p e) ↔ ReadsAlone p e.1 ∨ WritesClosed p e.1 := by
  obtain ⟨event, calls⟩ := e
  cases event <;> exact fails_handle_iff

/-! ## Ends with and without a peer -/

/-- Both ends have their peer, or none has. -/
structure Paired (p : Pair) : Prop where
  peers : ∀ x, (p.ends x.other).peer = (p.ends x).peer
  sound : ∀ x, (p.ends x).Sound

theorem paired_of_ends {p : Pair} (x : Side) (hpeer : (p.ends x.other).peer = (p.ends x).peer)
    (hself : (p.ends x).Sound) (hother : (p.ends x.other).Sound) : Paired p := by
  cases x with
  | left =>
    refine ⟨fun y => ?_, fun y => ?_⟩
    · cases y with
      | left => exact hpeer
      | right => exact hpeer.symm
    · cases y with
      | left => exact hself
      | right => exact hother
  | right =>
    refine ⟨fun y => ?_, fun y => ?_⟩
    · cases y with
      | left => exact hpeer.symm
      | right => exact hpeer
    · cases y with
      | left => exact hother
      | right => exact hself

theorem sound_close (e : TpProxyBase) : e.close.Sound :=
  ⟨fun hpeer => absurd hpeer Bool.false_ne_true, fun hopen => absurd hopen Bool.false_ne_true⟩

/-- An end that is told to close drains, or closes. -/
theorem sound_notifyClose (e : TpProxyBase) (hopen : e.fdOpen = true) :
    e.notifyClose.Sound ∧ e.notifyClose.peer = false := by
  rw [TpProxyBase.notifyClose]
  dsimp only
  split_ifs with hempty
  · exact ⟨sound_close _, rfl⟩
  · exact ⟨⟨fun hpeer => absurd hpeer Bool.false_ne_true, fun _ _ => ⟨hopen, rfl, hempty⟩⟩, rfl⟩

theorem closeFd_paired {x : Side} {p : Pair} (hpeer : (p.ends x.other).peer = (p.ends x).peer)
    (hother : (p.ends x.other).Sound) : Paired (p.closeFd x) := by
  have hself : (p.ends x).close.Sound := sound_close _
  by_cases hattached : (p.ends x).peer = true
  · obtain ⟨hsound, halone⟩ :=
      sound_notifyClose (p.ends x.other) (hother.attached (hpeer.trans hattached)).1
    have hends : (p.closeFd x).ends x.other = (p.ends x.other).notifyClose := by
      rw [closeFd, if_pos hattached, set_ends_self]
    refine paired_of_ends x ?_ ?_ ?_
    · rw [hends, closeFd_ends_self]
      exact halone
    · rw [closeFd_ends_self]
      exact hself
    · rw [hends]
      exact hsound
  · -- nobody is told
    have hends : (p.closeFd x).ends x.other = p.ends x.other := by
      rw [closeFd, if_neg hattached]
      exact Function.update_of_ne x.other_ne _ _
    refine paired_of_ends x ?_ ?_ ?_
    · rw [hends, closeFd_ends_self, hpeer]
      exact Bool.of_not_eq_true hattached
    · rw [closeFd_ends_self]
      exact hself
    · rw [hends]
      exact hother

/-- An end that has been told to close does so once it has nothing to write. -/
theorem checkCloseFd_paired {x : Side} {p : Pair}
    (hpeer : (p.ends x.other).peer = (p.ends x).peer) (hother : (p.ends x.other).Sound)
    (hattached : (p.ends x).peer = true →
      (p.ends x).fdOpen = true ∧ (p.ends x).signalClose = false)
    (hsignal : (p.ends x).fdOpen = true → (p.ends x).peer = false →
      (p.ends x).signalClose = true) : Paired (p.checkCloseFd x) := by
  rw [checkCloseFd]
  split_ifs with hclose
  · exact closeFd_paired hpeer hother
  · refine paired_of_ends x hpeer ⟨hattached, fun hopen halone => ?_⟩ hother
    exact ⟨hopen, hsignal hopen halone, fun hempty => hclose ⟨hsignal hopen halone, hempty⟩⟩

/-- Writing concerns what is written only. -/
theorem flushBuffer_frame {answers : List SendAnswer} {e e' : TpProxyBase}
    (h : e.flushBuffer answers = .ok e') : e'.fdOpen = e.fdOpen ∧ e'.peer = e.peer ∧
      e'.signalClose = e.signalClose := by
  rw [TpProxyBase.flushBuffer] at h
  split_ifs at h
  · cases h
    exact ⟨rfl, rfl, rfl⟩
  · cases h
    exact ⟨rfl, rfl, rfl⟩

theorem sendData_frame {call : SendCall} {pv : Bytes} {e e' : TpProxyBase}
    (h : e.sendData call pv = .ok e') : e'.fdOpen = e.fdOpen ∧ e'.peer = e.peer ∧
      e'.signalClose = e.signalClose := by
  rw [TpProxyBase.sendData] at h
  split_ifs at h
  · cases h
    exact ⟨rfl, rfl, rfl⟩
  · split at h
    · cases h
    · next e₁ hflush =>
      have hframe := flushBuffer_frame hflush
      split_ifs at h
      · cases h
        exact hframe
      · cases h
        exact hframe
  · cases h
    exact ⟨rfl, rfl, rfl⟩

/-- What is read is handed to a peer, which is open and stays so. -/
theorem readLoop_paired {x : Side} {target : ℕ} {reads : List ReadResult} {readBytes : ℕ}
    {p : Pair} (h : Paired p) :
    Outcome Paired (fun _ => True) (p.readLoop x target reads readBytes) := by
  induction reads generalizing p readBytes with
  | nil => exact h
  | cons read reads ih =>
    cases read with
    | eof => exact closeFd_paired (h.peers x) (h.sound x.other)
    | data first rest =>
      rw [readLoop]
      split_ifs with hpeer
      · split
        · trivial
        · next e hsend =>
          obtain ⟨hopen, hsame, hsignal⟩ := sendData_frame hsend
          have hattached := (h.peers x).trans hpeer
          have hself : ((p.set x.other e).popCall).ends x = p.ends x := by
            rw [popCall_ends, set_other_ends]
          have hother : ((p.set x.other e).popCall).ends x.other = e := by
            rw [popCall_ends, set_ends_self]
          have hpaired : Paired (p.set x.other e).popCall := by
            refine paired_of_ends x ?_ ?_ ?_
            · rw [hother, hself, hsame]
              exact h.peers x
            · rw [hself]
              exact h.sound x
            · rw [hother]
              refine ⟨fun _ => ?_, fun _ halone => ?_⟩
              · rw [hopen, hsignal]
                exact (h.sound x.other).attached hattached
              · rw [hsame, hattached] at halone
                cases halone
          dsimp only
          split_ifs
          · exact hpaired
          · exact ih hpaired
      · trivial

theorem onReadEvent_paired {x : Side} {target : ℕ} {reads : List ReadResult} {p : Pair}
    (h : Paired p) : Outcome Paired (fun _ => True) (p.onReadEvent x target reads) := by
  rw [onReadEvent]
  split_ifs
  · exact readLoop_paired h
  · exact h

/-- An end that drains and has written all of it closes. -/
theorem onWriteEvent_paired {x : Side} {p : Pair} (h : Paired p) :
    Outcome Paired (fun _ => True) (p.onWriteEvent x) := by
  rw [onWriteEvent]
  split
  · trivial
  · next e hflush =>
    obtain ⟨hopen, hsame, hsignal⟩ := flushBuffer_frame hflush
    have hself : ((p.set x e).popCall).ends x = e := by rw [popCall_ends, set_ends_self]
    have hother : ((p.set x e).popCall).ends x.other = p.ends x.other :=
      Function.update_of_ne x.other_ne _ _
    refine checkCloseFd_paired ?_ ?_ ?_ ?_
    · rw [hself, hother, hsame]
      exact h.peers x
    · rw [hother]
      exact h.sound x.other
    · rw [hself, hopen, hsame, hsignal]
      exact (h.sound x).attached
    · rw [hself, hopen, hsame, hsignal]
      exact fun hopen halone => ((h.sound x).drains hopen halone).signalClose

/-- The alarm of an end, and whether it is connected, do not matter. -/
theorem set_paired {x : Side} {e : TpProxyBase} {p : Pair} (h : Paired p)
    (hopen : e.fdOpen = (p.ends x).fdOpen) (hpeer : e.peer = (p.ends x).peer)
    (hsignal : e.signalClose = (p.ends x).signalClose)
    (hbuffer : e.fdWriteBuffer = (p.ends x).fdWriteBuffer) : Paired (p.set x e) := by
  have hother : (p.set x e).ends x.other = p.ends x.other := Function.update_of_ne x.other_ne _ _
  refine paired_of_ends x ?_ ?_ ?_
  · rw [set_ends_self, hother, hpeer]
    exact h.peers x
  · rw [set_ends_self]
    refine ⟨?_, fun hopen' halone => ?_⟩
    · rw [hopen, hpeer, hsignal]
      exact (h.sound x).attached
    · have hdrains := (h.sound x).drains (hopen ▸ hopen') (hpeer ▸ halone)
      exact ⟨hopen', hsignal.trans hdrains.signalClose, hbuffer ▸ hdrains.fdWriteBuffer⟩
  · rw [hother]
    exact h.sound x.other

theorem onConnected_paired {p : Pair} (h : Paired p) : Paired p.onConnected := by
  rw [onConnected]
  split_ifs
  · have hright := set_paired (set_paired h (x := .right)
      (e := { p.ends .right with status := .tcpConnected }) rfl rfl rfl rfl) (x := .right)
      (e := { (p.set .right { p.ends .right with status := .tcpConnected }).ends .right with
        readBudgetAlarm := true }) rfl rfl rfl rfl
    dsimp only
    split_ifs
    · exact set_paired hright rfl rfl rfl rfl
    · exact hright
  · exact h

theorem onEvent_paired {x : Side} {input output hup : Bool} {target : ℕ}
    {reads : List ReadResult} {p : Pair} (h : Paired p) :
    Outcome Paired (fun _ => True) (p.onEvent x input output hup target reads) := by
  have hhup : Paired (if x = .right ∧ hup = true then p.closeFd x else p) := by
    split_ifs
    · exact closeFd_paired (h.peers x) (h.sound x.other)
    · exact h
  rw [onEvent]
  generalize (if x = .right ∧ hup = true then p.closeFd x else p) = p₁ at hhup
  have hread : Outcome Paired (fun _ => True)
      (if input then p₁.onReadEvent x target reads else .ok p₁) := by
    split_ifs
    · exact onReadEvent_paired hhup
    · exact hhup
  generalize (if input then p₁.onReadEvent x target reads else .ok p₁) = res at hread
  cases res with
  | error e => trivial
  | ok p₂ =>
    dsimp only
    split_ifs
    · exact onWriteEvent_paired (onConnected_paired hread)
    · exact onWriteEvent_paired hread
    · exact hread

theorem onReadBudgetAlarm_paired {x : Side} {target : ℕ} {reads : List ReadResult} {p : Pair}
    (h : Paired p) : Outcome Paired (fun _ => True) (p.onReadBudgetAlarm x target reads) := by
  have hcheck : ∀ {p : Pair}, Paired p → Paired (p.checkCloseFd x) := fun h =>
    checkCloseFd_paired (h.peers x) (h.sound x.other) (h.sound x).attached
      fun hopen halone => ((h.sound x).drains hopen halone).signalClose
  rw [onReadBudgetAlarm]
  split_ifs
  · have hread : Outcome Paired (fun _ => True) (p.onReadEvent x target reads) :=
      onReadEvent_paired h
    generalize p.onReadEvent x target reads = res at hread
    cases res with
    | error e => trivial
    | ok p₁ => exact hcheck hread
  · exact hcheck h

theorem paired_step {p : Pair} (e : Event × List SendCall) (h : Paired p) :
    Outcome Paired (fun _ => True) (step p e) := by
  obtain ⟨event, calls⟩ := e
  have hcalls : Paired { p with calls := calls } := ⟨h.peers, h.sound⟩
  cases event with
  | onEvent x input output hup target reads =>
    rw [step, handle]
    split_ifs
    · exact onEvent_paired hcalls
    · exact hcalls
  | readBudgetAlarm x target reads =>
    rw [step, handle]
    split_ifs
    · exact onReadBudgetAlarm_paired hcalls
    · exact hcalls
  | delete x =>
    rw [step, handle]
    split_ifs
    · exact set_paired hcalls rfl rfl rfl rfl
    · exact hcalls

/-- The ends are made together, or none of them is open. -/
theorem paired_start (how : Start) : Paired (start how) := by
  have hclosed : ({ fdOpen := false, destroyed := true } : TpProxyBase).Sound :=
    ⟨fun hpeer => absurd hpeer Bool.false_ne_true, fun hopen => absurd hopen Bool.false_ne_true⟩
  cases how with
  | noOrigin => exact paired_of_ends .left rfl (sound_close _) hclosed
  | noSocket => exact paired_of_ends .left rfl (sound_close _) hclosed
  | noConnection => exact paired_of_ends .left rfl (sound_close _) (sound_close _)
  | started =>
    exact paired_of_ends .left rfl ⟨fun _ => ⟨rfl, rfl⟩, fun _ halone => by cases halone⟩
      ⟨fun _ => ⟨rfl, rfl⟩, fun _ halone => by cases halone⟩

theorem paired_run {how : Start} {events : List (Event × List SendCall)} {p : Pair}
    (h : events.foldlM step (start how) = .ok p) : Paired p :=
  (Outcome.foldlM (fun _ e hp => paired_step e hp) events (paired_start how)).of_ok h

/-- An open end has no peer exactly if it drains. -/
theorem Paired.drains_iff {p : Pair} (h : Paired p) (x : Side) :
    (p.ends x).fdOpen = true ∧ (p.ends x).peer = false ↔ (p.ends x).Drains := by
  constructor
  · rintro ⟨hopen, halone⟩
    exact (h.sound x).drains hopen halone
  · refine fun hdrains => ⟨hdrains.fdOpen, Bool.of_not_eq_true fun hpeer => ?_⟩
    exact Bool.false_ne_true (((h.sound x).attached hpeer).2.symm.trans hdrains.signalClose)

theorem Paired.readsAlone_iff {p : Pair} (h : Paired p) (event : Event) :
    ReadsAlone p event ↔ ReadsDraining p event := by
  cases event with
  | onEvent x input output hup target reads =>
    rw [ReadsAlone, ReadsDraining, ← h.drains_iff, and_assoc]
  | readBudgetAlarm x target reads =>
    rw [ReadsAlone, ReadsDraining, ← h.drains_iff, and_assoc]
  | delete x => exact Iff.rfl

/-- A run fails a check exactly if it gets to an event with which a draining end reads data,
    or an end that closes writes what waits. -/
theorem proxy_fails_iff (how : Start) (events : List (Event × List SendCall)) :
    Fails (events.foldlM step (start how)) ↔ ∃ before e after p, events = before ++ e :: after ∧
      before.foldlM step (start how) = .ok p ∧ (ReadsDraining p e.1 ∨ WritesClosed p e.1) := by
  simp only [fails_foldlM_iff, fails_step_iff]
  refine exists_congr fun before => exists_congr fun e => exists_congr fun after =>
    exists_congr fun p => and_congr_right fun _ => and_congr_right fun hp => ?_
  rw [(paired_run hp).readsAlone_iff]

/-- The right end closes while the left one has something to send. Then the left one reads
    data; and with bytes for the right one, its socket can be written when it closes. -/
theorem proxy_close_aborts :
    [(.onEvent .right false true false 0 [], []),
      (.readBudgetAlarm .right 1500 [.data 1 []], [{}]),
      (.onEvent .right false false true 0 [], []),
      (.readBudgetAlarm .left 1500 [.data 2 []], [])].foldlM step (start .started) =
        .error .peer ∧
    [(.onEvent .right false true false 0 [], []),
      (.readBudgetAlarm .left 1500 [.data 1 []], [{}]),
      (.onEvent .right false true true 0 [], [])].foldlM step (start .started) =
        .error .pending :=
  ⟨rfl, rfl⟩

end Pair

end TpProxy

end DashDim
