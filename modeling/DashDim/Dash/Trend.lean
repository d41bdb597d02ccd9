import DashDim.Dash.Ladder
import DashDim.Dash.Playback

/-!
# The trend of the buffer

SVAA divides by the duration of a segment, less what the last segment changed of the
buffered playtime. The client computes the two levels this is the difference of, in another
way while it is buffering initially.

* `asks`: the states of the client in which its algorithm is called when it handles an
  event, with `handle_histories`, that these are all of them;
* `trend_iff`: where segments were complete before, what is divided by is positive exactly
  if the player has started, and a millisecond has passed since the segment before.
-/

namespace DashDim

/-! ## The algorithm -/

/-- SVAA, as the algorithm of a client. -/
def svaa (D : Type) [Add D] [Sub D] [Mul D] [Div D] [LT D] [LE D] [DecidableLT D]
    [DecidableLE D] [Double D] [Exponential D] : AdaptationAlgorithm where
  State := SvaaAlgorithm
  getNextQuality a data _ preQuality segmentCount := a.getNextQuality D data preQuality segmentCount

namespace DashClient

variable {alg : AdaptationAlgorithm}

/-! ## The calls of the algorithm -/

/-- The segments that a loop completes and that are not the last: the client when their last
    bytes are counted. -/
def completions (now : Time) : List ℕ → DashClient alg → List (DashClient alg)
  | [], _ => []
  | 0 :: reads, c => completions now reads { c with registered := false }
  | (nbytes + 1) :: reads, c =>
    let c₁ := c.countBytes now (nbytes + 1)
    (if c₁.readBytes = c₁.segmentBytes ∧ ¬ c₁.Last then [c₁] else []) ++
      match c.onData now (nbytes + 1) with
      | .ok (c', false) => completions now reads c'
      | _ => []

/-- The client after the error or hang-up of an event. -/
def afterError (error : Bool) (c : DashClient alg) : DashClient alg :=
  if error then ({ c with playerState := .playerDone, registered := false } : DashClient alg).close
  else c

/-- The segments that are complete when an event is handled. -/
def completed (now : Time) (c : DashClient alg) : Event → List (DashClient alg)
  | .socket error input _ reads =>
    if c.registered ∧ input ∧ (c.afterError error).fdOpen then
      completions now reads (c.afterError error)
    else []
  | _ => []

/-- A connected client, which is to choose its first segment. -/
def opened (c : DashClient alg) : DashClient alg :=
  { c with
    status := .tcpConnected, playerState := .playerInitBuffering
    playerAlarm := none, requestAlarm := none }

/-- The client when an event has connected it. -/
def connected (now : Time) (c : DashClient alg) : Event → List (DashClient alg)
  | .socket error input output reads =>
    if c.registered then
      match if input then (c.afterError error).onReadEvent now reads else .ok (c.afterError error) with
      | .error _ => []
      | .ok c => if output ∧ c.status = .tcpConnecting then [c.opened] else []
    else []
  | _ => []

/-- The client whenever it calls its algorithm when it handles an event. -/
def asks (now : Time) (c : DashClient alg) (e : Event) : List (DashClient alg) :=
  (completed now c e).map (fun c => (c.recordSegment now).checkBufferStatus now) ++
    connected now c e

/-! ## What the algorithm is shown -/

/-- Choosing a segment shows the throughput to the algorithm. -/
theorem requestSegment_histories {now : Time} {c c' : DashClient alg}
    (h : c.requestSegment now = .ok c') :
    c'.ghost.histories = c.ghost.histories ++ [c.data.throughput] := by
  obtain ⟨reply, algorithm, size, -, -, c₁, rfl, hor⟩ := requestSegment_cases h
  rcases hor with rfl | rfl
  · rfl
  · rcases delayRequestHandle_cases now _ with heq | ⟨-, heq⟩ <;> rw [heq]

theorem close_histories (c : DashClient alg) : c.close.ghost.histories = c.ghost.histories := by
  rw [close]
  split_ifs <;> rfl

theorem checkBufferStatus_ghost (now : Time) (c : DashClient alg) :
    (c.checkBufferStatus now).ghost = c.ghost := by
  obtain ⟨ps, pa, hcheck⟩ := checkBufferStatus_eq now c
  rw [hcheck]

/-- A chunk that completes a segment shows the throughput once, unless it was the last. -/
theorem onData_histories {now : Time} {nbytes : ℕ} {c c' : DashClient alg} {done : Bool}
    (h : c.onData now nbytes = .ok (c', done)) :
    c'.ghost.histories = c.ghost.histories ++
      (if (c.countBytes now nbytes).readBytes = (c.countBytes now nbytes).segmentBytes ∧
          ¬ (c.countBytes now nbytes).Last then
        [((c.countBytes now nbytes).recordSegment now).checkBufferStatus now] else []).map
          (·.data.throughput) ∧
      (done = true → (c.countBytes now nbytes).Last) := by
  rw [onData] at h
  by_cases hcomplete : (c.countBytes now nbytes).readBytes = (c.countBytes now nbytes).segmentBytes
  · rw [if_pos hcomplete, completeSegment_eq] at h
    split_ifs at h with hlast
    · obtain ⟨rfl, rfl⟩ := Prod.mk.inj (Except.ok.inj h)
      refine ⟨?_, fun _ => hlast⟩
      rw [if_neg fun hnot => hnot.2 hlast, close_histories]
      change (((c.countBytes now nbytes).recordSegment now).checkBufferStatus
        now).ghost.histories = _
      rw [checkBufferStatus_ghost]
      exact (List.append_nil _).symm
    · obtain ⟨c₂, hrequest, heq⟩ := map_eq_ok h
      obtain ⟨rfl, rfl⟩ := Prod.mk.inj heq
      refine ⟨?_, fun hdone => by cases hdone⟩
      rw [if_pos ⟨hcomplete, hlast⟩, requestSegment_histories hrequest, checkBufferStatus_ghost]
      rfl
  · rw [if_neg hcomplete] at h
    obtain ⟨rfl, rfl⟩ := Prod.mk.inj (Except.ok.inj h)
    refine ⟨?_, fun hdone => by cases hdone⟩
    rw [if_neg fun hboth => hcomplete hboth.1]
    exact (List.append_nil _).symm

/-- What a loop shows to the algorithm. -/
theorem onReadLoop_histories {now : Time} {reads : List ℕ} {c c' : DashClient alg}
    (h : onReadLoop now reads c = .ok c') :
    c'.ghost.histories = c.ghost.histories ++ (completions now reads c).map
      fun c => ((c.recordSegment now).checkBufferStatus now).data.throughput := by
  induction reads generalizing c with
  | nil =>
    cases h
    exact (List.append_nil _).symm
  | cons nbytes reads ih =>
    cases nbytes with
    | zero => exact ih (c := { c with registered := false }) h
    | succ nbytes =>
      rw [onReadLoop] at h
      rw [completions]
      cases hres : c.onData now (nbytes + 1) with
      | error e =>
        rw [hres] at h
        cases h
      | ok res =>
        obtain ⟨c₁, done⟩ := res
        obtain ⟨hhistories, -⟩ := onData_histories hres
        rw [hres] at h
        rw [List.map_append, ← List.append_assoc]
        cases done with
        | true =>
          cases h
          rw [hhistories]
          split_ifs <;> simp
        | false =>
          rw [ih h, hhistories]
          split_ifs <;> simp

/-- What an event of the socket does, in its three branches. -/
theorem onEvent_eq (now : Time) (error input output : Bool) (reads : List ℕ)
    (c : DashClient alg) : c.onEvent now error input output reads =
      match if input then (c.afterError error).onReadEvent now reads
        else .ok (c.afterError error) with
      | .error e => .error e
      | .ok c =>
        if output ∧ c.status = .tcpConnecting then
          onConnected now { c with status := .tcpConnected }
        else .ok c := rfl

theorem afterError_histories (error : Bool) (c : DashClient alg) :
    (c.afterError error).ghost.histories = c.ghost.histories := by
  rw [afterError]
  split_ifs
  · exact close_histories _
  · rfl

/-- Reading shows what the segments show that it completes. -/
theorem onReadEvent_histories {now : Time} {input : Bool} {reads : List ℕ} {c c' : DashClient alg}
    (h : (if input then c.onReadEvent now reads else .ok c) = .ok c') :
    c'.ghost.histories = c.ghost.histories ++
      (if input ∧ c.fdOpen then completions now reads c else []).map
        fun c => ((c.recordSegment now).checkBufferStatus now).data.throughput := by
  cases input with
  | false =>
    cases h
    exact (List.append_nil _).symm
  | true =>
    rw [if_pos rfl, onReadEvent] at h
    split_ifs at h with hfd
    · rw [if_pos ⟨rfl, hfd⟩]
      exact onReadLoop_histories h
    · cases h
      rw [if_neg fun hboth => hfd hboth.2]
      exact (List.append_nil _).symm

/-- The algorithm is called in these states, and in no others. -/
theorem handle_histories {now : Time} {e : Event} {c c' : DashClient alg}
    (h : c.handle now e = .ok c') :
    c'.ghost.histories = c.ghost.histories ++ (asks now c e).map (·.data.throughput) := by
  cases e with
  | socket error input output reads =>
    rw [handle] at h
    rw [asks, completed, connected]
    split_ifs at h with hreg
    · -- the reads come first, then what a socket that has connected asks for
      rw [onEvent_eq] at h
      cases hread : (if input then (c.afterError error).onReadEvent now reads
          else .ok (c.afterError error)) with
      | error e =>
        rw [hread] at h
        cases h
      | ok c₂ =>
        rw [hread] at h
        dsimp only at h
        have hhistories := onReadEvent_histories hread
        rw [afterError_histories] at hhistories
        simp only [hreg, true_and, if_true, List.map_append, List.map_map, Function.comp_def]
        rw [← List.append_assoc, ← hhistories]
        split_ifs at h ⊢ with hconn
        · exact requestSegment_histories (c := c₂.opened) h
        · cases h
          exact (List.append_nil _).symm
    · cases h
      simp [hreg]
  | requestAlarm =>
    -- the level was chosen before; the alarm only sends the request
    rw [handle] at h
    split_ifs at h
    · cases h
      refine Eq.trans ?_ (List.append_nil _).symm
      rcases delayRequestHandle_cases now { c with requestAlarm := none } with heq | ⟨-, heq⟩
      · rw [heq]
      · rw [heq]
    · cases h
      exact (List.append_nil _).symm
  | playerAlarm =>
    rw [handle] at h
    split_ifs at h
    · rw [playBackHandle] at h
      split at h
      · cases h
      · next c₁ hplay =>
        obtain ⟨ps, pa, rfl⟩ := afterFrame_eq h
        exact (congrArg Ghost.histories (playFrame_frame hplay).2).trans (List.append_nil _).symm
    · cases h
      exact (List.append_nil _).symm

/-! ## The buffered playtime -/

variable {videoData : VideoData}

/-- A level of the buffer for each segment, with the segment in it. Before it is connected
    the client has asked for nothing. -/
structure Leveled (videoData : VideoData) (c : DashClient alg) : Prop where
  video : c.data.videoData = videoData
  length : c.data.bufferData.bufferLevelNew.length = c.segmentCounter
  level : ∀ level ∈ c.data.bufferData.bufferLevelNew, videoData.segmentDuration ≤ level
  connecting : c.status = .tcpConnecting →
    c.index = 0 ∧ c.segmentBytes = 0 ∧ c.requestAlarm = none

/-- The difference of the last two levels. -/
theorem getBufferDiffMs_append {data : ClientData} {levels : List ℤ} {old level : ℤ}
    (h : data.bufferData.bufferLevelNew = levels ++ [old, level]) :
    data.getBufferDiffMs = level - old := by
  simp [ClientData.getBufferDiffMs, h]

namespace Leveled

variable {c c' : DashClient alg} {now : Time}

variable (now) in
/-- What is divided by is the least of what was buffered, and what was played of it. -/
theorem divisor_eq (h : Leveled videoData c) (hcounter : 0 < c.segmentCounter) :
    ∃ level, videoData.segmentDuration ≤ level ∧
      (c.recordSegment now).data.videoData.segmentDuration -
        (c.recordSegment now).data.getBufferDiffMs =
      min level (if c.playerState = .playerInitBuffering then 0
        else toMilliseconds (now - c.data.throughput.transmissionEnd.getLast?.getD 0)) := by
  obtain hnil | ⟨levels, level, hlevels⟩ := List.eq_nil_or_concat
    c.data.bufferData.bufferLevelNew
  · have hlength := h.length
    rw [hnil] at hlength
    exact absurd hlength.symm hcounter.ne'
  · rw [List.concat_eq_append] at hlevels
    have hlast : c.data.bufferData.bufferLevelNew.getLast?.getD 0 = level := by
      rw [hlevels, List.getLast?_concat, Option.getD_some]
    have hrecorded : (c.recordSegment now).data.bufferData.bufferLevelNew = levels ++
        [level, c.bufferLevelBefore now + c.data.videoData.segmentDuration] := by
      change c.data.bufferData.bufferLevelNew ++ [_] = _
      rw [hlevels, List.append_assoc]
      rfl
    refine ⟨level, h.level level ?_, ?_⟩
    · rw [hlevels]
      exact List.mem_append_right levels (List.mem_singleton_self level)
    rw [getBufferDiffMs_append hrecorded, bufferLevelBefore, if_pos hcounter, hlast]
    change c.data.videoData.segmentDuration - _ = _
    dsimp only
    split_ifs
    · omega
    · omega

/-- What is divided by is positive exactly if the player has started, and a millisecond has
    passed since the segment before. -/
theorem divisor_pos_iff (h : Leveled videoData c) (hduration : 0 < videoData.segmentDuration) :
    0 < (c.recordSegment now).data.videoData.segmentDuration -
        (c.recordSegment now).data.getBufferDiffMs ↔
      c.segmentCounter = 0 ∨ c.playerState ≠ .playerInitBuffering ∧
        1000 ≤ now - c.data.throughput.transmissionEnd.getLast?.getD 0 := by
  rcases Nat.eq_zero_or_pos c.segmentCounter with hzero | hcounter
  · -- there is one level, which has no difference to another one
    have hlength : c.data.bufferData.bufferLevelNew = [] :=
      List.length_eq_zero_iff.1 (h.length.trans hzero)
    have hdiff : (c.recordSegment now).data.getBufferDiffMs = 0 := by
      simp [ClientData.getBufferDiffMs, recordSegment, hlength]
    rw [hdiff, sub_zero]
    change 0 < c.data.videoData.segmentDuration ↔ _
    rw [h.video]
    exact iff_of_true hduration (.inl hzero)
  · obtain ⟨level, hlevel, heq⟩ := h.divisor_eq now hcounter
    rw [heq, lt_min_iff, or_iff_right hcounter.ne', ← toMilliseconds_pos_iff]
    split_ifs with hbuffering
    · exact iff_of_false (fun hpos => lt_irrefl 0 hpos.2) fun hplays => hplays.1 hbuffering
    · exact ⟨fun hpos => ⟨hbuffering, hpos.2⟩, fun hplays => ⟨hduration.trans_le hlevel, hplays.2⟩⟩

/-! ### The handlers -/

theorem delayRequestHandle (h : Leveled videoData c) (hstatus : c.status ≠ .tcpConnecting) :
    Leveled videoData (c.delayRequestHandle now) := by
  rcases delayRequestHandle_cases now c with heq | ⟨-, heq⟩
  · rw [heq]
    exact h
  · rw [heq]
    exact ⟨h.video, h.length, h.level, fun hs => absurd hs hstatus⟩

theorem requestSegment (h : Leveled videoData c) (hstatus : c.status ≠ .tcpConnecting)
    (hrequest : c.requestSegment now = .ok c') : Leveled videoData c' := by
  obtain ⟨reply, algorithm, size, -, -, c₁, hc₁, hor⟩ := requestSegment_cases hrequest
  have hstatus₁ : c₁.status ≠ .tcpConnecting := by
    rw [hc₁]
    exact hstatus
  have h₁ : Leveled videoData c₁ := by
    rw [hc₁]
    exact ⟨h.video, h.length, h.level, fun hs => absurd hs hstatus⟩
  rcases hor with rfl | rfl
  · exact ⟨h₁.video, h₁.length, h₁.level, fun hs => absurd hs hstatus₁⟩
  · exact h₁.delayRequestHandle hstatus₁

theorem close (h : Leveled videoData c) : Leveled videoData c.close := by
  rw [DashClient.close]
  split_ifs
  · exact ⟨h.video, h.length, h.level, fun hs => by cases hs⟩
  · exact h

theorem afterError (h : Leveled videoData c) (error : Bool) :
    Leveled videoData (c.afterError error) := by
  rw [DashClient.afterError]
  split_ifs
  · exact Leveled.close ⟨h.video, h.length, h.level, h.connecting⟩
  · exact h

/-- A segment that is complete has a level. -/
theorem recordSegment (h : Leveled videoData c) :
    Leveled videoData ((c.recordSegment now).checkBufferStatus now) := by
  obtain ⟨ps, pa, hcheck⟩ := checkBufferStatus_eq now (c.recordSegment now)
  rw [hcheck]
  refine ⟨h.video, ?_, fun level hlevel => ?_, h.connecting⟩
  · change (c.data.bufferData.bufferLevelNew ++ [_]).length = c.segmentCounter + 1
    rw [List.length_append, h.length, List.length_singleton]
  · rcases List.mem_append.1 hlevel with hlevel | hlevel
    · exact h.level level hlevel
    · have hold := bufferLevelBefore_nonneg now c
      rw [List.mem_singleton.1 hlevel, h.video]
      omega

theorem countBytes (h : Leveled videoData c) (nbytes : ℕ) :
    Leveled videoData (c.countBytes now nbytes) := ⟨h.video, h.length, h.level, h.connecting⟩

/-- A client that is connecting has no segment to complete. -/
theorem not_connecting {nbytes : ℕ} (h : Leveled videoData c) (hpos : 0 < nbytes)
    (hfit : c.readBytes.toNat + nbytes < 2 ^ 64)
    (heq : (c.countBytes now nbytes).readBytes = (c.countBytes now nbytes).segmentBytes) :
    c.status ≠ .tcpConnecting := by
  intro hstatus
  have hsum := countBytes_readBytes hfit now
  have hzero : (c.countBytes now nbytes).segmentBytes = 0 := (h.connecting hstatus).2.1
  have h0 : (0 : UInt64).toNat = 0 := rfl
  rw [heq, hzero] at hsum
  omega

theorem onData {nbytes : ℕ} {done : Bool} (h : Leveled videoData c) (hpos : 0 < nbytes)
    (hfit : c.readBytes.toNat + nbytes < 2 ^ 64)
    (hdata : c.onData now nbytes = .ok (c', done)) : Leveled videoData c' := by
  rw [DashClient.onData] at hdata
  by_cases heq : (c.countBytes now nbytes).readBytes = (c.countBytes now nbytes).segmentBytes
  · have hrecorded : Leveled videoData
        (((c.countBytes now nbytes).recordSegment now).checkBufferStatus now) :=
      (h.countBytes nbytes).recordSegment
    have hstatus := h.not_connecting hpos hfit heq
    obtain ⟨ps, pa, hcheck⟩ :=
      checkBufferStatus_eq now ((c.countBytes now nbytes).recordSegment now)
    rw [if_pos heq, completeSegment_eq] at hdata
    split_ifs at hdata
    · obtain ⟨rfl, -⟩ := Prod.mk.inj (Except.ok.inj hdata)
      exact Leveled.close ⟨hrecorded.video, hrecorded.length, hrecorded.level, hrecorded.connecting⟩
    · obtain ⟨c₂, hrequest, hc₂⟩ := map_eq_ok hdata
      obtain ⟨rfl, -⟩ := Prod.mk.inj hc₂
      refine hrecorded.requestSegment ?_ hrequest
      rw [hcheck]
      exact hstatus
  · rw [if_neg heq] at hdata
    obtain ⟨rfl, -⟩ := Prod.mk.inj (Except.ok.inj hdata)
    exact h.countBytes nbytes

theorem onReadLoop {reads : List ℕ} (h : Leveled videoData c)
    (hfit : c.readBytes.toNat + reads.sum < 2 ^ 64)
    (hloop : DashClient.onReadLoop now reads c = .ok c') : Leveled videoData c' := by
  induction reads generalizing c with
  | nil =>
    cases hloop
    exact h
  | cons nbytes reads ih =>
    rw [List.sum_cons] at hfit
    cases nbytes with
    | zero =>
      exact ih (c := { c with registered := false }) ⟨h.video, h.length, h.level, h.connecting⟩
        (by simpa using hfit) hloop
    | succ nbytes =>
      rw [DashClient.onReadLoop] at hloop
      cases hres : c.onData now (nbytes + 1) with
      | error e =>
        rw [hres] at hloop
        cases hloop
      | ok res =>
        obtain ⟨c₁, done⟩ := res
        rw [hres] at hloop
        have h₁ := h.onData (Nat.succ_pos nbytes) (by omega) hres
        have hle := onData_readBytes_le (by omega) hres
        cases done with
        | true =>
          cases hloop
          exact h₁
        | false => exact ih h₁ (by omega) hloop

/-- What is complete in a loop. -/
theorem completions {reads : List ℕ} (h : Leveled videoData c)
    (hfit : c.readBytes.toNat + reads.sum < 2 ^ 64) {c₁ : DashClient alg}
    (hc₁ : c₁ ∈ DashClient.completions now reads c) : Leveled videoData c₁ := by
  induction reads generalizing c with
  | nil => cases hc₁
  | cons nbytes reads ih =>
    rw [List.sum_cons] at hfit
    cases nbytes with
    | zero =>
      exact ih (c := { c with registered := false }) ⟨h.video, h.length, h.level, h.connecting⟩
        (by simpa using hfit) hc₁
    | succ nbytes =>
      rw [DashClient.completions] at hc₁
      rcases List.mem_append.1 hc₁ with hc₁ | hc₁
      · split_ifs at hc₁
        · rw [List.mem_singleton.1 hc₁]
          exact h.countBytes (nbytes + 1)
        · cases hc₁
      · split at hc₁
        · next c₂ hres =>
          have hle := onData_readBytes_le (by omega) hres
          exact ih (h.onData (Nat.succ_pos nbytes) (by omega) hres) (by omega) hc₁
        · cases hc₁

theorem onReadEvent {input : Bool} {reads : List ℕ} (h : Leveled videoData c)
    (hfit : c.readBytes.toNat + reads.sum < 2 ^ 64)
    (hread : (if input then c.onReadEvent now reads else .ok c) = .ok c') :
    Leveled videoData c' := by
  split_ifs at hread
  · rw [DashClient.onReadEvent] at hread
    split_ifs at hread
    · exact h.onReadLoop hfit hread
    · cases hread
      exact h
  · cases hread
    exact h

end Leveled

theorem afterError_readBytes (error : Bool) (c : DashClient alg) :
    (c.afterError error).readBytes = c.readBytes := by
  rw [afterError]
  split_ifs
  · rw [close]
    split_ifs <;> rfl
  · rfl

namespace Leveled

variable {c c' : DashClient alg} {now : Time}

theorem onEvent {error input output : Bool} {reads : List ℕ} (h : Leveled videoData c)
    (hfit : c.readBytes.toNat + reads.sum < 2 ^ 64)
    (hevent : c.onEvent now error input output reads = .ok c') : Leveled videoData c' := by
  rw [onEvent_eq] at hevent
  split at hevent
  · cases hevent
  · next c₁ hread =>
    have h₁ := (h.afterError error).onReadEvent (by rw [afterError_readBytes]; exact hfit) hread
    split_ifs at hevent
    · refine requestSegment (c := c₁.opened) ?_ (fun hs => by cases hs) hevent
      exact ⟨h₁.video, h₁.length, h₁.level, fun hs => by cases hs⟩
    · cases hevent
      exact h₁

theorem playBackHandle (h : Leveled videoData c)
    (hplay : DashClient.playBackHandle now c = .ok c') : Leveled videoData c' := by
  rw [DashClient.playBackHandle] at hplay
  split at hplay
  · cases hplay
  · next c₁ hframe =>
    obtain ⟨ps, pa, rfl⟩ := afterFrame_eq hplay
    rw [playFrame] at hframe
    split_ifs at hframe
    · dsimp only at hframe
      split_ifs at hframe <;> cases hframe
      · exact ⟨h.video, h.length, h.level, h.connecting⟩
      · exact ⟨h.video, h.length, h.level, h.connecting⟩
    · cases hframe
      exact ⟨h.video, h.length, h.level, h.connecting⟩

/-- Each handler keeps a level for each segment. -/
theorem handle {e : Event} (h : Leveled videoData c) (hfit : Fits c e)
    (hhandle : c.handle now e = .ok c') : Leveled videoData c' := by
  cases e with
  | socket error input output reads =>
    rw [DashClient.handle] at hhandle
    split_ifs at hhandle
    · exact h.onEvent hfit hhandle
    · cases hhandle
      exact h
  | requestAlarm =>
    rw [DashClient.handle] at hhandle
    split_ifs at hhandle with hset
    · cases hhandle
      have hstatus : c.status ≠ .tcpConnecting := by
        intro hs
        rw [(h.connecting hs).2.2] at hset
        cases hset
      refine Leveled.delayRequestHandle ?_ hstatus
      exact ⟨h.video, h.length, h.level, fun hs => absurd hs hstatus⟩
    · cases hhandle
      exact h
  | playerAlarm =>
    rw [DashClient.handle] at hhandle
    split_ifs at hhandle
    · refine Leveled.playBackHandle (c := { c with playerAlarm := none }) ?_ hhandle
      exact ⟨h.video, h.length, h.level, h.connecting⟩
    · cases hhandle
      exact h

end Leveled

/-! ## Runs -/

theorem leveled_reachable {clock : Time → Time → Prop} {w : World alg}
    (h : (system alg videoData Fits clock).Reachable w) : Leveled videoData w.client := by
  refine h.invariant (P := fun w => Leveled videoData w.client) (fun w hinit => ?_)
    fun w w' _ hl hstep => ?_
  · obtain ⟨-, initSegments, algorithm, ps, -, hclient⟩ := hinit
    rw [hclient]
    refine ⟨rfl, rfl, fun level hlevel => ?_, fun _ => ⟨rfl, rfl, rfl⟩⟩
    cases hlevel
  · cases hstep with
    | handle e client hfit hrun => exact hl.handle hfit hrun
    | round now hclock => exact hl

/-- What an event completes has a level for each segment. -/
theorem Leveled.completed {c c₁ : DashClient alg} {now : Time} {e : Event}
    (h : Leveled videoData c) (hfit : Fits c e) (hc₁ : c₁ ∈ c.completed now e) :
    Leveled videoData c₁ := by
  cases e with
  | socket error input output reads =>
    rw [DashClient.completed] at hc₁
    split_ifs at hc₁
    · refine (h.afterError error).completions ?_ hc₁
      rw [afterError_readBytes]
      exact hfit
    · cases hc₁
  | requestAlarm => cases hc₁
  | playerAlarm => cases hc₁

/-- When it has been connected, the client chooses its first segment. -/
theorem Leveled.connected {c c₁ : DashClient alg} {now : Time} {e : Event}
    (h : Leveled videoData c) (hfit : Fits c e) (hc₁ : c₁ ∈ c.connected now e) :
    c₁.index = 0 := by
  cases e with
  | socket error input output reads =>
    rw [DashClient.connected] at hc₁
    by_cases hreg : c.registered = true
    · rw [if_pos hreg] at hc₁
      split at hc₁
      · cases hc₁
      · next c₂ hread =>
        have h₂ := (h.afterError error).onReadEvent (by rw [afterError_readBytes]; exact hfit) hread
        split_ifs at hc₁ with hconn
        · rw [List.mem_singleton.1 hc₁]
          exact (h₂.connecting hconn.2).1
        · cases hc₁
    · rw [if_neg hreg] at hc₁
      cases hc₁
  | requestAlarm => cases hc₁
  | playerAlarm => cases hc₁

/-- Of the segments that an event completes, each but the first is complete when the player
    has started, and a millisecond or more after the one before. A segment that is complete
    before any was requested does not count. -/
def Spaced (now : Time) (c : DashClient alg) (e : Event) : Prop :=
  ∀ c₁ ∈ c.completed now e, 1 ≤ c₁.index → c₁.segmentCounter = 0 ∨
    c₁.playerState ≠ .playerInitBuffering ∧
      1000 ≤ now - c₁.data.throughput.transmissionEnd.getLast?.getD 0

instance (now : Time) (c : DashClient alg) (e : Event) : Decidable (Spaced now c e) := by
  rw [Spaced]
  infer_instance

/-- Whenever the algorithm is called after the first time, what SVAA divides by is positive,
    exactly if the segments that are complete are spaced. -/
theorem trend_iff {D : Type} [Add D] [Sub D] [Mul D] [Div D] [LT D] [LE D] [DecidableLT D]
    [DecidableLE D] [Double D] [Exponential D] {clock : Time → Time → Prop}
    (hduration : 0 < videoData.segmentDuration) {w : World (svaa D)}
    (h : (system (svaa D) videoData Fits clock).Reachable w) {e : Event} (hfit : Fits w.client e) :
    (∀ c ∈ asks w.now w.client e, 1 ≤ c.index →
        0 < c.data.videoData.segmentDuration - c.data.getBufferDiffMs) ↔
      Spaced w.now w.client e := by
  have hleveled := leveled_reachable h
  have hshown : ∀ c₁ ∈ w.client.completed w.now e,
      (0 < ((c₁.recordSegment w.now).checkBufferStatus w.now).data.videoData.segmentDuration -
          ((c₁.recordSegment w.now).checkBufferStatus w.now).data.getBufferDiffMs ↔
        c₁.segmentCounter = 0 ∨ c₁.playerState ≠ .playerInitBuffering ∧
          1000 ≤ w.now - c₁.data.throughput.transmissionEnd.getLast?.getD 0) ∧
        ((c₁.recordSegment w.now).checkBufferStatus w.now).index = c₁.index := by
    intro c₁ hc₁
    obtain ⟨ps, pa, hcheck⟩ := checkBufferStatus_eq w.now (c₁.recordSegment w.now)
    rw [hcheck]
    exact ⟨(hleveled.completed hfit hc₁).divisor_pos_iff hduration, rfl⟩
  refine ⟨fun hpos c₁ hc₁ hindex => ?_, fun hspaced c hc hindex => ?_⟩
  · obtain ⟨hiff, hsame⟩ := hshown c₁ hc₁
    exact hiff.1 (hpos _ (List.mem_append_left _ (List.mem_map_of_mem hc₁)) (hsame ▸ hindex))
  · rcases List.mem_append.1 hc with hc | hc
    · obtain ⟨c₁, hc₁, rfl⟩ := List.mem_map.1 hc
      obtain ⟨hiff, hsame⟩ := hshown c₁ hc₁
      exact hiff.2 (hspaced c₁ hc₁ (hsame ▸ hindex))
    · rw [hleveled.connected hfit hc] at hindex
      exact absurd hindex (by decide)

/-! ## Two runs -/

/-- Exact at zero only, but it computes. -/
instance : Exponential ℚ := ⟨fun x => 1 + x⟩

/-- The client goes through rounds, with times that do not go back and bytes that fit. -/
def rounds : List (Time × List Event) → World alg → Option (World alg)
  | [], w => some w
  | (now, events) :: rest, w =>
    if w.now ≤ now ∧ fitsRound now events w.client = true then
      match runRound now events w.client with
      | .ok c => rounds rest ⟨c, now⟩
      | .error _ => none
    else none

theorem reachable_rounds {l : List (Time × List Event)} {w w' : World alg}
    (h : (system alg videoData Fits (· ≤ ·)).Reachable w) (hrun : rounds l w = some w') :
    (system alg videoData Fits (· ≤ ·)).Reachable w' := by
  induction l generalizing w with
  | nil =>
    cases hrun
    exact h
  | cons round rest ih =>
    obtain ⟨now, events⟩ := round
    rw [rounds] at hrun
    split_ifs at hrun with hfits
    split at hrun
    · next c hround =>
      exact ih (reachable_fitsRound (fun _ _ => id) (h.step (.round w now hfits.1)) hfits.2
        hround) hrun
    · cases hrun

/-- Three segments of two bytes, that play a second each. -/
def threeSeconds : VideoData := ⟨[[2, 2, 2]], [1], 1000⟩

/-- A client that is connecting, and aims at a second in its buffer. -/
def aimsAtSecond (initSegments : ℤ) : World (svaa ℚ) :=
  ⟨DashClient.new threeSeconds initSegments { targetBuffer := 1000 }, 1000⟩

theorem reachable_aimsAtSecond (initSegments : ℤ) :
    (system (svaa ℚ) threeSeconds Fits (· ≤ ·)).Reachable (aimsAtSecond initSegments) :=
  .init ⟨List.cons_ne_nil _ _, initSegments, _, _, .inl rfl, rfl⟩

/-- A byte arrives. -/
def oneByte : Event := .socket false true false [1]

/-- The client connects, and a byte arrives each second. So far there are three of them. -/
def threeBytes : List (Time × List Event) :=
  [(1000, [.socket false false true []]), (2000, [oneByte]), (1002000, [oneByte]),
    (2002000, [oneByte]), (3002000, [])]

/-- Whether the next byte fits, whether what it completes is spaced, and what the algorithm
    divides by then. -/
def nextByte (w : World (svaa ℚ)) : Bool × Bool × List (ℕ × ℤ) :=
  (decide (Fits w.client oneByte), decide (Spaced w.now w.client oneByte),
    (asks w.now w.client oneByte).map fun c =>
      (c.index, c.data.videoData.segmentDuration - c.data.getBufferDiffMs))

/-- If the player has started with the first segment, what is divided by is positive when the
    second is complete a second later. -/
theorem trend_started : ∃ w : World (svaa ℚ),
    ((asks w.now w.client oneByte).map DashClient.index) = [2] ∧
      ∀ c ∈ asks w.now w.client oneByte, 1 ≤ c.index →
        0 < c.data.videoData.segmentDuration - c.data.getBufferDiffMs := by
  have hrun : (rounds threeBytes (aimsAtSecond 1)).map nextByte =
      some (true, true, [(2, 1000)]) := by
    decide +kernel
  obtain ⟨w, hw, hnext⟩ := Option.map_eq_some_iff.1 hrun
  obtain ⟨hfits, hnext⟩ := Prod.mk.inj hnext
  obtain ⟨hspaced, hasks⟩ := Prod.mk.inj hnext
  have hindex := congrArg (List.map Prod.fst) hasks
  rw [List.map_map] at hindex
  exact ⟨w, hindex, (trend_iff (by decide) (reachable_rounds (reachable_aimsAtSecond 1) hw)
    (of_decide_eq_true hfits)).2 (of_decide_eq_true hspaced)⟩

/-- While the player buffers three segments, SVAA divides by zero. -/
theorem trend_buffering : ¬ ∀ (w : World (svaa ℚ)) (e : Event),
    (system (svaa ℚ) threeSeconds Fits (· ≤ ·)).Reachable w → Fits w.client e →
      ∀ c ∈ asks w.now w.client e, 1 ≤ c.index →
        0 < c.data.videoData.segmentDuration - c.data.getBufferDiffMs := by
  intro h
  have hrun : (rounds threeBytes (aimsAtSecond 3)).map nextByte =
      some (true, false, [(2, 0)]) := by
    decide +kernel
  obtain ⟨w, hw, hnext⟩ := Option.map_eq_some_iff.1 hrun
  obtain ⟨hfits, hnext⟩ := Prod.mk.inj hnext
  obtain ⟨-, hasks⟩ := Prod.mk.inj hnext
  have hreach := reachable_rounds (reachable_aimsAtSecond 3) hw
  obtain ⟨c, hc, hcall⟩ := List.mem_map.1 (hasks ▸ List.mem_singleton_self (2, (0 : ℤ)))
  obtain ⟨hindex, hzero⟩ := Prod.mk.inj hcall
  have hpos := h w oneByte hreach (of_decide_eq_true hfits) c hc (by rw [hindex]; decide)
  rw [hzero] at hpos
  exact absurd hpos (by decide)

end DashClient

end DashDim
