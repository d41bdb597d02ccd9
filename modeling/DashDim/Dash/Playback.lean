import DashDim.Dash.Segments

/-!
# The player

The player starts when enough segments are buffered, and while it plays, an alarm is set.
When its buffer is empty, it is done if all of the segments are played, and else paused.
An error of the socket makes it done at once, but does not stop the alarm.

* `Player`: what each state of the player says of the segments, kept in all runs;
* `done_iff`: with all segments received and no alarm set, all of them are played, exactly
  if the player starts with as many as there are, or fewer;
* `done_absorbing`: a player that is done stays so, except for an alarm that empties the
  buffer before the last segment.
-/

namespace DashDim

namespace DashClient

variable {alg : AdaptationAlgorithm} {n : ℕ}

/-! ## What the player has -/

/-- What a state of the player says, for a table of `n` segments. -/
def Stage (n : ℕ) (c : DashClient alg) : Prop :=
  match c.playerState with
  | .playerNotStarted => c.status = .tcpConnecting ∧ c.playerAlarm = none
  | .playerInitBuffering =>
    c.playerAlarm = none ∧ c.playbackIndex = 0 ∧ c.segmentsInBuffer < c.initSegments
  | .playerPlay => c.playerAlarm.isSome ∧ c.initSegments ≤ c.segmentCounter
  | .playerPaused => c.playerAlarm = none ∧ c.segmentsInBuffer = 0 ∧ c.playbackIndex < n ∧
      c.initSegments ≤ c.segmentCounter
  | .playerDone => c.status ≠ .tcpConnecting ∧
      (c.initSegments ≤ c.segmentCounter ∧ (c.playerAlarm.isSome ∨ n ≤ c.playbackIndex) ∨
        c.fdOpen = false ∧ c.playerAlarm = none ∧
          (c.playbackIndex = 0 ∧ c.segmentsInBuffer < c.initSegments ∨
            c.segmentsInBuffer = 0 ∧ c.playbackIndex < n))

/-- The segments are played or buffered, and there is none before the client is
    connected. -/
structure Player (n : ℕ) (c : DashClient alg) : Prop where
  rows : ∃ row rows, c.data.videoData.representation = row :: rows ∧ row.length = n
  initSegments : 1 ≤ c.initSegments
  counter : (c.segmentCounter : ℤ) = c.playbackIndex + c.segmentsInBuffer
  buffered : 0 ≤ c.segmentsInBuffer
  connecting : c.status = .tcpConnecting →
    c.segmentBytes = 0 ∧ c.requestAlarm = none ∧ c.segmentCounter = 0
  closed : c.fdOpen = false → c.status ≠ .tcpConnecting
  stage : Stage n c

/-- An alarm for a time that has come. -/
theorem updateAlarm_isSome {deadline : Time} (h : 0 < deadline) :
    (updateAlarm deadline).isSome = true := by
  rw [updateAlarm, if_neg h.ne']
  rfl

/-- A segment that is complete starts the player, or makes it go on. -/
theorem checkBufferStatus_eq_ite (now : Time) (c : DashClient alg) :
    c.checkBufferStatus now =
      if c.playerState = .playerInitBuffering ∧ c.segmentsInBuffer ≥ c.initSegments ∨
          c.playerState = .playerPaused ∧ c.segmentsInBuffer > 0 then
        { c with playerState := .playerPlay, playerAlarm := updateAlarm now }
      else c := by
  rw [checkBufferStatus]
  by_cases hready : c.playerState = .playerInitBuffering ∧ c.segmentsInBuffer ≥ c.initSegments
  · simp only [hready, and_self, true_or, if_true, reduceCtorEq, false_and,
      if_false]
  · simp only [hready, if_false, false_or]

/-- A frame is played: at the end of a segment, it leaves the buffer. -/
theorem playFrame_cases {c c' : DashClient alg} (h : c.playFrame = .ok c') :
    c.segmentsInBuffer > 0 ∧ (c.data.playedFrames + 1 : ℤ).tmod c.framesInSegment = 0 ∧
        c' = { c with
          data := { c.data with playedFrames := c.data.playedFrames + 1 }
          segmentsInBuffer := c.segmentsInBuffer - 1
          playbackIndex := c.playbackIndex + 1 } ∨
      c.segmentsInBuffer > 0 ∧ (c.data.playedFrames + 1 : ℤ).tmod c.framesInSegment ≠ 0 ∧
        c' = { c with data := { c.data with playedFrames := c.data.playedFrames + 1 } } ∨
      ¬c.segmentsInBuffer > 0 ∧ c' = c := by
  rw [playFrame] at h
  split_ifs at h with hpos
  · dsimp only at h
    split_ifs at h with hzero hend
    · cases h
      exact .inl ⟨hpos, by exact_mod_cast hend, rfl⟩
    · cases h
      exact .inr (.inl ⟨hpos, fun heq => hend (by exact_mod_cast heq), rfl⟩)
  · cases h
    exact .inr (.inr ⟨hpos, rfl⟩)

/-- With an empty buffer the player is done or paused, and else the alarm is set. -/
theorem afterFrame_cases {now : Time} {c c' : DashClient alg} {row : List Int64}
    {rows : List (List Int64)} (hrows : c.data.videoData.representation = row :: rows)
    (h : c.afterFrame now = .ok c') :
    c.segmentsInBuffer = 0 ∧ row.length ≤ c.playbackIndex ∧
        c' = { c with playerState := .playerDone } ∨
      c.segmentsInBuffer = 0 ∧ c.playbackIndex < row.length ∧
        c' = { c with playerState := .playerPaused } ∨
      c.segmentsInBuffer > 0 ∧ c' = { c with playerAlarm := updateAlarm (now + 40000) } ∨
      c.segmentsInBuffer < 0 ∧ c' = c := by
  rw [afterFrame, hrows] at h
  split_ifs at h with hempty hpos
  · dsimp only at h
    split_ifs at h with hend
    · cases h
      exact .inl ⟨hempty, hend, rfl⟩
    · cases h
      exact .inr (.inl ⟨hempty, not_le.1 hend, rfl⟩)
  · cases h
    exact .inr (.inr (.inl ⟨hpos, rfl⟩))
  · cases h
    exact .inr (.inr (.inr ⟨by omega, rfl⟩))

namespace Player

variable {c : DashClient alg}

/-- A client that connects has no segments, and its player is not done. -/
theorem not_started (h : Player n c) (hstatus : c.status = .tcpConnecting) :
    c.playbackIndex = 0 ∧ c.segmentsInBuffer = 0 ∧ c.playerAlarm = none := by
  have hzero := (h.connecting hstatus).2.2
  have hcounter := h.counter
  have hbuffered := h.buffered
  have hinit := h.initSegments
  have hstage := h.stage
  refine ⟨by omega, by omega, ?_⟩
  rw [Stage] at hstage
  split at hstage
  · exact hstage.2
  · exact hstage.1
  · omega
  · exact hstage.1
  · exact absurd hstatus hstage.1

theorem close (h : Player n c) (hstatus : c.status ≠ .tcpConnecting) : Player n c.close := by
  rw [DashClient.close]
  split_ifs with hfd
  · refine { h with connecting := fun h => ?_, closed := fun _ h => ?_, stage := ?_ }
    · cases h
    · cases h
    · have hstage := h.stage
      rw [Stage] at hstage ⊢
      dsimp only
      split at hstage
      · exact absurd hstage.1 hstatus
      · exact hstage
      · exact hstage
      · exact hstage
      · refine ⟨fun h => ?_, hstage.2.imp id fun hfailed => ?_⟩
        · cases h
        · rw [hfd] at hfailed
          cases hfailed.1
  · exact h

/-- An error of the socket. -/
theorem failed (h : Player n c) :
    Player n
      ({ c with playerState := .playerDone, registered := false } : DashClient alg).close := by
  have hstage := h.stage
  have hfailed : c.initSegments ≤ c.segmentCounter ∧
        (c.playerAlarm.isSome ∨ n ≤ c.playbackIndex) ∨
      c.playerAlarm = none ∧ (c.playbackIndex = 0 ∧ c.segmentsInBuffer < c.initSegments ∨
        c.segmentsInBuffer = 0 ∧ c.playbackIndex < n) := by
    have hinit := h.initSegments
    rw [Stage] at hstage
    split at hstage
    · obtain ⟨hzero, hempty, -⟩ := h.not_started hstage.1
      exact .inr ⟨hstage.2, .inl ⟨hzero, by omega⟩⟩
    · exact .inr ⟨hstage.1, .inl hstage.2⟩
    · exact .inl ⟨hstage.2, .inl hstage.1⟩
    · exact .inr ⟨hstage.1, .inr ⟨hstage.2.1, hstage.2.2.1⟩⟩
    · exact hstage.2.imp id And.right
  rw [DashClient.close]
  split_ifs with hfd
  · refine { h with connecting := fun h => ?_, closed := fun _ h => ?_, stage := ⟨fun h => ?_, ?_⟩ }
    · cases h
    · cases h
    · cases h
    · exact hfailed.imp id fun hnone => ⟨rfl, hnone⟩
  · rw [Bool.not_eq_true] at hfd
    exact { h with stage := ⟨h.closed hfd, hfailed.imp id fun hnone => ⟨hfd, hnone⟩⟩ }

/-! ## Requests -/

theorem delayRequestHandle (h : Player n c) (now : Time) : Player n (c.delayRequestHandle now) := by
  rcases delayRequestHandle_cases now c with heq | ⟨-, heq⟩
  · rw [heq]
    exact h
  · rw [heq]
    exact { h with }

theorem requestSegment {now : Time} {c' : DashClient alg} (h : Player n c)
    (hstatus : c.status ≠ .tcpConnecting) (hrequest : c.requestSegment now = .ok c') :
    Player n c' := by
  obtain ⟨reply, algorithm, size, -, -, c₁, rfl, rfl | rfl⟩ := requestSegment_cases hrequest
  · exact { h with connecting := fun hs => absurd hs hstatus }
  · refine delayRequestHandle ?_ now
    exact { h with connecting := fun hs => absurd hs hstatus }

/-! ## Segments -/

/-- A segment is complete. -/
theorem completed {now : Time} (h : Player n c) (hnow : 0 < now) (hfd : c.fdOpen = true)
    (hstatus : c.status ≠ .tcpConnecting) :
    Player n ((c.recordSegment now).checkBufferStatus now) := by
  have hcounter := h.counter
  have hbuffered := h.buffered
  have hstage := h.stage
  -- all but the state of the player
  have hplayer : ∀ (playerState : DashPlayerState) (playerAlarm : Option Time),
      Stage n { c.recordSegment now with playerState := playerState, playerAlarm := playerAlarm } →
      Player n { c.recordSegment now with
        playerState := playerState, playerAlarm := playerAlarm } := by
    intro playerState playerAlarm hstage
    refine ⟨h.rows, h.initSegments, ?_, ?_, fun hs => absurd hs hstatus, h.closed, hstage⟩
    · rw [recordSegment]
      push_cast
      omega
    · rw [recordSegment]
      dsimp only
      omega
  have hmore : ((c.recordSegment now).segmentCounter : ℤ) = c.segmentCounter + 1 ∧
      (c.recordSegment now).segmentsInBuffer = c.segmentsInBuffer + 1 :=
    ⟨Nat.cast_succ c.segmentCounter, rfl⟩
  have hsame : (c.recordSegment now).playerState = c.playerState ∧
      (c.recordSegment now).initSegments = c.initSegments := ⟨rfl, rfl⟩
  rw [checkBufferStatus_eq_ite, hsame.1, hsame.2, hmore.2]
  split_ifs with hready
  · -- the player starts, or goes on
    refine hplayer _ _ ⟨updateAlarm_isSome hnow, ?_⟩
    dsimp only
    rw [hmore.1, hsame.2]
    rcases hready with ⟨hstate, henough⟩ | ⟨hstate, -⟩
    · rw [Stage, hstate] at hstage
      obtain ⟨-, hzero, -⟩ := hstage
      omega
    · rw [Stage, hstate] at hstage
      obtain ⟨-, -, -, hstarted⟩ := hstage
      omega
  · refine hplayer (c.recordSegment now).playerState (c.recordSegment now).playerAlarm ?_
    rw [not_or] at hready
    rw [Stage] at hstage ⊢
    dsimp only
    rw [hsame.1, hmore.1, hmore.2, hsame.2]
    split at hstage
    · exact absurd hstage.1 hstatus
    · next hstate => exact ⟨hstage.1, hstage.2.1, not_le.1 fun hle => hready.1 ⟨hstate, hle⟩⟩
    · exact ⟨hstage.1, by omega⟩
    · next hstate => exact absurd ⟨hstate, by omega⟩ hready.2
    · refine ⟨hstatus, .inl ?_⟩
      rcases hstage.2 with ⟨hle, hplayed⟩ | ⟨hclosed, -⟩
      · exact ⟨by omega, hplayed⟩
      · rw [hfd] at hclosed
        cases hclosed

/-! ## Reading -/

theorem onData {now : Time} {nbytes : ℕ} {c' : DashClient alg} {done : Bool} (h : Player n c)
    (hnow : 0 < now) (hfd : c.fdOpen = true) (hpos : 0 < nbytes)
    (hfits : c.readBytes.toNat + nbytes < 2 ^ 64) (hdata : c.onData now nbytes = .ok (c', done)) :
    Player n c' := by
  have hcounted : Player n (c.countBytes now nbytes) := { h with }
  have hread := countBytes_readBytes hfits now
  rw [DashClient.onData] at hdata
  split_ifs at hdata with hcomplete
  · have hstatus : c.status ≠ .tcpConnecting := by
      intro hstatus
      have hzero : (c.countBytes now nbytes).segmentBytes = 0 := (h.connecting hstatus).1
      rw [hcomplete, hzero] at hread
      exact absurd hread (by rw [UInt64.toNat_zero]; omega)
    have hcompleted := hcounted.completed hnow hfd hstatus
    have hstatus' : (((c.countBytes now nbytes).recordSegment now).checkBufferStatus now).status ≠
        .tcpConnecting := by
      obtain ⟨playerState, playerAlarm, heq⟩ :=
        checkBufferStatus_eq now ((c.countBytes now nbytes).recordSegment now)
      rw [heq]
      exact hstatus
    rcases completeSegment_cases hdata with ⟨hrequest, -⟩ | ⟨rfl, -⟩
    · exact hcompleted.requestSegment hstatus' hrequest
    · exact Player.close (c := { ((c.countBytes now nbytes).recordSegment now).checkBufferStatus now
        with registered := false }) { hcompleted with } hstatus'
  · cases hdata
    exact hcounted

theorem onReadLoop {now : Time} {reads : List ℕ} {c' : DashClient alg} (h : Player n c)
    (hnow : 0 < now) (hfd : c.fdOpen = true) (hfits : c.readBytes.toNat + reads.sum < 2 ^ 64)
    (hloop : onReadLoop now reads c = .ok c') : Player n c' := by
  induction reads generalizing c with
  | nil =>
    cases hloop
    exact h
  | cons nbytes reads ih =>
    rw [List.sum_cons] at hfits
    cases nbytes with
    | zero =>
      rw [DashClient.onReadLoop] at hloop
      exact ih (c := { c with registered := false }) { h with } hfd
        (by dsimp only; omega) hloop
    | succ nbytes =>
      rw [DashClient.onReadLoop] at hloop
      split at hloop
      · cases hloop
      · next c₁ hdata =>
        cases hloop
        exact h.onData hnow hfd (Nat.succ_pos nbytes) (by omega) hdata
      · next c₁ hdata =>
        have hle := onData_readBytes_le (by omega) hdata
        have hfd₁ := (onData_frame hdata).2 rfl
        exact ih (h.onData hnow hfd (Nat.succ_pos nbytes) (by omega) hdata) (hfd₁.trans hfd)
          (by omega) hloop

/-! ## Events -/

theorem onConnected {now : Time} {c' : DashClient alg} (h : Player n c)
    (hstatus : c.status = .tcpConnecting)
    (hconnected : onConnected now { c with status := .tcpConnected } = .ok c') : Player n c' := by
  obtain ⟨hplayed, hempty, -⟩ := h.not_started hstatus
  have hinit := h.initSegments
  refine requestSegment (c := { c with
    status := .tcpConnected
    playerState := .playerInitBuffering
    playerAlarm := none
    requestAlarm := none }) ?_ (fun hs => by cases hs) hconnected
  refine { h with
    connecting := fun hs => by cases hs
    closed := fun _ hs => by cases hs
    stage := ⟨rfl, hplayed, ?_⟩ }
  dsimp only
  omega

theorem onEvent {now : Time} {error input output : Bool} {reads : List ℕ} {c' : DashClient alg}
    (h : Player n c) (hnow : 0 < now) (hfits : c.readBytes.toNat + reads.sum < 2 ^ 64)
    (hevent : c.onEvent now error input output reads = .ok c') : Player n c' := by
  -- after an error, and after what is read
  have herror : ∃ c₀ : DashClient alg, c₀ = (if error then
        ({ c with playerState := .playerDone, registered := false } : DashClient alg).close
        else c) ∧ Player n c₀ ∧ c₀.readBytes = c.readBytes := by
    refine ⟨_, rfl, ?_⟩
    split_ifs
    · refine ⟨h.failed, ?_⟩
      rw [DashClient.close]
      split_ifs <;> rfl
    · exact ⟨h, rfl⟩
  obtain ⟨c₀, hc₀, h₀, hbytes⟩ := herror
  rw [← hbytes] at hfits
  rw [DashClient.onEvent, ← hc₀] at hevent
  split at hevent
  · cases hevent
  · next c₁ hread =>
    have h₁ : Player n c₁ := by
      split_ifs at hread
      · rw [onReadEvent] at hread
        split_ifs at hread with hfd
        · exact h₀.onReadLoop hnow hfd hfits hread
        · cases hread
          exact h₀
      · cases hread
        exact h₀
    split_ifs at hevent with hconnected
    · exact h₁.onConnected hconnected.2 hevent
    · cases hevent
      exact h₁

/-- An alarm that is set is one of a player that has started. -/
theorem started (h : Player n c) (halarm : c.playerAlarm.isSome = true) :
    c.status ≠ .tcpConnecting ∧ c.initSegments ≤ c.segmentCounter ∧
      (c.playerState = .playerPlay ∨ c.playerState = .playerDone) := by
  have hstage := h.stage
  have hset : c.playerAlarm ≠ none := Option.isSome_iff_ne_none.1 halarm
  rw [Stage] at hstage
  split at hstage
  · exact absurd hstage.2 hset
  · exact absurd hstage.1 hset
  · next hstate =>
    refine ⟨fun hstatus => ?_, hstage.2, .inl hstate⟩
    exact hset (h.not_started hstatus).2.2
  · exact absurd hstage.1 hset
  · next hstate =>
    rcases hstage.2 with hplayed | hfailed
    · exact ⟨hstage.1, hplayed.1, .inr hstate⟩
    · exact absurd hfailed.2.1 hset

/-- The alarm of the player goes off. -/
theorem playBackHandle {now : Time} {c' : DashClient alg} (h : Player n c) (hnow : 0 < now)
    (halarm : c.playerAlarm.isSome = true)
    (hplay : playBackHandle now { c with playerAlarm := none } = .ok c') : Player n c' := by
  obtain ⟨hstatus, hstarted, hstate⟩ := h.started halarm
  have hcounter := h.counter
  have hbuffered := h.buffered
  obtain ⟨row, rows, hrows, hn⟩ := h.rows
  rw [DashClient.playBackHandle] at hplay
  split at hplay
  · cases hplay
  · next c₁ hframe =>
    -- the segments after the frame
    obtain ⟨hrows₁, hinit₁, hcount₁, hcounter₁, hbuffered₁, hstatus₁, hfd₁, hstate₁, halarm₁⟩ :
        c₁.data.videoData.representation = row :: rows ∧ c₁.initSegments = c.initSegments ∧
        c₁.segmentCounter = c.segmentCounter ∧
        (c.segmentCounter : ℤ) = c₁.playbackIndex + c₁.segmentsInBuffer ∧
        0 ≤ c₁.segmentsInBuffer ∧ c₁.status = c.status ∧ c₁.fdOpen = c.fdOpen ∧
        c₁.playerState = c.playerState ∧ c₁.playerAlarm = none := by
      rcases playFrame_cases hframe with ⟨hpos, -, rfl⟩ | ⟨-, -, rfl⟩ | ⟨-, rfl⟩
      · refine ⟨hrows, rfl, rfl, ?_, ?_, rfl, rfl, rfl, rfl⟩
        · push_cast
          omega
        · dsimp only at hpos ⊢
          omega
      · exact ⟨hrows, rfl, rfl, hcounter, hbuffered, rfl, rfl, rfl, rfl⟩
      · exact ⟨hrows, rfl, rfl, hcounter, hbuffered, rfl, rfl, rfl, rfl⟩
    have hplayer : ∀ (playerState : DashPlayerState) (playerAlarm : Option Time),
        Stage n { c₁ with playerState := playerState, playerAlarm := playerAlarm } →
        Player n { c₁ with playerState := playerState, playerAlarm := playerAlarm } := by
      intro playerState playerAlarm hstage
      refine ⟨⟨row, rows, hrows₁, hn⟩, hinit₁ ▸ h.initSegments, ?_, hbuffered₁,
        fun hs => absurd (hstatus₁ ▸ hs) hstatus, fun _ => hstatus₁ ▸ hstatus, hstage⟩
      dsimp only
      rw [hcount₁, hcounter₁]
    obtain ⟨hempty, hend, rfl⟩ | ⟨hempty, hlt, rfl⟩ | ⟨hpos, rfl⟩ | ⟨hneg, rfl⟩ :=
      afterFrame_cases hrows₁ hplay
    · refine hplayer .playerDone c₁.playerAlarm ⟨hstatus₁ ▸ hstatus, .inl ⟨?_, .inr (hn ▸ hend)⟩⟩
      dsimp only
      rw [hinit₁, hcount₁]
      exact hstarted
    · refine hplayer .playerPaused c₁.playerAlarm ⟨halarm₁, hempty, hn ▸ hlt, ?_⟩
      dsimp only
      rw [hinit₁, hcount₁]
      exact hstarted
    · have hset : (updateAlarm (now + 40000)).isSome = true :=
        updateAlarm_isSome (add_pos hnow (by norm_num))
      refine hplayer c₁.playerState _ ?_
      rw [Stage]
      dsimp only
      rw [hstate₁, hinit₁, hcount₁]
      rcases hstate with hstate | hstate
      · rw [hstate]
        exact ⟨hset, hstarted⟩
      · rw [hstate]
        exact ⟨hstatus₁ ▸ hstatus, .inl ⟨hstarted, .inl hset⟩⟩
    · omega

/-- Each event keeps the player. -/
theorem handle {now : Time} {e : Event} {c' : DashClient alg} (h : Player n c) (hnow : 0 < now)
    (hfits : Fits c e) (hhandle : c.handle now e = .ok c') : Player n c' := by
  cases e with
  | socket error input output reads =>
    rw [DashClient.handle] at hhandle
    split_ifs at hhandle
    · exact h.onEvent hnow hfits hhandle
    · cases hhandle
      exact h
  | requestAlarm =>
    rw [DashClient.handle] at hhandle
    split_ifs at hhandle with hset
    · cases hhandle
      refine delayRequestHandle ?_ now
      refine { h with connecting := fun hs => ?_ }
      have hnone := (h.connecting hs).2.1
      rw [hnone] at hset
      cases hset
    · cases hhandle
      exact h
  | playerAlarm =>
    rw [DashClient.handle] at hhandle
    split_ifs at hhandle with hset
    · exact h.playBackHandle hnow hset hhandle
    · cases hhandle
      exact h

end Player

/-! ## Runs -/

/-- The runs of a client with a table, that starts its player with at least one segment,
    at times that are set. -/
def playback (alg : AdaptationAlgorithm) (videoData : VideoData)
    (allowed : DashClient alg → Event → Prop) : System (World alg) where
  init w := Init videoData w ∧ 1 ≤ w.client.initSegments ∧ 0 < w.now
  step := Step allowed fun _ now => 0 < now

variable {videoData : VideoData} {allowed : DashClient alg → Event → Prop} {w : World alg}

theorem player_reachable (hallowed : ∀ c e, allowed c e → Fits c e)
    (hrows : ∀ row ∈ videoData.representation, row.length = n)
    (h : (playback alg videoData allowed).Reachable w) : Player n w.client ∧ 0 < w.now := by
  refine h.invariant (P := fun w => Player n w.client ∧ 0 < w.now) ?_ ?_
  · rintro w ⟨⟨hne, initSegments, algorithm, playerState, hstate, hw⟩, hinit, hnow⟩
    refine ⟨?_, hnow⟩
    rw [hw] at hinit ⊢
    obtain ⟨row, rows, hrep⟩ := List.exists_cons_of_ne_nil hne
    have hlen := hrows row (by rw [hrep]; exact List.mem_cons_self)
    refine ⟨⟨row, rows, hrep, hlen⟩, hinit, rfl, le_rfl, fun _ => ⟨rfl, rfl, rfl⟩,
      fun hfd => absurd hfd (Bool.noConfusion), ?_⟩
    rcases hstate with rfl | rfl
    · exact ⟨rfl, rfl⟩
    · exact ⟨rfl, rfl, hinit⟩
  · rintro w w' - ⟨hplayer, hnow⟩ hstep
    cases hstep with
    | handle e client hallow hhandle =>
      exact ⟨hplayer.handle hnow (hallowed _ _ hallow) hhandle, hnow⟩
    | round now hclock => exact ⟨hplayer, hclock⟩

instance (c : DashClient alg) (e : Event) : Decidable (Fits c e) :=
  match e with
  | .socket _ _ _ reads => inferInstanceAs (Decidable (c.readBytes.toNat + reads.sum < 2 ^ 64))
  | .requestAlarm => isTrue trivial
  | .playerAlarm => isTrue trivial

/-- The bytes of a round fit. -/
def fitsRound (now : Time) : List Event → DashClient alg → Bool
  | [], _ => true
  | e :: events, c =>
    decide (Fits c e) &&
      match c.handle now e with
      | .error _ => true
      | .ok c => fitsRound now events c

/-- A client can go through the events of a round whose bytes fit. -/
theorem reachable_fitsRound {M : System (World alg)} {clock : Time → Time → Prop}
    (hM : ∀ w w', Step Fits clock w w' → M.step w w') {now : Time} {events : List Event}
    {c c' : DashClient alg} (h : M.Reachable ⟨c, now⟩) (hfits : fitsRound now events c = true)
    (hrun : runRound now events c = .ok c') : M.Reachable ⟨c', now⟩ := by
  induction events generalizing c with
  | nil =>
    cases hrun
    exact h
  | cons e events ih =>
    rw [fitsRound, Bool.and_eq_true, decide_eq_true_eq] at hfits
    rw [runRound] at hrun
    split at hrun
    · cases hrun
    · next c₁ hhandle =>
      rw [hhandle] at hfits
      exact ih (h.step (hM _ _ (.handle _ e c₁ hfits.1 hhandle))) hfits.2 hrun

/-- When all segments are received and no alarm is set, all of them are played, exactly if
    the player starts with as many as there are, or fewer. -/
theorem done_iff (hn : 1 ≤ n) (hrows : ∀ row ∈ videoData.representation, row.length = n)
    (h : (playback alg videoData Fits).Reachable w) (hall : w.client.segmentCounter = n)
    (halarm : w.client.playerAlarm = none) :
    w.client.playerState = .playerDone ∧ w.client.playbackIndex = n ↔
      w.client.initSegments ≤ n := by
  obtain ⟨hplayer, -⟩ := player_reachable (fun _ _ => id) hrows h
  have hcounter := hplayer.counter
  have hbuffered := hplayer.buffered
  have hinit := hplayer.initSegments
  have hstage := hplayer.stage
  rw [Stage, halarm, hall] at hstage
  split at hstage
  · have hzero := (hplayer.connecting hstage.1).2.2
    omega
  · next hstate =>
    rw [hstate]
    refine iff_of_false (fun hdone => by cases hdone.1) ?_
    omega
  · cases hstage.1
  · omega
  · next hstate =>
    rw [hstate]
    rcases hstage.2 with ⟨hle, hset | hplayed⟩ | ⟨-, -, ⟨hzero, hlt⟩ | ⟨hempty, hlt⟩⟩
    · cases hset
    · exact iff_of_true ⟨rfl, by omega⟩ hle
    · exact iff_of_false (fun hdone => by omega) (by omega)
    · omega

/-- A client of two segments that has started to connect, at a time. -/
def connecting (initSegments : ℤ) : World lowestLevel :=
  ⟨DashClient.new smallTable initSegments (), 1000⟩

theorem reachable_connecting {initSegments : ℤ} (h : 1 ≤ initSegments) :
    (playback lowestLevel smallTable Fits).Reachable (connecting initSegments) :=
  .init ⟨⟨List.cons_ne_nil _ _, initSegments, (), .playerNotStarted, .inl rfl, rfl⟩, h,
    (by decide : (0 : ℤ) < 1000)⟩

/-- It connects, and receives both. -/
def receiveBoth : List Event :=
  [.socket false false true [], .socket false true false [2], .socket false true false [3]]

/-- Then both are played. -/
def playBoth : List Event := receiveBoth ++ [.playerAlarm, .playerAlarm]

theorem runRound_playBoth : ∃ c, runRound 1000 playBoth (connecting 1).client = .ok c ∧
    c.segmentCounter = 2 ∧ c.playerAlarm = none ∧ c.initSegments = 1 ∧
      c.playerState = .playerDone := ⟨_, rfl, rfl, rfl, rfl, rfl⟩

theorem done_iff_two_segments : ∃ w : World lowestLevel, w.client.segmentCounter = 2 ∧
    w.client.playerAlarm = none ∧ w.client.playerState = .playerDone ∧
      w.client.playbackIndex = 2 := by
  obtain ⟨c, hrun, hall, halarm, hinit, -⟩ := runRound_playBoth
  have hreach := reachable_fitsRound (fun _ _ => id) (reachable_connecting le_rfl)
    (by decide +kernel) hrun
  have hdone := (done_iff (n := 2) one_le_two (by decide) hreach hall halarm).2
    (by rw [hinit]; decide)
  exact ⟨⟨c, 1000⟩, hall, halarm, hdone⟩

/-- A player that starts with three segments does not start. -/
theorem never_done : ¬ ∀ w : World lowestLevel,
    (playback lowestLevel smallTable Fits).Reachable w → w.client.segmentCounter = 2 →
      w.client.playerAlarm = none →
        w.client.playerState = .playerDone ∧ w.client.playbackIndex = 2 := by
  intro h
  obtain ⟨c, hrun, hall, halarm, hplayed⟩ : ∃ c,
      runRound 1000 receiveBoth (connecting 3).client = .ok c ∧ c.segmentCounter = 2 ∧
        c.playerAlarm = none ∧ c.playbackIndex = 0 := ⟨_, rfl, rfl, rfl, rfl⟩
  have hreach := reachable_fitsRound (fun _ _ => id) (reachable_connecting (by decide))
    (by decide +kernel) hrun
  have hdone := (h ⟨c, 1000⟩ hreach hall halarm).2
  rw [hplayed] at hdone
  cases hdone

/-! ## A player that is done -/

/-- The player is done, and is not started by connecting. -/
def Done (c : DashClient alg) : Prop := c.playerState = .playerDone ∧ c.status ≠ .tcpConnecting

/-- The alarm of the player goes off, and the buffer is empty then, before the last segment
    is played. -/
def Restarts (c : DashClient alg) : Event → Prop
  | .playerAlarm => c.playerAlarm.isSome = true ∧
      ∃ row ∈ c.data.videoData.representation.head?,
        c.segmentsInBuffer = 0 ∧ c.playbackIndex < row.length ∨
          c.segmentsInBuffer = 1 ∧ (c.data.playedFrames + 1 : ℤ).tmod c.framesInSegment = 0 ∧
            c.playbackIndex + 1 < row.length
  | _ => False

namespace Done

variable {c c' : DashClient alg} {now : Time}

theorem close (h : Done c) : Done c.close := by
  rw [DashClient.close]
  split_ifs
  · exact ⟨h.1, fun hs => by cases hs⟩
  · exact h

theorem delayRequestHandle (h : Done c) : Done (c.delayRequestHandle now) := by
  rcases delayRequestHandle_cases now c with heq | ⟨-, heq⟩
  · rw [heq]
    exact h
  · rw [heq]
    exact h

theorem requestSegment (h : Done c) (hrequest : c.requestSegment now = .ok c') : Done c' := by
  obtain ⟨reply, algorithm, size, -, -, c₁, rfl, rfl | rfl⟩ := requestSegment_cases hrequest
  · exact h
  · exact delayRequestHandle h

theorem onData {nbytes : ℕ} {done : Bool} (h : Done c)
    (hdata : c.onData now nbytes = .ok (c', done)) : Done c' := by
  rw [DashClient.onData] at hdata
  split_ifs at hdata
  · have hchecked : Done (((c.countBytes now nbytes).recordSegment now).checkBufferStatus now) := by
      have hstate : ((c.countBytes now nbytes).recordSegment now).playerState = .playerDone := h.1
      rw [checkBufferStatus_eq_ite, hstate, if_neg]
      · exact h
      · rintro (⟨hstate, -⟩ | ⟨hstate, -⟩)
        · cases hstate
        · cases hstate
    rcases completeSegment_cases hdata with ⟨hrequest, -⟩ | ⟨rfl, -⟩
    · exact hchecked.requestSegment hrequest
    · exact close (c := { ((c.countBytes now nbytes).recordSegment now).checkBufferStatus now
        with registered := false }) hchecked
  · cases hdata
    exact h

theorem onReadLoop {reads : List ℕ} (h : Done c) (hloop : onReadLoop now reads c = .ok c') :
    Done c' := by
  induction reads generalizing c with
  | nil =>
    cases hloop
    exact h
  | cons nbytes reads ih =>
    cases nbytes with
    | zero =>
      rw [DashClient.onReadLoop] at hloop
      exact ih (c := { c with registered := false }) h hloop
    | succ nbytes =>
      rw [DashClient.onReadLoop] at hloop
      split at hloop
      · cases hloop
      · next hdata =>
        cases hloop
        exact h.onData hdata
      · next hdata => exact ih (h.onData hdata) hloop

theorem onEvent {error input output : Bool} {reads : List ℕ} (h : Done c)
    (hevent : c.onEvent now error input output reads = .ok c') : Done c' := by
  obtain ⟨c₀, hc₀, h₀⟩ : ∃ c₀ : DashClient alg, c₀ = (if error then
        ({ c with playerState := .playerDone, registered := false } : DashClient alg).close
        else c) ∧ Done c₀ := by
    refine ⟨_, rfl, ?_⟩
    split_ifs
    · exact close (c := { c with playerState := .playerDone, registered := false }) ⟨rfl, h.2⟩
    · exact h
  rw [DashClient.onEvent, ← hc₀] at hevent
  split at hevent
  · cases hevent
  · next c₁ hread =>
    have h₁ : Done c₁ := by
      split_ifs at hread
      · rw [onReadEvent] at hread
        split_ifs at hread
        · exact h₀.onReadLoop hread
        · cases hread
          exact h₀
      · cases hread
        exact h₀
    rw [if_neg fun hconnected => h₁.2 hconnected.2] at hevent
    cases hevent
    exact h₁

/-- Its alarm goes off. -/
theorem playBackHandle_iff (h : Done c) (hplayer : Player n c)
    (hplay : playBackHandle now { c with playerAlarm := none } = .ok c')
    (halarm : c.playerAlarm.isSome = true) :
    c'.playerState = .playerDone ↔ ¬Restarts c .playerAlarm := by
  obtain ⟨row, rows, hrows, -⟩ := hplayer.rows
  have hbuffered := hplayer.buffered
  have hrestarts : Restarts c .playerAlarm ↔
      c.segmentsInBuffer = 0 ∧ c.playbackIndex < row.length ∨
        c.segmentsInBuffer = 1 ∧ (c.data.playedFrames + 1 : ℤ).tmod c.framesInSegment = 0 ∧
          c.playbackIndex + 1 < row.length := by
    rw [Restarts, hrows, List.head?_cons]
    simp only [halarm, true_and, Option.mem_def, Option.some.injEq, exists_eq_left']
  rw [hrestarts]
  rw [playBackHandle] at hplay
  split at hplay
  · cases hplay
  · next c₁ hframe =>
    -- the state is the same, unless the buffer is empty
    have hafter : c₁.playerState = c.playerState → c₁.data.videoData = c.data.videoData →
        (c'.playerState = .playerDone ↔
          ¬(c₁.segmentsInBuffer = 0 ∧ c₁.playbackIndex < row.length)) := by
      intro hstate hvideo
      obtain ⟨-, hend, rfl⟩ | ⟨hempty, hlt, rfl⟩ | ⟨hpos, rfl⟩ | ⟨hneg, rfl⟩ :=
        afterFrame_cases (hvideo ▸ hrows) hplay
      · exact iff_of_true rfl fun hlt => absurd hlt.2 (not_lt.2 hend)
      · exact iff_of_false (fun hdone => by cases hdone) fun hnot => hnot ⟨hempty, hlt⟩
      · exact iff_of_true (hstate.trans h.1) fun hempty => by omega
      · exact iff_of_true (hstate.trans h.1) fun hempty => by omega
    rcases playFrame_cases hframe with ⟨hpos, hend, rfl⟩ | ⟨hpos, hend, rfl⟩ | ⟨hpos, rfl⟩
    · refine (hafter rfl rfl).trans (not_congr ?_)
      dsimp only at hpos hend ⊢
      constructor
      · rintro ⟨hempty, hlt⟩
        exact .inr ⟨by omega, hend, hlt⟩
      · rintro (⟨hempty, -⟩ | ⟨hone, -, hlt⟩)
        · omega
        · exact ⟨by omega, hlt⟩
    · refine (hafter rfl rfl).trans (not_congr ?_)
      dsimp only at hpos hend ⊢
      constructor
      · rintro ⟨hempty, -⟩
        omega
      · rintro (⟨hempty, -⟩ | ⟨-, hzero, -⟩)
        · omega
        · exact absurd hzero hend
    · refine (hafter rfl rfl).trans (not_congr ?_)
      dsimp only at hpos ⊢
      constructor
      · exact .inl
      · rintro (hempty | ⟨hone, -⟩)
        · exact hempty
        · omega

/-- An event leaves the player done, exactly if it does not restart it. -/
theorem handle_iff {e : Event} (h : Done c) (hplayer : Player n c)
    (hhandle : c.handle now e = .ok c') : c'.playerState = .playerDone ↔ ¬Restarts c e := by
  cases e with
  | socket error input output reads =>
    refine iff_of_true ?_ id
    rw [handle] at hhandle
    split_ifs at hhandle
    · exact (h.onEvent hhandle).1
    · cases hhandle
      exact h.1
  | requestAlarm =>
    refine iff_of_true ?_ id
    rw [handle] at hhandle
    split_ifs at hhandle
    · cases hhandle
      exact (delayRequestHandle (c := { c with requestAlarm := none }) h).1
    · cases hhandle
      exact h.1
  | playerAlarm =>
    rw [handle] at hhandle
    split_ifs at hhandle with halarm
    · exact h.playBackHandle_iff hplayer hhandle halarm
    · cases hhandle
      exact iff_of_true h.1 fun hrestarts => halarm hrestarts.1

end Done

theorem Player.done {c : DashClient alg} (h : Player n c) (hdone : c.playerState = .playerDone) :
    Done c := by
  have hstage := h.stage
  rw [Stage, hdone] at hstage
  exact ⟨hdone, hstage.1⟩

/-- A player that is done stays so in every run that does not restart it, and an event takes
    it out of this state exactly if it does. -/
theorem done_absorbing (hrows : ∀ row ∈ videoData.representation, row.length = n)
    (h : (playback alg videoData Fits).Reachable w) (hdone : w.client.playerState = .playerDone) :
    (∀ w', Relation.ReflTransGen (Step (fun c e => Fits c e ∧ ¬Restarts c e) fun _ now => 0 < now)
        w w' → w'.client.playerState = .playerDone) ∧
      ∀ e c', w.client.handle w.now e = .ok c' →
        (c'.playerState = .playerDone ↔ ¬Restarts w.client e) := by
  have hplayer := player_reachable (fun _ _ => id) hrows h
  refine ⟨fun w' hsteps => ?_,
    fun e c' hhandle => (hplayer.1.done hdone).handle_iff hplayer.1 hhandle⟩
  suffices hkept : (Player n w'.client ∧ 0 < w'.now) ∧ w'.client.playerState = .playerDone from
    hkept.2
  induction hsteps with
  | refl => exact ⟨hplayer, hdone⟩
  | tail _ hstep ih =>
    obtain ⟨⟨hplayer, hnow⟩, hdone⟩ := ih
    cases hstep with
    | handle e client hallow hhandle =>
      exact ⟨⟨hplayer.handle hnow hallow.1 hhandle, hnow⟩,
        ((hplayer.done hdone).handle_iff hplayer hhandle).2 hallow.2⟩
    | round now hclock => exact ⟨⟨hplayer, hclock⟩, hdone⟩

theorem done_absorbing_request : ∃ w : World lowestLevel, w.client.playerState = .playerDone ∧
    ∀ c', w.client.handle w.now .requestAlarm = .ok c' → c'.playerState = .playerDone := by
  obtain ⟨c, hrun, -, -, -, hdone⟩ := runRound_playBoth
  have hreach := reachable_fitsRound (fun _ _ => id) (reachable_connecting le_rfl)
    (by decide +kernel) hrun
  refine ⟨⟨c, 1000⟩, hdone, fun c' hhandle => ?_⟩
  exact ((done_absorbing (n := 2) (by decide) hreach hdone).2 .requestAlarm c' hhandle).2 id

/-- After an error, the alarm that is set plays the segment that is buffered, and then the
    player is paused. -/
theorem done_lost : ¬ ∀ (w : World lowestLevel) (e : Event) (c' : DashClient lowestLevel),
    (playback lowestLevel smallTable Fits).Reachable w → w.client.playerState = .playerDone →
      w.client.handle w.now e = .ok c' → c'.playerState = .playerDone := by
  intro h
  obtain ⟨c, hrun, hdone, c', hhandle, hpaused⟩ : ∃ c, runRound 1000 [.socket false false true [],
      .socket false true false [2], .socket true false false []] (connecting 1).client = .ok c ∧
      c.playerState = .playerDone ∧ ∃ c', c.handle 1000 .playerAlarm = .ok c' ∧
        c'.playerState = .playerPaused := ⟨_, rfl, rfl, _, rfl, rfl⟩
  have hreach := reachable_fitsRound (fun _ _ => id) (reachable_connecting le_rfl)
    (by decide +kernel) hrun
  have hstays := h ⟨c, 1000⟩ .playerAlarm c' hreach hdone hhandle
  rw [hpaused] at hstays
  cases hstays

end DashClient

end DashDim
