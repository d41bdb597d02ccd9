import DashDim.Dash.Predicator
import DashDim.Dash.Segments

/-!
# The duration of downloads

The client notes the time of a round when it reads the first bytes of a segment, and
when it reads the last. If both are read in one round, the download took no time, and
the algorithms fail the check of their predicator, or divide by zero.

An event is timely (`Timely`) if it completes a segment only whose first bytes were read
at least a millisecond before, and none after it; and if no bytes are read before the
client is connected.

* `Noted.handle`: a step keeps what is recorded measured exactly if it is timely;
* `measuredDownloads_iff`: in runs of timely steps, for every segment recorded there is at
  least a millisecond between the two times, and the algorithms neither fail nor divide by
  zero; and a further step keeps this exactly if it is timely.

The invariant (`Noted`) is that as many segments have started as have ended, and one more
if bytes of it were read. It holds for any table, whatever arrives.
-/

namespace DashDim

/-- A history of a client, as an algorithm was shown it: a part of the arrays the
    client has now. -/
structure Shown (throughput history : ThroughputData) : Prop where
  aligned : Aligned history
  start : history.transmissionStart <+: throughput.transmissionStart
  stop : history.transmissionEnd <+: throughput.transmissionEnd

/-- A part of arrays that are measured is. -/
theorem Measured.of_prefix {throughput history : ThroughputData} (hm : Measured throughput)
    (hstart : history.transmissionStart <+: throughput.transmissionStart)
    (hstop : history.transmissionEnd <+: throughput.transmissionEnd) : Measured history := by
  intro i start stop hi hi'
  obtain ⟨starts, heq⟩ := hstart
  obtain ⟨stops, heq'⟩ := hstop
  refine hm i start stop ?_ ?_
  · rw [← heq, List.getElem?_append_left (List.getElem?_eq_some_iff.1 hi).1, hi]
  · rw [← heq', List.getElem?_append_left (List.getElem?_eq_some_iff.1 hi').1, hi']

namespace DashClient

variable {alg : AdaptationAlgorithm}

/-- Every segment recorded took at least a millisecond; and, whenever the algorithm was
    called, its predicator neither failed nor divided by zero, and the download time
    the others divide by was not zero. -/
structure MeasuredDownloads (c : DashClient alg) : Prop where
  recorded : Measured c.data.throughput
  predict : ∀ history ∈ c.ghost.histories, ∀ horizon : ℤ, 1 ≤ horizon →
    history.transmissionStart ≠ [] → ∃ (sum : ℤ) (temp : ℚ), temp ≠ 0 ∧
      predictLoop history (window history horizon) 0 (ofInt 0) = some (sum, temp) ∧
      DashDim.predict history horizon = some (ofInt 1 * ofInt 1000 * ofInt sum / temp)
  downloadTime : ∀ history ∈ c.ghost.histories, history.transmissionStart ≠ [] →
    ∃ ms, lastDownloadTime history = some ms ∧ ms ≠ 0

/-! ## What the arrays record -/

/-- The arrays, whatever the socket does. -/
structure Log (c : DashClient alg) : Prop where
  bytes_length : c.data.throughput.bytesReceived.length = c.data.throughput.transmissionEnd.length
  bytes_pos : ∀ bytes ∈ c.data.throughput.bytesReceived, 0 < bytes
  measured : Measured c.data.throughput
  histories : ∀ history ∈ c.ghost.histories, Shown c.data.throughput history

/-- As many segments have started as ended. -/
def Complete (c : DashClient alg) : Prop :=
  c.data.throughput.transmissionStart.length = c.data.throughput.transmissionEnd.length

/-- While the socket is open, one more segment has started than ended, if bytes of it were
    read. A client that connects has asked for nothing. -/
structure Noted (c : DashClient alg) : Prop extends Log c where
  start_length : c.fdOpen = true → c.data.throughput.transmissionStart.length =
    c.data.throughput.transmissionEnd.length + if c.readBytes = 0 then 0 else 1
  connecting : c.status = .tcpConnecting →
    c.fdOpen = true ∧ c.segmentBytes = 0 ∧ c.data.throughput.transmissionEnd = []

/-- The times that are recorded stay so. -/
structure Extends (c c' : DashClient alg) : Prop where
  start : c.data.throughput.transmissionStart <+: c'.data.throughput.transmissionStart
  stop : c.data.throughput.transmissionEnd <+: c'.data.throughput.transmissionEnd

theorem Extends.refl (c : DashClient alg) : Extends c c := ⟨List.prefix_rfl, List.prefix_rfl⟩

theorem Extends.of_eq {c c' : DashClient alg}
    (hstart : c'.data.throughput.transmissionStart = c.data.throughput.transmissionStart)
    (hstop : c'.data.throughput.transmissionEnd = c.data.throughput.transmissionEnd) :
    Extends c c' :=
  ⟨⟨[], by rw [List.append_nil, hstart]⟩, ⟨[], by rw [List.append_nil, hstop]⟩⟩

theorem Extends.trans {c c' c'' : DashClient alg} (h : Extends c c') (h' : Extends c' c'') :
    Extends c c'' := ⟨h.start.trans h'.start, h.stop.trans h'.stop⟩

/-- What was measured later was so before. -/
theorem Extends.measured {c c' : DashClient alg} (h : Extends c c')
    (hm : Measured c'.data.throughput) : Measured c.data.throughput :=
  hm.of_prefix h.start h.stop

/-- A start without an end does not count. -/
theorem measured_start {throughput : ThroughputData}
    (h : throughput.transmissionStart.length = throughput.transmissionEnd.length) (now : Time) :
    Measured { throughput with
      transmissionStart := throughput.transmissionStart ++ [now] } ↔ Measured throughput := by
  rw [measured_iff_zip, measured_iff_zip]
  dsimp only
  rw [← List.append_nil throughput.transmissionEnd, List.zip_append h, List.append_nil]
  simp

/-- An end counts with the last start. -/
theorem measured_end {throughput : ThroughputData} {first : Time}
    (hlast : throughput.transmissionStart.getLast? = some first)
    (h : throughput.transmissionStart.length = throughput.transmissionEnd.length + 1)
    (now : Time) (bytes : List ℕ) :
    Measured { throughput with
      transmissionEnd := throughput.transmissionEnd ++ [now], bytesReceived := bytes } ↔
    Measured throughput ∧ 1000 ≤ now - first := by
  obtain ⟨starts, hstarts⟩ := List.getLast?_eq_some_iff.1 hlast
  have hlen : starts.length = throughput.transmissionEnd.length := by
    rw [hstarts, List.length_append] at h
    exact Nat.succ.inj h
  rw [measured_iff_zip, measured_iff_zip]
  dsimp only
  rw [hstarts, List.zip_append hlen]
  nth_rewrite 2 [← List.append_nil throughput.transmissionEnd]
  rw [List.zip_append hlen]
  simp [or_imp, forall_and]

theorem Noted.countBytes {c : DashClient alg} {nbytes : ℕ} (hn : Noted c)
    (hfd : c.fdOpen = true) (hpos : 0 < nbytes) (hfit : c.readBytes.toNat + nbytes < 2 ^ 64)
    (now : Time) : Noted (c.countBytes now nbytes) ∧ (c.countBytes now nbytes).readBytes ≠ 0 := by
  have hread := countBytes_readBytes hfit now
  have hne : (c.countBytes now nbytes).readBytes ≠ 0 := by
    intro hzero
    rw [hzero] at hread
    have h0 : (0 : UInt64).toNat = 0 := rfl
    omega
  refine ⟨?_, hne⟩
  have hlength := hn.start_length hfd
  rw [DashClient.countBytes] at hne ⊢
  by_cases hzero : c.readBytes = 0
  · rw [if_pos hzero] at hlength hne ⊢
    have hcomplete := hlength.trans (Nat.add_zero _)
    refine ⟨⟨hn.bytes_length, hn.bytes_pos, (measured_start hcomplete now).2 hn.measured,
      fun history hh => ?_⟩, fun _ => ?_, hn.connecting⟩
    · have hshown := hn.histories history hh
      exact ⟨hshown.aligned, hshown.start.trans (List.prefix_append _ _), hshown.stop⟩
    · dsimp only at hne ⊢
      rw [if_neg hne, List.length_append, hcomplete]
      rfl
  · rw [if_neg hzero] at hlength hne ⊢
    refine ⟨⟨hn.bytes_length, hn.bytes_pos, hn.measured, hn.histories⟩, fun _ => ?_,
      hn.connecting⟩
    dsimp only at hne ⊢
    rw [if_neg hne, hlength]

/-- A segment that is complete is recorded with its times. -/
theorem Log.recordSegment {c : DashClient alg} {first : Time} (hl : Log c)
    (hlength : c.data.throughput.transmissionStart.length =
      c.data.throughput.transmissionEnd.length + 1)
    (hfirst : c.data.throughput.transmissionStart.getLast? = some first)
    (hpos : 0 < c.readBytes.toNat) {now : Time} (htime : 1000 ≤ now - first) :
    Log (c.recordSegment now) ∧ Complete (c.recordSegment now) := by
  refine ⟨⟨?_, ?_, ?_, fun history hh => ?_⟩, ?_⟩
  · simp [DashClient.recordSegment, hl.bytes_length]
  · intro bytes hbytes
    rcases List.mem_append.1 hbytes with hbytes | hbytes
    · exact hl.bytes_pos bytes hbytes
    · rw [List.mem_singleton.1 hbytes]
      exact hpos
  · exact (measured_end hfirst hlength now _).2 ⟨hl.measured, htime⟩
  · have hshown := hl.histories history hh
    exact ⟨hshown.aligned, hshown.start, hshown.stop.trans (List.prefix_append _ _)⟩
  · rw [Complete, DashClient.recordSegment]
    simp [hlength]

theorem Log.delayRequestHandle {c : DashClient alg} (hl : Log c) (now : Time) :
    Log (c.delayRequestHandle now) := by
  rcases delayRequestHandle_cases now c with heq | ⟨-, heq⟩
  · rw [heq]
    exact hl
  · rw [heq]
    exact ⟨hl.bytes_length, hl.bytes_pos, hl.measured, fun history hh =>
      ⟨(hl.histories history hh).aligned, (hl.histories history hh).start,
        (hl.histories history hh).stop⟩⟩

/-- Choosing the next segment records nothing, and waits for its first bytes. -/
theorem requestSegment_waits {now : Time} {c c' : DashClient alg}
    (h : c.requestSegment now = .ok c') :
    c'.data.throughput.transmissionStart = c.data.throughput.transmissionStart ∧
      c'.data.throughput.transmissionEnd = c.data.throughput.transmissionEnd ∧
      c'.data.throughput.bytesReceived = c.data.throughput.bytesReceived ∧
      c'.ghost.histories = c.ghost.histories ++ [c.data.throughput] ∧
      c'.readBytes = 0 ∧ c'.status = c.status := by
  obtain ⟨reply, algorithm, size, -, -, c₁, rfl, hor⟩ := requestSegment_cases h
  rcases hor with rfl | rfl
  · exact ⟨rfl, rfl, rfl, rfl, rfl, rfl⟩
  · rcases delayRequestHandle_cases now _ with heq | ⟨-, heq⟩ <;> rw [heq] <;>
      exact ⟨rfl, rfl, rfl, rfl, rfl, rfl⟩

/-- The next segment is chosen, and the algorithm is shown what is recorded. -/
theorem Log.requestSegment {now : Time} {c c' : DashClient alg} (hl : Log c) (hc : Complete c)
    (hstatus : c.status ≠ .tcpConnecting) (h : c.requestSegment now = .ok c') : Noted c' := by
  obtain ⟨hstart, hstop, hbytes, hhistories, hread, hstatus'⟩ := requestSegment_waits h
  refine ⟨⟨?_, ?_, ?_, fun history hh => ?_⟩, fun _ => ?_, fun hconn => ?_⟩
  · rw [hbytes, hstop, hl.bytes_length]
  · rw [hbytes]
    exact hl.bytes_pos
  · exact (Extends.of_eq hstart.symm hstop.symm).measured hl.measured
  · rw [hhistories] at hh
    rcases List.mem_append.1 hh with hh | hh
    · have hshown := hl.histories history hh
      exact ⟨hshown.aligned, hstart ▸ hshown.start, hstop ▸ hshown.stop⟩
    · rw [List.mem_singleton.1 hh]
      obtain ⟨hstart', hstop'⟩ := Extends.of_eq hstart hstop
      exact ⟨⟨hc.symm, hl.bytes_length.trans hc.symm, hl.bytes_pos⟩, hstart', hstop'⟩
  · rw [hstart, hstop, if_pos hread, hc, Nat.add_zero]
  · rw [hstatus'] at hconn
    exact absurd hconn hstatus

/-! ## Reading -/

/-- The last start that is recorded is at least a millisecond ago, and of the segment that is
    being read. -/
def StartedBefore (now : Time) (c : DashClient alg) : Prop :=
  c.readBytes ≠ 0 ∧ ∀ first ∈ c.data.throughput.transmissionStart.getLast?, 1000 ≤ now - first

/-- A start that is recorded now is not. -/
theorem startedBefore_countBytes_iff {now : Time} {nbytes : ℕ} {c : DashClient alg}
    (hne : (c.countBytes now nbytes).readBytes ≠ 0) :
    StartedBefore now (c.countBytes now nbytes) ↔ StartedBefore now c := by
  rw [StartedBefore, StartedBefore, and_iff_right hne, DashClient.countBytes]
  by_cases hzero : c.readBytes = 0
  · rw [if_pos hzero]
    refine iff_of_false (fun h => ?_) fun h => h.1 hzero
    have hnow := h now (by simp)
    rw [sub_self] at hnow
    exact absurd hnow (by decide)
  · rw [if_neg hzero, and_iff_right hzero]

/-- What is recorded of a segment that is complete extends what was. -/
theorem extends_recordSegment (now : Time) (c : DashClient alg) :
    Extends c ((c.recordSegment now).checkBufferStatus now) := by
  obtain ⟨ps, pa, hcheck⟩ := checkBufferStatus_eq now (c.recordSegment now)
  rw [hcheck]
  exact ⟨List.prefix_rfl, List.prefix_append _ _⟩

theorem extends_countBytes (now : Time) (nbytes : ℕ) (c : DashClient alg) :
    Extends c (c.countBytes now nbytes) := by
  rw [DashClient.countBytes]
  split_ifs
  · exact ⟨List.prefix_append _ _, List.prefix_rfl⟩
  · exact ⟨List.prefix_rfl, List.prefix_rfl⟩

theorem extends_close (c : DashClient alg) : Extends c c.close := by
  rw [close]
  split_ifs <;> exact ⟨List.prefix_rfl, List.prefix_rfl⟩

theorem extends_requestNext {now : Time} {c c' : DashClient alg}
    (h : c.requestNext now = .ok c') :
    Extends ((c.recordSegment now).checkBufferStatus now) c' := by
  obtain ⟨hstart, hstop, -⟩ := requestSegment_waits h
  exact .of_eq hstart hstop

/-- Reading only adds to what is recorded. -/
theorem extends_onReadLoop {now : Time} {reads : List ℕ} {c c' : DashClient alg}
    (h : onReadLoop now reads c = .ok c') : Extends c c' := by
  induction reads generalizing c with
  | nil =>
    cases h
    exact .refl _
  | cons n reads ih =>
    cases n with
    | zero =>
      obtain ⟨hstart, hstop⟩ := ih (c := { c with registered := false }) h
      exact ⟨hstart, hstop⟩
    | succ n =>
      rw [onReadLoop, onData_eq] at h
      refine (extends_countBytes now (n + 1) c).trans ?_
      split_ifs at h
      · cases h
        obtain ⟨hstart, hstop⟩ := extends_recordSegment now (c.countBytes now (n + 1))
        have hclose := extends_close ({ ((c.countBytes now (n + 1)).recordSegment
          now).checkBufferStatus now with registered := false } : DashClient alg)
        exact ⟨hstart.trans hclose.start, hstop.trans hclose.stop⟩
      · cases hnext : (c.countBytes now (n + 1)).requestNext now with
        | error e =>
          rw [hnext] at h
          cases h
        | ok c₂ =>
          rw [hnext] at h
          exact (extends_recordSegment now _).trans ((extends_requestNext hnext).trans (ih h))
      · exact ih h

theorem Log.checkBufferStatus {c : DashClient alg} (hl : Log c) (hc : Complete c) (now : Time) :
    Log (c.checkBufferStatus now) ∧ Complete (c.checkBufferStatus now) := by
  obtain ⟨ps, pa, hcheck⟩ := checkBufferStatus_eq now c
  rw [hcheck]
  exact ⟨⟨hl.bytes_length, hl.bytes_pos, hl.measured, hl.histories⟩, hc⟩

/-- A segment that is complete is measured exactly if it has started before. -/
theorem Noted.recordSegment {c : DashClient alg} (hn : Noted c) (hfd : c.fdOpen = true)
    (hne : c.readBytes ≠ 0) (now : Time) :
    (StartedBefore now c → Log ((c.recordSegment now).checkBufferStatus now) ∧
      Complete ((c.recordSegment now).checkBufferStatus now)) ∧
    (Measured ((c.recordSegment now).checkBufferStatus now).data.throughput →
      StartedBefore now c) := by
  have hlength := hn.start_length hfd
  rw [if_neg hne] at hlength
  obtain ⟨first, hfirst⟩ : ∃ first, c.data.throughput.transmissionStart.getLast? = some first := by
    refine Option.ne_none_iff_exists'.1 fun hnone => ?_
    rw [List.getLast?_eq_none_iff.1 hnone] at hlength
    exact absurd hlength (Nat.succ_ne_zero _).symm
  constructor
  · rintro ⟨-, htime⟩
    have hpos : 0 < c.readBytes.toNat :=
      Nat.pos_of_ne_zero fun hzero => hne (UInt64.toNat_inj.1 hzero)
    obtain ⟨hl, hc⟩ := hn.toLog.recordSegment hlength hfirst hpos (htime first hfirst)
    exact hl.checkBufferStatus hc now
  · intro hm
    obtain ⟨ps, pa, hcheck⟩ := checkBufferStatus_eq now (c.recordSegment now)
    rw [hcheck] at hm
    have htime := ((measured_end hfirst hlength now _).1 hm).2
    refine ⟨hne, fun first' hfirst' => ?_⟩
    cases hfirst.symm.trans hfirst'
    exact htime

/-- A closed client does not read any more. -/
theorem Log.close {c : DashClient alg} (hl : Log c) (hstatus : c.status ≠ .tcpConnecting) :
    Noted c.close := by
  rw [DashClient.close]
  split_ifs with hfd
  · exact ⟨{ hl with }, fun h => absurd h Bool.false_ne_true, fun h => by cases h⟩
  · exact ⟨hl, fun h => absurd h hfd, fun h => absurd h hstatus⟩

/-- The last segment: the socket is closed. -/
theorem Noted.recordLast {c : DashClient alg} (hn : Noted c) (hfd : c.fdOpen = true)
    (hne : c.readBytes ≠ 0) (hstatus : c.status ≠ .tcpConnecting) (now : Time) :
    (StartedBefore now c → Noted ({ (c.recordSegment now).checkBufferStatus now with
      registered := false } : DashClient alg).close) ∧
    (Measured ({ (c.recordSegment now).checkBufferStatus now with
      registered := false } : DashClient alg).close.data.throughput → StartedBefore now c) := by
  obtain ⟨hkeeps, hbefore⟩ := hn.recordSegment hfd hne now
  obtain ⟨ps, pa, hcheck⟩ := checkBufferStatus_eq now (c.recordSegment now)
  have hstatus' : ((c.recordSegment now).checkBufferStatus now).status ≠ .tcpConnecting := by
    rw [hcheck]
    exact hstatus
  refine ⟨fun hstarted => Log.close { (hkeeps hstarted).1 with } hstatus', fun hm => hbefore ?_⟩
  exact (extends_close ({ (c.recordSegment now).checkBufferStatus now with
    registered := false } : DashClient alg)).measured hm

/-- Another segment: the next one is asked for, and has not started. -/
theorem Noted.recordNext {now : Time} {c c' : DashClient alg} (hn : Noted c)
    (hfd : c.fdOpen = true) (hne : c.readBytes ≠ 0) (hstatus : c.status ≠ .tcpConnecting)
    (h : c.requestNext now = .ok c') :
    c'.readBytes = 0 ∧ c'.fdOpen = true ∧ (StartedBefore now c → Noted c') ∧
      (Measured c'.data.throughput → StartedBefore now c) := by
  obtain ⟨hkeeps, hbefore⟩ := hn.recordSegment hfd hne now
  obtain ⟨ps, pa, hcheck⟩ := checkBufferStatus_eq now (c.recordSegment now)
  have hstatus' : ((c.recordSegment now).checkBufferStatus now).status ≠ .tcpConnecting := by
    rw [hcheck]
    exact hstatus
  refine ⟨(requestSegment_waits h).2.2.2.2.1, ?_, fun hstarted => ?_, fun hm => ?_⟩
  · rw [(requestSegment_frame h).2, hcheck]
    exact hfd
  · exact (hkeeps hstarted).1.requestSegment (hkeeps hstarted).2 hstatus' h
  · exact hbefore ((extends_requestNext h).measured hm)

/-- The reads of an event are timely: they complete one segment at most, and only one that has
    started before. -/
def TimelyReads (now : Time) (reads : List ℕ) (c : DashClient alg) : Prop :=
  (finished now reads c).length ≤ 1 ∧ (finished now reads c ≠ [] → StartedBefore now c)

/-- Reading keeps what is recorded measured exactly if the reads are timely. -/
theorem Noted.onReadLoop {now : Time} {reads : List ℕ} {c c' : DashClient alg} (hn : Noted c)
    (hfd : c.fdOpen = true) (hfit : c.readBytes.toNat + reads.sum < 2 ^ 64)
    (h : onReadLoop now reads c = .ok c') :
    (TimelyReads now reads c → Noted c') ∧
      (Measured c'.data.throughput → TimelyReads now reads c) := by
  induction reads generalizing c with
  | nil =>
    cases h
    exact ⟨fun _ => hn, fun _ => ⟨Nat.zero_le 1, fun hne => absurd rfl hne⟩⟩
  | cons n reads ih =>
    rw [List.sum_cons] at hfit
    cases n with
    | zero =>
      exact ih (c := { c with registered := false })
        ⟨{ hn.toLog with }, hn.start_length, hn.connecting⟩ hfd (by dsimp only; omega) h
    | succ n =>
      obtain ⟨hn₁, hne₁⟩ := hn.countBytes hfd (Nat.succ_pos n) (by omega) now
      have hread₁ : (c.countBytes now (n + 1)).readBytes.toNat = c.readBytes.toNat + (n + 1) :=
        countBytes_readBytes (by omega) now
      have hstarted : StartedBefore now (c.countBytes now (n + 1)) ↔ StartedBefore now c :=
        startedBefore_countBytes_iff hne₁
      have hfd₁ : (c.countBytes now (n + 1)).fdOpen = true := hfd
      rw [DashClient.onReadLoop, onData_eq] at h
      rw [TimelyReads, finished]
      generalize c.countBytes now (n + 1) = c₁ at *
      rw [← hstarted]
      by_cases hcomplete : c₁.readBytes = c₁.segmentBytes
      · -- a client that connects asks for nothing, and so completes nothing
        have hstatus : c₁.status ≠ .tcpConnecting := fun hconn =>
          hne₁ (hcomplete.trans (hn₁.connecting hconn).2.1)
        rw [if_pos hcomplete] at h ⊢
        by_cases hlast : c₁.Last
        · rw [if_pos hlast] at h ⊢
          cases h
          obtain ⟨hkeeps, hbefore⟩ := hn₁.recordLast hfd₁ hne₁ hstatus now
          exact ⟨fun htimely => hkeeps (htimely.2 (List.cons_ne_nil _ _)),
            fun hm => ⟨le_rfl, fun _ => hbefore hm⟩⟩
        · rw [if_neg hlast] at h ⊢
          cases hnext : c₁.requestNext now with
          | error e =>
            rw [hnext] at h
            cases h
          | ok c₂ =>
            rw [hnext] at h
            dsimp only
            obtain ⟨hzero, hfd₂, hkeeps, hbefore⟩ := hn₁.recordNext hfd₁ hne₁ hstatus hnext
            have hfit₂ : c₂.readBytes.toNat + reads.sum < 2 ^ 64 := by
              rw [hzero]
              change 0 + _ < _
              omega
            refine ⟨?_, fun hm => ?_⟩
            · rintro ⟨hone, htimely⟩
              have hnil : finished now reads c₂ = [] :=
                List.length_eq_zero_iff.1 (Nat.le_zero.1 (Nat.succ_le_succ_iff.1 hone))
              refine (ih (hkeeps (htimely (List.cons_ne_nil _ _))) hfd₂ hfit₂ h).1 ?_
              exact ⟨by rw [hnil]; exact Nat.zero_le 1, fun hne => absurd hnil hne⟩
            · have hstarted₁ := hbefore ((extends_onReadLoop h).measured hm)
              have htimely₂ := (ih (hkeeps hstarted₁) hfd₂ hfit₂ h).2 hm
              have hnil : finished now reads c₂ = [] := by
                by_contra hne
                exact (htimely₂.2 hne).1 hzero
              rw [hnil]
              exact ⟨le_rfl, fun _ => hstarted₁⟩
      · rw [if_neg hcomplete] at h ⊢
        exact ih hn₁ hfd₁ (by omega) h

/-- Reads that complete no segment are counted. -/
theorem onReadLoop_of_finished {now : Time} {reads : List ℕ} {c c' : DashClient alg}
    (hnil : finished now reads c = []) (hfit : c.readBytes.toNat + reads.sum < 2 ^ 64)
    (h : onReadLoop now reads c = .ok c') :
    c'.readBytes.toNat = c.readBytes.toNat + reads.sum ∧ c'.status = c.status := by
  induction reads generalizing c with
  | nil =>
    cases h
    exact ⟨rfl, rfl⟩
  | cons n reads ih =>
    rw [List.sum_cons] at hfit ⊢
    cases n with
    | zero =>
      rw [Nat.zero_add] at hfit ⊢
      exact ih (c := { c with registered := false }) hnil hfit h
    | succ n =>
      have hread : (c.countBytes now (n + 1)).readBytes.toNat = c.readBytes.toNat + (n + 1) :=
        countBytes_readBytes (by omega) now
      rw [onReadLoop, onData_eq] at h
      rw [finished] at hnil
      split_ifs at h hnil
      obtain ⟨hsum, hstatus⟩ := ih hnil (by omega) h
      exact ⟨by omega, hstatus⟩

/-- A client that still connects after its reads did so before. -/
theorem onReadLoop_status {now : Time} {reads : List ℕ} {c c' : DashClient alg}
    (h : onReadLoop now reads c = .ok c') (hconn : c'.status = .tcpConnecting) :
    c.status = .tcpConnecting := by
  induction reads generalizing c with
  | nil =>
    cases h
    exact hconn
  | cons n reads ih =>
    cases n with
    | zero => exact ih (c := { c with registered := false }) h
    | succ n =>
      rw [onReadLoop, onData_eq] at h
      obtain ⟨ps, pa, hcheck⟩ :=
        checkBufferStatus_eq now ((c.countBytes now (n + 1)).recordSegment now)
      split_ifs at h
      · cases h
        rw [hcheck, close] at hconn
        split_ifs at hconn
        exact hconn
      · cases hnext : (c.countBytes now (n + 1)).requestNext now with
        | error e =>
          rw [hnext] at h
          cases h
        | ok c₂ =>
          rw [hnext] at h
          have hstatus := ih h
          rw [(requestSegment_waits hnext).2.2.2.2.2, hcheck] at hstatus
          exact hstatus
      · exact ih (c := c.countBytes now (n + 1)) h

/-! ## Handlers -/

/-- An event is timely: its reads are, and if it connects the client, no bytes were read
    before. -/
def Timely (now : Time) (c : DashClient alg) : Event → Prop
  | .socket error input output reads => c.registered = true → error = false →
    (input = true → c.fdOpen = true → TimelyReads now reads c) ∧
      (output = true → c.status = .tcpConnecting →
        c.readBytes = 0 ∧ (input = true → reads.sum = 0))
  | _ => True

/-- Closing the socket. -/
theorem Noted.close {c : DashClient alg} (hn : Noted c) :
    Noted c.close ∧ c.close.fdOpen = false ∧ c.close.status ≠ .tcpConnecting := by
  rw [DashClient.close]
  split_ifs with hfd
  · refine ⟨⟨{ hn.toLog with }, fun h => absurd h Bool.false_ne_true, fun h => by cases h⟩, rfl, ?_⟩
    intro h
    cases h
  · exact ⟨hn, by simpa using hfd, fun hconn => hfd (hn.connecting hconn).1⟩

/-- Without a segment that has ended, the predicator fails once one has started. -/
theorem MeasuredDownloads.start_eq_nil {c : DashClient alg} {history : ThroughputData}
    (hm : MeasuredDownloads c) (hh : history ∈ c.ghost.histories)
    (hstop : history.transmissionEnd = []) : history.transmissionStart = [] := by
  by_contra hne
  obtain ⟨ms, hms, -⟩ := hm.downloadTime history hh hne
  rw [lastDownloadTime, hstop] at hms
  cases hstart : history.transmissionStart.getLast? <;> rw [hstart] at hms <;> cases hms

/-- A client that gets connected shows no start of a segment exactly if it has read nothing. -/
theorem Noted.onConnected {now : Time} {c c' : DashClient alg} (hn : Noted c)
    (hstatus : c.status = .tcpConnecting)
    (h : onConnected now { c with status := .tcpConnected } = .ok c') :
    (c.readBytes = 0 → Noted c') ∧ (MeasuredDownloads c' → c.readBytes = 0) ∧
      Extends c c' := by
  rw [DashClient.onConnected] at h
  obtain ⟨hfd, -, hstop⟩ := hn.connecting hstatus
  have hlength := hn.start_length hfd
  obtain ⟨hstart', hstop', -, hhistories, -⟩ := requestSegment_waits h
  refine ⟨fun hzero => ?_, fun hm => ?_, .of_eq hstart' hstop'⟩
  · have hlog : Log ({ c with
        status := .tcpConnected, playerState := .playerInitBuffering, playerAlarm := none
        requestAlarm := none } : DashClient alg) := { hn.toLog with }
    rw [if_pos hzero, Nat.add_zero] at hlength
    exact hlog.requestSegment hlength (fun h => by cases h) h
  · have hnil : c.data.throughput.transmissionStart = [] := hm.start_eq_nil
      (by rw [hhistories]; exact List.mem_append_right _ (List.mem_singleton_self _)) hstop
    by_contra hne
    rw [if_neg hne, hnil] at hlength
    exact absurd hlength (Nat.succ_ne_zero _).symm

/-- What an event reads keeps what is recorded measured exactly if it is timely, and reading
    while it connects only counts bytes. -/
theorem Noted.onReadEvent {now : Time} {input : Bool} {reads : List ℕ} {c c' : DashClient alg}
    (hn : Noted c) (hfit : c.readBytes.toNat + reads.sum < 2 ^ 64)
    (h : (if input = true then c.onReadEvent now reads else .ok c) = .ok c') :
    ((input = true → c.fdOpen = true → TimelyReads now reads c) → Noted c') ∧
    (Measured c'.data.throughput → input = true → c.fdOpen = true → TimelyReads now reads c) ∧
    (c'.status = .tcpConnecting → c.status = .tcpConnecting) ∧
    (c.status = .tcpConnecting → c'.status = .tcpConnecting ∧ Noted c' ∧
      (c'.readBytes = 0 ↔ c.readBytes = 0 ∧ (input = true → reads.sum = 0))) := by
  cases input with
  | false =>
    cases h
    refine ⟨fun _ => hn, fun _ hfalse => absurd hfalse Bool.false_ne_true, id, fun hconn =>
      ⟨hconn, hn, ?_⟩⟩
    simp
  | true =>
    rw [if_pos rfl, DashClient.onReadEvent] at h
    by_cases hfd : c.fdOpen = true
    · rw [if_pos hfd] at h
      obtain ⟨hkeeps, hbefore⟩ := hn.onReadLoop hfd hfit h
      refine ⟨fun htimely => hkeeps (htimely rfl hfd), fun hm _ _ => hbefore hm,
        onReadLoop_status h, fun hconn => ?_⟩
      have hnil : finished now reads c = [] := by
        by_contra hne
        obtain ⟨before, nbytes, after, -, hsum⟩ := (finished_ne_nil_iff hfit).1 hne
        rw [(hn.connecting hconn).2.1] at hsum
        have h0 : (0 : UInt64).toNat = 0 := rfl
        omega
      obtain ⟨hread, hstatus⟩ := onReadLoop_of_finished hnil hfit h
      refine ⟨hstatus.trans hconn, hkeeps ⟨by rw [hnil]; exact Nat.zero_le 1,
        fun hne => absurd hnil hne⟩, ?_⟩
      have h0 : (0 : UInt64).toNat = 0 := rfl
      rw [← UInt64.toNat_inj, ← UInt64.toNat_inj, hread, h0, Nat.add_eq_zero_iff]
      simp
    · rw [if_neg hfd] at h
      cases h
      refine ⟨fun _ => hn, fun _ _ h => absurd h hfd, id, fun hconn => ?_⟩
      exact absurd (hn.connecting hconn).1 hfd

/-- An event of the socket keeps what is recorded measured exactly if it is timely. -/
theorem Noted.onEvent {now : Time} {error input output : Bool} {reads : List ℕ}
    {c c' : DashClient alg} (hn : Noted c) (hreg : c.registered = true)
    (hfit : c.readBytes.toNat + reads.sum < 2 ^ 64)
    (h : c.onEvent now error input output reads = .ok c') :
    (Timely now c (.socket error input output reads) → Noted c') ∧
      (MeasuredDownloads c' → Timely now c (.socket error input output reads)) := by
  unfold DashClient.onEvent at h
  cases error with
  | true =>
    -- the socket is closed, and nothing is read
    obtain ⟨hclosed, hfd, hstatus⟩ := Noted.close
      (c := { c with playerState := .playerDone, registered := false })
      ⟨{ hn.toLog with }, hn.start_length, hn.connecting⟩
    have hread : ∀ c₁ : DashClient alg, c₁.fdOpen = false →
        (if input = true then c₁.onReadEvent now reads else .ok c₁) = .ok c₁ := by
      intro c₁ hfd₁
      have hclosed : c₁.onReadEvent now reads = .ok c₁ := by
        rw [DashClient.onReadEvent, if_neg (by rw [hfd₁]; exact Bool.false_ne_true)]
      rw [hclosed, ite_self]
    rw [if_pos rfl] at h
    dsimp only at h
    rw [hread _ hfd] at h
    dsimp only at h
    rw [if_neg fun hboth => hstatus hboth.2] at h
    cases h
    exact ⟨fun _ => hclosed, fun _ _ hfalse => absurd hfalse.symm Bool.false_ne_true⟩
  | false =>
    rw [if_neg Bool.false_ne_true] at h
    dsimp only at h
    cases hread : (if input = true then c.onReadEvent now reads else .ok c) with
    | error e =>
      rw [hread] at h
      cases h
    | ok c₂ =>
      rw [hread] at h
      dsimp only at h
      obtain ⟨hkeeps, hbefore, hwas, hconnecting⟩ := hn.onReadEvent hfit hread
      by_cases hconn : output = true ∧ c₂.status = .tcpConnecting
      · rw [if_pos hconn] at h
        obtain ⟨-, hn₂, hzero⟩ := hconnecting (hwas hconn.2)
        obtain ⟨hnoted, hshown, hextends⟩ := hn₂.onConnected hconn.2 h
        refine ⟨fun htimely => ?_, fun hm _ _ => ⟨?_, fun _ _ => hzero.1 (hshown hm)⟩⟩
        · exact hnoted (hzero.2 ((htimely hreg rfl).2 hconn.1 (hwas hconn.2)))
        · exact hbefore (hextends.measured hm.recorded)
      · rw [if_neg hconn] at h
        cases h
        refine ⟨fun htimely => hkeeps (htimely hreg rfl).1, fun hm _ _ =>
          ⟨hbefore hm.recorded, fun hout hstatus => ?_⟩⟩
        exact absurd ⟨hout, (hconnecting hstatus).1⟩ hconn

/-- Playing a frame does not change what is recorded, nor the socket. -/
theorem Noted.playBackHandle {now : Time} {c c' : DashClient alg} (hn : Noted c)
    (h : c.playBackHandle now = .ok c') : Noted c' := by
  rw [DashClient.playBackHandle] at h
  split at h
  · cases h
  · next c₁ hplay =>
    obtain ⟨ps, pa, rfl⟩ := afterFrame_eq h
    rw [DashClient.playFrame] at hplay
    split_ifs at hplay
    · dsimp only at hplay
      split_ifs at hplay <;> cases hplay <;>
        exact ⟨{ hn.toLog with }, hn.start_length, hn.connecting⟩
    · cases hplay
      exact ⟨{ hn.toLog with }, hn.start_length, hn.connecting⟩

/-- A step keeps what is recorded measured exactly if it is timely. -/
theorem Noted.handle {now : Time} {e : Event} {c c' : DashClient alg} (hn : Noted c)
    (hfit : Fits c e) (h : c.handle now e = .ok c') :
    (Timely now c e → Noted c') ∧ (MeasuredDownloads c' → Timely now c e) := by
  cases e with
  | socket error input output reads =>
    rw [DashClient.handle] at h
    split_ifs at h with hreg
    · exact hn.onEvent hreg hfit h
    · cases h
      exact ⟨fun _ => hn, fun _ h => absurd h hreg⟩
  | requestAlarm =>
    refine ⟨fun _ => ?_, fun _ => trivial⟩
    rw [DashClient.handle] at h
    split_ifs at h
    · -- the level was chosen before; the alarm only sends the request
      cases h
      have hn' : Noted ({ c with requestAlarm := none } : DashClient alg) :=
        ⟨{ hn.toLog with }, hn.start_length, hn.connecting⟩
      have hlog := hn'.toLog.delayRequestHandle now
      rcases delayRequestHandle_cases now { c with requestAlarm := none } with heq | ⟨-, heq⟩ <;>
        rw [heq] at hlog ⊢ <;> exact ⟨hlog, hn.start_length, hn.connecting⟩
    · cases h
      exact hn
  | playerAlarm =>
    refine ⟨fun _ => ?_, fun _ => trivial⟩
    rw [DashClient.handle] at h
    split_ifs at h
    · refine Noted.playBackHandle ?_ h
      exact ⟨{ hn.toLog with }, hn.start_length, hn.connecting⟩
    · cases h
      exact hn

/-! ## Runs -/

end DashClient

end DashDim
