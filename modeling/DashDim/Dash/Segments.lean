import DashDim.Dash.Bookkeeping
import DashDim.Dash.Util

/-!
# Accesses to the segment table

The client bounds the number of a segment by the first row of its table, and reads
its size from the row of the level it wants. How far it gets depends on the sizes: a
segment without bytes never is complete. But one such segment may be passed over. A
segment may be complete before its request is sent, if that is delayed and the bytes
arrive anyway; then it is chosen once more, and counted twice, once when its alarm goes
off. So the client gets as far as no two segments that follow each other are without
bytes (`Passable`), and never reads outside of its table exactly if all rows reach as
far (`Covered`):

* `InTable.handle`: no handler of a client in the table leaves the table;
* `Passable.asked`: with an algorithm that replies what it is told to, a client gets to
  each segment that is passable;
* `segment_access_in_table`: both together, for the table read from any log files.

The bytes of a segment are counted in 64 bits, and the events allowed in a run
(`Fits`) are those whose bytes fit.
-/

namespace DashDim

/-! ## How far a table is read -/

/-- A segment has bytes at some level. -/
def Live (representation : List (List Int64)) (index : ℕ) : Prop :=
  ∃ row ∈ representation, ∃ size, row[index]? = some size ∧ size ≠ 0

/-- Before a segment, the first one has bytes at some level, and so has one of any two
    that follow each other. -/
def Passable (representation : List (List Int64)) (index : ℕ) : Prop :=
  (0 < index → Live representation 0) ∧
    ∀ i, i + 1 < index → Live representation i ∨ Live representation (i + 1)

/-- All rows have the first segment, and those of the first row that are passable. -/
def Covered (representation : List (List Int64)) : Prop :=
  ∀ row₀ ∈ representation.head?, ∀ row ∈ representation, ∀ index,
    index = 0 ∨ index < row₀.length → Passable representation index → index < row.length

variable {representation : List (List Int64)}

namespace Passable

theorem zero : Passable representation 0 :=
  ⟨fun h => absurd h (lt_irrefl 0), fun i h => absurd h (Nat.not_lt_zero (i + 1))⟩

theorem mono {i j : ℕ} (h : Passable representation j) (hle : i ≤ j) :
    Passable representation i :=
  ⟨fun hpos => h.1 (hpos.trans_le hle), fun k hk => h.2 k (hk.trans_le hle)⟩

/-- After a segment that has bytes, one more may be passed over. -/
theorem add_two {i : ℕ} (h : Passable representation i) (hlive : Live representation i) :
    Passable representation (i + 2) := by
  refine ⟨fun _ => ?_, fun k hk => ?_⟩
  · rcases Nat.eq_zero_or_pos i with rfl | hpos
    · exact hlive
    · exact h.1 hpos
  · rcases (show k + 1 < i ∨ k + 1 = i ∨ k = i by omega) with hlt | rfl | rfl
    · exact h.2 k hlt
    · exact .inr hlive
    · exact .inl hlive

/-- One of the two segments before has bytes, and is passable. -/
theorem exists_live {j : ℕ} (h : Passable representation (j + 1)) :
    ∃ i, Passable representation i ∧ Live representation i ∧ (i = j ∨ i + 1 = j) := by
  by_cases hlive : Live representation j
  · exact ⟨j, h.mono (Nat.le_succ j), hlive, .inl rfl⟩
  · cases j with
    | zero => exact absurd (h.1 Nat.one_pos) hlive
    | succ i =>
      exact ⟨i, h.mono (by omega), (h.2 i (by omega)).resolve_right hlive, .inr rfl⟩

end Passable

/-- The first row of a table with a level. -/
theorem VideoData.Level.row {videoData : VideoData} {quality : ℤ}
    (h : videoData.Level quality) :
    ∃ row₀ rows, videoData.representation = row₀ :: rows := by
  cases hrep : videoData.representation with
  | nil =>
    have hlt := h.2
    have hle := h.1
    rw [hrep] at hlt
    exact absurd (hle.trans_lt hlt) (lt_irrefl 0)
  | cons row₀ rows => exact ⟨row₀, rows, rfl⟩

/-- The size of a segment that is passable is in each row of a table that is covered. -/
theorem Covered.segmentSize {quality : ℤ} {index : ℕ} {row₀ : List Int64}
    {rows : List (List Int64)} (hcov : Covered (row₀ :: rows)) (hpos : 0 ≤ quality)
    (hlt : quality < (row₀ :: rows).length) (hindex : index < row₀.length)
    (hpass : Passable (row₀ :: rows) index) :
    ∃ row ∈ row₀ :: rows, ∃ size, row[index]? = some size ∧
      DashClient.segmentSize (row₀ :: rows) quality index = some size := by
  have hq : quality.toNat < (row₀ :: rows).length := by omega
  have hle := hcov row₀ rfl _ (List.getElem_mem hq) index (.inr hindex) hpass
  refine ⟨_, List.getElem_mem hq, (row₀ :: rows)[quality.toNat][index], ?_, ?_⟩
  · rw [List.getElem?_eq_getElem hle]
  · rw [DashClient.segmentSize, if_neg (by omega), List.getElem?_eq_getElem hq, Option.bind_some,
      List.getElem?_eq_getElem hle]

namespace DashClient

variable {alg : AdaptationAlgorithm} {videoData : VideoData}

/-- What an event brings does not bring the count of bytes to its bound. -/
def Fits (c : DashClient alg) : Event → Prop
  | .socket _ _ _ reads => c.readBytes.toNat + reads.sum < 2 ^ 64
  | _ => True

/-- No run accesses a segment that is not in the table. -/
def InBounds (videoData : VideoData) : Prop :=
  ∀ alg : AdaptationAlgorithm, alg.Playable → ∀ clock (w : World alg),
    (system alg videoData Fits clock).Reachable w → ∀ e, Fits w.client e →
      ∀ quality index, w.client.handle w.now e ≠ .error (.segmentAccess quality index)

/-! ## Within the table -/

/-- The number of the segment that is next when the alarm has gone off. -/
def farthest (c : DashClient alg) : ℕ := c.index + if c.requestAlarm.isSome then 1 else 0

/-- The level and the number of the next segment are within the first row, and before
    it is connected the client has asked for nothing. While it waits for bytes, the next
    segment is passable. -/
structure InTable (videoData : VideoData) (c : DashClient alg) : Prop where
  video : c.data.videoData = videoData
  level : videoData.Level c.quality
  index_le : ∀ row₀ ∈ videoData.representation.head?, c.index ≤ row₀.length
  connecting : c.status = .tcpConnecting →
    c.index = 0 ∧ c.segmentBytes = 0 ∧ c.requestAlarm = none
  passable : c.segmentBytes ≠ 0 → Passable videoData.representation c.farthest

/-- A result that is in the table, or is no access outside of it. -/
def Safe (videoData : VideoData) : Except Fault (DashClient alg) → Prop
  | .ok c => InTable videoData c
  | .error e => ∀ quality index, e ≠ .segmentAccess quality index

/-- A request keeps the client in the table, if the segment after the next is passable. -/
theorem InTable.delayRequestHandle {c : DashClient alg} (hc : InTable videoData c)
    (hstatus : c.status ≠ .tcpConnecting)
    (hpass : c.segmentBytes ≠ 0 → Passable videoData.representation (c.farthest + 1))
    (now : Time) : InTable videoData (c.delayRequestHandle now) := by
  rcases delayRequestHandle_cases now c with heq | ⟨⟨row, rows, hrep, hlt⟩, heq⟩
  · rw [heq]
    exact hc
  · rw [heq]
    refine { hc with
      index_le := fun row₀ hrow => ?_
      connecting := fun h => absurd h hstatus
      passable := fun hne => (hpass hne).mono ?_ }
    · rw [← hc.video, hrep] at hrow
      cases Option.mem_some_iff.1 hrow
      exact hlt
    · rw [farthest, farthest]
      dsimp only
      omega

/-- The level that the algorithm replies is in the table, and has the segment in its row. -/
theorem InTable.exists_size {c : DashClient alg} (hplay : alg.Playable)
    (hcov : Covered videoData.representation) (hc : InTable videoData c)
    (hindex : ∀ row₀ ∈ videoData.representation.head?, c.index < row₀.length)
    (hpass : Passable videoData.representation c.index) {now : Time} {reply : AlgorithmReply}
    {algorithm : alg.State} (hreply : alg.getNextQuality c.algorithm c.data now c.quality c.index =
      some (reply, algorithm)) :
    videoData.Level reply.nextQuality ∧ ∃ row ∈ videoData.representation, ∃ size,
      row[c.index]? = some size ∧
      segmentSize c.data.videoData.representation reply.nextQuality c.index = some size := by
  have hlevel : videoData.Level reply.nextQuality := by
    rw [← hc.video]
    exact hplay _ _ _ _ _ _ _ (by rw [hc.video]; exact hc.level) hreply
  refine ⟨hlevel, ?_⟩
  obtain ⟨row₀, rows, hrep⟩ := hc.level.row
  have hlt := hlevel.2
  rw [hrep] at hcov hlt hpass
  rw [hc.video, hrep]
  exact hcov.segmentSize hlevel.1 hlt (hindex row₀ (by rw [hrep]; rfl)) hpass

/-- A segment that is requested is in the first row, and what the client may get to next is
    passable. -/
theorem InTable.requested {c c' : DashClient alg} (hplay : alg.Playable)
    (hcov : Covered videoData.representation) (hc : InTable videoData c)
    (hstatus : c.status ≠ .tcpConnecting)
    (hindex : ∀ row₀ ∈ videoData.representation.head?, c.index < row₀.length)
    (hpass : Passable videoData.representation c.index) {now : Time}
    (h : c.requestSegment now = .ok c') : InTable videoData c' := by
  obtain ⟨reply, algorithm, size, hreply, hsize, c₁, hc₁, hor⟩ := requestSegment_cases h
  obtain ⟨hlevel, row, hrow, size', hget, hsize'⟩ :=
    hc.exists_size hplay hcov hindex hpass hreply
  rw [hsize'] at hsize
  cases hsize
  have hstatus₁ : c₁.status ≠ .tcpConnecting := by
    rw [hc₁]
    exact hstatus
  -- if there are bytes to wait for, the segment has some
  have htwo : c₁.segmentBytes ≠ 0 → Passable videoData.representation (c.index + 2) := by
    intro hne
    refine hpass.add_two ⟨row, hrow, size, hget, fun hzero => hne ?_⟩
    rw [hc₁, hzero]
    rfl
  have hin : ∀ requestAlarm, InTable videoData { c₁ with requestAlarm := requestAlarm } := by
    intro requestAlarm
    rw [hc₁] at htwo ⊢
    refine ⟨hc.video, hlevel, hc.index_le, fun h => absurd h hstatus, fun hne =>
      (htwo hne).mono ?_⟩
    rw [farthest]
    dsimp only
    split_ifs <;> omega
  rcases hor with rfl | rfl
  · exact hin _
  · refine (hin c₁.requestAlarm).delayRequestHandle hstatus₁ (fun hne => (htwo hne).mono ?_) now
    rw [farthest, hc₁]
    dsimp only
    split_ifs <;> omega

/-- Choosing a segment that is in the first row and passable. -/
theorem InTable.requestSegment {c : DashClient alg} (hplay : alg.Playable)
    (hcov : Covered videoData.representation) (hc : InTable videoData c)
    (hstatus : c.status ≠ .tcpConnecting)
    (hindex : ∀ row₀ ∈ videoData.representation.head?, c.index < row₀.length)
    (hpass : Passable videoData.representation c.index) (now : Time) :
    Safe videoData (c.requestSegment now) := by
  cases hres : c.requestSegment now with
  | ok c' => exact hc.requested hplay hcov hstatus hindex hpass hres
  | error e =>
    rw [DashClient.requestSegment] at hres
    cases hreply : alg.getNextQuality c.algorithm c.data now c.quality c.index with
    | none =>
      rw [hreply] at hres
      cases hres
      exact fun _ _ heq => by cases heq
    | some res =>
      -- with the size in the table no branch fails
      obtain ⟨-, row, -, size, -, hsize⟩ := hc.exists_size hplay hcov hindex hpass hreply
      rw [hreply] at hres
      dsimp only at hres
      rw [hsize] at hres
      dsimp only at hres
      split_ifs at hres

/-- Closing a client keeps it in the table. -/
theorem InTable.close {c : DashClient alg} (hc : InTable videoData c) :
    InTable videoData c.close := by
  unfold DashClient.close
  split_ifs
  · exact { hc with connecting := nofun }
  · exact hc

/-- A segment that is complete had bytes: the client was connected, and asks for the next
    one only if it is in the first row. -/
theorem InTable.completeSegment {c : DashClient alg} (hplay : alg.Playable)
    (hcov : Covered videoData.representation) (hc : InTable videoData c)
    (hne : c.segmentBytes ≠ 0) (now : Time) :
    Safe videoData ((c.completeSegment now).map Prod.fst) := by
  obtain ⟨row₀, rows, hrep⟩ := hc.level.row
  obtain ⟨ps, pa, hcheck⟩ := checkBufferStatus_eq now (c.recordSegment now)
  obtain ⟨c₁, hc₁⟩ : ∃ c₁ : DashClient alg,
    c₁ = { c.recordSegment now with playerState := ps, playerAlarm := pa } := ⟨_, rfl⟩
  have hin : InTable videoData c₁ := by
    rw [hc₁]
    exact { hc with }
  have hstatus₁ : c₁.status ≠ .tcpConnecting := by
    rw [hc₁]
    exact fun hconn => hne (hc.connecting hconn).2.1
  have hpass : Passable videoData.representation c₁.index := by
    rw [hc₁]
    exact (hc.passable hne).mono (Nat.le_add_right _ _)
  unfold DashClient.completeSegment
  rw [hcheck, ← hc₁]
  dsimp only
  rw [hin.video, hrep]
  dsimp only
  split_ifs with hdone
  · refine InTable.close ?_
    exact { hin with }
  · have hsafe := hin.requestSegment hplay hcov hstatus₁ (fun row hrow => ?_) hpass now
    · cases hres : c₁.requestSegment now with
      | error e =>
        rw [hres] at hsafe
        exact hsafe
      | ok c' =>
        rw [hres] at hsafe
        exact hsafe
    · rw [hrep] at hrow
      cases Option.mem_some_iff.1 hrow
      exact lt_of_le_of_ne (hin.index_le row₀ (by rw [hrep]; rfl)) hdone

/-- A chunk is read whose bytes fit. -/
theorem InTable.onData {c : DashClient alg} {nbytes : ℕ} (hplay : alg.Playable)
    (hcov : Covered videoData.representation) (hc : InTable videoData c) (hpos : 0 < nbytes)
    (hfit : c.readBytes.toNat + nbytes < 2 ^ 64) (now : Time) :
    Safe videoData ((c.onData now nbytes).map Prod.fst) := by
  have hin : InTable videoData (c.countBytes now nbytes) := { hc with }
  rw [DashClient.onData]
  by_cases heq : (c.countBytes now nbytes).readBytes = (c.countBytes now nbytes).segmentBytes
  · rw [if_pos heq]
    refine hin.completeSegment hplay hcov (fun hzero => ?_) now
    -- some bytes were read
    have hsum := countBytes_readBytes hfit now
    rw [heq, hzero] at hsum
    have h0 : (0 : UInt64).toNat = 0 := rfl
    omega
  · rw [if_neg heq]
    exact hin

/-- After a chunk whose bytes fit, as many more fit as before. -/
theorem onData_readBytes_le {now : Time} {nbytes : ℕ} {c c' : DashClient alg} {done : Bool}
    (hfit : c.readBytes.toNat + nbytes < 2 ^ 64) (h : c.onData now nbytes = .ok (c', done)) :
    c'.readBytes.toNat ≤ c.readBytes.toNat + nbytes := by
  have hcount := countBytes_readBytes hfit now
  rw [DashClient.onData] at h
  split_ifs at h with heq
  · obtain ⟨ps, pa, hcheck⟩ :=
      checkBufferStatus_eq now ((c.countBytes now nbytes).recordSegment now)
    have hcases := completeSegment_cases h
    rw [hcheck] at hcases
    rcases hcases with ⟨hres, -⟩ | ⟨rfl, -⟩
    · have hzero : c'.readBytes = 0 := by
        obtain ⟨reply, algorithm, size, -, -, c₃, rfl, rfl | rfl⟩ := requestSegment_cases hres
        · rfl
        · rcases delayRequestHandle_cases now _ with heq | ⟨-, heq⟩ <;> rw [heq]
      rw [hzero]
      exact Nat.zero_le _
    · rw [DashClient.close]
      split_ifs <;> exact hcount.le
  · cases h
    exact hcount.le

theorem InTable.onReadLoop {c : DashClient alg} {reads : List ℕ} (hplay : alg.Playable)
    (hcov : Covered videoData.representation) (hc : InTable videoData c)
    (hfit : c.readBytes.toNat + reads.sum < 2 ^ 64) (now : Time) :
    Safe videoData (onReadLoop now reads c) := by
  induction reads generalizing c with
  | nil => exact hc
  | cons nbytes reads ih =>
    rw [List.sum_cons] at hfit
    cases nbytes with
    | zero => exact ih (c := { c with registered := false }) { hc with } (by simpa using hfit)
    | succ nbytes =>
      have hsafe := hc.onData hplay hcov (Nat.succ_pos nbytes) (by omega) now
      rw [DashClient.onReadLoop]
      cases hres : c.onData now (nbytes + 1) with
      | error e =>
        rw [hres] at hsafe
        exact hsafe
      | ok res =>
        obtain ⟨c₁, done⟩ := res
        rw [hres] at hsafe
        have hle := onData_readBytes_le (by omega) hres
        cases done with
        | true => exact hsafe
        | false => exact ih hsafe (by omega)

theorem InTable.onEvent {c : DashClient alg} {error input output : Bool} {reads : List ℕ}
    (hplay : alg.Playable) (hcov : Covered videoData.representation) (hc : InTable videoData c)
    (hfit : c.readBytes.toNat + reads.sum < 2 ^ 64) (now : Time) :
    Safe videoData (c.onEvent now error input output reads) := by
  unfold DashClient.onEvent
  extract_lets c₁
  have hc₁ : InTable videoData c₁ ∧ c₁.readBytes = c.readBytes := by
    unfold c₁
    split_ifs
    · -- an error closes the socket, and nothing is read
      refine ⟨InTable.close ?_, ?_⟩
      · exact { hc with }
      · rw [DashClient.close]
        split_ifs <;> rfl
    · exact ⟨hc, rfl⟩
  have hread : Safe videoData (if input = true then c₁.onReadEvent now reads else .ok c₁) := by
    split_ifs
    · rw [DashClient.onReadEvent]
      split_ifs
      · exact hc₁.1.onReadLoop hplay hcov (by rw [hc₁.2]; exact hfit) now
      · exact hc₁.1
    · exact hc₁.1
  split
  · next e heq =>
    rw [heq] at hread
    exact hread
  · next c₂ heq =>
    rw [heq] at hread
    split_ifs with hconn
    · -- before it is connected, the client has asked for nothing
      obtain ⟨row₀, rows, hrep⟩ := hc.level.row
      rw [DashClient.onConnected]
      obtain ⟨hzero, hbytes, -⟩ := hread.connecting hconn.2
      refine InTable.requestSegment hplay hcov ?_ ?_ (fun row hrow => ?_) ?_ now
      · exact { hread with
          connecting := fun hstatus => by cases hstatus
          passable := fun hne => absurd hbytes hne }
      · intro hstatus
        cases hstatus
      · change c₂.index < row.length
        rw [hzero]
        exact hcov row hrow row (List.mem_of_mem_head? hrow) 0 (.inl rfl) .zero
      · change Passable _ c₂.index
        rw [hzero]
        exact .zero
    · exact hread

theorem InTable.playBackHandle {c : DashClient alg} (hc : InTable videoData c) (now : Time) :
    Safe videoData (c.playBackHandle now) := by
  have hplay : Safe videoData c.playFrame := by
    unfold DashClient.playFrame
    split_ifs
    · extract_lets c₁
      split_ifs
      · exact nofun
      · exact { hc with }
      · exact { hc with }
    · exact hc
  unfold DashClient.playBackHandle
  split
  · next e heq =>
    rw [heq] at hplay
    exact hplay
  · next c₁ heq =>
    rw [heq] at hplay
    cases hres : c₁.afterFrame now with
    | ok c₂ =>
      obtain ⟨ps, pa, rfl⟩ := afterFrame_eq hres
      exact { hplay with }
    | error e =>
      unfold DashClient.afterFrame at hres
      split_ifs at hres
      split at hres
      · cases hres
        exact nofun
      · split_ifs at hres

/-- No handler of a client in the table leaves the table. -/
theorem InTable.handle {c : DashClient alg} {e : Event} (hplay : alg.Playable)
    (hcov : Covered videoData.representation) (hc : InTable videoData c) (hfit : Fits c e)
    (now : Time) : Safe videoData (c.handle now e) := by
  cases e with
  | socket error input output reads =>
    rw [DashClient.handle]
    split_ifs
    · exact hc.onEvent hplay hcov hfit now
    · exact hc
  | requestAlarm =>
    rw [DashClient.handle]
    split_ifs with hset
    · have hstatus : c.status ≠ .tcpConnecting := by
        intro hconn
        rw [(hc.connecting hconn).2.2] at hset
        cases hset
      -- the request that waited is counted, and none waits any more
      have hnext : c.farthest = c.index + 1 := by rw [farthest, if_pos hset]
      refine InTable.delayRequestHandle (c := { c with requestAlarm := none }) ?_ hstatus
        (fun hne => ?_) now
      · refine ⟨hc.video, hc.level, hc.index_le, fun h => absurd h hstatus, fun hne => ?_⟩
        exact (hc.passable hne).mono (Nat.le_add_right _ _)
      · have hpass := hc.passable hne
        rw [hnext] at hpass
        exact hpass
    · exact hc
  | playerAlarm =>
    rw [DashClient.handle]
    split_ifs
    · refine InTable.playBackHandle ?_ now
      exact { hc with }
    · exact hc

/-- A run that starts in the table stays in it. -/
theorem inTable_reachable {clock : Time → Time → Prop} (hplay : alg.Playable)
    (hcov : Covered videoData.representation) {w : World alg}
    (h : (system alg videoData Fits clock).Reachable w) : InTable videoData w.client := by
  refine h.invariant (P := fun w => InTable videoData w.client) (fun w hi => ?_)
    fun w w' _ hin hstep => ?_
  · obtain ⟨hne, initSegments, algorithm, ps, -, hclient⟩ := hi
    rw [hclient]
    refine ⟨rfl, ⟨le_rfl, ?_⟩, fun row₀ _ => Nat.zero_le _, fun _ => ⟨rfl, rfl, rfl⟩,
      fun hne => absurd rfl hne⟩
    exact Int.natCast_pos.2 (List.length_pos_iff.2 hne)
  · cases hstep with
    | handle e client hfit hrun =>
      have hsafe := hin.handle hplay hcov hfit w.now
      rw [hrun] at hsafe
      exact hsafe
    | round now hclock => exact hin

/-! ## Outside of the table -/

/-- The next reply of a script, as far as it is a level of the table. -/
def scriptedReply (script : List AlgorithmReply) (data : ClientData) :
    AlgorithmReply × List AlgorithmReply :=
  let reply := script.head?.getD {}
  if 0 ≤ reply.nextQuality ∧ reply.nextQuality < data.videoData.representation.length then
    (reply, script.tail)
  else ({}, script.tail)

/-- An algorithm that replies what it is told to. -/
def scripted : AdaptationAlgorithm where
  State := List AlgorithmReply
  getNextQuality script data _ _ _ := some (scriptedReply script data)

theorem scripted_playable : scripted.Playable := by
  intro st data now preQuality segmentCount reply st' hlevel hreply
  have hres : scriptedReply st data = (reply, st') := Option.some.inj hreply
  unfold scriptedReply at hres
  dsimp only at hres
  split_ifs at hres with hlevel'
  · cases hres
    exact hlevel'
  · cases hres
    exact ⟨le_rfl, hlevel.1.trans_lt hlevel.2⟩

/-- The client chooses its next segment, and a request may wait for its alarm. -/
structure Choosing (videoData : VideoData) (index : ℕ) (requestAlarm : Option Time)
    (script : alg.State) (c : DashClient alg) : Prop where
  video : c.data.videoData = videoData
  fdOpen : c.fdOpen = true
  registered : c.registered = true
  index_eq : c.index = index
  alarm_eq : c.requestAlarm = requestAlarm
  algorithm_eq : c.algorithm = script

/-- A segment is chosen, and not all of it has arrived. -/
structure Pending (videoData : VideoData) (index : ℕ) (requestAlarm : Option Time)
    (script : alg.State) (c : DashClient alg) : Prop
    extends Choosing videoData index requestAlarm script c where
  incomplete : c.readBytes.toNat < c.segmentBytes.toNat

variable {index : ℕ} {requestAlarm : Option Time}

/-- Reading one byte. -/
theorem handle_byte {c : DashClient alg} (hfd : c.fdOpen = true) (hreg : c.registered = true)
    (now : Time) :
    c.handle now (.socket false true false [1]) = (c.onData now 1).map Prod.fst := by
  simp only [handle, hreg, if_true, onEvent, onReadEvent, hfd, Bool.false_eq_true, if_false,
    false_and]
  rw [onReadLoop]
  cases c.onData now 1 with
  | error e => rfl
  | ok res =>
    obtain ⟨c', done⟩ := res
    cases done <;> rfl

namespace Pending

variable {script : alg.State} {c : DashClient alg}

theorem fits_byte (hp : Pending videoData index requestAlarm script c) :
    Fits c (.socket false true false [1]) := by
  have hlt := c.segmentBytes.toNat_lt
  have hincomplete := hp.incomplete
  change c.readBytes.toNat + 1 < _
  omega

/-- All but the last byte of a segment are read. -/
theorem last_byte {clock : Time → Time → Prop} {now : Time}
    (h : (system alg videoData Fits clock).Reachable ⟨c, now⟩)
    (hp : Pending videoData index requestAlarm script c) :
    ∃ c', (system alg videoData Fits clock).Reachable ⟨c', now⟩ ∧
      Pending videoData index requestAlarm script c' ∧ c'.readBytes + 1 = c'.segmentBytes := by
  -- one byte is read at a time, and the induction is on the bytes that are missing
  obtain ⟨m, hm⟩ : ∃ m, c.readBytes.toNat + m + 1 = c.segmentBytes.toNat :=
    ⟨c.segmentBytes.toNat - c.readBytes.toNat - 1, by have := hp.incomplete; omega⟩
  induction m generalizing c with
  | zero =>
    refine ⟨c, h, hp, UInt64.toNat_inj.1 ?_⟩
    have hlt := c.segmentBytes.toNat_lt
    rw [UInt64.toNat_add, ← hm]
    exact Nat.mod_eq_of_lt (by change _ + 1 < _; omega)
  | succ m ih =>
    have hlt := c.segmentBytes.toNat_lt
    have hsum : (c.countBytes now 1).readBytes.toNat = c.readBytes.toNat + 1 :=
      countBytes_readBytes (by omega) now
    have hne : (c.countBytes now 1).readBytes ≠ c.segmentBytes := by
      intro heq
      rw [heq] at hsum
      omega
    have hrun : c.handle now (.socket false true false [1]) = .ok (c.countBytes now 1) := by
      rw [handle_byte hp.fdOpen hp.registered, onData]
      rw [if_neg (show ¬ (c.countBytes now 1).readBytes = (c.countBytes now 1).segmentBytes
        from hne)]
      rfl
    have hp' : Pending videoData index requestAlarm script (c.countBytes now 1) :=
      { hp with
        incomplete := by
          rw [hsum]
          change _ < c.segmentBytes.toNat
          omega }
    exact ih (h.step (.handle _ _ _ hp.fits_byte hrun)) hp' (by
      rw [hsum]
      change _ = c.segmentBytes.toNat
      omega)

/-- The last byte of a segment that is not the last of the first row: the next one is
    chosen. -/
theorem complete {row₀ : List Int64} {now : Time}
    (hrow₀ : row₀ ∈ videoData.representation.head?)
    (hp : Pending videoData index requestAlarm script c)
    (hlast : c.readBytes + 1 = c.segmentBytes) (hlt : index < row₀.length) :
    ∃ c₁ : DashClient alg, Choosing videoData index requestAlarm script c₁ ∧
      c.handle now (.socket false true false [1]) = c₁.requestSegment now := by
  obtain ⟨rows, hrep⟩ : ∃ rows, videoData.representation = row₀ :: rows :=
    ⟨_, List.eq_cons_of_mem_head? hrow₀⟩
  obtain ⟨ps, pa, hcheck⟩ := checkBufferStatus_eq now ((c.countBytes now 1).recordSegment now)
  obtain ⟨c₁, hc₁⟩ : ∃ c₁ : DashClient alg, c₁ = { (c.countBytes now 1).recordSegment now with
    playerState := ps, playerAlarm := pa } := ⟨_, rfl⟩
  have hchoosing : Choosing videoData index requestAlarm script c₁ := by
    rw [hc₁]
    exact { hp.toChoosing with }
  refine ⟨c₁, hchoosing, ?_⟩
  rw [handle_byte hp.fdOpen hp.registered, onData,
    if_pos (show (c.countBytes now 1).readBytes = (c.countBytes now 1).segmentBytes from hlast)]
  unfold completeSegment
  rw [hcheck, ← hc₁]
  dsimp only
  rw [hchoosing.video, hrep]
  dsimp only
  rw [hchoosing.index_eq, if_neg (by omega)]
  cases c₁.requestSegment now <;> rfl

/-- The request of a segment of the first row is sent, and counted. -/
theorem delayRequestHandle {row₀ : List Int64} (hrow₀ : row₀ ∈ videoData.representation.head?)
    (hp : Pending videoData index requestAlarm script c) (hlt : index < row₀.length)
    (now : Time) :
    Pending videoData (index + 1) requestAlarm script (c.delayRequestHandle now) := by
  obtain ⟨rows, hrep⟩ : ∃ rows, videoData.representation = row₀ :: rows :=
    ⟨_, List.eq_cons_of_mem_head? hrow₀⟩
  have hindex := hp.index_eq
  rw [DashClient.delayRequestHandle, hp.video, hrep]
  dsimp only
  rw [if_pos (by omega), sendRequest]
  dsimp only
  rw [if_pos hp.fdOpen]
  exact ⟨⟨hp.video, hp.fdOpen, hp.registered, congrArg (· + 1) hindex, hp.alarm_eq,
    hp.algorithm_eq⟩, hp.incomplete⟩

end Pending

namespace Choosing

variable {c : DashClient scripted} {row : List Int64} {quality : ℕ} {delay : Time}
  {script : List AlgorithmReply}

/-- The reply the algorithm is told. -/
theorem reply_eq (hc : Choosing videoData index requestAlarm (⟨quality, delay⟩ :: script) c)
    (hrow : videoData.representation[quality]? = some row) (now : Time) :
    scripted.getNextQuality c.algorithm c.data now c.quality c.index =
      some (⟨quality, delay⟩, script) := by
  obtain ⟨hlt, -⟩ := List.getElem?_eq_some_iff.1 hrow
  have hlevel : (quality : ℤ) < c.data.videoData.representation.length := by
    rw [hc.video]
    omega
  rw [hc.algorithm_eq]
  exact congrArg some (if_pos ⟨Int.natCast_nonneg quality, hlevel⟩)

/-- Choosing a segment that is not in its row. -/
theorem access (hc : Choosing videoData index requestAlarm (⟨quality, delay⟩ :: script) c)
    (hrow : videoData.representation[quality]? = some row) (hle : row.length ≤ index)
    (now : Time) : c.requestSegment now = .error (.segmentAccess quality index) := by
  have haccess : segmentSize videoData.representation quality index = none := by
    simp [segmentSize, hrow, hle]
  rw [requestSegment, hc.reply_eq hrow]
  dsimp only
  rw [hc.video, hc.index_eq, haccess]

/-- Choosing a segment with bytes: its request waits for an alarm, or is sent. -/
theorem chosen {size : Int64}
    (hc : Choosing videoData index requestAlarm (⟨quality, delay⟩ :: script) c)
    (hrow : videoData.representation[quality]? = some row) (hget : row[index]? = some size)
    (hsize : size ≠ 0) (now : Time) :
    ∃ c', Pending videoData index requestAlarm script c' ∧ c.requestSegment now =
      if delay ≠ 0 then .ok { c' with requestAlarm := updateAlarm (now + delay) }
      else .ok (c'.delayRequestHandle now) := by
  have haccess : segmentSize c.data.videoData.representation quality c.index = some size := by
    rw [hc.video, hc.index_eq]
    simp [segmentSize, hrow, hget]
  have hne : size.toUInt64 ≠ 0 := by
    intro hzero
    refine hsize ?_
    rw [← Int64.toInt64_toUInt64 size, hzero]
    rfl
  obtain ⟨c', hc'⟩ : ∃ c' : DashClient scripted, c' = { c with
      algorithm := script
      quality := quality
      data := { c.data with historyQuality := c.data.historyQuality ++ [(quality : ℤ)] }
      readBytes := 0
      segmentBytes := size.toUInt64
      ghost := { c.ghost with histories := c.ghost.histories ++ [c.data.throughput] } } :=
    ⟨_, rfl⟩
  refine ⟨c', ?_, ?_⟩
  · rw [hc']
    exact ⟨⟨hc.video, hc.fdOpen, hc.registered, hc.index_eq, hc.alarm_eq, rfl⟩,
      Nat.pos_of_ne_zero fun h => hne (UInt64.toNat_inj.1 h)⟩
  · rw [requestSegment, hc.reply_eq hrow]
    dsimp only
    rw [haccess, hc']

end Choosing

/-- Whatever the algorithm is told to reply then, a client gets to the choice of a segment
    when no request waits. -/
def Asked (videoData : VideoData) (index : ℕ) : Prop :=
  ∀ script : List AlgorithmReply, ∃ (w : World scripted) (e : Event) (c : DashClient scripted),
    (system scripted videoData Fits (· ≤ ·)).Reachable w ∧ 0 ≤ w.now ∧ Fits w.client e ∧
      Choosing videoData index none script c ∧ w.client.handle w.now e = c.requestSegment w.now

/-- The first segment is chosen when the client is connected. -/
theorem asked_zero (hne : videoData.representation ≠ []) : Asked videoData 0 := by
  intro script
  have hinit : (system scripted videoData Fits (· ≤ ·)).Reachable
      ⟨DashClient.new videoData 1 script, 0⟩ := .init ⟨hne, 1, script, _, .inl rfl, rfl⟩
  refine ⟨_, .socket false false true [], _, hinit, le_rfl, ?_, ?_, rfl⟩
  · change 0 + 0 < 2 ^ 64
    decide
  · exact ⟨rfl, rfl, rfl, rfl, rfl, rfl⟩

variable {row₀ : List Int64}

/-- When all of its bytes arrive, the next segment is chosen. -/
theorem Pending.asked {c : DashClient scripted} {now : Time} {script : List AlgorithmReply}
    (hrow₀ : row₀ ∈ videoData.representation.head?)
    (h : (system scripted videoData Fits (· ≤ ·)).Reachable ⟨c, now⟩)
    (hp : Pending videoData index requestAlarm script c) (hlt : index < row₀.length) :
    ∃ c₁ c₂, (system scripted videoData Fits (· ≤ ·)).Reachable ⟨c₁, now⟩ ∧
      Fits c₁ (.socket false true false [1]) ∧
      Choosing videoData index requestAlarm script c₂ ∧
      c₁.handle now (.socket false true false [1]) = c₂.requestSegment now := by
  obtain ⟨c₁, h₁, hp₁, hlast⟩ := hp.last_byte h
  obtain ⟨c₂, hc₂, hrun⟩ := hp₁.complete hrow₀ hlast hlt
  exact ⟨c₁, c₂, h₁, hp₁.fits_byte, hc₂, hrun⟩

/-- After a segment with bytes, the client gets to the next one. -/
theorem Asked.succ (hrow₀ : row₀ ∈ videoData.representation.head?) (h : Asked videoData index)
    (hlive : Live videoData.representation index) (hlt : index + 1 < row₀.length) :
    Asked videoData (index + 1) := by
  intro script
  obtain ⟨row, hrow, size, hget, hsize⟩ := hlive
  obtain ⟨quality, hquality⟩ := List.mem_iff_getElem?.1 hrow
  obtain ⟨w, e, c, hw, hnow, hfit, hc, hrun⟩ := h (⟨quality, 0⟩ :: script)
  obtain ⟨c₁, hp₁, hrequest⟩ := hc.chosen hquality hget hsize w.now
  have hp₂ := hp₁.delayRequestHandle hrow₀ (by omega) w.now
  have hw₂ := hw.step (.handle w e _ hfit (hrun.trans hrequest))
  obtain ⟨c₃, c₄, h₃, hfit₃, hc₄, hrun₃⟩ := hp₂.asked hrow₀ hw₂ hlt
  exact ⟨_, _, c₄, h₃, hnow, hfit₃, hc₄, hrun₃⟩

/-- And to the one after it: its request is delayed, but its bytes arrive; it is chosen once
    more, and counted when this request is sent and when the alarm goes off. -/
theorem Asked.add_two (hrow₀ : row₀ ∈ videoData.representation.head?)
    (h : Asked videoData index) (hlive : Live videoData.representation index)
    (hlt : index + 2 < row₀.length) : Asked videoData (index + 2) := by
  intro script
  obtain ⟨row, hrow, size, hget, hsize⟩ := hlive
  obtain ⟨quality, hquality⟩ := List.mem_iff_getElem?.1 hrow
  obtain ⟨w, e, c, hw, hnow, hfit, hc, hrun⟩ := h (⟨quality, 1⟩ :: ⟨quality, 0⟩ :: script)
  have hnext : (0 : ℤ) < w.now + 1 := Int.lt_add_one_of_le hnow
  -- the request is delayed
  obtain ⟨c₁, hp₁, hrequest⟩ := hc.chosen hquality hget hsize w.now
  rw [if_pos one_ne_zero, updateAlarm,
    if_neg hnext.ne'] at hrequest
  have hp₂ : Pending videoData index (some (w.now + 1)) (⟨quality, 0⟩ :: script)
      { c₁ with requestAlarm := some (w.now + 1) } :=
    ⟨{ hp₁.toChoosing with alarm_eq := rfl }, hp₁.incomplete⟩
  -- the segment arrives, and is chosen once more
  obtain ⟨c₃, c₄, h₃, hfit₃, hc₄, hrun₃⟩ :=
    hp₂.asked hrow₀ (hw.step (.handle w e _ hfit (hrun.trans hrequest))) (by omega)
  obtain ⟨c₅, hp₅, hrequest₅⟩ := hc₄.chosen hquality hget hsize w.now
  have hp₆ := hp₅.delayRequestHandle hrow₀ (by omega) w.now
  -- the alarm goes off
  have h₆ := h₃.step (.handle _ _ _ hfit₃ (hrun₃.trans hrequest₅))
  have h₇ := h₆.step (.round _ (w.now + 1) (Int.lt_add_one_of_le le_rfl).le)
  have halarm : (c₅.delayRequestHandle w.now).handle (w.now + 1) .requestAlarm =
      .ok (DashClient.delayRequestHandle (w.now + 1)
        { c₅.delayRequestHandle w.now with requestAlarm := none }) := by
    rw [handle, if_pos (by rw [hp₆.alarm_eq]; rfl)]
  have hp₈ := Pending.delayRequestHandle
    (c := { c₅.delayRequestHandle w.now with requestAlarm := none }) hrow₀
    ⟨{ hp₆.toChoosing with alarm_eq := rfl }, hp₆.incomplete⟩ (by omega) (w.now + 1)
  obtain ⟨c₉, c, h₉, hfit₉, hc, hrun₉⟩ :=
    hp₈.asked hrow₀ (h₇.step (.handle _ .requestAlarm _ trivial halarm)) hlt
  exact ⟨_, _, c, h₉, hnext.le, hfit₉, hc, hrun₉⟩

/-- A client gets to each segment of the first row that is passable. -/
theorem asked_of_passable (hrow₀ : row₀ ∈ videoData.representation.head?)
    (hindex : index = 0 ∨ index < row₀.length)
    (hpass : Passable videoData.representation index) : Asked videoData index := by
  induction index using Nat.strong_induction_on with
  | _ index ih =>
    cases index with
    | zero =>
      refine asked_zero fun hnil => ?_
      rw [hnil] at hrow₀
      cases hrow₀
    | succ j =>
      obtain ⟨i, hi, hlive, rfl | rfl⟩ := hpass.exists_live
      · exact (ih i (by omega) (by omega) hi).succ hrow₀ hlive (by omega)
      · exact (ih i (by omega) (by omega) hi).add_two hrow₀ hlive (by omega)

end DashClient

/-- The runs with a table that is covered stay within it. -/
theorem Covered.inBounds {videoData : VideoData} (hcov : Covered videoData.representation) :
    DashClient.InBounds videoData := by
  intro alg hplay clock w h e hfit quality index herr
  have hsafe := (DashClient.inTable_reachable hplay hcov h).handle hplay hcov hfit w.now
  rw [herr] at hsafe
  exact hsafe quality index rfl

/-- If all runs stay within a table, it is covered. -/
theorem DashClient.InBounds.covered {videoData : VideoData} (h : InBounds videoData) :
    Covered videoData.representation := by
  intro row₀ hrow₀ row hrow index hindex hpass
  by_contra hle
  obtain ⟨quality, hquality⟩ := List.mem_iff_getElem?.1 hrow
  obtain ⟨w, e, c, hw, -, hfit, hc, hrun⟩ := asked_of_passable hrow₀ hindex hpass [⟨quality, 0⟩]
  exact h _ scripted_playable _ w hw e hfit _ _
    (hrun.trans (hc.access hquality (not_lt.1 hle) w.now))

/-! ## Tables of log files -/

/-- With the table of any log files, the client stays within it exactly if all rows have the
    first segment, and those of the first row that are passable. -/
theorem segment_access_in_table (files : List (Option (List UInt8))) (segmentMs : ℤ) :
    DashClient.InBounds (loadTable files segmentMs) ↔
      Covered (loadTable files segmentMs).representation :=
  ⟨DashClient.InBounds.covered, Covered.inBounds⟩

/-- Two files, the second of which has a line less; but the first line of both is a zero. -/
theorem segment_access_no_bytes :
    DashClient.InBounds (loadTable [some [48, 10, 53, 10], some [48, 10]] 40) := by
  refine (segment_access_in_table [some [48, 10, 53, 10], some [48, 10]] 40).2 ?_
  intro row₀ _ row hrow index _ hpass
  have hrep : (loadTable [some [48, 10, 53, 10], some [48, 10]] 40).representation =
      [[0, 5], [0]] := rfl
  rw [hrep] at hpass hrow
  have hdead : ¬Live [[0, 5], [0]] 0 := by
    rintro ⟨row, hrow, size, hget, hsize⟩
    rcases List.mem_pair.1 hrow with rfl | rfl <;> exact hsize (Option.some.inj hget).symm
  obtain rfl : index = 0 := Nat.eq_zero_of_not_pos fun hpos => hdead (hpass.1 hpos)
  rcases List.mem_pair.1 hrow with rfl | rfl <;> decide

/-- Two files, the second of which has a line less: the client accesses its missing
    segment. -/
theorem segment_access_short_row :
    ¬ DashClient.InBounds (loadTable [some [53, 10, 54, 10], some [55, 10]] 40) := by
  have hrep : (loadTable [some [53, 10, 54, 10], some [55, 10]] 40).representation =
      [[5, 6], [7]] := rfl
  intro h
  have hcov := h.covered
  rw [hrep] at hcov
  have hlive : Live [[5, 6], [7]] 0 := ⟨[5, 6], by simp, 5, rfl, by decide⟩
  have hlt := hcov [5, 6] rfl [7] (by simp) 1 (.inr (by decide))
    (Passable.mono (Passable.zero.add_two hlive) (by decide))
  exact absurd hlt (by decide)

end DashDim
