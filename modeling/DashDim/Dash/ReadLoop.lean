import DashDim.Dash.Bookkeeping

/-!
# The read loop of the client

The loop of `DashClient::OnReadEvent` over a stream: chunks of bytes, and what follows them.
At the end of the stream the loop unregisters the descriptor and goes on, for the next read
to fail. But the client does nothing when it is unregistered (in `DashServerEndpoint` the
socket is closed then), and the next read is at the end of the stream again.

* `readLoop_eq`: without an end, the loop does what `onReadEvent` does for the chunks;
* `readLoop_ends_iff`: with one, it returns exactly if a chunk completes the last segment.
-/

namespace DashDim

namespace DashClient

/-- The bytes of one read. -/
def kBufferSize : ℕ := 1500

/-- What reads find after the bytes. -/
inductive Rest
  | wouldBlock
  | error
  | endOfFile
  deriving DecidableEq, Repr

/-- Bytes that are read in chunks, and what follows them. -/
structure Stream where
  chunks : List ℕ
  rest : Rest
  fits : ∀ nbytes ∈ chunks, 0 < nbytes ∧ nbytes ≤ kBufferSize

/-- The stream after its first chunk. -/
def Stream.tail (s : Stream) : Stream where
  chunks := s.chunks.tail
  rest := s.rest
  fits nbytes h := s.fits nbytes (List.mem_of_mem_tail h)

/-- `read()`: how many bytes, `0` at the end of the stream and `-1` for a failure. A closed
    descriptor is not read. -/
def read (fdOpen : Bool) (s : Stream) : ℤ × Stream :=
  if fdOpen then
    match s.chunks, s.rest with
    | nbytes :: _, _ => (nbytes, s.tail)
    | [], .endOfFile => (0, s)
    | [], _ => (-1, s)
  else (-1, s)

variable {alg : AdaptationAlgorithm}

/-- The client does nothing when it is unregistered. -/
def onUnregistration (c : DashClient alg) : DashClient alg := c

/-- `UnregisterFD`: the descriptor leaves the poll, once. -/
def unregisterFD (c : DashClient alg) : DashClient alg :=
  if c.registered then onUnregistration { c with registered := false } else c

/-- The loop for a number of rounds: there is no result if it is not left in these. -/
def readLoop (now : Time) : ℕ → Stream → DashClient alg → Option (Except Fault (DashClient alg))
  | 0, _, _ => none
  | rounds + 1, s, c =>
    let (nbytes, s) := read c.fdOpen s
    if nbytes = -1 then some (.ok c)
    else if nbytes = 0 then readLoop now rounds s c.unregisterFD
    else
      match c.onData now nbytes.toNat with
      | .error e => some (.error e)
      | .ok (c, true) => some (.ok c)
      | .ok (c, false) => readLoop now rounds s c

/-! ## Rounds -/

theorem read_cons {nbytes : ℕ} {chunks : List ℕ} {rest : Rest}
    (h : ∀ n ∈ nbytes :: chunks, 0 < n ∧ n ≤ kBufferSize) :
    read true ⟨nbytes :: chunks, rest, h⟩ =
      ((nbytes : ℤ), ⟨chunks, rest, fun n hn => h n (List.mem_cons_of_mem nbytes hn)⟩) := rfl

theorem readLoop_closed {now : Time} {c : DashClient alg} (hfd : c.fdOpen = false) (s : Stream)
    (rounds : ℕ) : readLoop now (rounds + 1) s c = some (.ok c) := by
  rw [readLoop, read, hfd]
  rfl

/-- A round that reads a chunk. -/
theorem readLoop_cons {now : Time} {c : DashClient alg} (hfd : c.fdOpen = true) {nbytes : ℕ}
    {chunks : List ℕ} {rest : Rest} (h : ∀ n ∈ nbytes :: chunks, 0 < n ∧ n ≤ kBufferSize)
    (rounds : ℕ) : readLoop now (rounds + 1) ⟨nbytes :: chunks, rest, h⟩ c =
      match c.onData now nbytes with
      | .error e => some (.error e)
      | .ok (c, true) => some (.ok c)
      | .ok (c, false) => readLoop now rounds
        ⟨chunks, rest, fun n hn => h n (List.mem_cons_of_mem nbytes hn)⟩ c := by
  have hpos := (h nbytes List.mem_cons_self).1
  rw [readLoop, hfd, read_cons]
  dsimp only
  rw [if_neg (by omega), if_neg (by omega), Int.toNat_natCast]

/-- A round at the end of the stream changes nothing but the registration. -/
theorem readLoop_endOfFile {now : Time} {c : DashClient alg} (hfd : c.fdOpen = true)
    (h : ∀ n ∈ ([] : List ℕ), 0 < n ∧ n ≤ kBufferSize) (rounds : ℕ) :
    readLoop now (rounds + 1) ⟨[], .endOfFile, h⟩ c =
      readLoop now rounds ⟨[], .endOfFile, h⟩ c.unregisterFD := by
  rw [readLoop, hfd]
  rfl

@[simp] theorem unregisterFD_fdOpen (c : DashClient alg) : c.unregisterFD.fdOpen = c.fdOpen := by
  rw [unregisterFD]
  split_ifs <;> rfl

/-- At the end of the stream the loop never ends. -/
theorem readLoop_none {now : Time} (h : ∀ n ∈ ([] : List ℕ), 0 < n ∧ n ≤ kBufferSize)
    (rounds : ℕ) {c : DashClient alg} (hfd : c.fdOpen = true) :
    readLoop now rounds ⟨[], .endOfFile, h⟩ c = none := by
  induction rounds generalizing c with
  | zero => rfl
  | succ rounds ih => rw [readLoop_endOfFile hfd, ih (by rw [unregisterFD_fdOpen, hfd])]

/-! ## Runs -/

/-- Without an end of the stream the loop ends after the chunks, and has done for them what the
    event does. -/
theorem readLoop_eq {now : Time} {s : Stream} (hrest : s.rest ≠ .endOfFile)
    (c : DashClient alg) :
    readLoop now (s.chunks.length + 1) s c = some (c.onReadEvent now s.chunks) := by
  rw [onReadEvent]
  split_ifs with hfd
  · obtain ⟨chunks, rest, hfits⟩ := s
    dsimp only at hrest ⊢
    induction chunks generalizing c with
    | nil =>
      rw [readLoop, hfd]
      cases rest with
      | endOfFile => exact absurd rfl hrest
      | wouldBlock | error => rfl
    | cons nbytes chunks ih =>
      obtain ⟨n, rfl⟩ := Nat.exists_eq_add_one.2 (hfits nbytes List.mem_cons_self).1
      rw [List.length_cons, readLoop_cons hfd, onReadLoop]
      cases hdata : c.onData now (n + 1) with
      | error e => rfl
      | ok res =>
        obtain ⟨c₁, done⟩ := res
        cases done with
        | true => rfl
        | false =>
          exact ih c₁ (((onData_frame hdata).2 rfl).trans hfd)
            fun n hn => hfits n (List.mem_cons_of_mem _ hn)
  · exact readLoop_closed (by rwa [Bool.not_eq_true] at hfd) _ _

/-- No result comes without a round. -/
theorem exists_readLoop_iff {now : Time} {s : Stream} {c : DashClient alg} :
    (∃ rounds c', readLoop now rounds s c = some (.ok c')) ↔
      ∃ rounds c', readLoop now (rounds + 1) s c = some (.ok c') := by
  constructor
  · rintro ⟨_ | rounds, c', h⟩
    · cases h
    · exact ⟨rounds, c', h⟩
  · rintro ⟨rounds, c', h⟩
    exact ⟨rounds + 1, c', h⟩

/-- From an open descriptor it returns exactly if a chunk completes the last segment, or no end
    follows the chunks and no request fails. -/
theorem readLoop_open_iff {now : Time} {chunks : List ℕ} {rest : Rest}
    (hfits : ∀ n ∈ chunks, 0 < n ∧ n ≤ kBufferSize) {c : DashClient alg}
    (hfd : c.fdOpen = true) :
    (∃ rounds c', readLoop now rounds ⟨chunks, rest, hfits⟩ c = some (.ok c')) ↔
      (∃ c₁ ∈ finished now chunks c, c₁.Last) ∨ rest ≠ .endOfFile ∧
        ∀ c₁ ∈ finished now chunks c, c₁.Last ∨ ∃ c₂, c₁.requestNext now = .ok c₂ := by
  induction chunks generalizing c with
  | nil =>
    rw [finished]
    by_cases hrest : rest = .endOfFile
    · subst hrest
      refine iff_of_false ?_ (by simp)
      rintro ⟨rounds, c', h⟩
      rw [readLoop_none hfits rounds hfd] at h
      cases h
    · have hrun : readLoop now _ ⟨[], rest, hfits⟩ c = some (c.onReadEvent now []) :=
        readLoop_eq (s := ⟨[], rest, hfits⟩) hrest c
      rw [onReadEvent, if_pos hfd, onReadLoop] at hrun
      exact iff_of_true ⟨_, c, hrun⟩ (.inr ⟨hrest, fun c₁ hc₁ => absurd hc₁ List.not_mem_nil⟩)
  | cons nbytes chunks ih =>
    obtain ⟨n, rfl⟩ := Nat.exists_eq_add_one.2 (hfits nbytes List.mem_cons_self).1
    have hfits' : ∀ n ∈ chunks, 0 < n ∧ n ≤ kBufferSize :=
      fun n hn => hfits n (List.mem_cons_of_mem _ hn)
    rw [exists_readLoop_iff]
    simp only [readLoop_cons hfd]
    rw [finished]
    have hopen : ∀ c', c.onData now (n + 1) = .ok (c', false) → c'.fdOpen = true :=
      fun c' h => ((onData_frame h).2 rfl).trans hfd
    rw [onData_eq] at hopen ⊢
    split_ifs with hcomplete hlast
    · -- the last segment is complete
      exact iff_of_true ⟨0, _, rfl⟩ (.inl ⟨_, List.mem_singleton_self _, hlast⟩)
    · rw [if_pos hcomplete, if_neg hlast] at hopen
      cases hnext : (c.countBytes now (n + 1)).requestNext now with
      | error e =>
        refine iff_of_false ?_ ?_
        · rintro ⟨rounds, c', h⟩
          cases h
        · simp [hlast, hnext]
      | ok c₂ =>
        rw [hnext] at hopen
        refine (ih hfits' (hopen c₂ rfl)).trans ?_
        simp [hlast, hnext]
    · rw [if_neg hcomplete] at hopen
      exact ih hfits' (hopen _ rfl)

/-- Some of the chunks bring what is missing of the segment under way. -/
def Brings (chunks : List ℕ) (c : DashClient alg) : Prop :=
  ∃ before nbytes after, chunks = before ++ nbytes :: after ∧
    c.readBytes.toNat + before.sum + nbytes = c.segmentBytes.toNat

/-- A segment is complete exactly if the one under way is. -/
theorem Stream.finished_ne_nil_iff (now : Time) (s : Stream) {c : DashClient alg}
    (hfit : c.readBytes.toNat + s.chunks.sum < 2 ^ 64) :
    finished now s.chunks c ≠ [] ↔ Brings s.chunks c := by
  rw [DashClient.finished_ne_nil_iff hfit]
  constructor
  · rintro ⟨before, nbytes, after, hsplit, hsum⟩
    exact ⟨before, nbytes + 1, after, hsplit, hsum⟩
  · rintro ⟨before, nbytes, after, hsplit, hsum⟩
    have hpos := (s.fits nbytes (by rw [hsplit]; simp)).1
    obtain ⟨n, rfl⟩ := Nat.exists_eq_add_one.2 hpos
    exact ⟨before, n, after, hsplit, hsum⟩

/-- From every state the loop returns after finitely many rounds exactly if the descriptor is
    closed; or a chunk completes the last segment; or no end of the stream follows the chunks, and
    no request fails that is made for a segment they complete. It is the last segment that a chunk
    completes if that was asked for, and some of the chunks bring what is missing of it; if they
    do not bring what is missing of the segment under way, none is complete, and it is up to what
    follows the chunks. -/
theorem readLoop_ends_iff (now : Time) (s : Stream) (c : DashClient alg) :
    ((∃ rounds c', readLoop now rounds s c = some (.ok c')) ↔
      c.fdOpen = false ∨ (∃ c₁ ∈ finished now s.chunks c, c₁.Last) ∨ s.rest ≠ .endOfFile ∧
        ∀ c₁ ∈ finished now s.chunks c, c₁.Last ∨ ∃ c₂, c₁.requestNext now = .ok c₂) ∧
    (c.readBytes.toNat + s.chunks.sum < 2 ^ 64 →
      (c.Last → ((∃ c₁ ∈ finished now s.chunks c, c₁.Last) ↔ Brings s.chunks c)) ∧
      (¬Brings s.chunks c → ((∃ rounds c', readLoop now rounds s c = some (.ok c')) ↔
        c.fdOpen = false ∨ s.rest ≠ .endOfFile))) := by
  have hends : (∃ rounds c', readLoop now rounds s c = some (.ok c')) ↔
      c.fdOpen = false ∨ (∃ c₁ ∈ finished now s.chunks c, c₁.Last) ∨ s.rest ≠ .endOfFile ∧
        ∀ c₁ ∈ finished now s.chunks c, c₁.Last ∨ ∃ c₂, c₁.requestNext now = .ok c₂ := by
    cases hfd : c.fdOpen with
    | false => exact iff_of_true ⟨1, c, readLoop_closed hfd s 0⟩ (.inl rfl)
    | true =>
      obtain ⟨chunks, rest, hfits⟩ := s
      rw [readLoop_open_iff hfits hfd]
      simp
  refine ⟨hends, fun hfit => ⟨fun hlast => ?_, fun hbrings => ?_⟩⟩
  · rw [← s.finished_ne_nil_iff now hfit]
    constructor
    · rintro ⟨c₁, hc₁, -⟩
      exact List.ne_nil_of_mem hc₁
    · intro hne
      obtain ⟨c₁, hc₁⟩ := List.exists_mem_of_ne_nil _ hne
      exact ⟨c₁, hc₁, last_of_mem_finished hlast hc₁⟩
  · have hnil : finished now s.chunks c = [] :=
      not_not.1 (mt (s.finished_ne_nil_iff now hfit).1 hbrings)
    rw [hends, hnil]
    simp

/-- The server closes the connection after a byte of the first segment. -/
theorem readLoop_never_ends : ∃ w : World lowestLevel,
    (system lowestLevel smallTable anyEvent (· ≤ ·)).Reachable w ∧ w.client.registered = true ∧
      ¬∃ rounds result, readLoop w.now rounds ⟨[1], .endOfFile, by decide⟩ w.client =
        some result := by
  have hinit : (system lowestLevel smallTable anyEvent (· ≤ ·)).Reachable
      ⟨DashClient.new smallTable 1 (), 1000⟩ := .init ⟨by decide, 1, (), _, .inl rfl, rfl⟩
  obtain ⟨c, hrun, hregistered, hfd, hdata⟩ : ∃ c,
      runRound 1000 [.socket false false true []]
        (DashClient.new smallTable 1 () : DashClient lowestLevel) = .ok c ∧
        c.registered = true ∧ c.fdOpen = true ∧ ∃ c₁, c.onData 1000 1 = .ok (c₁, false) :=
    ⟨_, rfl, rfl, rfl, _, rfl⟩
  obtain ⟨c₁, hdata⟩ := hdata
  refine ⟨⟨c, 1000⟩, reachable_runRound hinit hrun, hregistered, ?_⟩
  rintro ⟨_ | rounds, result, h⟩
  · cases h
  · rw [readLoop_cons hfd, hdata] at h
    dsimp only at h
    rw [readLoop_none _ rounds (((onData_frame hdata).2 rfl).trans hfd)] at h
    cases h

end DashClient

end DashDim
