import DashDim.Dash.Server

/-!
# What the server writes

The loops of `DashServerEndpoint::Responce`, with a log of what each write asks for and takes,
and of the requests that are served. What a write asks for is an `int`: for a length of
`2 ^ 31` or more that is a negative number, and the request is never served.

* `handle_accounts`: the log accounts for every byte, wherever the writes stop;
* `serves_iff`: in every run each write asks for bytes of a buffer, exactly if the lengths of
  the requests are shorter.
-/

namespace DashDim

namespace DashServerEndpoint

/-- What a write asks for, and how much it takes. One that fails takes nothing. -/
structure WriteCall where
  asked : ℤ
  taken : ℕ
  deriving DecidableEq, Repr

/-- The smaller of the size of the buffer and what is left of the request, which is 32 bits
    that are taken for an `int`. -/
def intend (bytes sentBytes : ℕ) : ℤ :=
  min (kBufferSize : ℤ) (UInt32.ofNat (bytes - sentBytes)).toInt32.toInt

theorem toInt_ofNat {n : ℕ} (h : n < 2 ^ 32) :
    (UInt32.ofNat n).toInt32.toInt = if n < 2 ^ 31 then (n : ℤ) else n - 2 ^ 32 := by
  change (UInt32.ofNat n).toBitVec.toInt = _
  rw [BitVec.toInt_eq_toNat_bmod, UInt32.toNat_toBitVec, UInt32.toNat_ofNat_of_lt' h]
  split_ifs with hlt
  · exact Int.bmod_eq_of_le (by omega) (by omega)
  · rw [Int.bmod_def]
    have hmod : (n : ℤ) % ((2 ^ 32 : ℕ) : ℤ) = n := Int.emod_eq_of_lt (by omega) (by omega)
    rw [hmod, if_neg (by omega)]
    omega

theorem intend_eq {bytes sentBytes : ℕ} (h : bytes - sentBytes < 2 ^ 31) :
    intend bytes sentBytes = (min kBufferSize (bytes - sentBytes) : ℕ) := by
  rw [intend, toInt_ofNat (by omega), if_pos h, Nat.cast_min]

theorem intend_neg {bytes sentBytes : ℕ} (hlt : bytes - sentBytes < 2 ^ 32)
    (h : ¬bytes - sentBytes < 2 ^ 31) : intend bytes sentBytes < 0 := by
  rw [intend, toInt_ofNat hlt, if_neg h]
  omega

/-! ## The loops -/

/-- `writeLoop`, with its writes. -/
def writes (bytes : ℕ) : List ℕ → ℕ → (ℕ × List ℕ) × List WriteCall
  | [], sentBytes =>
    ((sentBytes, []), if sentBytes < bytes then [⟨intend bytes sentBytes, 0⟩] else [])
  | answer :: answers, sentBytes =>
    if sentBytes < bytes then
      let asked := intend bytes sentBytes
      if 0 < asked then
        let taken := min (max answer 1) asked.toNat
        let (result, calls) := writes bytes answers (sentBytes + taken)
        (result, ⟨asked, taken⟩ :: calls)
      else ((sentBytes, answers), [⟨asked, 0⟩])
    else ((sentBytes, answer :: answers), [])

/-- `responceLoop`, with the requests that are served, and the writes. -/
def responces : List Int32 → List ℕ → ℕ → (List Int32 × ℕ) × List Int32 × List WriteCall
  | [], _, sentBytes => (([], sentBytes), [], [])
  | length :: requestBytes, answers, sentBytes =>
    let bytes := length.toUInt32.toNat
    let ((sent, answers), calls) := writes bytes answers sentBytes
    if sent = bytes then
      let (result, served, calls') := responces requestBytes answers 0
      (result, length :: served, calls ++ calls')
    else ((length :: requestBytes, sent), [], calls)

theorem writes_fst {bytes : ℕ} (hbytes : bytes < 2 ^ 32) (answers : List ℕ) (sentBytes : ℕ) :
    (writes bytes answers sentBytes).1 = writeLoop bytes answers sentBytes := by
  induction answers generalizing sentBytes with
  | nil => rfl
  | cons answer answers ih =>
    rw [writes, writeLoop]
    by_cases hmore : sentBytes < bytes
    · rw [if_pos hmore, if_pos hmore]
      by_cases hint : bytes - sentBytes < 2 ^ 31
      · have hask := intend_eq hint
        have hpos : 0 < intend bytes sentBytes := by
          rw [hask, kBufferSize]
          omega
        rw [if_pos hint]
        simp only [if_pos hpos, ih]
        rw [hask, Int.toNat_natCast]
      · have hneg := intend_neg (by omega) hint
        rw [if_neg hint]
        simp only [if_neg hneg.not_gt]
    · rw [if_neg hmore, if_neg hmore]

theorem responces_fst (requestBytes : List Int32) (answers : List ℕ) (sentBytes : ℕ) :
    (responces requestBytes answers sentBytes).1 =
      ((responceLoop requestBytes answers sentBytes).1,
        (responceLoop requestBytes answers sentBytes).2.1) := by
  induction requestBytes generalizing answers sentBytes with
  | nil => rfl
  | cons length requestBytes ih =>
    have hfst := writes_fst length.toUInt32.toNat_lt answers sentBytes
    rw [responces, responceLoop]
    generalize writes length.toUInt32.toNat answers sentBytes = res at hfst ⊢
    obtain ⟨⟨sent, rest⟩, calls⟩ := res
    dsimp only at hfst ⊢
    rw [← hfst]
    by_cases hall : sent = length.toUInt32.toNat
    · simp only [if_pos hall, ih]
    · simp only [if_neg hall]

/-! ### What they account for -/

/-- The bytes that writes took. -/
def taken (calls : List WriteCall) : ℕ := (calls.map WriteCall.taken).sum

/-- The bytes of requests. -/
def total (lengths : List Int32) : ℕ := (lengths.map fun length => length.toUInt32.toNat).sum

/-- The length is an `int`. -/
def Short (length : Int32) : Prop := length.toUInt32.toNat < 2 ^ 31

/-- A write asks for a byte at least, and for a buffer at most. -/
def Asks (call : WriteCall) : Prop := 1 ≤ call.asked ∧ call.asked ≤ kBufferSize

@[simp] theorem taken_nil : taken [] = 0 := rfl

@[simp] theorem taken_cons (call : WriteCall) (calls : List WriteCall) :
    taken (call :: calls) = call.taken + taken calls := List.sum_cons

@[simp] theorem taken_append (calls calls' : List WriteCall) :
    taken (calls ++ calls') = taken calls + taken calls' := by
  rw [taken, List.map_append, List.sum_append]
  rfl

@[simp] theorem total_nil : total [] = 0 := rfl

@[simp] theorem total_cons (length : Int32) (lengths : List Int32) :
    total (length :: lengths) = length.toUInt32.toNat + total lengths := List.sum_cons

@[simp] theorem total_append (lengths lengths' : List Int32) :
    total (lengths ++ lengths') = total lengths + total lengths' := by
  rw [total, List.map_append, List.sum_append]
  rfl

/-- No more is asked for than what is left. -/
theorem intend_le {bytes : ℕ} (hbytes : bytes < 2 ^ 32) (sentBytes : ℕ) :
    intend bytes sentBytes ≤ (bytes - sentBytes : ℕ) := by
  by_cases hint : bytes - sentBytes < 2 ^ 31
  · rw [intend_eq hint]
    omega
  · -- the difference is taken for a negative number
    rw [intend, toInt_ofNat (by omega), if_neg hint]
    omega

/-- The writes for a request take what it is served with, and never more than it asks for. -/
theorem writes_spec {bytes : ℕ} (hbytes : bytes < 2 ^ 32) (answers : List ℕ) {sentBytes : ℕ}
    (hsent : sentBytes ≤ bytes) :
    (writes bytes answers sentBytes).1.1 ≤ bytes ∧
      (writes bytes answers sentBytes).1.1 =
        sentBytes + taken (writes bytes answers sentBytes).2 ∧
      (bytes < 2 ^ 31 → ∀ call ∈ (writes bytes answers sentBytes).2, Asks call) := by
  -- the difference is an `int`, and the right one if the request is short
  have hasks : ∀ sentBytes n, sentBytes < bytes → bytes < 2 ^ 31 →
      Asks ⟨intend bytes sentBytes, n⟩ := by
    intro sentBytes n hmore hint
    rw [Asks, intend_eq (by omega), kBufferSize]
    dsimp only
    omega
  induction answers generalizing sentBytes with
  | nil =>
    rw [writes]
    by_cases hmore : sentBytes < bytes
    · rw [if_pos hmore]
      refine ⟨hsent, rfl, fun hint call hcall => ?_⟩
      rw [List.mem_singleton] at hcall
      exact hcall ▸ hasks _ _ hmore hint
    · rw [if_neg hmore]
      exact ⟨hsent, rfl, fun _ _ h => absurd h List.not_mem_nil⟩
  | cons answer answers ih =>
    rw [writes]
    by_cases hmore : sentBytes < bytes
    · rw [if_pos hmore]
      by_cases hpos : 0 < intend bytes sentBytes
      · simp only [if_pos hpos]
        have hle : sentBytes + min (max answer 1) (intend bytes sentBytes).toNat ≤ bytes := by
          have hask := intend_le hbytes sentBytes
          omega
        obtain ⟨hbound, hsum, hall⟩ := ih hle
        refine ⟨hbound, ?_, fun hint => ?_⟩
        · rw [hsum, taken_cons, Nat.add_assoc]
        · rw [List.forall_mem_cons]
          exact ⟨hasks _ _ hmore hint, hall hint⟩
      · -- the call fails, and what it asks for is a length only if the request is short
        simp only [if_neg hpos]
        refine ⟨hsent, rfl, fun hint call hcall => ?_⟩
        rw [List.mem_singleton] at hcall
        exact hcall ▸ hasks _ _ hmore hint
    · rw [if_neg hmore]
      exact ⟨hsent, rfl, fun _ _ h => absurd h List.not_mem_nil⟩

/-- Wherever the loop stops, the requests before are served, in order, the one at the front is
    not, and there is a front if anything is served of it. -/
theorem responces_spec {requestBytes : List Int32} (answers : List ℕ) {sentBytes : ℕ}
    (hsent : ∀ length ∈ requestBytes.head?, sentBytes ≤ length.toUInt32.toNat)
    (hidle : requestBytes = [] → sentBytes = 0) :
    let r := responces requestBytes answers sentBytes
    r.2.1 ++ r.1.1 = requestBytes ∧ sentBytes + taken r.2.2 = total r.2.1 + r.1.2 ∧
      (∀ length ∈ r.1.1.head?, r.1.2 < length.toUInt32.toNat) ∧ (r.1.1 = [] → r.1.2 = 0) ∧
      ((∀ length ∈ requestBytes, Short length) → ∀ call ∈ r.2.2, Asks call) := by
  induction requestBytes generalizing answers sentBytes with
  | nil =>
    dsimp only [responces]
    refine ⟨rfl, by rw [taken_nil, total_nil, Nat.add_comm], ?_, hidle, ?_⟩
    · exact fun _ h => absurd h (Option.not_mem_none _)
    · exact fun _ _ h => absurd h List.not_mem_nil
  | cons length requestBytes ih =>
    obtain ⟨hle, hsum, hasks⟩ := writes_spec length.toUInt32.toNat_lt answers (hsent length rfl)
    rw [responces]
    generalize writes length.toUInt32.toNat answers sentBytes = res at hle hsum hasks ⊢
    obtain ⟨⟨sent, rest⟩, calls⟩ := res
    dsimp only at hle hsum hasks ⊢
    by_cases hall : sent = length.toUInt32.toNat
    · -- the next one starts from zero
      obtain ⟨horder, hbalance, hfront, hempty, hasks'⟩ :=
        @ih rest 0 (fun _ _ => Nat.zero_le _) fun _ => rfl
      simp only [if_pos hall]
      refine ⟨?_, ?_, hfront, hempty, fun hint => ?_⟩
      · rw [List.cons_append, horder]
      · rw [Nat.zero_add] at hbalance
        rw [taken_append, total_cons, ← hall, hsum, hbalance]
        ac_rfl
      · rw [List.forall_mem_cons] at hint
        rw [List.forall_mem_append]
        exact ⟨hasks hint.1, hasks' hint.2⟩
    · -- the request stays at the front, with what was written of it
      simp only [if_neg hall]
      refine ⟨rfl, ?_, ?_, fun h => absurd h (List.cons_ne_nil _ _), fun hint => ?_⟩
      · rw [total_nil, Nat.zero_add, hsum]
      · intro front hfront
        cases hfront
        exact lt_of_le_of_ne hle hall
      · exact hasks (hint length List.mem_cons_self)

/-! ## Runs -/

/-- An endpoint, the requests that were served and the writes that were made. -/
structure Logged where
  endpoint : DashServerEndpoint := {}
  served : List Int32 := []
  calls : List WriteCall := []
  deriving DecidableEq, Repr

namespace Logged

/-- The requests are put into the queue. -/
def push (lengths : List Int32) (t : Logged) : Logged :=
  { t with endpoint := { t.endpoint with
      requestBytes := t.endpoint.requestBytes ++ lengths
      pushed := t.endpoint.pushed ++ lengths } }

/-- A `Responce` with the calls it makes and the requests it finishes. -/
def responce (answers : List ℕ) (t : Logged) : Logged :=
  if t.endpoint.fdOpen then
    let (_, served, calls) := responces t.endpoint.requestBytes answers t.endpoint.sentBytes
    { endpoint := t.endpoint.responce answers
      served := t.served ++ served
      calls := t.calls ++ calls }
  else t

/-- One read with what is logged of it. -/
def onRead (buffer : Bytes) (answers : List ℕ) (t : Logged) : Logged :=
  if t.endpoint.fdOpen then
    if buffer = [] then { t with endpoint := { t.endpoint with fdOpen := false } }
    else
      match readRequest buffer with
      | none => t
      | some length => responce answers (t.push [length])
  else t

/-- An event with what is logged of it. -/
def handle (t : Logged) : Event → Logged
  | .readable reads => reads.foldl (fun t read => t.onRead read.1 read.2) t
  | .writable answers => t.responce answers

/-! ### The log changes nothing -/

theorem responce_endpoint (answers : List ℕ) (t : Logged) :
    (t.responce answers).endpoint = t.endpoint.responce answers := by
  rw [responce]
  split_ifs with hopen
  · rfl
  · rw [DashServerEndpoint.responce, if_neg hopen]

theorem onRead_endpoint (buffer : Bytes) (answers : List ℕ) (t : Logged) :
    (t.onRead buffer answers).endpoint = t.endpoint.onRead buffer answers := by
  rw [onRead, DashServerEndpoint.onRead]
  split_ifs with hopen hend
  · rfl
  · cases readRequest buffer with
    | none => rfl
    | some length => exact responce_endpoint _ _
  · rfl

theorem handle_endpoint (t : Logged) (event : Event) :
    (t.handle event).endpoint = t.endpoint.handle event := by
  cases event with
  | readable reads =>
    rw [handle, DashServerEndpoint.handle]
    induction reads generalizing t with
    | nil => rfl
    | cons read reads ih => rw [List.foldl_cons, List.foldl_cons, ih, onRead_endpoint]
  | writable answers => exact responce_endpoint answers t

theorem run_endpoint (t : Logged) (events : List Event) :
    (events.foldl handle t).endpoint = events.foldl DashServerEndpoint.handle t.endpoint := by
  induction events generalizing t with
  | nil => rfl
  | cons event events ih => rw [List.foldl_cons, List.foldl_cons, ih, handle_endpoint]

/-! ### What every run keeps -/

/-- The requests are served in the order they came in; the bytes written are those of the
    requests served and the part of the one at the front, which is not all of it. -/
structure Accounts (t : Logged) : Prop where
  order : t.served ++ t.endpoint.requestBytes = t.endpoint.pushed
  balance : taken t.calls = total t.served + t.endpoint.sentBytes
  front : ∀ length ∈ t.endpoint.requestBytes.head?,
    t.endpoint.sentBytes < length.toUInt32.toNat
  idle : t.endpoint.requestBytes = [] → t.endpoint.sentBytes = 0

/-- And each write asks for at least a byte and at most a buffer. -/
structure Serves (t : Logged) : Prop extends Accounts t where
  asks : ∀ call ∈ t.calls, Asks call

/-- The writes ask so if no request was longer. -/
structure Sound (t : Logged) : Prop extends Accounts t where
  asks_of_short : (∀ length ∈ t.endpoint.pushed, Short length) → ∀ call ∈ t.calls, Asks call

/-- What is put into the queue is served, however much of it. -/
theorem Sound.responce {t : Logged} (h : Sound t) (answers : List ℕ) (lengths : List Int32)
    (hopen : t.endpoint.fdOpen = true) : Sound ((t.push lengths).responce answers) := by
  have hfront : ∀ length ∈ (t.endpoint.requestBytes ++ lengths).head?,
      t.endpoint.sentBytes ≤ length.toUInt32.toNat := by
    intro length hlength
    cases hq : t.endpoint.requestBytes with
    | nil =>
      rw [h.idle hq]
      exact Nat.zero_le _
    | cons front rest =>
      rw [hq] at hlength
      exact (h.front length (by rw [hq]; exact hlength)).le
  obtain ⟨horder, hbalance, hless, hempty, hasks⟩ := responces_spec answers hfront fun hnil =>
    h.idle (List.append_eq_nil_iff.1 hnil).1
  have hfst := responces_fst (t.endpoint.requestBytes ++ lengths) answers t.endpoint.sentBytes
  rw [Logged.responce, push, if_pos hopen]
  simp only [DashServerEndpoint.responce, if_pos hopen]
  generalize responces (t.endpoint.requestBytes ++ lengths) answers t.endpoint.sentBytes = res
    at horder hbalance hless hempty hasks hfst
  obtain ⟨⟨queue, sent⟩, served, calls⟩ := res
  dsimp only at horder hbalance hless hempty hasks hfst ⊢
  obtain ⟨hqueue, hsent⟩ := Prod.mk.inj hfst
  rw [← hqueue, ← hsent]
  refine ⟨⟨?_, ?_, hless, hempty⟩, fun hshort => ?_⟩
  · rw [List.append_assoc, horder, ← List.append_assoc, h.order]
  · rw [taken_append, total_append, h.balance, Nat.add_assoc, hbalance, Nat.add_assoc]
  · rw [List.forall_mem_append]
    refine ⟨h.asks_of_short fun length hlength => hshort length (List.mem_append_left _ hlength),
      hasks fun length hlength => hshort length ?_⟩
    rw [← h.order, List.append_assoc]
    exact List.mem_append_right _ hlength

theorem push_nil (t : Logged) : t.push [] = t := by
  rw [push, List.append_nil, List.append_nil]

theorem Sound.onRead {t : Logged} (h : Sound t) (buffer : Bytes) (answers : List ℕ) :
    Sound (t.onRead buffer answers) := by
  rw [Logged.onRead]
  split_ifs with hopen hend
  · exact ⟨⟨h.order, h.balance, h.front, h.idle⟩, h.asks_of_short⟩
  · cases readRequest buffer with
    | none => exact h
    | some length => exact h.responce answers [length] hopen
  · exact h

theorem Sound.handle {t : Logged} (h : Sound t) (event : Event) : Sound (t.handle event) := by
  cases event with
  | readable reads =>
    rw [Logged.handle]
    induction reads generalizing t with
    | nil => exact h
    | cons read reads ih => exact ih (h.onRead read.1 read.2)
  | writable answers =>
    rw [Logged.handle]
    by_cases hopen : t.endpoint.fdOpen = true
    · rw [← push_nil t]
      exact h.responce answers [] hopen
    · rw [Logged.responce, if_neg hopen]
      exact h

/-- In every run. -/
theorem Sound.run {t : Logged} (h : Sound t) (events : List Event) :
    Sound (events.foldl Logged.handle t) := by
  induction events generalizing t with
  | nil => exact h
  | cons event events ih => exact ih (h.handle event)

theorem sound_start : Sound {} := by
  refine ⟨⟨rfl, rfl, ?_, fun _ => rfl⟩, fun _ _ h => absurd h List.not_mem_nil⟩
  exact fun _ h => absurd h (Option.not_mem_none _)

/-! ### Requests that are too long -/

/-- A socket that takes whole buffers takes all of a request. -/
theorem writes_full {bytes : ℕ} (hbytes : bytes < 2 ^ 31) {n sentBytes : ℕ}
    (hsent : sentBytes ≤ bytes) (hn : bytes - sentBytes ≤ n) :
    (writes bytes (List.replicate n kBufferSize) sentBytes).1.1 = bytes := by
  induction n generalizing sentBytes with
  | zero => exact le_antisymm hsent (Nat.sub_eq_zero_iff_le.1 (Nat.le_zero.1 hn))
  | succ n ih =>
    rw [List.replicate_succ, writes]
    by_cases hmore : sentBytes < bytes
    · have hless : bytes - sentBytes < 2 ^ 31 := by omega
      have hask := intend_eq hless
      have hsize : kBufferSize = 1500 := rfl
      have hpos : 0 < intend bytes sentBytes := by
        rw [hask]
        omega
      rw [if_pos hmore]
      simp only [if_pos hpos]
      rw [hask, Int.toNat_natCast]
      exact ih (by omega) (by omega)
    · rw [if_neg hmore]
      dsimp only
      omega

/-- For one that is too long the first write asks for a negative amount. -/
theorem writes_long {bytes : ℕ} (hlt : bytes < 2 ^ 32) (hlong : ¬bytes < 2 ^ 31)
    (answers : List ℕ) : (writes bytes answers 0).2 = [⟨intend bytes 0, 0⟩] := by
  have hneg : intend bytes 0 < 0 := intend_neg hlt hlong
  have hmore : 0 < bytes := by omega
  cases answers with
  | nil => rw [writes, if_pos hmore]
  | cons answer answers =>
    rw [writes, if_pos hmore]
    simp only [if_neg hneg.not_gt]

/-- Nothing waits. -/
structure Idle (t : Logged) : Prop where
  fdOpen : t.endpoint.fdOpen = true
  requestBytes : t.endpoint.requestBytes = []
  sentBytes : t.endpoint.sentBytes = 0

/-- A request that comes alone. -/
theorem Idle.onRead {t : Logged} (h : Idle t) (length : Int32) (answers : List ℕ) :
    (t.onRead (requestMessage length) answers).endpoint.fdOpen = true ∧
      (t.onRead (requestMessage length) answers).endpoint.pushed =
        t.endpoint.pushed ++ [length] ∧
      ((t.onRead (requestMessage length) answers).endpoint.requestBytes,
        (t.onRead (requestMessage length) answers).endpoint.sentBytes) =
          (responces [length] answers 0).1 ∧
      (t.onRead (requestMessage length) answers).calls =
        t.calls ++ (responces [length] answers 0).2.2 := by
  have hne : requestMessage length ≠ [] := by
    rw [requestMessage_eq]
    exact List.cons_ne_nil _ _
  have hread : readRequest (requestMessage length) = some length := by
    rw [← readRequest_append length [], List.append_nil]
  have hopen : (t.push [length]).endpoint.fdOpen = true := h.fdOpen
  have hqueue : (t.push [length]).endpoint.requestBytes = [length] := by
    rw [push, h.requestBytes]
    rfl
  have hsent : (t.push [length]).endpoint.sentBytes = 0 := h.sentBytes
  rw [Logged.onRead, if_pos h.fdOpen, if_neg hne, hread]
  dsimp only
  rw [Logged.responce, if_pos hopen, DashServerEndpoint.responce, if_pos hopen, hqueue, hsent]
  exact ⟨hopen, rfl, (responces_fst _ _ _).symm, rfl⟩

/-- It is served if it is not too long. -/
theorem Idle.serve {t : Logged} (h : Idle t) {length : Int32} (hshort : Short length) :
    Idle (t.onRead (requestMessage length)
      (List.replicate length.toUInt32.toNat kBufferSize)) := by
  have hfull := writes_full hshort (Nat.zero_le _) (Nat.sub_le length.toUInt32.toNat 0)
  obtain ⟨hopen, -, hqueue, -⟩ := h.onRead length
    (List.replicate length.toUInt32.toNat kBufferSize)
  have hnone : (responces [length] (List.replicate length.toUInt32.toNat kBufferSize) 0).1 =
      ([], 0) := by
    rw [responces]
    simp only [if_pos hfull]
    rfl
  rw [hnone] at hqueue
  obtain ⟨hrequest, hsent⟩ := Prod.mk.inj hqueue
  exact ⟨hopen, hrequest, hsent⟩

/-- If it is too long, its first write does not ask for a byte. -/
theorem Idle.not_asks {t : Logged} (h : Idle t) {length : Int32} (hlong : ¬Short length)
    (answers : List ℕ) :
    ¬∀ call ∈ (t.onRead (requestMessage length) answers).calls, Asks call := by
  have hlt := length.toUInt32.toNat_lt
  have hcalls := writes_long hlt hlong answers
  have hsent : (writes length.toUInt32.toNat answers 0).1.1 ≠ length.toUInt32.toNat := by
    have hsum := (writes_spec hlt answers (Nat.zero_le _)).2.1
    rw [hcalls, taken_cons, taken_nil] at hsum
    rw [hsum]
    rw [Short] at hlong
    dsimp only
    omega
  have hone : (responces [length] answers 0).2.2 = [⟨intend length.toUInt32.toNat 0, 0⟩] := by
    rw [responces]
    simp only [if_neg hsent]
    exact hcalls
  obtain ⟨-, -, -, hlog⟩ := h.onRead length answers
  intro hasks
  rw [hlog, hone] at hasks
  have hfirst := (hasks _ (List.mem_append_right _ (List.mem_singleton_self _))).1
  have hneg : intend length.toUInt32.toNat 0 < 0 := intend_neg hlt hlong
  exact absurd (one_pos.trans_le hfirst) hneg.not_gt

/-- Each request is a read of its own, and the socket takes whole buffers. -/
def serveEach (lengths : List Int32) : List Event :=
  lengths.map fun length => .readable [(requestMessage length,
    List.replicate length.toUInt32.toNat kBufferSize)]

theorem serveEach_append_singleton (lengths : List Int32) (length : Int32) :
    (serveEach (lengths ++ [length])).foldl Logged.handle {} =
      ((serveEach lengths).foldl Logged.handle {}).onRead (requestMessage length)
        (List.replicate length.toUInt32.toNat kBufferSize) := by
  rw [serveEach, List.map_append, List.map_singleton, List.foldl_append, List.foldl_cons,
    List.foldl_nil, Logged.handle, List.foldl_cons, List.foldl_nil, serveEach]

/-- The requests of a run that are served one by one: if all runs serve them, they are short, and
    nothing is left of them. -/
theorem serveEach_spec {requests : List Int32}
    (hserves : ∀ events : List Event, (events.foldl Logged.handle {}).endpoint.pushed <+: requests →
      Serves (events.foldl Logged.handle {})) (lengths rest : List Int32)
    (h : lengths ++ rest = requests) :
    Idle ((serveEach lengths).foldl Logged.handle {}) ∧
      ((serveEach lengths).foldl Logged.handle {}).endpoint.pushed = lengths ∧
      ∀ length ∈ lengths, Short length := by
  induction lengths using List.reverseRecOn generalizing rest with
  | nil => exact ⟨⟨rfl, rfl, rfl⟩, rfl, fun _ h => absurd h List.not_mem_nil⟩
  | append_singleton lengths length ih =>
    rw [List.append_assoc] at h
    obtain ⟨hidle, hpushed, hshort⟩ := ih _ h
    have hrun := serveEach_append_singleton lengths length
    have hpushed' : ((serveEach (lengths ++ [length])).foldl Logged.handle {}).endpoint.pushed =
        lengths ++ [length] := by
      rw [hrun, (hidle.onRead length _).2.1, hpushed]
    have hlength : Short length := by
      by_contra hlong
      -- a long one is never served, whatever the socket takes
      refine hidle.not_asks hlong (List.replicate length.toUInt32.toNat kBufferSize) ?_
      rw [← hrun]
      refine (hserves _ ?_).asks
      rw [hpushed', ← h, ← List.append_assoc]
      exact List.prefix_append _ _
    refine ⟨hrun ▸ hidle.serve hlength, hpushed', ?_⟩
    rw [List.forall_mem_append, List.forall_mem_singleton]
    exact ⟨hshort, hlength⟩

/-- In every run each request is served, in order, by writes that ask for at least a byte and
    at most a buffer, exactly if all lengths are below `2 ^ 31`. -/
theorem serves_iff (requests : List Int32) :
    (∀ events : List Event, (events.foldl Logged.handle {}).endpoint.pushed <+: requests →
      Serves (events.foldl Logged.handle {})) ↔ ∀ length ∈ requests, Short length := by
  constructor
  · -- serve the requests one by one: each is short when it is its turn
    exact fun hserves => (serveEach_spec hserves requests [] (List.append_nil _)).2.2
  · intro hshort events hpushed
    have hsound := sound_start.run events
    exact ⟨hsound.toAccounts, hsound.asks_of_short fun length hlength =>
      hshort length (hpushed.subset hlength)⟩

/-- For a request of `2 ^ 31` bytes the only write asks for a negative number. -/
theorem not_serves_long :
    (([Event.readable [(requestMessage (-2 ^ 31), [1500])]].foldl Logged.handle {}).calls =
      [⟨-2 ^ 31, 0⟩]) ∧
    ¬Serves ([Event.readable [(requestMessage (-2 ^ 31), [1500])]].foldl Logged.handle {}) := by
  have hcalls : ([Event.readable [(requestMessage (-2 ^ 31), [1500])]].foldl Logged.handle
      {}).calls = [⟨-2 ^ 31, 0⟩] := by
    decide +kernel
  refine ⟨hcalls, fun hserves => ?_⟩
  have hasks := hserves.asks
  rw [hcalls] at hasks
  exact absurd (hasks _ (List.mem_singleton_self _)).1 (by decide)

end Logged

end DashServerEndpoint

end DashDim
