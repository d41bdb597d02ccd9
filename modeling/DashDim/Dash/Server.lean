import DashDim.Codec.RoundTrip

/-!
# The DASH server

The end of a connection that serves segments, as in `dash/dash_server.cc`. A request is
a type and a length (`requestMessage`, as `DashClient::SendRequest` lays it out). What is
read is looked at in a piece: if it begins with a request, its length goes to a queue, and
the rest is not looked at. The queue is served from its front, as far as the socket takes
bytes.

Besides the queue, the model keeps what was ever put into it, and how many bytes were
written that the client has not read.

* `pushed_run`: what a run puts into the queue is the requests its reads begin with;
* `pushed_eq_iff`: these are the requests that were sent, exactly if each read is one of
  them.
-/

namespace DashDim

/-! ## Requests -/

/-- The type byte of a request. -/
def DashMessageType.dashReq : UInt8 := 0

namespace DashServerEndpoint

/-- The bytes of one read. -/
def kBufferSize : ℕ := 1500

end DashServerEndpoint

open DashServerEndpoint (kBufferSize)

/-- What `SendRequest` writes for a number of bytes. -/
def requestMessage (bytes : Int32) : Bytes :=
  (writeAll [(DataWriter.writeUInt8 · DashMessageType.dashReq),
    (DataWriter.writeUInt32 · bytes.toUInt32)]
    (DataWriter.new (List.replicate kBufferSize 0))).2.written

/-- What `OnReadEvent` makes of the bytes of a read: the length of a request. -/
def readRequest (buffer : Bytes) : Option Int32 :=
  match DataReader.readUInt8 (DataReader.new buffer) with
  | (none, _) => none
  | (some type, reader) =>
    if type = DashMessageType.dashReq then (DataReader.readUInt32 reader).1.map UInt32.toInt32
    else none

theorem requestMessage_eq (bytes : Int32) : requestMessage bytes =
    DashMessageType.dashReq :: uIntImage .networkByteOrder 4 bytes.toUInt32.toNat := by
  have hroom : (List.flatMap (Write.image .networkByteOrder) [.uInt8 DashMessageType.dashReq,
      .uInt32 bytes.toUInt32]).length ≤ (List.replicate kBufferSize (0 : UInt8)).length := by
    rw [List.length_replicate, List.flatMap_cons, List.flatMap_cons, List.flatMap_nil,
      List.append_nil, List.length_append, Write.image, Write.image, uIntImage_length]
    decide
  obtain ⟨w, hw, hwritten, -⟩ := written_of_fixed (by simp [Write.Fixed]) hroom
  have hrun : writeAll [(DataWriter.writeUInt8 · DashMessageType.dashReq),
      (DataWriter.writeUInt32 · bytes.toUInt32)]
      (DataWriter.new (List.replicate kBufferSize 0)) = (true, w) := hw
  rw [requestMessage, hrun, hwritten]
  rfl

@[simp] theorem requestMessage_length (bytes : Int32) : (requestMessage bytes).length = 5 := by
  rw [requestMessage_eq, List.length_cons, uIntImage_length]

/-- A read that begins with a request. -/
theorem readRequest_append (bytes : Int32) (rest : Bytes) :
    readRequest (requestMessage bytes ++ rest) = some bytes := by
  rw [requestMessage_eq]
  generalize hdata : DashMessageType.dashReq ::
    uIntImage .networkByteOrder 4 bytes.toUInt32.toNat ++ rest = data
  have htype := (DataReader.readUInt8_takes DashMessageType.dashReq).new hdata.symm
  have hlength := DataReader.readUInt32_takes bytes.toUInt32
    ((DataReader.new data).advancePos 1) rest (DataReader.wellFormed_new data .networkByteOrder) rfl
    (by rw [DataReader.unread_advancePos, DataReader.unread_new, ← hdata]; rfl)
  rw [readRequest, htype]
  dsimp only [List.length_singleton]
  rw [if_pos rfl, hlength]
  rfl

/-- A request has five bytes. -/
theorem length_of_readRequest {buffer : Bytes} {bytes : Int32}
    (h : readRequest buffer = some bytes) : 5 ≤ buffer.length := by
  rw [readRequest] at h
  split at h
  · cases h
  · next type reader htype =>
    split_ifs at h
    obtain ⟨length, hlength, -⟩ := Option.map_eq_some_iff.1 h
    obtain ⟨rfl, -⟩ := (DataReader.readBytes_advances (n := 1) (by decide)).map
      (fun bs => bs.headD 0) _ _ _ htype
    have hread : DataReader.readUInt32 ((DataReader.new buffer).advancePos 1) =
        (some length, (DataReader.readUInt32 ((DataReader.new buffer).advancePos 1)).2) :=
      Prod.ext hlength rfl
    obtain ⟨-, hroom⟩ := (DataReader.readUInt_advances (n := 4) (by decide)).map
      UInt32.ofNat _ _ _ hread
    rw [DataReader.bytesRemaining, DataReader.advancePos, DataReader.new] at hroom
    dsimp only at hroom
    omega

/-! ## The endpoint -/

/-- The descriptor is open, how much of the request at the front is served, and the
    requests; then all that were put into the queue, and the bytes that were written and
    not read. -/
structure DashServerEndpoint where
  fdOpen : Bool := true
  sentBytes : ℕ := 0
  requestBytes : List Int32 := []
  pushed : List Int32 := []
  unread : ℕ := 0
  deriving DecidableEq, Repr

namespace DashServerEndpoint

/-- The writes for a request, for how many bytes the socket takes of each: how much is
    served then, and the answers that are left. The socket is full when there are none, and
    it takes nothing for a length that is no `int`. -/
def writeLoop (bytes : ℕ) : List ℕ → ℕ → ℕ × List ℕ
  | [], sentBytes => (sentBytes, [])
  | answer :: answers, sentBytes =>
    if sentBytes < bytes then
      if bytes - sentBytes < 2 ^ 31 then
        let intend := min kBufferSize (bytes - sentBytes)
        writeLoop bytes answers (sentBytes + min (max answer 1) intend)
      else (sentBytes, answers)
    else (sentBytes, answer :: answers)

/-- The loop of `Responce` over the requests: those that are left, and how much of the
    first is served. The last result is how much is written. -/
def responceLoop : List Int32 → List ℕ → ℕ → List Int32 × ℕ × ℕ
  | [], _, sentBytes => ([], sentBytes, 0)
  | length :: requestBytes, answers, sentBytes =>
    let bytes := length.toUInt32.toNat
    let (sent, answers) := writeLoop bytes answers sentBytes
    if sent = bytes then
      let (requestBytes, rest, written) := responceLoop requestBytes answers 0
      (requestBytes, rest, sent - sentBytes + written)
    else (length :: requestBytes, sent, sent - sentBytes)

/-- `Responce` -/
def responce (answers : List ℕ) (s : DashServerEndpoint) : DashServerEndpoint :=
  if s.fdOpen then
    let (requestBytes, sentBytes, written) := responceLoop s.requestBytes answers s.sentBytes
    { s with requestBytes := requestBytes, sentBytes := sentBytes, unread := s.unread + written }
  else s

/-- What `OnReadEvent` does for a read, with the answers to the writes: the end of the
    stream closes the socket. -/
def onRead (buffer : Bytes) (answers : List ℕ) (s : DashServerEndpoint) : DashServerEndpoint :=
  if s.fdOpen then
    if buffer = [] then { s with fdOpen := false }
    else
      match readRequest buffer with
      | none => s
      | some length =>
        responce answers { s with
          requestBytes := s.requestBytes ++ [length], pushed := s.pushed ++ [length] }
  else s

/-- The socket can be read, or written. -/
inductive Event
  | readable (reads : List (Bytes × List ℕ))
  | writable (answers : List ℕ)
  deriving DecidableEq, Repr

/-- An event of the endpoint: what can be read, or that it can write again. -/
def handle (s : DashServerEndpoint) : Event → DashServerEndpoint
  | .readable reads => reads.foldl (fun s read => s.onRead read.1 read.2) s
  | .writable answers => s.responce answers

/-- The reads of an event. -/
def Event.reads : Event → List Bytes
  | .readable reads => reads.map Prod.fst
  | .writable _ => []

/-! ## What is put into the queue -/

@[simp] theorem responce_pushed (answers : List ℕ) (s : DashServerEndpoint) :
    (s.responce answers).pushed = s.pushed := by
  rw [responce]
  split_ifs <;> rfl

@[simp] theorem responce_fdOpen (answers : List ℕ) (s : DashServerEndpoint) :
    (s.responce answers).fdOpen = s.fdOpen := by
  rw [responce]
  split_ifs <;> rfl

theorem onRead_pushed {buffer : Bytes} (hne : buffer ≠ []) (answers : List ℕ)
    {s : DashServerEndpoint} (hopen : s.fdOpen = true) :
    (s.onRead buffer answers).fdOpen = true ∧
      (s.onRead buffer answers).pushed = s.pushed ++ (readRequest buffer).toList := by
  rw [onRead, if_pos hopen, if_neg hne]
  cases readRequest buffer with
  | none => exact ⟨hopen, (List.append_nil _).symm⟩
  | some length =>
    dsimp only
    rw [responce_fdOpen, responce_pushed]
    exact ⟨hopen, rfl⟩

theorem handle_pushed (event : Event) (hne : ∀ buffer ∈ event.reads, buffer ≠ [])
    {s : DashServerEndpoint} (hopen : s.fdOpen = true) :
    (s.handle event).fdOpen = true ∧
      (s.handle event).pushed = s.pushed ++ event.reads.filterMap readRequest := by
  cases event with
  | writable answers =>
    rw [handle, responce_fdOpen, responce_pushed]
    exact ⟨hopen, (List.append_nil _).symm⟩
  | readable reads =>
    rw [Event.reads] at hne ⊢
    rw [handle]
    induction reads generalizing s with
    | nil => exact ⟨hopen, (List.append_nil _).symm⟩
    | cons read reads ih =>
      rw [List.map_cons] at hne
      obtain ⟨hopen₁, hpushed₁⟩ := onRead_pushed (hne read.1 List.mem_cons_self) read.2 hopen
      obtain ⟨hopen₂, hpushed₂⟩ := ih hopen₁ fun buffer hbuffer =>
        hne buffer (List.mem_cons_of_mem _ hbuffer)
      refine ⟨hopen₂, ?_⟩
      rw [List.foldl_cons, hpushed₂, hpushed₁, List.map_cons, List.append_assoc]
      cases hread : readRequest read.1 with
      | none => rw [List.filterMap_cons_none hread, Option.toList_none, List.nil_append]
      | some length => rw [List.filterMap_cons_some hread]; rfl

/-- What a run puts into the queue. -/
theorem pushed_run {events : List Event}
    (hne : ∀ buffer ∈ events.flatMap Event.reads, buffer ≠ []) {s : DashServerEndpoint}
    (hopen : s.fdOpen = true) : (events.foldl handle s).pushed =
      s.pushed ++ (events.flatMap Event.reads).filterMap readRequest := by
  induction events generalizing s with
  | nil => exact (List.append_nil _).symm
  | cons event events ih =>
    rw [List.flatMap_cons] at hne
    obtain ⟨hopen₁, hpushed₁⟩ := handle_pushed event
      (fun buffer hbuffer => hne buffer (List.mem_append_left _ hbuffer)) hopen
    rw [List.foldl_cons, ih (fun buffer hbuffer => hne buffer (List.mem_append_right _ hbuffer))
      hopen₁, hpushed₁, List.flatMap_cons, List.filterMap_append, List.append_assoc]

/-! ## Requests and reads -/

/-- The requests that reads begin with have five bytes each; if that is all there is, each
    read is a request. -/
theorem length_filterMap_readRequest {buffers : List Bytes}
    (hne : ∀ buffer ∈ buffers, buffer ≠ []) :
    5 * (buffers.filterMap readRequest).length ≤ buffers.flatten.length ∧
      (buffers.flatten.length ≤ 5 * (buffers.filterMap readRequest).length →
        ∀ buffer ∈ buffers, buffer.length = 5) := by
  induction buffers with
  | nil => exact ⟨le_rfl, fun _ buffer h => absurd h List.not_mem_nil⟩
  | cons buffer buffers ih =>
    obtain ⟨hle, hall⟩ := ih fun buffer hbuffer => hne buffer (List.mem_cons_of_mem _ hbuffer)
    have hpos : 0 < buffer.length := List.length_pos_iff.2 (hne buffer List.mem_cons_self)
    rw [List.flatten_cons, List.length_append]
    cases hread : readRequest buffer with
    | none =>
      rw [List.filterMap_cons_none hread]
      exact ⟨by omega, fun h => absurd h (by omega)⟩
    | some length =>
      have hfive := length_of_readRequest hread
      rw [List.filterMap_cons_some hread, List.length_cons]
      refine ⟨by omega, fun h => ?_⟩
      rw [List.forall_mem_cons]
      exact ⟨by omega, hall (by omega)⟩

theorem length_flatMap_requestMessage (requests : List Int32) :
    (requests.flatMap requestMessage).length = 5 * requests.length := by
  induction requests with
  | nil => rfl
  | cons length requests ih =>
    rw [List.flatMap_cons, List.length_append, requestMessage_length, ih, List.length_cons]
    omega

/-- Reads of a request each. -/
theorem filterMap_readRequest {buffers : List Bytes} {requests : List Int32}
    (hcut : buffers.flatten = requests.flatMap requestMessage)
    (hfive : ∀ buffer ∈ buffers, buffer.length = 5) :
    buffers.filterMap readRequest = requests := by
  induction buffers generalizing requests with
  | nil =>
    have hlen := length_flatMap_requestMessage requests
    rw [← hcut, List.flatten_nil, List.length_nil] at hlen
    exact (List.length_eq_zero_iff.1 (by omega)).symm
  | cons buffer buffers ih =>
    rw [List.forall_mem_cons] at hfive
    cases requests with
    | nil =>
      rw [List.flatten_cons, List.flatMap_nil, List.append_eq_nil_iff] at hcut
      have hlen := hfive.1
      rw [hcut.1] at hlen
      cases hlen
    | cons length requests =>
      rw [List.flatten_cons, List.flatMap_cons] at hcut
      obtain ⟨hbuffer, hrest⟩ := List.append_inj hcut (by rw [hfive.1, requestMessage_length])
      have hread : readRequest buffer = some length := by
        rw [hbuffer, ← readRequest_append length [], List.append_nil]
      rw [List.filterMap_cons_some hread, ih hrest hfive.2]

/-- What is put into the queue is the requests that were sent, exactly if each read is one
    of them. -/
theorem pushed_eq_iff {events : List Event} {requests : List Int32}
    (hne : ∀ buffer ∈ events.flatMap Event.reads, buffer ≠ [])
    (hcut : (events.flatMap Event.reads).flatten = requests.flatMap requestMessage) :
    (events.foldl handle {}).pushed = requests ↔
      ∀ buffer ∈ events.flatMap Event.reads, buffer.length = 5 := by
  rw [pushed_run hne rfl, List.nil_append]
  refine ⟨fun hpushed => ?_, filterMap_readRequest hcut⟩
  refine (length_filterMap_readRequest hne).2 ?_
  rw [hpushed, hcut, length_flatMap_requestMessage]

/-- Two requests, one read each. -/
theorem pushed_two_reads :
    ([Event.readable [(requestMessage 1000, [])], .readable [(requestMessage 2000, [1500])]].foldl
      handle {}).pushed = [1000, 2000] :=
  Iff.mpr (pushed_eq_iff (by decide +kernel) (by decide +kernel)) (by decide +kernel)

/-- Two requests in one read. -/
theorem pushed_one_read : ¬ ∀ events : List Event, ∀ requests : List Int32,
    (∀ buffer ∈ events.flatMap Event.reads, buffer ≠ []) →
      (events.flatMap Event.reads).flatten = requests.flatMap requestMessage →
        (events.foldl handle {}).pushed = requests := by
  intro h
  have htwo := h [.readable [(requestMessage 1000 ++ requestMessage 2000, [])]] [1000, 2000]
    (by decide +kernel) (by decide +kernel)
  exact absurd htwo (by decide +kernel)

end DashServerEndpoint

end DashDim
