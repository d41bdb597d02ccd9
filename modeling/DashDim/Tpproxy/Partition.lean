import DashDim.Tpproxy.Server

/-!
# How a buffer is scheduled

`schedule` makes calls of `sendData`, and what these are depends on nothing but the buffer, the
offset and the shares: `parts` lists them, by connection.

* `parts_partition`: their payloads are the buffer, cut into packets and shared out in order;
* `schedule_eq`: the calls are all that `schedule` does.
-/

namespace DashDim

namespace NearEnd

variable {n : ℕ}

/-- A call of `sendData`. -/
structure Emission (n : ℕ) where
  connection : Fin n
  offset : UInt64
  payload : Bytes
  deriving DecidableEq

/-- The call is made. -/
def emit (answers : UInt64 → List SendAnswer) (s : NearEnd n) (e : Emission n) :
    Option (NearEnd n) :=
  ((s.connections e.connection).sendData (answers e.offset) e.offset e.payload).map
    fun (out, c) => s.put e.connection out c

/-- The payloads of calls, one after the other. -/
def payloads (es : List (Emission n)) : Bytes := es.flatMap Emission.payload

/-- Each call goes on where the last one ended. -/
def Consecutive : UInt64 → List (Emission n) → Prop
  | _, [] => True
  | offset, e :: es => e.offset = offset ∧ Consecutive (offset + UInt64.ofNat e.payload.length) es

/-- The calls of `sendDataWithLimit`, for a number of rounds. -/
def packets (i : Fin n) : ℕ → UInt64 → Bytes → List (Emission n)
  | 0, _, _ => []
  | rounds + 1, offset, pv =>
    if pv.length > 0 then
      let sent := min pv.length kMaxPacketLength
      ⟨i, offset, pv.take sent⟩ :: packets i rounds (offset + UInt64.ofNat sent) (pv.drop sent)
    else []

/-- The calls of `schedule`, for each connection that gets some of the data. -/
def parts (share : Fin n → ℕ → ℕ) : List (Fin n) → UInt64 → Bytes →
    List (Fin n × List (Emission n))
  | [], _, _ => []
  | [i], offset, data => if data.length > 0 then [(i, packets i data.length offset data)] else []
  | i :: j :: connections, offset, data =>
    if data.length > 0 then
      let sent := min (max (share i data.length) kMinPayloadSize) data.length
      (i, packets i (data.take sent).length offset (data.take sent)) ::
        parts share (j :: connections) (offset + UInt64.ofNat sent) (data.drop sent)
    else []

/-! ## What the calls are -/

theorem payloads_append (es es' : List (Emission n)) :
    payloads (es ++ es') = payloads es ++ payloads es' := List.flatMap_append

theorem consecutive_append {offset : UInt64} {es es' : List (Emission n)} :
    Consecutive offset (es ++ es') ↔ Consecutive offset es ∧
      Consecutive (offset + UInt64.ofNat (payloads es).length) es' := by
  induction es generalizing offset with
  | nil =>
    have hzero : offset + UInt64.ofNat 0 = offset := UInt64.add_zero offset
    rw [List.nil_append, payloads, List.flatMap_nil, List.length_nil, hzero]
    exact (and_iff_right trivial).symm
  | cons e es ih =>
    rw [List.cons_append, Consecutive, Consecutive, ih, payloads, payloads, List.flatMap_cons,
      List.length_append, UInt64.ofNat_add, UInt64.add_assoc, and_assoc]

/-- The calls of one connection cut its data into packets. -/
theorem packets_spec (i : Fin n) {rounds : ℕ} {pv : Bytes} (h : pv.length ≤ rounds)
    (offset : UInt64) : payloads (packets i rounds offset pv) = pv ∧
      Consecutive offset (packets i rounds offset pv) ∧
      ∀ e ∈ packets i rounds offset pv, e.connection = i ∧ 1 ≤ e.payload.length ∧
        e.payload.length ≤ kMaxPacketLength := by
  induction rounds generalizing pv offset with
  | zero =>
    obtain rfl := List.length_eq_zero_iff.1 (Nat.le_zero.1 h)
    exact ⟨rfl, trivial, fun _ he => absurd he List.not_mem_nil⟩
  | succ rounds ih =>
    rw [packets]
    split_ifs with hpos
    · have hmax : kMaxPacketLength = 65535 := rfl
      dsimp only
      generalize hsent : min pv.length kMaxPacketLength = sent
      have hlen : (pv.take sent).length = sent := List.length_take_of_le (by omega)
      have hrest : (pv.drop sent).length ≤ rounds := by
        rw [List.length_drop]
        omega
      obtain ⟨hpayload, hoffset, hall⟩ := ih hrest (offset + UInt64.ofNat sent)
      refine ⟨?_, ⟨rfl, ?_⟩, ?_⟩
      · rw [payloads, List.flatMap_cons, ← payloads, hpayload, List.take_append_drop]
      · rw [hlen]
        exact hoffset
      · rw [List.forall_mem_cons]
        refine ⟨⟨rfl, ?_, ?_⟩, hall⟩
        · rw [hlen]
          omega
        · rw [hlen]
          omega
    · obtain rfl := List.length_eq_zero_iff.1 (Nat.le_zero.1 (not_lt.1 hpos))
      exact ⟨rfl, trivial, fun _ he => absurd he List.not_mem_nil⟩

/-- Data is shared out over connections: to the first ones, in their order, in packets that are
    the data one after the other, at the offsets that follow. Each but the last gets a minimal
    payload at least, or what there is. -/
structure Partition (connections : List (Fin n)) (offset : UInt64) (data : Bytes)
    (parts : List (Fin n × List (Emission n))) : Prop where
  order : parts.map Prod.fst <+: connections
  own : ∀ part ∈ parts, ∀ e ∈ part.2, e.connection = part.1
  sizes : ∀ part ∈ parts, ∀ e ∈ part.2,
    1 ≤ e.payload.length ∧ e.payload.length ≤ kMaxPacketLength
  payload : payloads (parts.flatMap Prod.snd) = data
  consecutive : Consecutive offset (parts.flatMap Prod.snd)
  least : ∀ before part after, parts = before ++ part :: after → after ≠ [] →
    min kMinPayloadSize (payloads ((part :: after).flatMap Prod.snd)).length ≤
      (payloads part.2).length

theorem Partition.nil (connections : List (Fin n)) (offset : UInt64) :
    Partition connections offset [] [] where
  order := List.nil_prefix
  own _ h := absurd h List.not_mem_nil
  sizes _ h := absurd h List.not_mem_nil
  payload := rfl
  consecutive := trivial
  least before part after h := by
    rw [eq_comm, List.append_eq_nil_iff] at h
    exact absurd h.2 (List.cons_ne_nil _ _)

/-- The first connection gets its packets, and the others what is left. -/
theorem Partition.cons {i : Fin n} {connections : List (Fin n)} {offset : UInt64} {pv data : Bytes}
    {rest : List (Fin n × List (Emission n))}
    (h : Partition connections (offset + UInt64.ofNat pv.length) data rest)
    (hleast : rest ≠ [] → min kMinPayloadSize (pv.length + data.length) ≤ pv.length) :
    Partition (i :: connections) offset (pv ++ data)
      ((i, packets i pv.length offset pv) :: rest) := by
  obtain ⟨hpayload, hoffset, hall⟩ := packets_spec i (le_refl pv.length) offset
  refine ⟨?_, ?_, ?_, ?_, ?_, ?_⟩
  · rw [List.map_cons]
    exact (List.prefix_cons_inj i).2 h.order
  · rw [List.forall_mem_cons]
    exact ⟨fun e he => (hall e he).1, h.own⟩
  · rw [List.forall_mem_cons]
    exact ⟨fun e he => (hall e he).2, h.sizes⟩
  · rw [List.flatMap_cons, payloads_append, hpayload, h.payload]
  · rw [List.flatMap_cons, consecutive_append, hpayload]
    exact ⟨hoffset, h.consecutive⟩
  · intro before part after heq hne
    cases before with
    | nil =>
      obtain ⟨rfl, rfl⟩ := List.cons.inj heq
      rw [List.flatMap_cons, payloads_append, hpayload, h.payload, List.length_append]
      exact hleast hne
    | cons first before =>
      rw [List.cons_append] at heq
      exact h.least before part after (List.cons.inj heq).2 hne

/-- The calls share out the data. -/
theorem parts_partition (share : Fin n → ℕ → ℕ) {connections : List (Fin n)}
    (hne : connections ≠ []) (offset : UInt64) (data : Bytes) :
    Partition connections offset data (parts share connections offset data) := by
  induction connections generalizing offset data with
  | nil => exact absurd rfl hne
  | cons i connections ih =>
    by_cases hpos : data.length > 0
    · cases connections with
      | nil =>
        have hlast := (Partition.nil ([] : List (Fin n))
          (offset + UInt64.ofNat data.length)).cons (i := i) fun h => absurd rfl h
        rw [List.append_nil] at hlast
        rw [parts, if_pos hpos]
        exact hlast
      | cons j connections =>
        rw [parts, if_pos hpos]
        dsimp only
        generalize hsent : min (max (share i data.length) kMinPayloadSize) data.length = sent
        have hlen : (data.take sent).length = sent := List.length_take_of_le (by omega)
        have hrest := ih (List.cons_ne_nil j connections) (offset + UInt64.ofNat sent)
          (data.drop sent)
        rw [← hlen] at hrest
        have hfirst := hrest.cons (i := i) fun _ => by
          rw [hlen, List.length_drop]
          omega
        rw [hlen, List.take_append_drop] at hfirst
        rw [hlen]
        exact hfirst
    · obtain rfl := List.length_eq_zero_iff.1 (Nat.le_zero.1 (not_lt.1 hpos))
      have hnone : parts share (i :: connections) offset [] = [] := by
        cases connections <;> rfl
      rw [hnone]
      exact Partition.nil _ _

/-! ## What the calls do -/

/-- The offset of the next data is what it was, and as many bytes more. -/
def advanced (offset : UInt64) (bytes : ℕ) (s : NearEnd n) : NearEnd n :=
  { s with writeOffset := offset + UInt64.ofNat bytes }

theorem advanced_zero (s : NearEnd n) : s.advanced s.writeOffset 0 = s := by
  have hzero : s.writeOffset + UInt64.ofNat 0 = s.writeOffset := UInt64.add_zero s.writeOffset
  rw [advanced, hzero]

theorem advanced_advanced (offset : UInt64) (bytes bytes' : ℕ) (s : NearEnd n) :
    (s.advanced offset bytes).advanced (offset + UInt64.ofNat bytes) bytes' =
      s.advanced offset (bytes + bytes') := by
  rw [advanced, advanced, advanced, UInt64.ofNat_add, UInt64.add_assoc]

theorem emit_fields {answers : UInt64 → List SendAnswer} {s s' : NearEnd n} {e : Emission n}
    (h : emit answers s e = some s') :
    s'.writeOffset = s.writeOffset ∧ s'.fdReadBuffer = s.fdReadBuffer := by
  obtain ⟨res, -, rfl⟩ := Option.map_eq_some_iff.1 h
  exact ⟨rfl, rfl⟩

/-- The calls know their offset: that of the state is not used. -/
theorem foldlM_advanced (answers : UInt64 → List SendAnswer) (es : List (Emission n))
    (offset : UInt64) (bytes : ℕ) (s : NearEnd n) :
    es.foldlM (emit answers) (s.advanced offset bytes) =
      (es.foldlM (emit answers) s).map (advanced offset bytes) := by
  induction es generalizing s with
  | nil => rfl
  | cons e es ih =>
    have hfirst : emit answers (s.advanced offset bytes) e =
        (emit answers s e).map (advanced offset bytes) := by
      rw [emit, emit, Option.map_map]
      rfl
    rw [List.foldlM_cons, List.foldlM_cons, hfirst]
    cases emit answers s e with
    | none => rfl
    | some s₁ => exact ih s₁

/-- The loop of `sendDataWithLimit` makes its calls, and advances the offset. -/
theorem sendDataLoop_eq (answers : UInt64 → List SendAnswer) (i : Fin n) {rounds : ℕ} {pv : Bytes}
    (h : pv.length ≤ rounds) (s : NearEnd n) : s.sendDataLoop answers i rounds pv =
      ((packets i rounds s.writeOffset pv).foldlM (emit answers) s).map
        (advanced s.writeOffset pv.length) := by
  induction rounds generalizing pv s with
  | zero =>
    obtain rfl := List.length_eq_zero_iff.1 (Nat.le_zero.1 h)
    exact congrArg some s.advanced_zero.symm
  | succ rounds ih =>
    rw [sendDataLoop, packets]
    split_ifs with hpos
    · have hmax : kMaxPacketLength = 65535 := rfl
      dsimp only
      generalize hsent : min pv.length kMaxPacketLength = sent
      have hsplit : sent + (pv.drop sent).length = pv.length := by
        rw [List.length_drop]
        omega
      have hcall : s.sendData answers i (pv.take sent) =
          emit answers s ⟨i, s.writeOffset, pv.take sent⟩ := rfl
      rw [List.foldlM_cons, hcall]
      cases hfirst : emit answers s ⟨i, s.writeOffset, pv.take sent⟩ with
      | none => rfl
      | some s₁ =>
        have hoffset := (emit_fields hfirst).1
        have hstate : { s₁ with writeOffset := s₁.writeOffset + UInt64.ofNat sent } =
            s₁.advanced s.writeOffset sent := by
          rw [advanced, hoffset]
        have hrounds : (pv.drop sent).length ≤ rounds := by omega
        have hrest := ih hrounds (s₁.advanced s.writeOffset sent)
        dsimp only
        rw [hstate, hrest, foldlM_advanced, Option.map_map, ← hsplit]
        exact congrFun (congrArg Option.map (funext fun s₂ => advanced_advanced _ _ _ s₂)) _
    · obtain rfl := List.length_eq_zero_iff.1 (Nat.le_zero.1 (not_lt.1 hpos))
      exact congrArg some s.advanced_zero.symm

theorem sendDataWithLimit_eq (answers : UInt64 → List SendAnswer) (i : Fin n) (pv : Bytes)
    (s : NearEnd n) : s.sendDataWithLimit answers i pv =
      ((packets i pv.length s.writeOffset pv).foldlM (emit answers) s).map
        (advanced s.writeOffset pv.length) := sendDataLoop_eq answers i le_rfl s

/-- The loop of `schedule` makes the calls of the parts, and nothing remains. -/
theorem scheduleLoop_eq (share : Fin n → ℕ → ℕ) (answers : UInt64 → List SendAnswer)
    {connections : List (Fin n)} (hne : connections ≠ []) (data : Bytes) (s : NearEnd n) :
    s.scheduleLoop share answers connections data =
      (((parts share connections s.writeOffset data).flatMap Prod.snd).foldlM
        (emit answers) s).map fun s' => ([], s'.advanced s.writeOffset data.length) := by
  induction connections generalizing data s with
  | nil => exact absurd rfl hne
  | cons i connections ih =>
    by_cases hpos : data.length > 0
    · cases connections with
      | nil =>
        -- the last connection gets all that is left
        rw [scheduleLoop, if_pos hpos, parts, if_pos hpos, List.flatMap_singleton,
          sendDataWithLimit_eq, Option.map_map]
        rfl
      | cons j connections =>
        rw [scheduleLoop, if_pos hpos, parts, if_pos hpos]
        dsimp only
        generalize hsent : min (max (share i data.length) kMinPayloadSize) data.length = sent
        have hlen : (data.take sent).length = sent := List.length_take_of_le (by omega)
        have hsplit : sent + (data.drop sent).length = data.length := by
          rw [List.length_drop]
          omega
        rw [sendDataWithLimit_eq, List.flatMap_cons, List.foldlM_append, hlen]
        cases (packets i sent s.writeOffset (data.take sent)).foldlM (emit answers) s with
        | none => rfl
        | some s₁ =>
          -- the offset is advanced twice, by the two parts of the data
          have hrest := ih (List.cons_ne_nil j connections) (data.drop sent)
            (s₁.advanced s.writeOffset sent)
          rw [foldlM_advanced, Option.map_map] at hrest
          refine hrest.trans ?_
          rw [← hsplit]
          have htwice : (fun s₂ : NearEnd n => (([] : Bytes), s₂.advanced
              (s.writeOffset + UInt64.ofNat sent) (data.drop sent).length)) ∘
              advanced s.writeOffset sent = fun s₂ =>
                ([], s₂.advanced s.writeOffset (sent + (data.drop sent).length)) :=
            funext fun s₂ => congrArg (Prod.mk []) (advanced_advanced _ _ _ s₂)
          exact congrFun (congrArg Option.map htwice) _
    · -- nothing is left to be shared out
      obtain rfl := List.length_eq_zero_iff.1 (Nat.le_zero.1 (not_lt.1 hpos))
      have hnone : s.scheduleLoop share answers (i :: connections) [] = some ([], s) ∧
          parts share (i :: connections) s.writeOffset [] = [] := by
        cases connections <;> exact ⟨rfl, rfl⟩
      rw [hnone.1, hnone.2]
      exact congrArg (fun s => some ([], s)) s.advanced_zero.symm

/-- The connections that are ready and have room, in the order of the list. -/
def available (ready : List (Fin n)) (s : NearEnd n) : List (Fin n) :=
  ready.filter fun i => !(s.connections i).isBufferAboveThreshold

theorem schedule_eq (ready : List (Fin n)) (share : Fin n → ℕ → ℕ)
    (answers : UInt64 → List SendAnswer) {s : NearEnd n} (hne : s.available ready ≠ []) :
    s.schedule ready share answers =
      (((parts share (s.available ready) s.writeOffset s.fdReadBuffer).flatMap Prod.snd).foldlM
        (emit answers) s).map fun s' =>
          { s'.advanced s.writeOffset s.fdReadBuffer.length with fdReadBuffer := [] } := by
  rw [schedule]
  dsimp only
  rw [← available, if_neg (mt List.length_eq_zero_iff.1 hne), scheduleLoop_eq share answers hne]
  cases ((parts share (s.available ready) s.writeOffset s.fdReadBuffer).flatMap Prod.snd).foldlM
    (emit answers) s <;> rfl

/-! ## The calls succeed -/

/-- The connection is open, and is not about to be closed. -/
def Open (c : TcpConnection) : Prop := c.fd > 0 ∧ c.fdWaitClose = false

theorem open_append {c : TcpConnection} (h : Open c) (answers : List SendAnswer) (frame : Bytes) :
    Open (c.append answers frame).2 := by
  have hkept : ∀ c : TcpConnection, Open c → Open (c.flushBuffer answers).2 := by
    intro c hc
    rw [TcpConnection.flushBuffer]
    split_ifs
    · exact hc
    · exact hc
  rw [TcpConnection.append]
  split_ifs with hconnected
  · have hflush := hkept { c with fdWriteBuffer := c.fdWriteBuffer ++ frame } h
    rw [TcpConnection.onWriteEvent]
    dsimp only
    rw [TcpConnection.checkCloseFd, if_neg fun hclose => by
      rw [hflush.2] at hclose
      exact absurd hclose.1 Bool.false_ne_true]
    exact hflush
  · exact h

/-- Calls at offsets that can be encoded are made on open connections. -/
theorem foldlM_emit_some (answers : UInt64 → List SendAnswer) {es : List (Emission n)}
    {s : NearEnd n} (hopen : ∀ e ∈ es, Open (s.connections e.connection))
    (hfits : ∀ e ∈ es, e.offset.toNat < 2 ^ 62 ∧ e.payload.length ≤ kMaxPacketLength) :
    ∃ s', es.foldlM (emit answers) s = some s' := by
  induction es generalizing s with
  | nil => exact ⟨s, rfl⟩
  | cons e es ih =>
    rw [List.forall_mem_cons] at hopen hfits
    obtain ⟨hoffset, hlen⟩ := hfits.1
    rw [List.foldlM_cons, emit, TcpConnection.sendData_eq hopen.1.1 hoffset hlen]
    refine ih (fun e' he' => ?_) hfits.2
    rw [put_connections]
    by_cases hsame : e'.connection = e.connection
    · rw [hsame, Function.update_self]
      exact open_append hopen.1 _ _
    · rw [Function.update_of_ne hsame]
      exact hopen.2 e' he'

/-- Calls that follow each other stay below the end of their data. -/
theorem Consecutive.offset_lt {offset : UInt64} {es : List (Emission n)} (h : Consecutive offset es)
    (hpos : ∀ e ∈ es, 1 ≤ e.payload.length)
    (hlimit : offset.toNat + (payloads es).length ≤ 2 ^ 62) :
    ∀ e ∈ es, e.offset.toNat < 2 ^ 62 := by
  induction es generalizing offset with
  | nil => exact fun _ he => absurd he List.not_mem_nil
  | cons e es ih =>
    rw [payloads, List.flatMap_cons, List.length_append, ← payloads] at hlimit
    rw [List.forall_mem_cons] at hpos ⊢
    obtain ⟨hoffset, hrest⟩ := h
    refine ⟨by rw [hoffset]; omega, ih hrest hpos.2 ?_⟩
    rw [UInt64.toNat_add, UInt64.toNat_ofNat', Nat.mod_eq_of_lt (a := e.payload.length) (by omega),
      Nat.mod_eq_of_lt (by omega)]
    omega

/-- The buffer is shared out over the connections that have room, and nothing else is done; if
    there are none, nothing is. The calls succeed on open connections. -/
theorem schedule_partition (ready : List (Fin n)) (share : Fin n → ℕ → ℕ)
    (answers : UInt64 → List SendAnswer) (s : NearEnd n) :
    s.available ready = [] ∧ s.schedule ready share answers = some s ∨
      ∃ parts, Partition (s.available ready) s.writeOffset s.fdReadBuffer parts ∧
        s.schedule ready share answers =
          ((parts.flatMap Prod.snd).foldlM (emit answers) s).map (fun s' =>
            { s'.advanced s.writeOffset s.fdReadBuffer.length with fdReadBuffer := [] }) ∧
        ((∀ i ∈ s.available ready, Open (s.connections i)) →
          s.writeOffset.toNat + s.fdReadBuffer.length ≤ 2 ^ 62 →
            ∃ s', s.schedule ready share answers = some s') := by
  by_cases hne : s.available ready = []
  · left
    refine ⟨hne, ?_⟩
    rw [available] at hne
    rw [schedule]
    rw [hne, List.length_nil, if_pos rfl]
  · right
    have hpart := parts_partition share hne s.writeOffset s.fdReadBuffer
    have hschedule := schedule_eq ready share answers hne
    refine ⟨_, hpart, hschedule, fun hopen hlimit => ?_⟩
    have hof : ∀ e ∈ (parts share (s.available ready) s.writeOffset s.fdReadBuffer).flatMap
        Prod.snd, e.connection ∈ s.available ready ∧ 1 ≤ e.payload.length ∧
          e.payload.length ≤ kMaxPacketLength := by
      intro e he
      obtain ⟨part, hmem, he⟩ := List.mem_flatMap.1 he
      refine ⟨?_, hpart.sizes part hmem e he⟩
      rw [hpart.own part hmem e he]
      exact hpart.order.subset (List.mem_map_of_mem hmem)
    -- the last frame starts below the limit of the stream, so each can be written
    have hoffsets := hpart.consecutive.offset_lt (fun e he => (hof e he).2.1)
      (by rw [hpart.payload]; exact hlimit)
    obtain ⟨s', hs'⟩ := foldlM_emit_some answers (fun e he => hopen _ (hof e he).1)
      fun e he => ⟨hoffsets e he, (hof e he).2.2⟩
    rw [hschedule, hs']
    exact ⟨_, rfl⟩

end NearEnd

end DashDim
