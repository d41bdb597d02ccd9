import DashDim.Tcp.Types
import DashDim.Tpproxy.Connection
import DashDim.Lib.Run
import Mathlib.Algebra.Order.Group.Int

/-!
# The budget of a path

A path connection sends no faster than its budget allows, as in `tpproxy/interval_budget.cc`
and `tpproxy/mpproxy_types.cc`. An alarm grants bytes for the time since it last went off, at
the target rate; each `send()` uses bytes, and is made only while there are some left.

* `onWriteEvent_flush`: to the write buffer a connection with a budget does what a connection
  does that is answered so;
* `sent_lt`: in every run, less is sent than is granted, and a buffer more.

The bound is a potential (`Accounts`): what is sent and what is left is at most what was
granted, and what is left is never short of zero by a whole buffer. No limit of the budget
takes away such a shortage, as the limits are as large as a buffer.
-/

namespace DashDim

/-! ## The budget -/

/-- The window of the budget in milliseconds. -/
def kWindowMs : ℤ := 500

/-- In kilobits per second. -/
def kMinGoodput : ℤ := 500

/-- In milliseconds. -/
def kBudgetInterval : ℤ := 10

/-- `IntervalBudget`. -/
structure IntervalBudget where
  started : Bool := false
  targetRateKbps : ℤ := 0
  maxBytesInBudget : ℤ := 0
  bytesRemaining : ℤ := 0
  canBuildUpUnderuse : Bool := false
  deriving DecidableEq, Repr

namespace IntervalBudget

/-- `set_target_rate_kbps`. -/
def setTargetRateKbps (targetRateKbps : ℤ) (b : IntervalBudget) : IntervalBudget :=
  let maxBytes := (kWindowMs * targetRateKbps).tdiv 8
  { b with
    started := true
    targetRateKbps := targetRateKbps
    maxBytesInBudget := maxBytes
    bytesRemaining := min (max (-maxBytes) b.bytesRemaining) maxBytes }

/-- The constructor. -/
def new (initialTargetRateKbps : ℤ) : IntervalBudget :=
  setTargetRateKbps initialTargetRateKbps {}

/-- What is granted for some milliseconds. -/
def credit (deltaTimeMs : ℤ) (b : IntervalBudget) : ℤ := (b.targetRateKbps * deltaTimeMs).tdiv 8

/-- What was not used is lost, and what was used too much is kept. -/
def increaseBudget (deltaTimeMs : ℤ) (b : IntervalBudget) : IntervalBudget :=
  let bytes := b.credit deltaTimeMs
  if b.bytesRemaining < 0 ∨ b.canBuildUpUnderuse then
    { b with bytesRemaining := min (b.bytesRemaining + bytes) b.maxBytesInBudget }
  else { b with bytesRemaining := min bytes b.maxBytesInBudget }

/-- `UseBudget`: an overdraw is kept, down to a window's worth. -/
def useBudget (bytes : ℤ) (b : IntervalBudget) : IntervalBudget :=
  { b with bytesRemaining := max (b.bytesRemaining - bytes) (-b.maxBytesInBudget) }

/-- `CanSend` of a connection: there is something left, or the budget is not started. -/
def canSend (b : IntervalBudget) : Bool := !b.started || decide (0 < max 0 b.bytesRemaining)

/-- `OnPacketSent` of a connection. -/
def onPacketSent (bytes : ℤ) (b : IntervalBudget) : IntervalBudget :=
  if b.started then b.useBudget bytes else b

/-! ### What it accounts for -/

/-- What is used and what is left is at most what was granted, and at most a buffer too much
    is used. -/
structure Accounts (granted used : ℤ) (b : IntervalBudget) : Prop where
  started : b.started = true
  rate : kMinGoodput ≤ b.targetRateKbps
  max_eq : b.maxBytesInBudget = (kWindowMs * b.targetRateKbps).tdiv 8
  balance : used + b.bytesRemaining ≤ granted
  debt : -(kBufferSize : ℤ) < b.bytesRemaining

/-- At such a rate the limits of the budget are as large as a buffer. -/
theorem kBufferSize_le_max {rate : ℤ} (hrate : kMinGoodput ≤ rate) :
    (kBufferSize : ℤ) ≤ (kWindowMs * rate).tdiv 8 := by
  have hmin : (kBufferSize : ℤ) ≤ (kWindowMs * kMinGoodput).tdiv 8 := by decide
  exact hmin.trans (Int.tdiv_le_tdiv (by decide) (Int.mul_le_mul_of_nonneg_left hrate (by decide)))

namespace Accounts

variable {granted used : ℤ} {b : IntervalBudget}

/-- A new rate takes away what is left, but nothing that is missing. -/
theorem setTargetRateKbps (h : Accounts granted used b) {rate : ℤ} (hrate : kMinGoodput ≤ rate) :
    Accounts granted used (b.setTargetRateKbps rate) := by
  have hmax := kBufferSize_le_max hrate
  have hbalance := h.balance
  have hdebt := h.debt
  have hleft : (b.setTargetRateKbps rate).bytesRemaining =
      min b.bytesRemaining ((kWindowMs * rate).tdiv 8) := by
    rw [IntervalBudget.setTargetRateKbps]
    dsimp only
    rw [max_eq_right (by omega)]
  refine ⟨rfl, hrate, rfl, ?_, ?_⟩
  · rw [hleft]
    omega
  · rw [hleft]
    have hsize : (0 : ℤ) < kBufferSize := by decide
    omega

/-- What is granted is what the balance gains at most. -/
theorem increaseBudget (h : Accounts granted used b) {delta : ℤ} (hdelta : 0 ≤ delta) :
    Accounts (granted + b.credit delta) used (b.increaseBudget delta) := by
  have hmax := kBufferSize_le_max h.rate
  rw [← h.max_eq] at hmax
  have hbalance := h.balance
  have hdebt := h.debt
  have hsize : (0 : ℤ) < kBufferSize := by decide
  have hcredit : 0 ≤ b.credit delta := by
    have hrate : 0 ≤ b.targetRateKbps := le_trans (by decide) h.rate
    exact Int.tdiv_nonneg (Int.mul_nonneg hrate hdelta) (by decide)
  rw [IntervalBudget.increaseBudget]
  split_ifs with hshort
  · refine ⟨h.started, h.rate, h.max_eq, ?_, ?_⟩
    · dsimp only
      omega
    · dsimp only
      omega
  · have hrest : 0 ≤ b.bytesRemaining := not_lt.1 fun hlt => hshort (.inl hlt)
    refine ⟨h.started, h.rate, h.max_eq, ?_, ?_⟩
    · dsimp only
      omega
    · dsimp only
      omega

/-- A send while there is something left is charged in full. -/
theorem onPacketSent (h : Accounts granted used b) (hcan : b.canSend = true) (bytes : ℤ)
    (hle : bytes ≤ kBufferSize) : Accounts granted (used + bytes) (b.onPacketSent bytes) := by
  rw [IntervalBudget.onPacketSent, if_pos h.started]
  have hmax := kBufferSize_le_max h.rate
  rw [← h.max_eq] at hmax
  have hbalance := h.balance
  have hpos : 0 < b.bytesRemaining := by
    rw [canSend, h.started, Bool.not_true, Bool.false_or, decide_eq_true_eq, lt_max_iff] at hcan
    exact hcan.resolve_left (lt_irrefl 0)
  have hleft : (b.useBudget bytes).bytesRemaining = b.bytesRemaining - bytes := by
    rw [IntervalBudget.useBudget]
    exact max_eq_left (by omega)
  refine ⟨h.started, h.rate, h.max_eq, ?_, ?_⟩
  · rw [hleft]
    omega
  · rw [hleft]
    omega

/-- Less is used than is granted, and a buffer more. -/
theorem used_lt (h : Accounts granted used b) : used < granted + kBufferSize := by
  have hbalance := h.balance
  have hdebt := h.debt
  omega

end Accounts

end IntervalBudget

/-! ## A connection with its budget -/

/-- A connection, with its budget and when that was last increased. `sendBytes` counts what
    `send()` took, and `credits` what the budget was granted. -/
structure PacedConnection extends TcpConnection where
  packetBudget : IntervalBudget
  lastBudgetTime : Time
  sendBytes : ℕ := 0
  credits : ℤ := 0

namespace PacedConnection

/-- The loop of `FlushBuffer`, over how much each `send()` takes: what was sent, what remains
    and the budget. -/
def flushLoop : List ℕ → Bytes → IntervalBudget → ℕ × Bytes × IntervalBudget
  | [], data, b => (0, data, b)
  | bytes :: kernel, data, b =>
    if data.length > 0 then
      let intend := min kBufferSize data.length
      if b.canSend then
        let sent := min bytes intend
        if sent = 0 then (0, data, b)
        else
          let (total, remain, b) := flushLoop kernel (data.drop sent) (b.onPacketSent sent)
          (sent + total, remain, b)
      else (0, data, b)
    else (0, data, b)

/-- `FlushBuffer` of a paced connection. -/
def flushBuffer (kernel : List ℕ) (c : PacedConnection) : PacedConnection :=
  if c.fd < 0 then c
  else
    let (sent, remain, b) := flushLoop kernel c.fdWriteBuffer c.packetBudget
    { c with fdWriteBuffer := remain, packetBudget := b, sendBytes := c.sendBytes + sent }

/-- `OnWriteEvent` of a paced connection. -/
def onWriteEvent (kernel : List ℕ) (c : PacedConnection) : PacedConnection :=
  let c := c.flushBuffer kernel
  { c with toTcpConnection := c.toTcpConnection.checkCloseFd }

/-- What `SendData` and `WriteMessage` do when the frame is in the write buffer. -/
def writeFrame (kernel : List ℕ) (base : TcpConnection) (c : PacedConnection) : PacedConnection :=
  let c := { c with fdWriteBuffer := base.fdWriteBuffer }
  if c.isConnected then c.onWriteEvent kernel else c

/-- `SendData` of a paced connection. -/
def sendData (kernel : List ℕ) (offset : UInt64) (pv : Bytes) (c : PacedConnection) :
    Option PacedConnection :=
  (({ c.toTcpConnection with isConnected := false } : TcpConnection).sendData [] offset pv).map
    fun (_, base) => c.writeFrame kernel base

/-- `WriteMessage` of a paced connection. -/
def writeMessage (kernel : List ℕ) (type : UInt8) (data : Bytes) (c : PacedConnection) :
    Option PacedConnection :=
  (({ c.toTcpConnection with isConnected := false } : TcpConnection).writeMessage [] type data).map
    fun (_, base) => c.writeFrame kernel base

/-- A rate is set, and bytes are granted for some milliseconds. -/
def grant (targetRateKbps deltaTimeMs : ℤ) (c : PacedConnection) : PacedConnection :=
  let b := c.packetBudget.setTargetRateKbps targetRateKbps
  { c with
    packetBudget := b.increaseBudget deltaTimeMs
    credits := c.credits + b.credit deltaTimeMs }

/-- The constructor. -/
def new (base : TcpConnection) (now : Time) (targetRateKbps : ℤ) : PacedConnection :=
  grant targetRateKbps kBudgetInterval
    { base with packetBudget := .new 0, lastBudgetTime := now }

/-- `OnGoodputAlarm`, for the target rate it comes to. -/
def onGoodputAlarm (targetRateKbps : ℤ) (c : PacedConnection) : PacedConnection :=
  { c with packetBudget := c.packetBudget.setTargetRateKbps targetRateKbps }

/-- `OnBudgetAlarm`, for the target rate it comes to. -/
def onBudgetAlarm (now : Time) (targetRateKbps : ℤ) (c : PacedConnection) : PacedConnection :=
  let c := if now > c.lastBudgetTime then
    c.grant targetRateKbps (toMilliseconds (now - c.lastBudgetTime)) else c
  { c with lastBudgetTime := now }

/-! ### What is flushed -/

/-- How the rounds of a connection without a budget are answered. -/
def answers : List ℕ → Bytes → IntervalBudget → List SendAnswer
  | [], _, _ => []
  | bytes :: kernel, data, b =>
    if b.canSend then
      let sent := min bytes (min kBufferSize data.length)
      .sent bytes :: answers kernel (data.drop sent) (b.onPacketSent sent)
    else [.noBudget]

theorem flushLoop_flush (kernel : List ℕ) (data : Bytes) (b : IntervalBudget) :
    (flushLoop kernel data b).2.1 = (TcpConnection.flushLoop (answers kernel data b) data).2 ∧
      (flushLoop kernel data b).1 =
        (TcpConnection.flushLoop (answers kernel data b) data).1.length := by
  induction kernel generalizing data b with
  | nil => exact ⟨rfl, rfl⟩
  | cons bytes kernel ih =>
    rw [flushLoop, answers]
    by_cases hdata : data.length > 0
    · rw [if_pos hdata]
      dsimp only
      cases b.canSend with
      | false =>
        rw [if_neg Bool.false_ne_true, if_neg Bool.false_ne_true, TcpConnection.flushLoop,
          if_pos hdata]
        exact ⟨rfl, rfl⟩
      | true =>
        rw [if_pos rfl, if_pos rfl, TcpConnection.flushLoop, if_pos hdata]
        dsimp only
        split_ifs with hzero
        · exact ⟨rfl, rfl⟩
        · obtain ⟨hremain, hsent⟩ := ih
            (data.drop (min bytes (min kBufferSize data.length)))
            (b.onPacketSent ((min bytes (min kBufferSize data.length) : ℕ) : ℤ))
          refine ⟨hremain, ?_⟩
          dsimp only
          rw [hsent, List.length_append, List.length_take]
          omega
    · have hnil : ∀ answers, TcpConnection.flushLoop answers data = ([], data) := by
        intro answers
        cases answers with
        | nil => rfl
        | cons answer answers => rw [TcpConnection.flushLoop, if_neg hdata]
      rw [if_neg hdata, hnil]
      exact ⟨rfl, rfl⟩

/-- A connection with a budget does to its write buffer what one does that is answered by it,
    and counts what is sent. -/
theorem onWriteEvent_flush (kernel : List ℕ) (c : PacedConnection) :
    (c.onWriteEvent kernel).toTcpConnection = (c.toTcpConnection.onWriteEvent
        (answers kernel c.fdWriteBuffer c.packetBudget)).2 ∧
      (c.onWriteEvent kernel).sendBytes = c.sendBytes + (c.toTcpConnection.onWriteEvent
        (answers kernel c.fdWriteBuffer c.packetBudget)).1.length := by
  obtain ⟨hremain, hsent⟩ := flushLoop_flush kernel c.fdWriteBuffer c.packetBudget
  rw [onWriteEvent, flushBuffer, TcpConnection.onWriteEvent, TcpConnection.flushBuffer]
  split_ifs
  · exact ⟨rfl, rfl⟩
  · refine ⟨?_, ?_⟩
    · dsimp only
      rw [hremain]
    · dsimp only
      rw [hsent]

/-! ### Runs -/

/-- What happens to a connection: it is connected, data and messages are sent, its descriptor
    can be written, its alarms go off, or its descriptor is closed. -/
inductive Event
  | connected
  | sendData (kernel : List ℕ) (offset : UInt64) (pv : Bytes)
  | writeMessage (kernel : List ℕ) (type : UInt8) (data : Bytes)
  | writable (kernel : List ℕ)
  | goodputAlarm (targetRateKbps : ℤ)
  | budgetAlarm (now : Time) (targetRateKbps : ℤ)
  | waitClose
  | closeFd

/-- The result of a check that fails is none. -/
def handle (c : PacedConnection) : Event → Option PacedConnection
  | .connected => some { c with isConnected := true }
  | .sendData kernel offset pv => c.sendData kernel offset pv
  | .writeMessage kernel type data => c.writeMessage kernel type data
  | .writable kernel => some (c.onWriteEvent kernel)
  | .goodputAlarm rate => some (c.onGoodputAlarm rate)
  | .budgetAlarm now rate => some (c.onBudgetAlarm now rate)
  | .waitClose =>
    some { c with toTcpConnection := { c.toTcpConnection with fdWaitClose := true }.checkCloseFd }
  | .closeFd => some { c with fd := -1 }

/-- The target rate of an alarm is at least the minimum. -/
def AtLeastMin : Event → Prop
  | .goodputAlarm rate => kMinGoodput ≤ rate
  | .budgetAlarm _ rate => kMinGoodput ≤ rate
  | _ => True

/-- The runs of a connection whose target rate is always at least the minimum. -/
def system : System PacedConnection where
  init c := ∃ base now rate, kMinGoodput ≤ rate ∧ c = new base now rate
  step c c' := ∃ e, AtLeastMin e ∧ c.handle e = some c'

/-- The budget accounts for what was granted and sent. -/
def Backed (c : PacedConnection) : Prop :=
  c.packetBudget.Accounts c.credits c.sendBytes

namespace Backed

variable {c c' : PacedConnection}

theorem new (base : TcpConnection) (now : Time) {rate : ℤ} (hrate : kMinGoodput ≤ rate) :
    Backed (.new base now rate) := by
  have hmax := IntervalBudget.kBufferSize_le_max hrate
  have hsize : (0 : ℤ) < kBufferSize := by decide
  have hzero : ((IntervalBudget.new 0).setTargetRateKbps rate).bytesRemaining = 0 := by
    rw [IntervalBudget.setTargetRateKbps]
    have hnew : (IntervalBudget.new 0).bytesRemaining = 0 := by decide
    dsimp only
    rw [hnew]
    omega
  have hbudget : ((IntervalBudget.new 0).setTargetRateKbps rate).Accounts 0 0 :=
    ⟨rfl, hrate, rfl, by rw [hzero, add_zero], by rw [hzero]; omega⟩
  exact hbudget.increaseBudget (by decide)

theorem flushLoop {granted sent : ℤ} {b : IntervalBudget} (h : b.Accounts granted sent)
    (kernel : List ℕ) (data : Bytes) :
    (PacedConnection.flushLoop kernel data b).2.2.Accounts granted
      (sent + (PacedConnection.flushLoop kernel data b).1) := by
  induction kernel generalizing data b sent with
  | nil => simpa [PacedConnection.flushLoop] using h
  | cons bytes kernel ih =>
    have hsame : b.Accounts granted (sent + (0 : ℕ)) := by simpa using h
    rw [PacedConnection.flushLoop]
    dsimp only
    split_ifs with hdata hcan hzero
    · exact hsame
    · have hsent := ih (h.onPacketSent hcan ((min bytes (min kBufferSize data.length) : ℕ) : ℤ)
        (by omega)) (data.drop (min bytes (min kBufferSize data.length)))
      push_cast
      rw [← add_assoc]
      push_cast at hsent
      exact hsent
    · exact hsame
    · exact hsame

theorem onWriteEvent (h : Backed c) (kernel : List ℕ) : Backed (c.onWriteEvent kernel) := by
  rw [PacedConnection.onWriteEvent, flushBuffer]
  split_ifs
  · exact h
  · have hflush := flushLoop h kernel c.fdWriteBuffer
    rw [Backed]
    push_cast
    exact hflush

theorem writeFrame (h : Backed c) (kernel : List ℕ) (base : TcpConnection) :
    Backed (c.writeFrame kernel base) := by
  rw [PacedConnection.writeFrame]
  dsimp only
  split_ifs
  · exact onWriteEvent (c := { c with fdWriteBuffer := base.fdWriteBuffer }) h kernel
  · exact h

theorem grant (h : Backed c) {rate delta : ℤ} (hrate : kMinGoodput ≤ rate) (hdelta : 0 ≤ delta) :
    Backed (c.grant rate delta) :=
  (IntervalBudget.Accounts.setTargetRateKbps h hrate).increaseBudget hdelta

theorem onBudgetAlarm (h : Backed c) (now : Time) {rate : ℤ} (hrate : kMinGoodput ≤ rate) :
    Backed (c.onBudgetAlarm now rate) := by
  rw [PacedConnection.onBudgetAlarm]
  split_ifs with hlater
  · have hdelta : 0 ≤ toMilliseconds (now - c.lastBudgetTime) :=
      Int.tdiv_nonneg (sub_nonneg.2 (le_of_lt hlater)) (by omega)
    exact h.grant hrate hdelta
  · exact h

/-- Each handler keeps the account. -/
theorem handle {e : Event} (h : Backed c) (he : AtLeastMin e) (hhandle : c.handle e = some c') :
    Backed c' := by
  cases e with
  | connected =>
    cases hhandle
    exact h
  | sendData kernel offset pv =>
    rw [PacedConnection.handle, PacedConnection.sendData] at hhandle
    obtain ⟨⟨_, base⟩, -, rfl⟩ := Option.map_eq_some_iff.1 hhandle
    exact h.writeFrame kernel base
  | writeMessage kernel type data =>
    rw [PacedConnection.handle, PacedConnection.writeMessage] at hhandle
    obtain ⟨⟨_, base⟩, -, rfl⟩ := Option.map_eq_some_iff.1 hhandle
    exact h.writeFrame kernel base
  | writable kernel =>
    cases hhandle
    exact h.onWriteEvent kernel
  | goodputAlarm rate =>
    cases hhandle
    exact h.setTargetRateKbps he
  | budgetAlarm now rate =>
    cases hhandle
    exact h.onBudgetAlarm now he
  | waitClose =>
    cases hhandle
    exact h
  | closeFd =>
    cases hhandle
    exact h

end Backed

theorem backed_reachable {c : PacedConnection} (h : system.Reachable c) : Backed c := by
  refine h.invariant (fun c hinit => ?_) fun c c' _ hb hstep => ?_
  · obtain ⟨base, now, rate, hrate, rfl⟩ := hinit
    exact .new base now hrate
  · obtain ⟨e, he, hhandle⟩ := hstep
    exact hb.handle he hhandle

/-- In every run whose target rate is at least the minimum, less is sent than the budget was
    granted, and a buffer more. -/
theorem sent_lt {c : PacedConnection} (h : system.Reachable c) :
    (c.sendBytes : ℤ) < c.credits + kBufferSize :=
  (backed_reachable h).used_lt

/-- The events of a run lead to a state of the system. -/
theorem reachable_events {es : List Event} (hes : ∀ e ∈ es, AtLeastMin e) {c c' : PacedConnection}
    (h : system.Reachable c) (hrun : es.foldlM handle c = some c') : system.Reachable c' := by
  induction es generalizing c with
  | nil =>
    cases hrun
    exact h
  | cons e es ih =>
    obtain ⟨c₁, hhandle, hrest⟩ := Option.bind_eq_some_iff.1 hrun
    exact ih (fun e' he' => hes e' (List.mem_cons_of_mem e he'))
      (h.step ⟨e, hes e List.mem_cons_self, hhandle⟩) hrest

/-- A message, then a frame that overdraws the budget: the rest of what is written has to wait
    for the alarms. -/
theorem sent_lt_overdrawn : ∃ c : PacedConnection, c.sendBytes = 2811 ∧ c.credits = 3281 ∧
    (c.sendBytes : ℤ) < c.credits + kBufferSize := by
  let pv : Bytes := List.replicate 1400 0
  let es : List Event := [.writeMessage [1500] 1 [7], .sendData [1500] 0 pv,
    .sendData [1500] 1400 pv, .goodputAlarm 800, .budgetAlarm 20000 1000, .writable [1500]]
  have hrun : (es.foldlM handle (new ⟨1, true, false, []⟩ 0 625)).map
      (fun c => (c.sendBytes, c.credits)) = some (2811, 3281) := by
    decide +kernel
  obtain ⟨c, hc, heq⟩ := Option.map_eq_some_iff.1 hrun
  have hes : ∀ e ∈ es, AtLeastMin e := by simp [es, AtLeastMin, kMinGoodput]
  have hreach : system.Reachable c :=
    reachable_events hes (.init ⟨_, 0, 625, by decide, rfl⟩) hc
  exact ⟨c, congrArg Prod.fst heq, congrArg Prod.snd heq, sent_lt hreach⟩

end PacedConnection

end DashDim
