import DashDim.Lib.Multimap
import DashDim.Lib.Outcome
import Mathlib.Data.Finset.Basic
import Mathlib.Algebra.Order.Group.Unbundled.Int

/-!
# Alarms

The alarms of `SimpleEpollServer` (`base/simple_epoll_server.cc`), and what the programs set and
cancel: `BaseAlarm` (`base/base_alarm.cc`) over the `EpollAlarmImpl` of a `QuicEpollAlarm`
(`base/base_epoll_alarm_factory.cc`). `alarm_map_` is a multimap by time; an alarm keeps an
iterator into it, its token, as long as it is registered. When the time has come, its delegate is
called in the middle of the loop over the map (`callAndReregisterAlarmEvents`), and may set,
cancel and destroy alarms, its own as well.

An operation fails where the code would use an iterator that points to nothing, or where a check
does not hold. `OnAlarm` of a `QuicEpollAlarm` returns `0`, so that the server registers nothing
again of itself. Times are in microseconds, and `0` is that of an alarm that is not set.
-/

namespace DashDim

/-- An element of `alarm_map_`, and the iterator that points to it. -/
structure AlarmNode where
  token : ℕ
  time : ℤ
  cb : ℕ
  deriving DecidableEq, Repr

/-- An alarm: `deadline_` of the `BaseAlarm`, `registered_` and `token_` of the `EpollAlarm`. -/
structure QuicEpollAlarm where
  deadline : ℤ
  registered : Bool
  token : ℕ
  deriving DecidableEq, Repr

/-- A new alarm: not set, not registered. -/
def QuicEpollAlarm.new : QuicEpollAlarm := ⟨0, false, 0⟩

/-- What the code does not survive: the end iterator dereferenced, a failed `DCHECK`, an
    alarm registered twice, and a round that never ends. -/
inductive AlarmFault
  | invalidIterator
  | check
  | alreadyExists
  | endless
  deriving DecidableEq, Repr

/-- `SimpleEpollServer` as far as alarms go: the multimap of the registered ones, the
    tokens given out so far, the set of the alarms in it, and the alarms themselves. -/
structure AlarmServer where
  alarmMap : List AlarmNode
  created : ℕ
  allAlarms : Finset ℕ
  alarms : ℕ → QuicEpollAlarm

/-- The operations on alarms. -/
inductive AlarmOp
  | update (a : ℕ) (newDeadline granularity : ℤ)
  | cancel (a : ℕ)
  | destroy (a : ℕ)

namespace AlarmServer

/-- A server without alarms. -/
def new : AlarmServer := ⟨[], 0, ∅, fun _ => .new⟩

variable (s : AlarmServer)

/-- A change of one alarm. -/
def modify (a : ℕ) (f : QuicEpollAlarm → QuicEpollAlarm) : AlarmServer :=
  { s with alarms := Function.update s.alarms a (f (s.alarms a)) }

/-- What an iterator points to. -/
def deref (token : ℕ) : Except AlarmFault AlarmNode :=
  match s.alarmMap.find? (·.token = token) with
  | none => .error .invalidIterator
  | some n => .ok n

/-- `alarm_map_.erase` -/
def erase (token : ℕ) : AlarmServer :=
  { s with alarmMap := s.alarmMap.filter (·.token ≠ token) }

/-- `alarm_map_.insert`, and the iterator to what is inserted. -/
def emplace (time : ℤ) (cb : ℕ) : ℕ × AlarmServer :=
  (s.created, { s with
    alarmMap := insertUpper AlarmNode.time ⟨s.created, time, cb⟩ s.alarmMap
    created := s.created + 1 })

/-! ## The server -/

/-- `EpollAlarm::OnRegistration` -/
def onRegistration (a token : ℕ) : Except AlarmFault AlarmServer :=
  if (s.alarms a).registered then .error .check
  else .ok (s.modify a fun al => { al with registered := true, token := token })

/-- `RegisterAlarm`: an alarm registered already is reported and left alone. -/
def registerAlarm (timeoutTime : ℤ) (a : ℕ) : Except AlarmFault AlarmServer :=
  if a ∈ s.allAlarms then .error .alreadyExists
  else
    let (token, s) := s.emplace timeoutTime a
    { s with allAlarms := insert a s.allAlarms }.onRegistration a token

/-- `UnregisterAlarm`: off the map and off the set, and the alarm is told. -/
def unregisterAlarm (token : ℕ) : Except AlarmFault AlarmServer := do
  let n ← s.deref token
  let s := s.erase token
  pure ({ s with allAlarms := s.allAlarms.erase n.cb }.modify n.cb
    fun al => { al with registered := false })

/-- `ReregisterAlarm`: off the map and into it again under the new time; the alarm is
    not told. -/
def reregisterAlarm (token : ℕ) (timeoutTime : ℤ) : Except AlarmFault (ℕ × AlarmServer) := do
  let n ← s.deref token
  pure ((s.erase token).emplace timeoutTime n.cb)

/-! ## An alarm -/

/-- `EpollAlarm::UnregisterIfRegistered` -/
def unregisterIfRegistered (a : ℕ) : Except AlarmFault AlarmServer :=
  if (s.alarms a).registered then s.unregisterAlarm (s.alarms a).token else .ok s

/-- `SetImpl`: registers the alarm at its deadline. -/
def setImpl (a : ℕ) : Except AlarmFault AlarmServer :=
  if (s.alarms a).deadline = 0 then .error .check
  else s.registerAlarm (s.alarms a).deadline a

/-- `CancelImpl`: unregisters the alarm, the deadline being cleared by now. -/
def cancelImpl (a : ℕ) : Except AlarmFault AlarmServer :=
  if (s.alarms a).deadline ≠ 0 then .error .check else s.unregisterIfRegistered a

/-- `UpdateImpl`: moves a registered alarm, or registers one that is not. -/
def updateImpl (a : ℕ) : Except AlarmFault AlarmServer :=
  if (s.alarms a).deadline = 0 then .error .check
  else if (s.alarms a).registered then do
    let (token, s) ← s.reregisterAlarm (s.alarms a).token (s.alarms a).deadline
    pure (s.modify a fun al => { al with token := token })
  else s.registerAlarm (s.alarms a).deadline a

/-- `QuicAlarm::Cancel`. -/
def cancel (a : ℕ) : Except AlarmFault AlarmServer :=
  if (s.alarms a).deadline = 0 then .ok s
  else (s.modify a fun al => { al with deadline := 0 }).cancelImpl a

/-- `QuicAlarm::Update`: nothing happens where the deadline moves by less than the
    granularity. -/
def update (a : ℕ) (newDeadline granularity : ℤ) : Except AlarmFault AlarmServer :=
  if newDeadline = 0 then s.cancel a
  else if |newDeadline - (s.alarms a).deadline| < granularity then .ok s
  else
    let wasSet := (s.alarms a).deadline ≠ 0
    let s := s.modify a fun al => { al with deadline := newDeadline }
    if wasSet then s.updateImpl a else s.setImpl a

/-- The destructor, and a new alarm in its place. -/
def destroy (a : ℕ) : Except AlarmFault AlarmServer := do
  let s ← s.unregisterIfRegistered a
  pure (s.modify a fun _ => .new)

/-- What an operation on an alarm does to the server. -/
def apply : AlarmOp → Except AlarmFault AlarmServer
  | .update a newDeadline granularity => s.update a newDeadline granularity
  | .cancel a => s.cancel a
  | .destroy a => s.destroy a

/-! ## Rounds -/

/-- `EpollAlarmImpl::OnAlarm`, with `Fire`, for what the delegate does: whether it is called. -/
def onAlarm (a : ℕ) (ops : List AlarmOp) : Except AlarmFault (Bool × AlarmServer) :=
  let s := s.modify a fun al => { al with registered := false }
  if (s.alarms a).deadline = 0 then .ok (false, s)
  else do
    let s ← ops.foldlM apply (s.modify a fun al => { al with deadline := 0 })
    pure (true, s)

/-- The iterator behind the one given. -/
def next (token : ℕ) : Except AlarmFault (Option ℕ) :=
  match s.alarmMap.dropWhile (·.token ≠ token) with
  | [] => .error .invalidIterator
  | _ :: l => .ok (l.head?.map AlarmNode.token)

/-- The loop of `CallAndReregisterAlarmEvents` from an iterator on, for delegates that do, one
    after the other, what is given: the calls of delegates, with the times in the map. -/
def callLoop (now : ℤ) : ℕ → List (List AlarmOp) → Option ℕ → AlarmServer →
    Except AlarmFault (List (ℤ × ℕ) × AlarmServer)
  | 0, _, _, _ => .error .endless
  | _ + 1, _, none, s => .ok ([], s)
  | fuel + 1, behaviours, some i, s => do
    let n ← s.deref i
    if now < n.time then pure ([], s)
    else do
      let (called, s) ← { s with allAlarms := s.allAlarms.erase n.cb }.onAlarm n.cb
        behaviours.headI
      let i' ← s.next i
      let (calls, s) ← callLoop now fuel behaviours.tail i' (s.erase i)
      pure (if called then ((n.time, n.cb) :: calls, s) else (calls, s))

/-- `CallAndReregisterAlarmEvents`; with too little fuel it does not end. -/
def callAndReregisterAlarmEvents (now : ℤ) (fuel : ℕ) (behaviours : List (List AlarmOp)) :
    Except AlarmFault (List (ℤ × ℕ) × AlarmServer) :=
  s.callLoop now fuel behaviours (s.alarmMap.head?.map AlarmNode.token)

/-- What is done with a server: an operation outside of its loop, or a round. -/
inductive Input
  | op (op : AlarmOp)
  | round (now : ℤ) (fuel : ℕ) (behaviours : List (List AlarmOp))

/-- One input: an operation on an alarm, or a round of `CallAndReregisterAlarmEvents`
    with the calls it made. -/
def step (s : AlarmServer) : Input → Except AlarmFault (List (ℤ × ℕ) × AlarmServer)
  | .op op => (s.apply op).map fun s => ([], s)
  | .round now fuel behaviours => s.callAndReregisterAlarmEvents now fuel behaviours

/-- A run over the inputs, with the calls each of them made. -/
def run (s : AlarmServer) :
    List Input → Except AlarmFault (List (List (ℤ × ℕ)) × AlarmServer)
  | [] => .ok ([], s)
  | i :: is => do
    let (calls, s) ← s.step i
    let (rest, s) ← run s is
    pure (calls :: rest, s)

end AlarmServer

end DashDim
