import DashDim.Hen.Base
import DashDim.Lib.Outcome
import Mathlib.Logic.Function.Basic

/-!
# Pairs of sticks

A hen of `hen/hen_base.cc` has two sticks: sockets that pass on to each other what they read. A
stick that closes tells the other one, which closes in turn when all it has is sent. The right
stick of a B hen is made with the left one, and first sends where the client wanted to go; that
of a C hen is made when the left one has read this.

The handlers are those of the two left sticks and the two right ones. What an event reads, and
how much of it `send()` takes, is given with the event. The deletion of a stick is posted
(`destroyed`); nothing points to it then.
-/

namespace DashDim

namespace Hen

/-- `StickStatus`. -/
inductive StickStatus
  | min
  | connecting
  | connected
  | discon
  deriving DecidableEq, Repr

/-- Which of the two sticks. -/
inductive Role
  | left
  | right
  deriving DecidableEq, Repr

/-- The partner's role. -/
def Role.other : Role → Role
  | .left => .right
  | .right => .left

/-- Which of the two hens. -/
inductive Kind
  | b
  | c
  deriving DecidableEq, Repr

/-- A stick: whether `stick_` points to the other one, and what it knows of both. That an event
    has said that its own socket failed (`failed`) is not in the source. -/
structure Stick extends HenBase where
  stick : Bool := false
  ownStatus : StickStatus := .min
  stickStatus : StickStatus := .min
  destroyed : Bool := false
  failed : Bool := false
  deriving DecidableEq, Repr

/-- The sticks of a hen. Before the right one of a C hen is made, it is closed; the left one
    keeps what it reads until then. -/
structure Pair where
  kind : Kind
  sticks : Role → Stick
  metaBuf : Bytes := []
  metaParsed : Bool := false

/-- The checks that fail: that of `FlushBuffer`, and that a C hen has made its right stick. -/
inductive Abort
  | flush (failure : CheckFailure)
  | noStick
  deriving DecidableEq, Repr

/-- What happens to a socket: an error or hang-up, the end of what is read, and that it can be
    read or written. A read gives some bytes, or none when there will be no more; `connects` says
    if a socket can be made and connected. -/
structure Event where
  role : Role
  error : Bool := false
  rdhup : Bool := false
  input : Bool := false
  reads : List Bytes := []
  output : Bool := false
  answers : List ℕ := []
  connects : Bool := true

/-- `Notify`: a partner that disconnected is forgotten. -/
def Stick.notify (status : StickStatus) (s : Stick) : Stick :=
  { s with stickStatus := status, stick := if status = .discon then false else s.stick }

namespace Pair

/-- A change of one stick. -/
def modify (r : Role) (f : Stick → Stick) (p : Pair) : Pair :=
  { p with sticks := Function.update p.sticks r (f (p.sticks r)) }

/-- `Sink` of a stick. -/
def sink (r : Role) (pv : Bytes) (p : Pair) : Pair :=
  p.modify r fun s => { s with toHenBase := s.toHenBase.sink pv }

/-- `CloseFd`, which posts the deletion. -/
def closeFd (r : Role) (p : Pair) : Pair :=
  (if (p.sticks r).stick then p.modify r.other (Stick.notify .discon) else p).modify r fun s =>
    { s with fdOpen := false, stick := false, destroyed := true }

/-- `CheckCloseFd`: closes once the partner has gone and nothing is pending. -/
def checkCloseFd (r : Role) (p : Pair) : Pair :=
  if (p.sticks r).wb = [] ∧ (p.sticks r).stickStatus = .discon then p.closeFd r else p

/-- `OnWriteEvent`. -/
def onWriteEvent (r : Role) (answers : List ℕ) (p : Pair) : Except Abort Pair := do
  let base ← ((p.sticks r).toHenBase.flushBuffer answers).mapError .flush
  .ok ((p.modify r fun s => { s with toHenBase := base }).checkCloseFd r)

/-- Reading goes on after the end of what is read; a closed socket has nothing to read. -/
def onReadEvent (r : Role) : List Bytes → Pair → Pair
  | [], p => p
  | pv :: reads, p =>
    if (p.sticks r).fdOpen = false then p
    else if pv = [] then onReadEvent r reads (p.closeFd r)
    else if (p.sticks r).stick then onReadEvent r reads (p.sink r.other pv)
    else p.closeFd r

/-- `CreateRightStick` -/
def createRightStick (connects : Bool) (p : Pair) : Pair :=
  if connects then
    (p.modify .right fun _ => { stick := true, ownStatus := .connecting }).modify .left fun s =>
      { s with stick := true }
  else p.closeFd .left

/-- `CHenLeftStick::OnReadEvent`: the first six bytes say where the right stick connects to. -/
def cOnReadEvent (connects : Bool) : List Bytes → Pair → Except Abort Pair
  | [], p => .ok p
  | pv :: reads, p =>
    if (p.sticks .left).fdOpen = false then .ok p
    else if pv = [] then cOnReadEvent connects reads (p.closeFd .left)
    else if p.metaParsed = false then
      let metaBuf := p.metaBuf ++ pv
      let p := { p with metaBuf := metaBuf }
      if metaBuf.length ≥ 6 then
        let p := p.createRightStick connects
        if (p.sticks .left).stick then
          cOnReadEvent connects reads { p.sink .right (metaBuf.drop 6) with metaParsed := true }
        else .error .noStick
      else cOnReadEvent connects reads p
    else if (p.sticks .left).stick then cOnReadEvent connects reads (p.sink .right pv)
    else .ok (p.closeFd .left)

/-- What a left stick reads. -/
def readLeft (e : Event) (p : Pair) : Except Abort Pair :=
  if e.input then
    match p.kind with
    | .b => .ok (p.onReadEvent .left e.reads)
    | .c => p.cOnReadEvent e.connects e.reads
  else .ok p

/-- `OnEvent` of a left stick. -/
def onEventLeft (e : Event) (p : Pair) : Except Abort Pair := do
  let p ← p.readLeft e
  if e.output then p.onWriteEvent .left e.answers else .ok p

/-- A right stick that can be written for the first time is connected. -/
def connected (p : Pair) : Pair :=
  if (p.sticks .right).ownStatus = .connecting then
    let p := p.modify .right fun s => { s with ownStatus := .connected }
    if (p.sticks .right).stick then p.modify .left (Stick.notify .connected) else p
  else p

/-- `OnEvent` of a right stick. -/
def onEventRight (e : Event) (p : Pair) : Except Abort Pair := do
  let p := if e.error ∨ e.rdhup then p.closeFd .right else p
  let p := if e.input then p.onReadEvent .right e.reads else p
  if e.output then p.connected.onWriteEvent .right e.answers else .ok p

/-- What is noted of an event: a right stick takes a hang-up of its peer for a failure. -/
def noteFailure (e : Event) (p : Pair) : Pair :=
  p.modify e.role fun s =>
    { s with failed := s.failed || e.error || (e.role = .right && e.rdhup) }

/-- An event of an open socket. -/
def step (p : Pair) (e : Event) : Except Abort Pair :=
  if (p.sticks e.role).fdOpen = false then .ok p
  else
    match e.role with
    | .left => (p.noteFailure e).onEventLeft e
    | .right => (p.noteFailure e).onEventRight e

/-- A B hen: its right stick has the destination to send. It may be that there is no
    destination, or that the right stick does not connect. -/
def createB (destination : Bytes) (found connects : Bool) : Pair :=
  let p : Pair := {
    kind := .b
    sticks := fun
      | .left => { ownStatus := .connected }
      | .right => { fdOpen := false } }
  if found then
    let p := p.modify .right fun _ => { wb := destination }
    if connects then
      (p.modify .right fun s => { s with ownStatus := .connecting, stick := true }).modify .left
        fun s => { s with stick := true }
    else (p.closeFd .right).closeFd .left
  else p.closeFd .left

/-- A C hen: it has its left stick only. -/
def createC : Pair where
  kind := .c
  sticks
    | .left => { ownStatus := .connected }
    | .right => { fdOpen := false }

/-! ## Sticks one by one -/

end Pair

theorem Role.other_ne (r : Role) : r.other ≠ r := by
  cases r <;> decide

namespace Pair

variable {r : Role} {p p' : Pair}

@[simp] theorem modify_self (r : Role) (f : Stick → Stick) (p : Pair) :
    (p.modify r f).sticks r = f (p.sticks r) := Function.update_self _ _ _

@[simp] theorem modify_other (r : Role) (f : Stick → Stick) (p : Pair) :
    (p.modify r f).sticks r.other = p.sticks r.other :=
  Function.update_of_ne (Role.other_ne r) _ _

@[simp] theorem modify_of_other (r : Role) (f : Stick → Stick) (p : Pair) :
    (p.modify r.other f).sticks r = p.sticks r :=
  Function.update_of_ne (Role.other_ne r).symm _ _

/-- A closed stick, and one that is told. -/
@[simp] theorem closeFd_self (r : Role) (p : Pair) : (p.closeFd r).sticks r =
    { p.sticks r with fdOpen := false, stick := false, destroyed := true } := by
  rw [closeFd, modify_self]
  split_ifs
  · rw [modify_of_other]
  · rfl

@[simp] theorem closeFd_other (r : Role) (p : Pair) : (p.closeFd r).sticks r.other =
    if (p.sticks r).stick then (p.sticks r.other).notify .discon else p.sticks r.other := by
  rw [closeFd, modify_other]
  split_ifs
  · rw [modify_self]
  · rfl

theorem onReadEvent_of_closed (reads : List Bytes) (h : (p.sticks r).fdOpen = false) :
    p.onReadEvent r reads = p := by
  cases reads with
  | nil => rfl
  | cons pv reads => rw [onReadEvent, if_pos h]

end Pair

end Hen

end DashDim
