import DashDim.Lib.IntrusiveList
import Mathlib.Data.BitVec

/-!
# The event loop

`SimpleEpollServer` (`base/simple_epoll_server.cc`) and the callbacks it calls, which register
descriptors, change what they are registered for, and set others ready, while the server is in
the middle of its list of the ready ones. The list goes through the nodes of `cb_map_`
(`Links`); a node is erased when its descriptor is unregistered, but not while its callback runs.

A callback is what it does: the operations it calls, and the events it asks to be called for
again. `OnRegistration`, `OnModification` and `OnUnregistration` do nothing to the server in any
of the programs. An operation fails where the code would use an erased node or call no
callback, where a check does not hold, or where the kernel would not take the change.
-/

namespace DashDim

/-- A mask of events, of an `int`. -/
abbrev EventMask := BitVec 32

/-- `EPOLLERR`. -/
def epollErr : EventMask := 0x008

/-- `EPOLLHUP`. -/
def epollHup : EventMask := 0x010

/-- The heads of the two lists. -/
inductive ReadyHead
  | readyList
  | tmpList
  deriving DecidableEq, Repr

/-- What the code does not survive: a freed node touched, a check that fails, a call
    through a null callback, a failed `epoll_ctl`, and a round that never ends. -/
inductive EpollFault
  | freed
  | check
  | nullCallback
  | epollCtl
  | endless
  deriving DecidableEq, Repr

/-- A node of `cb_map_`, but for its entry in the lists. -/
structure CBAndEventMask where
  cb : Option ℕ
  fd : ℕ
  eventMask : EventMask
  eventsAsserted : EventMask
  eventsToFake : EventMask
  inUse : Bool

/-- The server: where the node of a descriptor is, the nodes, how many were made, their entries,
    and what the kernel watches. -/
structure EpollServer where
  cbMap : ℕ → Option ℕ
  nodes : ℕ → Option CBAndEventMask
  created : ℕ
  links : Links ReadyHead ℕ
  readyListSize : ℤ
  interest : ℕ → Option EventMask

/-- The operations on a server that a callback may call. -/
inductive EpollOp
  | registerFD (fd cb : ℕ) (eventMask : EventMask)
  | unregisterFD (fd : ℕ)
  | modifyFD (fd : ℕ) (removeEvent addEvent : EventMask)
  | setFDReady (fd : ℕ) (eventsToFake : EventMask)
  | setFDNotReady (fd : ℕ)

/-- What a callback does in `OnEvent`, and its `out_ready_mask`. -/
structure OnEvent where
  ops : List EpollOp
  outReadyMask : EventMask

instance : Inhabited OnEvent := ⟨⟨[], 0⟩⟩

/-- A call of `OnEvent`. -/
structure EpollCall where
  cb : ℕ
  fd : ℕ
  inEvents : EventMask
  deriving DecidableEq, Repr

namespace EpollServer

/-- A server with nothing registered. -/
def new : EpollServer := ⟨fun _ => none, fun _ => none, 0, .empty, 0, fun _ => none⟩

variable (s : EpollServer)

/-! ## Nodes -/

/-- The node at an address, which must not have been freed. -/
def node (a : ℕ) : Except EpollFault CBAndEventMask :=
  match s.nodes a with
  | none => .error .freed
  | some n => .ok n

/-- Writes the node at an address. -/
def updateNode (a : ℕ) (f : CBAndEventMask → CBAndEventMask) : Except EpollFault EpollServer :=
  (s.node a).map fun n => { s with nodes := Function.update s.nodes a (some (f n)) }

/-- `cb_map_.erase`. -/
def erase (fd : ℕ) : EpollServer :=
  match s.cbMap fd with
  | none => s
  | some a => { s with
      cbMap := Function.update s.cbMap fd none
      nodes := Function.update s.nodes a none }

/-- Writing to the entry of a node, if there is one at the place. -/
def touch (a : Option ℕ) : Except EpollFault Unit :=
  match a with
  | none => .ok ()
  | some a => (s.node a).map fun _ => ()

/-! ## The lists -/

/-- `AddToReadyList`: at the head of the list, unless the node is on a list already. -/
def addToReadyList (a : ℕ) : Except EpollFault EpollServer := do
  s.touch (some a)
  if s.links.prev a = none then
    s.touch (s.links.first .readyList)
    pure { s with
      links := s.links.insertHead .readyList a, readyListSize := s.readyListSize + 1 }
  else pure s

/-- `RemoveFromReadyList`: off whichever list the node is on; `tmp_list` may be the one. -/
def removeFromReadyList (a : ℕ) : Except EpollFault EpollServer := do
  s.touch (some a)
  match s.links.prev a with
  | none => pure s
  | some p =>
    s.touch (s.links.next a)
    s.touch p.element
    let s' := { s with links := s.links.remove a, readyListSize := s.readyListSize - 1 }
    if s'.readyListSize = 0 ∧
        ¬(s'.links.first .readyList = none ∧ s'.links.first .tmpList = none) then .error .check
    else pure s'

/-! ## The kernel -/

/-- `AddFD`: the descriptor must be new to the kernel. -/
def addFD (fd : ℕ) (eventMask : EventMask) : Except EpollFault EpollServer :=
  if (s.interest fd).isSome then .error .epollCtl
  else .ok { s with
    interest := Function.update s.interest fd (some (eventMask ||| epollErr ||| epollHup)) }

/-- `ModFD`: the descriptor must be known to the kernel. -/
def modFD (fd : ℕ) (eventMask : EventMask) : Except EpollFault EpollServer :=
  if (s.interest fd).isNone then .error .epollCtl
  else .ok { s with
    interest := Function.update s.interest fd (some (eventMask ||| epollErr ||| epollHup)) }

/-- `DelFD`. -/
def delFD (fd : ℕ) : Except EpollFault EpollServer :=
  if (s.interest fd).isNone then .error .epollCtl
  else .ok { s with interest := Function.update s.interest fd none }

/-! ## Operations -/

/-- `RegisterFD`: the node of a descriptor that is known already is used again. -/
def registerFD (fd cb : ℕ) (eventMask : EventMask) : Except EpollFault EpollServer :=
  match s.cbMap fd with
  | some a => do
    let n ← s.node a
    let s ← match n.cb with
      | some _ => do
        let s ← s.removeFromReadyList a
        s.modFD fd eventMask
      | none => s.addFD fd eventMask
    s.updateNode a fun n => { n with cb := some cb, eventMask := eventMask, eventsToFake := 0 }
  | none => do
    let s ← s.addFD fd eventMask
    pure { s with
      cbMap := Function.update s.cbMap fd (some s.created)
      nodes := Function.update s.nodes s.created (some ⟨some cb, fd, eventMask, 0, 0, false⟩)
      created := s.created + 1 }

/-- `UnregisterFD`: off the ready list and out of the kernel; a node in use is only cleared. -/
def unregisterFD (fd : ℕ) : Except EpollFault EpollServer :=
  match s.cbMap fd with
  | none => .ok s
  | some a => do
    let n ← s.node a
    match n.cb with
    | none => pure s
    | some _ => do
      let s ← s.removeFromReadyList a
      let s ← s.delFD fd
      if n.inUse then
        s.updateNode a fun n => { n with cb := none, eventMask := 0, eventsToFake := 0 }
      else pure (s.erase fd)

/-- `ModifyFD`, behind `StartRead`, `StopRead` and their like. -/
def modifyFD (fd : ℕ) (removeEvent addEvent : EventMask) : Except EpollFault EpollServer :=
  match s.cbMap fd with
  | none => .ok s
  | some a => do
    let n ← s.node a
    match n.cb with
    | none => pure s
    | some _ => do
      let eventMask := n.eventMask &&& ~~~removeEvent ||| addEvent
      let s ← s.updateNode a fun n => { n with eventMask := eventMask }
      s.modFD fd eventMask

/-- A node whose descriptor is registered is changed and made ready. -/
def makeReady (fd : ℕ) (f : CBAndEventMask → CBAndEventMask) : Except EpollFault EpollServer :=
  match s.cbMap fd with
  | none => .ok s
  | some a => do
    let n ← s.node a
    match n.cb with
    | none => pure s
    | some _ => do
      let s ← s.updateNode a f
      s.addToReadyList a

/-- `SetFDReady`: fakes events, which the next round will call the callback with. -/
def setFDReady (fd : ℕ) (eventsToFake : EventMask) : Except EpollFault EpollServer :=
  s.makeReady fd fun n => { n with eventsToFake := eventsToFake }

/-- `HandleEvent`: notes what the kernel reported and makes the descriptor ready. -/
def handleEvent (fd : ℕ) (eventMask : EventMask) : Except EpollFault EpollServer :=
  s.makeReady fd fun n => { n with eventsAsserted := eventMask }

/-- `SetFDNotReady`. -/
def setFDNotReady (fd : ℕ) : Except EpollFault EpollServer :=
  match s.cbMap fd with
  | none => .ok s
  | some a => s.removeFromReadyList a

/-- The callback of a descriptor. -/
def registered (fd : ℕ) : Option ℕ := ((s.cbMap fd).bind s.nodes).bind CBAndEventMask.cb

/-- What an operation does to the server. -/
def apply : EpollOp → Except EpollFault EpollServer
  | .registerFD fd cb eventMask => s.registerFD fd cb eventMask
  | .unregisterFD fd => s.unregisterFD fd
  | .modifyFD fd removeEvent addEvent => s.modifyFD fd removeEvent addEvent
  | .setFDReady fd eventsToFake => s.setFDReady fd eventsToFake
  | .setFDNotReady fd => s.setFDNotReady fd

/-! ## Rounds -/

/-- What is done after `OnEvent`: a node that is not registered any more is erased, else its
    descriptor is ready if the callback asks for it. -/
def afterEvent (a : ℕ) (outReadyMask : EventMask) : Except EpollFault EpollServer := do
  let m ← s.node a
  if m.cb = none then pure (s.erase m.fd)
  else if outReadyMask ≠ 0 then do
    let s ← s.updateNode a fun m => { m with eventsToFake := outReadyMask }
    s.addToReadyList a
  else pure s

/-- Taking a node off its list, and calling its callback. -/
def callback (a : ℕ) (behaviour : OnEvent) : Except EpollFault (EpollCall × EpollServer) := do
  let s ← s.removeFromReadyList a
  let n ← s.node a
  let s ← s.updateNode a fun n => { n with eventsAsserted := 0, eventsToFake := 0, inUse := true }
  match n.cb with
  | none => .error .nullCallback
  | some cb => do
    let s ← behaviour.ops.foldlM apply s
    let s ← s.updateNode a fun m => { m with inUse := n.inUse }
    let s ← s.afterEvent a behaviour.outReadyMask
    pure (⟨cb, n.fd, n.eventsAsserted ||| n.eventsToFake⟩, s)

/-- The loop of `CallReadyListCallbacks`, for callbacks that do, one after the other, what is
    given. -/
def callLoop : ℕ → List OnEvent → EpollServer → Except EpollFault (List EpollCall × EpollServer)
  | 0, _, _ => .error .endless
  | fuel + 1, behaviours, s =>
    match s.links.first .tmpList with
    | none => .ok ([], s)
    | some a =>
      if s.readyListSize ≤ 0 then .error .check
      else do
        let (call, s) ← s.callback a behaviours.headI
        let (calls, s) ← callLoop fuel behaviours.tail s
        pure (call :: calls, s)

/-- `CallReadyListCallbacks`: the ready list is moved to `tmp_list`, and its callbacks
    are called. -/
def callReadyListCallbacks (behaviours : List OnEvent) :
    Except EpollFault (List EpollCall × EpollServer) :=
  if s.links.first .tmpList ≠ none then .error .check
  else do
    let (calls, s) ← callLoop (s.readyListSize.toNat + 1) behaviours
      { s with links := s.links.move .readyList .tmpList }
    if s.links.first .tmpList ≠ none then .error .check
    else pure (calls, s)

/-- The part of `WaitForEventsAndCallHandleEvents` behind the wait, for the events it gave. -/
def handleEvents (events : List (ℕ × EventMask)) (behaviours : List OnEvent) :
    Except EpollFault (List EpollCall × EpollServer) := do
  let s ← events.foldlM (fun s e => s.handleEvent e.1 e.2) s
  if s.links.first .readyList ≠ none then s.callReadyListCallbacks behaviours
  else pure ([], s)

/-- What is done with a server: an operation outside of its callbacks, or a round. -/
inductive Input
  | op (op : EpollOp)
  | round (events : List (ℕ × EventMask)) (behaviours : List OnEvent)

/-- One input: an operation, or a round of the loop with the calls it made. -/
def step (s : EpollServer) : Input → Except EpollFault (List EpollCall × EpollServer)
  | .op op => (s.apply op).map fun s => ([], s)
  | .round events behaviours => s.handleEvents events behaviours

/-- A run over the inputs, with the calls each of them made. -/
def run (s : EpollServer) : List Input → Except EpollFault (List (List EpollCall) × EpollServer)
  | [] => .ok ([], s)
  | i :: is => do
    let (calls, s) ← s.step i
    let (rest, s) ← run s is
    pure (calls :: rest, s)

end EpollServer

end DashDim
