import DashDim.Base.EpollServer
import DashDim.Lib.Outcome
import Mathlib.Data.List.Forall2

/-!
# What the event loop does

What `EpollServer` is for, without nodes and pointers (`EventLoop`): the callback of each
descriptor with the events noted for it, and the descriptors that are ready. A round takes the
list of these, and calls them one after the other, as far as the callbacks before leave them
in the list; what gets ready meanwhile waits for the next round.

* `EpollServer.Refines`: how the nodes and links stand for it;
* `EpollServer.Refines.run`: a run of the server does not fail, and makes the same calls.
-/

namespace DashDim

/-- What is registered for a descriptor. -/
structure EpollEntry where
  cb : ℕ
  eventMask : EventMask
  eventsAsserted : EventMask
  eventsToFake : EventMask

/-- The registered descriptors, and those that are ready, or left to call in this round. -/
structure EventLoop where
  entries : ℕ → Option EpollEntry
  lists : ReadyHead → List ℕ

/-- What the kernel is told to watch for. -/
def EpollEntry.watched (e : EpollEntry) : EventMask := e.eventMask ||| epollErr ||| epollHup

namespace EventLoop

/-- A loop with nothing registered and no list. -/
def new : EventLoop := ⟨fun _ => none, fun _ => []⟩

variable (f : EventLoop)

/-- Writes the entry of a descriptor. -/
def setEntry (fd : ℕ) (e : Option EpollEntry) : EventLoop :=
  { f with entries := Function.update f.entries fd e }

/-- A descriptor that is not ready any more. -/
def takeOff (fd : ℕ) : EventLoop := { f with lists := fun h => (f.lists h).erase fd }

/-- A descriptor that is ready, if it was not yet. -/
def addReady (fd : ℕ) : EventLoop :=
  if fd ∈ f.lists .readyList ∨ fd ∈ f.lists .tmpList then f
  else { f with lists := Function.update f.lists .readyList (fd :: f.lists .readyList) }

@[simp] theorem entries_addReady (fd : ℕ) : (f.addReady fd).entries = f.entries := by
  rw [addReady]
  split_ifs <;> rfl

theorem setEntry_eq_self {fd : ℕ} {e : Option EpollEntry} (h : f.entries fd = e) :
    f.setEntry fd e = f := by
  rw [setEntry, ← h, Function.update_eq_self]

/-- Changes the entry of a registered descriptor and puts it on the ready list. -/
def makeReady (fd : ℕ) (g : EpollEntry → EpollEntry) : EventLoop :=
  match f.entries fd with
  | none => f
  | some e => (f.setEntry fd (some (g e))).addReady fd

/-- A callback that replaces another is shown what was asserted for this one. -/
def apply : EpollOp → EventLoop
  | .registerFD fd cb eventMask => (f.takeOff fd).setEntry fd
      (some ⟨cb, eventMask, ((f.entries fd).map EpollEntry.eventsAsserted).getD 0, 0⟩)
  | .unregisterFD fd => (f.takeOff fd).setEntry fd none
  | .modifyFD fd removeEvent addEvent => f.setEntry fd ((f.entries fd).map fun e =>
      { e with eventMask := e.eventMask &&& ~~~removeEvent ||| addEvent })
  | .setFDReady fd eventsToFake => f.makeReady fd fun e => { e with eventsToFake := eventsToFake }
  | .setFDNotReady fd => f.takeOff fd

/-- What an event of the kernel does. -/
def handleEvent (fd : ℕ) (eventMask : EventMask) : EventLoop :=
  f.makeReady fd fun e => { e with eventsAsserted := eventMask }

/-- What the callback of `fd` does, called with its entry `e`. -/
def call (fd : ℕ) (e : EpollEntry) (behaviour : OnEvent) : EventLoop :=
  let f := (f.takeOff fd).setEntry fd (some { e with eventsAsserted := 0, eventsToFake := 0 })
  let f := behaviour.ops.foldl apply f
  if behaviour.outReadyMask ≠ 0 then
    f.makeReady fd fun e => { e with eventsToFake := behaviour.outReadyMask }
  else f

/-- The calls of a round, taken off the front of the list under way until that is empty. -/
def callLoop : ℕ → List OnEvent → EventLoop → List EpollCall × EventLoop
  | 0, _, f => ([], f)
  | fuel + 1, behaviours, f =>
    match f.lists .tmpList with
    | [] => ([], f)
    | fd :: _ =>
      match f.entries fd with
      | none => ([], f)
      | some e =>
        let (calls, f) := callLoop fuel behaviours.tail (f.call fd e behaviours.headI)
        (⟨e.cb, fd, e.eventsAsserted ||| e.eventsToFake⟩ :: calls, f)

/-- The descriptors that are ready are called, as many as there are at most. -/
def callReady (behaviours : List OnEvent) : List EpollCall × EventLoop :=
  callLoop (f.lists .readyList).length behaviours { f with lists := fun
    | .readyList => []
    | .tmpList => f.lists .readyList }

/-- One input: an operation, or a round with the calls it made. -/
def step (f : EventLoop) : EpollServer.Input → List EpollCall × EventLoop
  | .op op => ([], f.apply op)
  | .round events behaviours =>
    (events.foldl (fun f e => f.handleEvent e.1 e.2) f).callReady behaviours

/-- A run over the inputs, with the calls each of them made. -/
def run (f : EventLoop) : List EpollServer.Input → List (List EpollCall) × EventLoop
  | [] => ([], f)
  | i :: is => ((f.step i).1 :: ((f.step i).2.run is).1, ((f.step i).2.run is).2)

end EventLoop

/-! ## Nodes for entries -/

theorem exists_of_forall₂ {α β : Type*} {R : α → β → Prop} {l : List α} {l' : List β}
    (h : List.Forall₂ R l l') {b : β} (hb : b ∈ l') : ∃ a ∈ l, R a b := by
  induction h with
  | nil => exact absurd hb List.not_mem_nil
  | @cons c d l l' hcd h ih =>
    rcases List.mem_cons.1 hb with rfl | hb
    · exact ⟨c, List.mem_cons_self, hcd⟩
    · obtain ⟨a, ha, hab⟩ := ih hb
      exact ⟨a, List.mem_cons_of_mem c ha, hab⟩

theorem forall₂_erase {α β : Type*} [DecidableEq α] [DecidableEq β] {R : α → β → Prop}
    (hR : Relator.BiUnique R) {a : α} {b : β} (hab : R a b) {l : List α} {l' : List β}
    (h : List.Forall₂ R l l') : List.Forall₂ R (l.erase a) (l'.erase b) := by
  induction h with
  | nil => exact .nil
  | @cons c d l l' hcd h ih =>
    by_cases hca : c = a
    · subst hca
      obtain rfl := hR.2 hcd hab
      rwa [List.erase_cons_head, List.erase_cons_head]
    · have hdb : d ≠ b := fun heq => hca (hR.1 (heq ▸ hcd) hab)
      rw [List.erase_cons_tail (by simpa using hca), List.erase_cons_tail (by simpa using hdb)]
      exact .cons hcd ih

/-- The abstract entry of an entry with a callback. -/
def CBAndEventMask.entry (n : CBAndEventMask) : Option EpollEntry :=
  n.cb.map fun cb => ⟨cb, n.eventMask, n.eventsAsserted, n.eventsToFake⟩

theorem CBAndEventMask.entry_of_some {n : CBAndEventMask} {cb : ℕ} (h : n.cb = some cb) :
    n.entry = some ⟨cb, n.eventMask, n.eventsAsserted, n.eventsToFake⟩ := by
  rw [entry, h, Option.map_some]

theorem CBAndEventMask.entry_of_none {n : CBAndEventMask} (h : n.cb = none) : n.entry = none := by
  rw [entry, h, Option.map_none]

namespace EpollServer

variable {s : EpollServer} {f : EventLoop} {cur : Option (ℕ × ℕ)} {ls : ReadyHead → List ℕ}
  {a fd : ℕ} {n : CBAndEventMask}

/-- The nodes of the descriptors and the lists of them stand for the event loop, but for what the
    kernel watches. The callback of `cur`, a node with its descriptor, is running. -/
structure Holds (s : EpollServer) (cur : Option (ℕ × ℕ)) (ls : ReadyHead → List ℕ) (f : EventLoop) :
    Prop where
  links : s.links.Represents ls
  size : s.readyListSize = (ls .readyList).length + (ls .tmpList).length
  mapped : ∀ {fd a}, s.cbMap fd = some a → ∃ n, s.nodes a = some n ∧ n.fd = fd
  owned : ∀ {a n}, s.nodes a = some n → s.cbMap n.fd = some a
  fresh : ∀ {a n}, s.nodes a = some n → a < s.created
  used : ∀ {a n}, s.nodes a = some n → (n.inUse = true ↔ cur = some (a, n.fd))
  unregistered : ∀ {a n}, s.nodes a = some n → n.cb = none → cur = some (a, n.fd)
  shown : ∀ {a n}, s.nodes a = some n → cur = some (a, n.fd) → n.eventsAsserted = 0
  current : ∀ {a fd}, cur = some (a, fd) → ∃ n, s.nodes a = some n ∧ n.fd = fd
  listed : ∀ {h a}, a ∈ ls h → ∃ n, s.nodes a = some n ∧ n.cb ≠ none
  entries : ∀ fd, f.entries fd = ((s.cbMap fd).bind s.nodes).bind CBAndEventMask.entry
  lists : ∀ h, List.Forall₂ (fun a fd => s.cbMap fd = some a) (ls h) (f.lists h)

/-- The kernel watches what is registered. -/
def Watched (s : EpollServer) (f : EventLoop) : Prop :=
  ∀ fd, s.interest fd = (f.entries fd).map EpollEntry.watched

/-- The server stands for the event loop. -/
def Refines (s : EpollServer) (cur : Option (ℕ × ℕ)) (f : EventLoop) : Prop :=
  (∃ ls, s.Holds cur ls f) ∧ s.Watched f

theorem node_eq (h : s.nodes a = some n) : s.node a = .ok n := by
  rw [node, h]

theorem touch_eq (h : s.nodes a = some n) : s.touch (some a) = .ok () := by
  rw [touch, node_eq h]
  rfl

theorem updateNode_eq (h : s.nodes a = some n) (g : CBAndEventMask → CBAndEventMask) :
    s.updateNode a g = .ok { s with nodes := Function.update s.nodes a (some (g n)) } := by
  rw [updateNode, node_eq h]
  rfl

theorem addFD_eq (h : s.interest fd = none) (eventMask : EventMask) :
    s.addFD fd eventMask = .ok { s with
      interest := Function.update s.interest fd (some (eventMask ||| epollErr ||| epollHup)) } :=
  if_neg (by simp [h])

theorem modFD_eq (h : (s.interest fd).isSome) (eventMask : EventMask) :
    s.modFD fd eventMask = .ok { s with
      interest := Function.update s.interest fd (some (eventMask ||| epollErr ||| epollHup)) } :=
  if_neg (by simp [Option.isSome_iff_ne_none.1 h])

theorem delFD_eq (h : (s.interest fd).isSome) :
    s.delFD fd = .ok { s with interest := Function.update s.interest fd none } :=
  if_neg (by simp [Option.isSome_iff_ne_none.1 h])

namespace Holds

theorem biUnique (h : s.Holds cur ls f) :
    Relator.BiUnique fun a fd => s.cbMap fd = some a := by
  refine ⟨fun a b fd ha hb => Option.some_inj.1 (ha.symm.trans hb), fun a fd fd' hfd hfd' => ?_⟩
  obtain ⟨n, hn, rfl⟩ := h.mapped hfd
  obtain ⟨n', hn', rfl⟩ := h.mapped hfd'
  rw [hn] at hn'
  rw [Option.some_inj.1 hn']

theorem mem_iff (h : s.Holds cur ls f) (ha : s.cbMap fd = some a) (k : ReadyHead) :
    a ∈ ls k ↔ fd ∈ f.lists k :=
  List.rel_mem h.biUnique ha (h.lists k)

theorem entry_eq (h : s.Holds cur ls f) (ha : s.cbMap fd = some a) (hn : s.nodes a = some n) :
    f.entries fd = n.entry := by
  simp [h.entries, ha, hn]

theorem entries_of_none (h : s.Holds cur ls f) (hfd : s.cbMap fd = none) :
    f.entries fd = none := by
  simp [h.entries, hfd]

/-- What is ready is registered. -/
theorem takeOff_of_none (h : s.Holds cur ls f) (hfd : f.entries fd = none) :
    f.takeOff fd = f := by
  refine congrArg (EventLoop.mk f.entries) (funext fun k => List.erase_of_not_mem fun hmem => ?_)
  obtain ⟨a, hak, ha⟩ := exists_of_forall₂ (h.lists k) hmem
  obtain ⟨n, hn, hcb⟩ := h.listed hak
  rw [h.entry_eq ha hn] at hfd
  exact hcb (Option.map_eq_none_iff.1 hfd)

/-- The nodes in a list are there. -/
theorem touch_listed (h : s.Holds cur ls f) {k : ReadyHead} (ha : a ∈ ls k) :
    s.touch (some a) = .ok () := by
  obtain ⟨n, hn, -⟩ := h.listed ha
  exact touch_eq hn

/-- Other links, of other lists. -/
theorem withLinks (h : s.Holds cur ls f) {L : Links ReadyHead ℕ} {ls' : ReadyHead → List ℕ}
    (size : ℤ) (lists' : ReadyHead → List ℕ) (hL : L.Represents ls')
    (hsize : size = (ls' .readyList).length + (ls' .tmpList).length)
    (hlisted : ∀ {k a}, a ∈ ls' k → ∃ n, s.nodes a = some n ∧ n.cb ≠ none)
    (hlists : ∀ k, List.Forall₂ (fun a fd => s.cbMap fd = some a) (ls' k) (lists' k)) :
    Holds { s with links := L, readyListSize := size } cur ls' { f with lists := lists' } :=
  { h with links := hL, size := hsize, listed := hlisted, lists := hlists }

/-- The size that is left when a node is taken off. -/
theorem size_remove (h : s.Holds cur ls f) {k : ReadyHead} (hak : a ∈ ls k) :
    s.readyListSize - 1 = (Function.update ls k ((ls k).erase a) .readyList).length +
      (Function.update ls k ((ls k).erase a) .tmpList).length := by
  have hlen := List.length_erase_add_one hak
  rw [h.size]
  cases k <;> simp <;> omega

/-- The pointers that `RemoveFromReadyList` follows are those of listed nodes, and its check of the
    size passes. -/
theorem removeFromReadyList_eq (h : s.Holds cur ls f) (hn : s.nodes a = some n) {k : ReadyHead}
    (hak : a ∈ ls k) : s.removeFromReadyList a =
      .ok { s with links := s.links.remove a, readyListSize := s.readyListSize - 1 } := by
  obtain ⟨p, hprev⟩ := Option.isSome_iff_exists.1 (h.links.isSome_prev_iff.2 ⟨k, hak⟩)
  have hlinks := h.links.remove hak
  have hsize := h.size_remove hak
  have hnext : s.touch (s.links.next a) = .ok () := by
    cases hb : s.links.next a with
    | none => rfl
    | some b => exact h.touch_listed (h.links.next_mem hak hb)
  have hplace : s.touch p.element = .ok () := by
    rcases h.links.prev_eq hak with hp | ⟨c, hc, hp⟩ <;> rw [hprev, Option.some_inj] at hp
    · rw [hp]
      rfl
    · rw [hp]
      exact h.touch_listed hc
  have hcheck : ¬(s.readyListSize - 1 = 0 ∧ ¬((s.links.remove a).first .readyList = none ∧
      (s.links.remove a).first .tmpList = none)) := by
    rintro ⟨hzero, hne⟩
    rw [hsize] at hzero
    refine hne ⟨?_, ?_⟩ <;> rw [hlinks.first_eq, List.head?_eq_none_iff,
      ← List.length_eq_zero_iff] <;> omega
  rw [EpollServer.removeFromReadyList, touch_eq hn, hprev]
  change (do
    s.touch (s.links.next a)
    s.touch _
    if _ then _ else _) = _
  rw [hnext]
  change (do
    s.touch p.element
    if _ then _ else _) = _
  rw [hplace]
  exact if_neg hcheck

/-- A node is taken off the list it is in, if any. -/
theorem removeFromReadyList (h : s.Holds cur ls f) (ha : s.cbMap fd = some a) :
    ∃ L size ls', s.removeFromReadyList a = .ok { s with links := L, readyListSize := size } ∧
      Holds { s with links := L, readyListSize := size } cur ls' (f.takeOff fd) ∧
      ∀ k, a ∉ ls' k := by
  obtain ⟨n, hn, -⟩ := h.mapped ha
  have hmem := h.mem_iff ha
  cases hprev : s.links.prev a with
  | none =>
    have hnot : ∀ k, a ∉ ls k := by
      have hiff := h.links.isSome_prev_iff (a := a)
      simpa [hprev] using hiff
    rw [EpollServer.removeFromReadyList, touch_eq hn, hprev]
    refine ⟨s.links, s.readyListSize, ls, rfl, ?_, hnot⟩
    have hoff : f.takeOff fd = f := by
      refine congrArg (EventLoop.mk f.entries) (funext fun k => ?_)
      exact List.erase_of_not_mem (mt (hmem k).2 (hnot k))
    rw [hoff]
    exact h
  | some p =>
    obtain ⟨k, hak⟩ := h.links.isSome_prev_iff.1 (hprev ▸ rfl : (s.links.prev a).isSome)
    refine ⟨s.links.remove a, s.readyListSize - 1, Function.update ls k ((ls k).erase a),
      h.removeFromReadyList_eq hn hak,
      h.withLinks _ _ (h.links.remove hak) (h.size_remove hak) (fun {k' b} hb => ?_) fun k' => ?_,
      fun k' => ?_⟩
    · by_cases hk : k' = k
      · subst hk
        rw [Function.update_self] at hb
        exact h.listed (List.mem_of_mem_erase hb)
      · rw [Function.update_of_ne hk] at hb
        exact h.listed hb
    · by_cases hk : k' = k
      · subst hk
        rw [Function.update_self]
        exact forall₂_erase h.biUnique ha (h.lists k')
      · have hnot : fd ∉ f.lists k' := fun hfd => hk (h.links.apart ((hmem k').2 hfd) hak)
        rw [Function.update_of_ne hk, List.erase_of_not_mem hnot]
        exact h.lists k'
    · by_cases hk : k' = k
      · subst hk
        rw [Function.update_self]
        exact (h.links.nodup k').not_mem_erase
      · rw [Function.update_of_ne hk]
        exact fun hak' => hk (h.links.apart hak' hak)

/-- A registered node is put into the list of the ready ones, if it is in none. -/
theorem addToReadyList (h : s.Holds cur ls f) (ha : s.cbMap fd = some a)
    (hn : s.nodes a = some n) (hcb : n.cb ≠ none) :
    ∃ L size ls', s.addToReadyList a = .ok { s with links := L, readyListSize := size } ∧
      Holds { s with links := L, readyListSize := size } cur ls' (f.addReady fd) := by
  have hmem := h.mem_iff ha
  rw [EpollServer.addToReadyList, touch_eq hn, EventLoop.addReady]
  by_cases hprev : s.links.prev a = none
  · have hnot : ∀ k, a ∉ ls k := by
      have hiff := h.links.isSome_prev_iff (a := a)
      simpa [hprev] using hiff
    have hnot' : ∀ k, fd ∉ f.lists k := fun k => mt (hmem k).2 (hnot k)
    have hfirst : s.touch (s.links.first .readyList) = .ok () := by
      rw [h.links.first_eq]
      cases hl : ls .readyList with
      | nil => rfl
      | cons b l => exact h.touch_listed (k := .readyList) (hl ▸ List.mem_cons_self)
    rw [if_neg (not_or.2 ⟨hnot' _, hnot' _⟩)]
    refine ⟨s.links.insertHead .readyList a, s.readyListSize + 1,
      Function.update ls .readyList (a :: ls .readyList), ?_,
      h.withLinks _ _ (h.links.insertHead hnot _) ?_ (fun {k b} hb => ?_) fun k => ?_⟩
    · change (if s.links.prev a = none then _ else _) = _
      rw [if_pos hprev, hfirst]
      rfl
    · simp [h.size]
      omega
    · by_cases hk : k = .readyList
      · subst hk
        rw [Function.update_self] at hb
        rcases List.mem_cons.1 hb with rfl | hb
        · exact ⟨n, hn, hcb⟩
        · exact h.listed hb
      · rw [Function.update_of_ne hk] at hb
        exact h.listed hb
    · by_cases hk : k = .readyList
      · subst hk
        rw [Function.update_self, Function.update_self]
        exact .cons ha (h.lists _)
      · rw [Function.update_of_ne hk, Function.update_of_ne hk]
        exact h.lists k
  · have hin : fd ∈ f.lists .readyList ∨ fd ∈ f.lists .tmpList := by
      obtain ⟨k, hk⟩ := h.links.isSome_prev_iff.1 (Option.isSome_iff_ne_none.2 hprev)
      cases k
      · exact .inl ((hmem _).1 hk)
      · exact .inr ((hmem _).1 hk)
    rw [if_pos hin]
    exact ⟨s.links, s.readyListSize, ls, if_neg hprev, h⟩

/-- What a memory holds after a write. -/
theorem of_update {β : Type*} {nodes : ℕ → Option β} {a b : ℕ} {v : Option β} {m : β}
    (hb : Function.update nodes a v b = some m) :
    (b = a ∧ v = some m) ∨ (b ≠ a ∧ nodes b = some m) := by
  by_cases hba : b = a
  · subst hba
    rw [Function.update_self] at hb
    exact .inl ⟨rfl, hb⟩
  · rw [Function.update_of_ne hba] at hb
    exact .inr ⟨hba, hb⟩

/-- A node that is changed, but for its descriptor. -/
theorem update (h : s.Holds cur ls f) (hn : s.nodes a = some n) (n' : CBAndEventMask)
    (cur' : Option (ℕ × ℕ)) (hfd : n'.fd = n.fd) (huse : n'.inUse = true ↔ cur' = some (a, n.fd))
    (hcur : ∀ b fd, b ≠ a → (cur' = some (b, fd) ↔ cur = some (b, fd)))
    (hrun : ∀ fd, cur' = some (a, fd) → n.fd = fd)
    (hcb : n'.cb = none → cur' = some (a, n.fd) ∧ ∀ k, a ∉ ls k)
    (hshown : cur' = some (a, n.fd) → n'.eventsAsserted = 0) :
    Holds { s with nodes := Function.update s.nodes a (some n') } cur' ls
      (f.setEntry n.fd n'.entry) := by
  have hnodes : ∀ {b m}, Function.update s.nodes a (some n') b = some m →
      (b = a ∧ n' = m) ∨ (b ≠ a ∧ s.nodes b = some m) := fun hb =>
    (of_update hb).imp_left (And.imp_right Option.some.inj)
  have hget : ∀ {b m}, s.nodes b = some m → ∃ m',
      Function.update s.nodes a (some n') b = some m' ∧ m'.fd = m.fd ∧ (b ≠ a → m' = m) := by
    intro b m hb
    by_cases hba : b = a
    · subst hba
      rw [hn, Option.some_inj] at hb
      subst hb
      exact ⟨n', Function.update_self .., hfd, fun hne => absurd rfl hne⟩
    · exact ⟨m, by rw [Function.update_of_ne hba, hb], rfl, fun _ => rfl⟩
  refine ⟨h.links, h.size, fun {fd b} hb => ?_, fun {b m} hb => ?_, fun {b m} hb => ?_,
    fun {b m} hb => ?_, fun {b m} hb hm => ?_, fun {b m} hb hm => ?_, fun {b fd} hb => ?_,
    fun {k b} hb => ?_, fun fd => ?_, h.lists⟩
  · obtain ⟨m, hm, rfl⟩ := h.mapped hb
    obtain ⟨m', hm', hfd', -⟩ := hget hm
    exact ⟨m', hm', hfd'⟩
  · rcases hnodes hb with ⟨rfl, rfl⟩ | ⟨-, hb⟩
    · rw [hfd]
      exact h.owned hn
    · exact h.owned hb
  · rcases hnodes hb with ⟨rfl, rfl⟩ | ⟨-, hb⟩
    · exact h.fresh hn
    · exact h.fresh hb
  · rcases hnodes hb with ⟨rfl, rfl⟩ | ⟨hba, hb⟩
    · rw [hfd]
      exact huse
    · exact (h.used hb).trans (hcur b _ hba).symm
  · rcases hnodes hb with ⟨rfl, rfl⟩ | ⟨hba, hb⟩
    · rw [hfd]
      exact (hcb hm).1
    · exact (hcur b _ hba).2 (h.unregistered hb hm)
  · rcases hnodes hb with ⟨rfl, rfl⟩ | ⟨hba, hb⟩
    · rw [hfd] at hm
      exact hshown hm
    · exact h.shown hb ((hcur b _ hba).1 hm)
  · by_cases hba : b = a
    · subst hba
      exact ⟨n', Function.update_self .., hfd.trans (hrun fd hb)⟩
    · obtain ⟨m, hm, hmfd⟩ := h.current ((hcur b _ hba).1 hb)
      exact ⟨m, (Function.update_of_ne hba ..).trans hm, hmfd⟩
  · obtain ⟨m, hm, hmcb⟩ := h.listed hb
    obtain ⟨m', hm', -, heq⟩ := hget hm
    refine ⟨m', hm', ?_⟩
    by_cases hba : b = a
    · subst hba
      rw [Function.update_self, Option.some_inj] at hm'
      subst hm'
      exact fun hnone => (hcb hnone).2 k hb
    · rw [heq hba]
      exact hmcb
  · rw [EventLoop.setEntry]
    by_cases hfd' : fd = n.fd
    · subst hfd'
      simp [h.owned hn]
    · have hne : s.cbMap fd ≠ some a := fun heq => by
        obtain ⟨m, hm, rfl⟩ := h.mapped heq
        rw [hn, Option.some_inj] at hm
        exact hfd' (hm ▸ rfl)
      simp only [Function.update_of_ne hfd', h.entries]
      cases hb : s.cbMap fd with
      | none => rfl
      | some b =>
        have hba : b ≠ a := fun heq => hne (hb.trans (heq ▸ rfl))
        simp [Function.update_of_ne hba]

/-- A new node. -/
theorem insert (h : s.Holds cur ls f) (hfd : s.cbMap fd = none) (cb : ℕ) (eventMask : EventMask) :
    Holds { s with
      cbMap := Function.update s.cbMap fd (some s.created)
      nodes := Function.update s.nodes s.created (some ⟨some cb, fd, eventMask, 0, 0, false⟩)
      created := s.created + 1 } cur ls (f.setEntry fd (some ⟨cb, eventMask, 0, 0⟩)) := by
  have hold : ∀ {b m}, s.nodes b = some m → b ≠ s.created ∧ m.fd ≠ fd := fun {b m} hb =>
    ⟨(h.fresh hb).ne, fun heq => by simpa [heq, hfd] using h.owned hb⟩
  have hget : ∀ {b m}, s.nodes b = some m → Function.update s.nodes s.created
      (some ⟨some cb, fd, eventMask, 0, 0, false⟩) b = some m := fun {b m} hb => by
    rw [Function.update_of_ne (hold hb).1, hb]
  have hnodes : ∀ {b m}, Function.update s.nodes s.created
      (some ⟨some cb, fd, eventMask, 0, 0, false⟩) b = some m →
      (b = s.created ∧ ⟨some cb, fd, eventMask, 0, 0, false⟩ = m) ∨ s.nodes b = some m :=
    fun hb => (of_update hb).imp (And.imp_right Option.some.inj) And.right
  refine ⟨h.links, h.size, fun {fd' b} hb => ?_, fun {b m} hb => ?_, fun {b m} hb => ?_,
    fun {b m} hb => ?_, fun {b m} hb hm => ?_, fun {b m} hb hm => ?_, fun {b fd'} hb => ?_,
    fun {k b} hb => ?_, fun fd' => ?_, fun k => (h.lists k).imp fun b fd' hb => ?_⟩
  · dsimp only at hb
    by_cases hfd' : fd' = fd
    · subst hfd'
      rw [Function.update_self, Option.some_inj] at hb
      subst hb
      exact ⟨_, Function.update_self .., rfl⟩
    · rw [Function.update_of_ne hfd'] at hb
      obtain ⟨m, hm, rfl⟩ := h.mapped hb
      exact ⟨m, hget hm, rfl⟩
  · rcases hnodes hb with ⟨rfl, rfl⟩ | hb
    · exact Function.update_self ..
    · exact (Function.update_of_ne (hold hb).2 ..).trans (h.owned hb)
  · rcases hnodes hb with ⟨rfl, rfl⟩ | hb
    · exact Nat.lt_succ_self _
    · exact (h.fresh hb).trans (Nat.lt_succ_self _)
  · rcases hnodes hb with ⟨rfl, rfl⟩ | hb
    · refine iff_of_false Bool.false_ne_true fun hcur => ?_
      obtain ⟨m, hm, -⟩ := h.current hcur
      exact lt_irrefl _ (h.fresh hm)
    · exact h.used hb
  · rcases hnodes hb with ⟨rfl, rfl⟩ | hb
    · exact absurd hm (Option.some_ne_none cb)
    · exact h.unregistered hb hm
  · rcases hnodes hb with ⟨rfl, rfl⟩ | hb
    · rfl
    · exact h.shown hb hm
  · obtain ⟨m, hm, hmfd⟩ := h.current hb
    exact ⟨m, hget hm, hmfd⟩
  · obtain ⟨m, hm, hmcb⟩ := h.listed hb
    exact ⟨m, hget hm, hmcb⟩
  · rw [EventLoop.setEntry]
    by_cases hfd' : fd' = fd
    · subst hfd'
      simp [CBAndEventMask.entry]
    · simp only [Function.update_of_ne hfd', h.entries]
      cases hb : s.cbMap fd' with
      | none => rfl
      | some b =>
        obtain ⟨m, hm, -⟩ := h.mapped hb
        rw [Option.bind_some, Option.bind_some, hget hm, hm]
  · obtain ⟨m, hm, rfl⟩ := h.mapped hb
    exact (Function.update_of_ne (hold hm).2 ..).trans hb

/-- A node that is erased, in no list and, from now on, in no use. -/
theorem erase (h : s.Holds cur ls f) (ha : s.cbMap fd = some a) (hnot : ∀ k, a ∉ ls k)
    (cur' : Option (ℕ × ℕ)) (hcur : ∀ b fd, b ≠ a → (cur' = some (b, fd) ↔ cur = some (b, fd)))
    (hne : ∀ fd, cur' ≠ some (a, fd)) :
    (s.erase fd).Holds cur' ls (f.setEntry fd none) := by
  obtain ⟨n, hn, hnfd⟩ := h.mapped ha
  have hold : ∀ {b m}, s.nodes b = some m → (b ≠ a ↔ m.fd ≠ fd) := fun {b m} hb => by
    rw [not_iff_not]
    constructor
    · rintro rfl
      rw [hn, Option.some_inj] at hb
      exact hb ▸ hnfd
    · intro heq
      have howned := h.owned hb
      rw [heq, ha, Option.some_inj] at howned
      exact howned.symm
  have hnodes : ∀ {b m}, Function.update s.nodes a none b = some m → b ≠ a ∧ s.nodes b = some m :=
    fun {_ m} hb => (of_update hb).resolve_left fun h => Option.some_ne_none m h.2.symm
  rw [EpollServer.erase, ha]
  dsimp only
  refine ⟨h.links, h.size, fun {fd' b} hb => ?_, fun {b m} hb => ?_,
    fun hb => h.fresh (hnodes hb).2, fun {b m} hb => ?_, fun {b m} hb hm => ?_,
    fun {b m} hb hm => ?_, fun {b fd'} hb => ?_, fun {k b} hb => ?_, fun fd' => ?_, fun k => ?_⟩
  · dsimp only at hb
    by_cases hfd' : fd' = fd
    · subst hfd'
      rw [Function.update_self] at hb
      exact absurd hb.symm (Option.some_ne_none b)
    · rw [Function.update_of_ne hfd'] at hb
      obtain ⟨m, hm, rfl⟩ := h.mapped hb
      exact ⟨m, (Function.update_of_ne ((hold hm).2 hfd') ..).trans hm, rfl⟩
  · obtain ⟨hba, hb⟩ := hnodes hb
    exact (Function.update_of_ne ((hold hb).1 hba) ..).trans (h.owned hb)
  · obtain ⟨hba, hb⟩ := hnodes hb
    exact (h.used hb).trans (hcur b _ hba).symm
  · obtain ⟨hba, hb⟩ := hnodes hb
    exact (hcur b _ hba).2 (h.unregistered hb hm)
  · obtain ⟨hba, hb⟩ := hnodes hb
    exact h.shown hb ((hcur b _ hba).1 hm)
  · have hba : b ≠ a := fun heq => hne fd' (heq ▸ hb)
    obtain ⟨m, hm, hmfd⟩ := h.current ((hcur b _ hba).1 hb)
    exact ⟨m, (Function.update_of_ne hba ..).trans hm, hmfd⟩
  · obtain ⟨m, hm, hmcb⟩ := h.listed hb
    have hba : b ≠ a := fun heq => hnot k (heq ▸ hb)
    exact ⟨m, (Function.update_of_ne hba ..).trans hm, hmcb⟩
  · rw [EventLoop.setEntry]
    by_cases hfd' : fd' = fd
    · subst hfd'
      simp
    · simp only [Function.update_of_ne hfd', h.entries]
      cases hb : s.cbMap fd' with
      | none => rfl
      | some b =>
        obtain ⟨m, hm, rfl⟩ := h.mapped hb
        simp [Function.update_of_ne ((hold hm).2 hfd')]
  · refine List.forall₂_iff_get.2 ⟨(h.lists k).length_eq, fun i hi hi' => ?_⟩
    have hb := (h.lists k).get hi hi'
    have hba : (ls k).get ⟨i, hi⟩ ≠ a := fun heq => hnot k (heq ▸ List.get_mem ..)
    obtain ⟨m, hm, heq⟩ := h.mapped hb
    exact (Function.update_of_ne (heq ▸ (hold hm).1 hba) ..).trans hb

theorem fd_of_current (h : s.Holds cur ls f) (hn : s.nodes a = some n)
    (hcur : cur = some (a, fd)) : n.fd = fd := by
  obtain ⟨m, hm, rfl⟩ := h.current hcur
  rw [hn, Option.some_inj] at hm
  rw [hm]

theorem withInterest (h : s.Holds cur ls f) (interest : ℕ → Option EventMask) :
    Holds { s with interest := interest } cur ls f :=
  { h with }

/-- A change of a node that is in no list, or stays registered, and in use as before. -/
theorem change (h : s.Holds cur ls f) (hn : s.nodes a = some n) (n' : CBAndEventMask)
    (hfd : n'.fd = n.fd) (huse : n'.inUse = n.inUse)
    (hcb : n'.cb = none → n.inUse = true ∧ ∀ k, a ∉ ls k)
    (hshown : cur = some (a, n.fd) → n'.eventsAsserted = 0) :
    Holds { s with nodes := Function.update s.nodes a (some n') } cur ls
      (f.setEntry n.fd n'.entry) :=
  h.update hn n' cur hfd (huse ▸ h.used hn) (fun _ _ _ => Iff.rfl) (fun _ => h.fd_of_current hn)
    (fun hnone => ⟨(h.used hn).1 (hcb hnone).1, (hcb hnone).2⟩) hshown

end Holds

/-! ## Operations -/

theorem watched_setEntry {interest : ℕ → Option EventMask}
    (hw : ∀ fd, interest fd = (f.entries fd).map EpollEntry.watched) (fd : ℕ)
    (e : Option EpollEntry) (fd' : ℕ) :
    Function.update interest fd (e.map EpollEntry.watched) fd' =
      ((f.setEntry fd e).entries fd').map EpollEntry.watched := by
  rw [EventLoop.setEntry]
  by_cases hfd : fd' = fd
  · subst hfd
    simp
  · simp [hfd, hw]

theorem watched_of_eq {interest : ℕ → Option EventMask}
    (hw : ∀ fd, interest fd = (f.entries fd).map EpollEntry.watched) {e e' : EpollEntry}
    (he : f.entries fd = some e) (heq : e'.watched = e.watched) (fd' : ℕ) :
    interest fd' = ((f.setEntry fd (some e')).entries fd').map EpollEntry.watched := by
  have hset := watched_setEntry hw fd (some e') fd'
  rwa [Function.update_eq_self_iff.2] at hset
  rw [hw, he, Option.map_some, Option.map_some, heq]

namespace Refines

theorem setFDNotReady (h : s.Refines cur f) (fd : ℕ) :
    ∃ s', s.setFDNotReady fd = .ok s' ∧ s'.Refines cur (f.takeOff fd) := by
  obtain ⟨⟨ls, hs⟩, hw⟩ := h
  rw [EpollServer.setFDNotReady]
  cases ha : s.cbMap fd with
  | none =>
    rw [hs.takeOff_of_none (hs.entries_of_none ha)]
    exact ⟨s, rfl, ⟨ls, hs⟩, hw⟩
  | some a =>
    obtain ⟨L, size, ls', hremove, hs', -⟩ := hs.removeFromReadyList ha
    exact ⟨_, hremove, ⟨ls', hs'⟩, hw⟩

/-- Changing the events noted of a registered descriptor, and making it ready. -/
theorem makeReady (h : s.Refines cur f) (fd : ℕ) (g : CBAndEventMask → CBAndEventMask)
    (g' : EpollEntry → EpollEntry)
    (hg : ∀ n, (g n).cb = n.cb ∧ (g n).fd = n.fd ∧ (g n).inUse = n.inUse ∧
      (g n).entry = n.entry.map g')
    (hg' : ∀ e, (g' e).watched = e.watched)
    (hshown : ∀ n, cur ≠ none → n.eventsAsserted = 0 → (g n).eventsAsserted = 0) :
    ∃ s', s.makeReady fd g = .ok s' ∧ s'.Refines cur (f.makeReady fd g') := by
  obtain ⟨⟨ls, hs⟩, hw⟩ := h
  rw [EpollServer.makeReady, EventLoop.makeReady]
  cases ha : s.cbMap fd with
  | none =>
    rw [hs.entries_of_none ha]
    exact ⟨s, rfl, ⟨ls, hs⟩, hw⟩
  | some a =>
    obtain ⟨n, hn, rfl⟩ := hs.mapped ha
    obtain ⟨hcb, hfd, huse, hentry⟩ := hg n
    have heq := hs.entry_eq ha hn
    dsimp only
    rw [node_eq hn, heq]
    cases hncb : n.cb with
    | none =>
      rw [CBAndEventMask.entry_of_none hncb]
      refine ⟨s, ?_, ⟨ls, hs⟩, hw⟩
      simp only [ok_bind, hncb]
      rfl
    | some cb =>
      obtain ⟨e, he⟩ : ∃ e, n.entry = some e := ⟨_, CBAndEventMask.entry_of_some hncb⟩
      rw [he, Option.map_some] at hentry
      rw [he]
      have hchange := hs.change hn (g n) hfd huse (fun hnone => by simp [hcb, hncb] at hnone)
        fun hcur => hshown n (hcur ▸ Option.some_ne_none _) (hs.shown hn hcur)
      rw [hentry] at hchange
      obtain ⟨L, size, ls', hadd, hs'⟩ := hchange.addToReadyList (by exact ha)
        (Function.update_self ..) (by simp [hcb, hncb])
      refine ⟨_, ?_, ⟨ls', hs'⟩, fun fd' => ?_⟩
      · simp only [ok_bind, hncb, updateNode_eq hn]
        exact hadd
      · change _ = (((f.setEntry n.fd (some (g' e))).addReady n.fd).entries fd').map _
        rw [EventLoop.entries_addReady]
        exact watched_of_eq hw (heq.trans he) (hg' e) fd'

theorem setFDReady (h : s.Refines cur f) (fd : ℕ) (eventsToFake : EventMask) :
    ∃ s', s.setFDReady fd eventsToFake = .ok s' ∧
      s'.Refines cur (f.apply (.setFDReady fd eventsToFake)) :=
  h.makeReady fd _ _
    (fun n => ⟨rfl, rfl, rfl, by cases hcb : n.cb <;> simp [CBAndEventMask.entry, hcb]⟩)
    (fun _ => rfl) fun _ _ => id

theorem handleEvent (h : s.Refines none f) (fd : ℕ) (eventMask : EventMask) :
    ∃ s', s.handleEvent fd eventMask = .ok s' ∧ s'.Refines none (f.handleEvent fd eventMask) :=
  h.makeReady fd _ _
    (fun n => ⟨rfl, rfl, rfl, by cases hcb : n.cb <;> simp [CBAndEventMask.entry, hcb]⟩)
    (fun _ => rfl) fun _ hcur => absurd rfl hcur

theorem modifyFD (h : s.Refines cur f) (fd : ℕ) (removeEvent addEvent : EventMask) :
    ∃ s', s.modifyFD fd removeEvent addEvent = .ok s' ∧
      s'.Refines cur (f.apply (.modifyFD fd removeEvent addEvent)) := by
  obtain ⟨⟨ls, hs⟩, hw⟩ := h
  rw [EpollServer.modifyFD, EventLoop.apply]
  cases ha : s.cbMap fd with
  | none =>
    have heq := hs.entries_of_none ha
    rw [heq, Option.map_none, f.setEntry_eq_self heq]
    exact ⟨s, rfl, ⟨ls, hs⟩, hw⟩
  | some a =>
    obtain ⟨n, hn, rfl⟩ := hs.mapped ha
    have heq := hs.entry_eq ha hn
    dsimp only
    rw [node_eq hn]
    cases hncb : n.cb with
    | none =>
      rw [CBAndEventMask.entry_of_none hncb] at heq
      rw [heq, Option.map_none, f.setEntry_eq_self heq]
      refine ⟨s, ?_, ⟨ls, hs⟩, hw⟩
      simp only [ok_bind, hncb]
      rfl
    | some cb =>
      rw [CBAndEventMask.entry_of_some hncb] at heq
      rw [heq, Option.map_some]
      generalize heventMask : n.eventMask &&& ~~~removeEvent ||| addEvent = eventMask
      have hchange := hs.change hn { n with eventMask := eventMask } rfl rfl
        (fun hnone => by simp [hncb] at hnone) fun hcur => hs.shown (n := n) hn hcur
      rw [CBAndEventMask.entry_of_some (by exact hncb)] at hchange
      have hset := watched_setEntry hw n.fd
        (some ⟨cb, eventMask, n.eventsAsserted, n.eventsToFake⟩)
      refine ⟨_, ?_, ⟨ls, hchange.withInterest _⟩, hset⟩
      simp only [ok_bind, hncb, updateNode_eq hn, heventMask]
      refine if_neg ?_
      simp [hw n.fd, heq]

theorem unregisterFD (h : s.Refines cur f) (fd : ℕ) :
    ∃ s', s.unregisterFD fd = .ok s' ∧ s'.Refines cur (f.apply (.unregisterFD fd)) := by
  obtain ⟨⟨ls, hs⟩, hw⟩ := h
  rw [EpollServer.unregisterFD, EventLoop.apply]
  cases ha : s.cbMap fd with
  | none =>
    have heq := hs.entries_of_none ha
    rw [hs.takeOff_of_none heq, f.setEntry_eq_self heq]
    exact ⟨s, rfl, ⟨ls, hs⟩, hw⟩
  | some a =>
    obtain ⟨n, hn, rfl⟩ := hs.mapped ha
    have heq := hs.entry_eq ha hn
    dsimp only
    rw [node_eq hn]
    cases hncb : n.cb with
    | none =>
      rw [CBAndEventMask.entry_of_none hncb] at heq
      rw [hs.takeOff_of_none heq, f.setEntry_eq_self heq]
      refine ⟨s, ?_, ⟨ls, hs⟩, hw⟩
      simp only [ok_bind, hncb]
      rfl
    | some cb =>
      rw [CBAndEventMask.entry_of_some hncb] at heq
      obtain ⟨L, size, ls', hremove, hs', hnot⟩ := hs.removeFromReadyList ha
      have hset : ∀ fd', _ = _ := watched_setEntry (f := f.takeOff n.fd) hw n.fd none
      have hwatched : (s.interest n.fd).isSome := by simp [hw n.fd, heq]
      by_cases huse : n.inUse = true
      · have hchange := hs'.change (a := a) hn
          { n with cb := none, eventMask := 0, eventsToFake := 0 } rfl rfl
          (fun _ => ⟨huse, hnot⟩) fun hcur => hs.shown (n := n) hn hcur
        refine ⟨_, ?_, ⟨ls', hchange.withInterest _⟩, hset⟩
        simp only [ok_bind, hncb, hremove,
          delFD_eq (s := { s with links := L, readyListSize := size }) hwatched]
        rw [if_pos huse]
        exact updateNode_eq (s := { s with
          links := L, readyListSize := size
          interest := Function.update s.interest n.fd none }) hn _
      · have herase := hs'.erase (a := a) ha hnot cur (fun _ _ _ => Iff.rfl)
          fun fd hcur => huse ((hs.used hn).2 (hs.fd_of_current hn hcur ▸ hcur))
        refine ⟨_, ?_, ⟨ls', herase.withInterest _⟩, hset⟩
        simp only [ok_bind, hncb, hremove,
          delFD_eq (s := { s with links := L, readyListSize := size }) hwatched, huse]
        simp only [EpollServer.erase, ha]
        rfl

theorem registerFD (h : s.Refines cur f) (fd cb : ℕ) (eventMask : EventMask) :
    ∃ s', s.registerFD fd cb eventMask = .ok s' ∧
      s'.Refines cur (f.apply (.registerFD fd cb eventMask)) := by
  obtain ⟨⟨ls, hs⟩, hw⟩ := h
  rw [EpollServer.registerFD, EventLoop.apply]
  have hset : ∀ asserted fd', _ = _ := fun asserted =>
    watched_setEntry (f := f.takeOff fd) hw fd (some ⟨cb, eventMask, asserted, 0⟩)
  cases ha : s.cbMap fd with
  | none =>
    have heq := hs.entries_of_none ha
    have hinsert := hs.insert ha cb eventMask
    have hset' := hset 0
    have hnone : s.interest fd = none := by simp [hw fd, heq]
    rw [hs.takeOff_of_none heq] at hset' ⊢
    rw [heq]
    refine ⟨_, ?_, ⟨ls, hinsert.withInterest _⟩, hset'⟩
    simp only [addFD_eq hnone, ok_bind]
    rfl
  | some a =>
    obtain ⟨n, hn, rfl⟩ := hs.mapped ha
    have heq := hs.entry_eq ha hn
    dsimp only
    rw [node_eq hn]
    cases hncb : n.cb with
    | none =>
      rw [CBAndEventMask.entry_of_none hncb] at heq
      have hset' := hset 0
      have hnone : s.interest n.fd = none := by simp [hw n.fd, heq]
      have hzero := hs.shown hn (hs.unregistered hn hncb)
      have hchange := hs.change hn
        { n with cb := some cb, eventMask := eventMask, eventsToFake := 0 } rfl rfl
        (fun hnone => absurd hnone (Option.some_ne_none cb)) fun hcur => hs.shown (n := n) hn hcur
      rw [CBAndEventMask.entry_of_some rfl] at hchange
      rw [hs.takeOff_of_none heq] at hset' ⊢
      rw [heq]
      simp only [hzero] at hchange
      refine ⟨_, ?_, ⟨ls, hchange.withInterest _⟩, hset'⟩
      simp only [ok_bind, hncb, addFD_eq hnone]
      rw [updateNode_eq (s := { s with
        interest := Function.update s.interest n.fd
          (some (eventMask ||| epollErr ||| epollHup)) }) hn, hzero]
      rfl
    | some other =>
      rw [CBAndEventMask.entry_of_some hncb] at heq
      obtain ⟨L, size, ls', hremove, hs', hnot⟩ := hs.removeFromReadyList ha
      have hwatched : (s.interest n.fd).isSome := by simp [hw n.fd, heq]
      have hchange := hs'.change (a := a) hn
        { n with cb := some cb, eventMask := eventMask, eventsToFake := 0 } rfl rfl
        (fun hnone => absurd hnone (Option.some_ne_none cb)) fun hcur => hs.shown (n := n) hn hcur
      rw [CBAndEventMask.entry_of_some rfl] at hchange
      rw [heq]
      refine ⟨_, ?_, ⟨ls', hchange.withInterest _⟩, hset n.eventsAsserted⟩
      simp only [ok_bind, hncb, hremove,
        modFD_eq (s := { s with links := L, readyListSize := size }) hwatched]
      exact updateNode_eq (s := { s with links := L, readyListSize := size, interest := _ }) hn _

/-- An operation does what it does to the event loop. -/
theorem apply (h : s.Refines cur f) (op : EpollOp) :
    ∃ s', s.apply op = .ok s' ∧ s'.Refines cur (f.apply op) := by
  cases op with
  | registerFD fd cb eventMask => exact h.registerFD fd cb eventMask
  | unregisterFD fd => exact h.unregisterFD fd
  | modifyFD fd removeEvent addEvent => exact h.modifyFD fd removeEvent addEvent
  | setFDReady fd eventsToFake => exact h.setFDReady fd eventsToFake
  | setFDNotReady fd => exact h.setFDNotReady fd

theorem foldlM_apply (h : s.Refines cur f) (ops : List EpollOp) :
    ∃ s', ops.foldlM EpollServer.apply s = .ok s' ∧
      s'.Refines cur (ops.foldl EventLoop.apply f) := by
  induction ops generalizing s f with
  | nil => exact ⟨s, rfl, h⟩
  | cons op ops ih =>
    obtain ⟨s₁, hop, h₁⟩ := h.apply op
    obtain ⟨s', hops, h'⟩ := ih h₁
    refine ⟨s', ?_, h'⟩
    rw [List.foldlM_cons, hop]
    exact hops

theorem foldlM_handleEvent (h : s.Refines none f) (events : List (ℕ × EventMask)) :
    ∃ s', events.foldlM (fun s e => s.handleEvent e.1 e.2) s = .ok s' ∧
      s'.Refines none (events.foldl (fun f e => f.handleEvent e.1 e.2) f) := by
  induction events generalizing s f with
  | nil => exact ⟨s, rfl, h⟩
  | cons e events ih =>
    obtain ⟨s₁, hop, h₁⟩ := h.handleEvent e.1 e.2
    obtain ⟨s', hops, h'⟩ := ih h₁
    refine ⟨s', ?_, h'⟩
    rw [List.foldlM_cons, hop]
    exact hops

/-- After its callback, a node is not in use any more, or not there. -/
theorem afterEvent (h : s.Refines (some (a, fd)) f) (outReadyMask : EventMask) :
    ∃ s' s'', s.updateNode a (fun m => { m with inUse := false }) = .ok s' ∧
      s'.afterEvent a outReadyMask = .ok s'' ∧
      s''.Refines none (if outReadyMask ≠ 0 then
        f.makeReady fd fun e => { e with eventsToFake := outReadyMask } else f) := by
  obtain ⟨⟨ls, hs⟩, hw⟩ := h
  obtain ⟨m, hm, rfl⟩ := hs.current rfl
  have ha := hs.owned hm
  have heq := hs.entry_eq ha hm
  have hothers : ∀ b fd, b ≠ a → ((none : Option (ℕ × ℕ)) = some (b, fd) ↔
      some (a, m.fd) = some (b, fd)) := fun b fd hba => by simp [Ne.symm hba]
  have hm' : ∀ m', Function.update s.nodes a (some m') a = some m' := fun m' =>
    Function.update_self ..
  cases hcb : m.cb with
  | none =>
    rw [CBAndEventMask.entry_of_none hcb] at heq
    have hnot : ∀ k, a ∉ ls k := fun k hk => by
      obtain ⟨m', hm', hcb'⟩ := hs.listed hk
      rw [hm, Option.some_inj] at hm'
      exact hcb' (hm' ▸ hcb)
    have herase := hs.erase ha hnot none hothers fun fd => (Option.some_ne_none _).symm
    rw [f.setEntry_eq_self heq] at herase
    have hready : (if outReadyMask ≠ 0 then
        f.makeReady m.fd fun e => { e with eventsToFake := outReadyMask } else f) = f := by
      rw [EventLoop.makeReady, heq, ite_self]
    rw [hready]
    refine ⟨_, s.erase m.fd, updateNode_eq hm _, ?_, ⟨ls, herase⟩, ?_⟩
    · rw [EpollServer.afterEvent, node_eq (hm' _)]
      simp only [ok_bind, hcb, if_true, EpollServer.erase, ha, Function.update_idem]
      rfl
    · rw [EpollServer.erase, ha]
      exact hw
  | some cb =>
    rw [CBAndEventMask.entry_of_some hcb] at heq
    have hs' := hs.update hm { m with inUse := false } none rfl
      (iff_of_false Bool.false_ne_true (Option.some_ne_none _).symm) hothers
      (fun fd hfd => absurd hfd.symm (Option.some_ne_none _))
      (fun hnone => absurd (hcb.symm.trans hnone) (Option.some_ne_none cb)) fun hnone =>
        absurd hnone.symm (Option.some_ne_none _)
    rw [CBAndEventMask.entry_of_some (by exact hcb), f.setEntry_eq_self heq] at hs'
    obtain ⟨s₁, hupdate, hnode, hmap, h₁⟩ : ∃ s₁,
        s.updateNode a (fun m => { m with inUse := false }) = .ok s₁ ∧
        s₁.node a = .ok { m with inUse := false } ∧ s₁.cbMap m.fd = some a ∧ Refines s₁ none f :=
      ⟨_, updateNode_eq hm _, node_eq (hm' _), ha, ⟨ls, hs'⟩, hw⟩
    obtain ⟨s', hready, h'⟩ := h₁.makeReady m.fd
      (fun m => { m with eventsToFake := outReadyMask })
      (fun e => { e with eventsToFake := outReadyMask })
      (fun n => ⟨rfl, rfl, rfl, by cases hcb : n.cb <;> simp [CBAndEventMask.entry, hcb]⟩)
      (fun _ => rfl) fun _ hcur => absurd rfl hcur
    rw [EpollServer.makeReady, hmap] at hready
    simp only [hnode, ok_bind, hcb] at hready
    split_ifs with hout
    · refine ⟨s₁, s', hupdate, ?_, h'⟩
      rw [EpollServer.afterEvent, hnode]
      simpa only [ok_bind, hcb, if_pos hout, reduceCtorEq, if_false] using hready
    · refine ⟨s₁, s₁, hupdate, ?_, h₁⟩
      rw [EpollServer.afterEvent, hnode]
      simp only [ok_bind, hcb, if_neg hout, reduceCtorEq, if_false]
      rfl

/-- A call of a callback is the call of the event loop. -/
theorem callback (h : s.Refines none f) (ha : s.links.first .tmpList = some a)
    (behaviour : OnEvent) : ∃ fd l e s', f.lists .tmpList = fd :: l ∧ f.entries fd = some e ∧
      s.callback a behaviour =
        .ok (⟨e.cb, fd, e.eventsAsserted ||| e.eventsToFake⟩, s') ∧
      s'.Refines none (f.call fd e behaviour) := by
  obtain ⟨⟨ls, hs⟩, hw⟩ := h
  have hfirst := hs.links.first_eq .tmpList
  rw [ha] at hfirst
  have hal : a ∈ ls .tmpList := List.mem_of_head? hfirst.symm
  obtain ⟨n, hn, hcb⟩ := hs.listed hal
  obtain ⟨cb, hcb⟩ := Option.ne_none_iff_exists'.1 hcb
  have hmap := hs.owned hn
  have heq := hs.entry_eq hmap hn
  rw [CBAndEventMask.entry_of_some hcb] at heq
  obtain ⟨l, hl⟩ : ∃ l, f.lists .tmpList = n.fd :: l := by
    have hlists := hs.lists .tmpList
    have hmem := (hs.mem_iff hmap .tmpList).1 hal
    generalize f.lists .tmpList = fds at hlists hmem ⊢
    generalize ls .tmpList = as at hlists hal hfirst
    cases hlists with
    | nil => exact absurd hal List.not_mem_nil
    | cons hb _ =>
      rw [List.head?_cons, Option.some_inj] at hfirst
      exact ⟨_, congrArg (· :: _) (hs.biUnique.2 (hfirst ▸ hb) hmap)⟩
  have hfree : n.inUse = false := by
    have hused := hs.used hn
    simpa using hused
  obtain ⟨s₁, hremove, hn₁, ⟨ls', hs₁⟩, hw₁⟩ : ∃ s₁, s.removeFromReadyList a = .ok s₁ ∧
      s₁.nodes a = some n ∧ Refines s₁ none (f.takeOff n.fd) := by
    obtain ⟨L, size, ls', hremove, hs₁, -⟩ := hs.removeFromReadyList hmap
    exact ⟨_, hremove, hn, ⟨ls', hs₁⟩, hw⟩
  have hs₂ := hs₁.update hn₁
    { n with eventsAsserted := 0, eventsToFake := 0, inUse := true } (some (a, n.fd)) rfl
    (iff_of_true rfl rfl) (fun b fd hba => by simp [Ne.symm hba])
    (fun fd hfd => (Prod.mk.inj (Option.some_inj.1 hfd)).2)
    (fun hnone => absurd (hcb.symm.trans hnone) (Option.some_ne_none cb)) fun _ => rfl
  rw [CBAndEventMask.entry_of_some (by exact hcb)] at hs₂
  obtain ⟨s₃, hops, hs₃⟩ := Refines.foldlM_apply
    ⟨⟨ls', hs₂⟩, watched_of_eq (f := f.takeOff n.fd) hw₁ heq rfl⟩ behaviour.ops
  obtain ⟨s₄, s₅, hupdate, hafter, hs₅⟩ := hs₃.afterEvent behaviour.outReadyMask
  refine ⟨n.fd, l, _, s₅, hl, heq, ?_, hs₅⟩
  rw [EpollServer.callback, hremove]
  simp only [ok_bind, node_eq hn₁, updateNode_eq hn₁]
  rw [hcb] at hops ⊢
  dsimp only at hops ⊢
  rw [hops]
  simp only [ok_bind, hfree, hupdate, hafter]
  rfl

end Refines

end EpollServer

/-! ## Rounds -/

namespace EventLoop

variable (f : EventLoop)

@[simp] theorem tmpList_addReady (fd : ℕ) :
    (f.addReady fd).lists .tmpList = f.lists .tmpList := by
  rw [addReady]
  split_ifs <;> simp

@[simp] theorem tmpList_makeReady (fd : ℕ) (g : EpollEntry → EpollEntry) :
    (f.makeReady fd g).lists .tmpList = f.lists .tmpList := by
  rw [makeReady]
  split
  · rfl
  · exact tmpList_addReady _ fd

/-- Operations take something off what is left to call, at most. -/
theorem sublist_apply (op : EpollOp) :
    ((f.apply op).lists .tmpList).Sublist (f.lists .tmpList) := by
  cases op with
  | registerFD fd cb eventMask => exact List.erase_sublist
  | unregisterFD fd => exact List.erase_sublist
  | modifyFD fd removeEvent addEvent => exact List.Sublist.refl _
  | setFDReady fd eventsToFake => simp [apply]
  | setFDNotReady fd => exact List.erase_sublist

theorem sublist_foldl_apply (ops : List EpollOp) :
    ((ops.foldl apply f).lists .tmpList).Sublist (f.lists .tmpList) := by
  induction ops generalizing f with
  | nil => exact List.Sublist.refl _
  | cons op ops ih => exact (ih (f.apply op)).trans (f.sublist_apply op)

/-- What is called is not left to call. -/
theorem sublist_call (fd : ℕ) (e : EpollEntry) (behaviour : OnEvent) :
    ((f.call fd e behaviour).lists .tmpList).Sublist ((f.lists .tmpList).erase fd) := by
  have hops := sublist_foldl_apply ((f.takeOff fd).setEntry fd
    (some { e with eventsAsserted := 0, eventsToFake := 0 })) behaviour.ops
  rw [call]
  split_ifs
  · rw [tmpList_makeReady]
    exact hops
  · exact hops

theorem tmpList_handleEvents (events : List (ℕ × EventMask)) :
    (events.foldl (fun f e => f.handleEvent e.1 e.2) f).lists .tmpList = f.lists .tmpList := by
  induction events generalizing f with
  | nil => rfl
  | cons e events ih =>
    rw [List.foldl_cons, ih, handleEvent, tmpList_makeReady]

theorem callLoop_nil (h : f.lists .tmpList = []) (fuel : ℕ) (behaviours : List OnEvent) :
    callLoop fuel behaviours f = ([], f) := by
  cases fuel with
  | zero => rfl
  | succ fuel => rw [callLoop, h]

end EventLoop

namespace EpollServer

variable {s : EpollServer} {f : EventLoop}

namespace Refines

theorem tmpList_eq_nil_iff (h : s.Refines none f) :
    s.links.first .tmpList = none ↔ f.lists .tmpList = [] := by
  obtain ⟨⟨ls, hs⟩, -⟩ := h
  have hlen := (hs.lists .tmpList).length_eq
  rw [hs.links.first_eq, List.head?_eq_none_iff, ← List.length_eq_zero_iff, hlen,
    List.length_eq_zero_iff]

/-- The loop of a round ends, with the calls of the event loop. -/
theorem callLoop (h : s.Refines none f) (behaviours : List OnEvent) (fuel fuel' : ℕ)
    (hfuel : (f.lists .tmpList).length < fuel) (hfuel' : (f.lists .tmpList).length ≤ fuel') :
    ∃ s', EpollServer.callLoop fuel behaviours s =
        .ok ((EventLoop.callLoop fuel' behaviours f).1, s') ∧
      s'.Refines none (EventLoop.callLoop fuel' behaviours f).2 ∧
      (EventLoop.callLoop fuel' behaviours f).2.lists .tmpList = [] := by
  induction fuel generalizing s f behaviours fuel' with
  | zero => exact absurd hfuel (Nat.not_lt_zero _)
  | succ fuel ih =>
    rw [EpollServer.callLoop]
    cases ha : s.links.first .tmpList with
    | none =>
      have hnil := h.tmpList_eq_nil_iff.1 ha
      rw [f.callLoop_nil hnil]
      exact ⟨s, rfl, h, hnil⟩
    | some a =>
      obtain ⟨fd, l, e, s₁, hl, he, hcall, h₁⟩ := h.callback ha behaviours.headI
      have hsize : ¬ s.readyListSize ≤ 0 := by
        obtain ⟨⟨ls, hs⟩, -⟩ := h
        have hlen := (hs.lists .tmpList).length_eq
        rw [hl, List.length_cons] at hlen
        rw [hs.size]
        omega
      have hsub := (f.sublist_call fd e behaviours.headI).length_le
      rw [hl, List.erase_cons_head] at hsub
      rw [hl, List.length_cons] at hfuel hfuel'
      obtain ⟨fuel', rfl⟩ := Nat.exists_eq_add_of_le' (Nat.one_le_iff_ne_zero.2
        (Nat.ne_zero_of_lt hfuel'))
      obtain ⟨s', hloop, h', hnil⟩ := ih h₁ behaviours.tail fuel' (by omega) (by omega)
      rw [EventLoop.callLoop, hl]
      dsimp only
      rw [he, if_neg hsize, hcall]
      refine ⟨s', ?_, h', hnil⟩
      simp only [ok_bind]
      rw [hloop]
      rfl

/-- The list of the ready descriptors is called, and nothing is left of it. -/
theorem callReadyListCallbacks (h : s.Refines none f) (hnil : f.lists .tmpList = [])
    (behaviours : List OnEvent) :
    ∃ s', s.callReadyListCallbacks behaviours = .ok ((f.callReady behaviours).1, s') ∧
      s'.Refines none (f.callReady behaviours).2 ∧
      (f.callReady behaviours).2.lists .tmpList = [] := by
  have hfirst := h.tmpList_eq_nil_iff.2 hnil
  obtain ⟨⟨ls, hs⟩, hw⟩ := h
  have hempty : ls .tmpList = [] := by
    rw [← List.head?_eq_none_iff, ← hs.links.first_eq, hfirst]
  have hlen := (hs.lists .readyList).length_eq
  have hsize := hs.size
  have hmove := hs.withLinks s.readyListSize (fun
      | .readyList => []
      | .tmpList => f.lists .readyList) (hs.links.move (h := .readyList) (by simp) hempty)
    (by simp [hs.size, hempty]) (fun {k a} ha => ?_) fun k => ?_
  · obtain ⟨s', hloop, h', hnil'⟩ := Refines.callLoop ⟨⟨_, hmove⟩, hw⟩ behaviours
      (s.readyListSize.toNat + 1) (f.lists .readyList).length
      (by rw [hsize, hempty]; simp; omega) le_rfl
    have hfirst' := h'.tmpList_eq_nil_iff.2 hnil'
    refine ⟨s', ?_, h', hnil'⟩
    rw [EpollServer.callReadyListCallbacks, if_neg (not_not.2 hfirst), hloop]
    simp only [ok_bind]
    exact if_neg (not_not.2 hfirst')
  · cases k
    · simp at ha
    · simp at ha
      exact hs.listed ha
  · cases k
    · simp
    · simpa using hs.lists .readyList

theorem step (h : s.Refines none f) (hnil : f.lists .tmpList = []) (i : Input) :
    ∃ s', s.step i = .ok ((f.step i).1, s') ∧ s'.Refines none (f.step i).2 ∧
      (f.step i).2.lists .tmpList = [] := by
  cases i with
  | op op =>
    obtain ⟨s', hop, h'⟩ := h.apply op
    refine ⟨s', ?_, h', List.eq_nil_of_subset_nil (hnil ▸ (f.sublist_apply op).subset)⟩
    rw [EpollServer.step, hop]
    rfl
  | round events behaviours =>
    obtain ⟨s₁, hevents, h₁⟩ := h.foldlM_handleEvent events
    have hnil₁ := (f.tmpList_handleEvents events).trans hnil
    rw [EpollServer.step, handleEvents, hevents, EventLoop.step]
    generalize events.foldl (fun f e => f.handleEvent e.1 e.2) f = f₁ at h₁ hnil₁ ⊢
    simp only [ok_bind]
    by_cases hready : s₁.links.first .readyList = none
    · have hempty : f₁.lists .readyList = [] := by
        obtain ⟨⟨ls, hs⟩, -⟩ := h₁
        have hlen := (hs.lists .readyList).length_eq
        rw [hs.links.first_eq, List.head?_eq_none_iff] at hready
        rw [hready] at hlen
        exact List.length_eq_zero_iff.1 hlen.symm
      have hsame : f₁.callReady behaviours = ([], f₁) := by
        rw [EventLoop.callReady, hempty, List.length_nil, EventLoop.callLoop]
        refine congrArg (Prod.mk []) (congrArg (EventLoop.mk f₁.entries) (funext fun k => ?_))
        cases k
        · exact hempty.symm
        · exact hnil₁.symm
      rw [hsame, if_neg (not_not.2 hready)]
      exact ⟨s₁, rfl, h₁, hnil₁⟩
    · rw [if_pos hready]
      exact h₁.callReadyListCallbacks hnil₁ behaviours

/-- A run of the server does not fail, and makes the calls of the event loop. -/
theorem run (h : s.Refines none f) (hnil : f.lists .tmpList = []) (is : List Input) :
    ∃ s', s.run is = .ok ((f.run is).1, s') ∧ s'.Refines none (f.run is).2 ∧
      (f.run is).2.lists .tmpList = [] := by
  induction is generalizing s f with
  | nil => exact ⟨s, rfl, h, hnil⟩
  | cons i is ih =>
    obtain ⟨s₁, hstep, h₁, hnil₁⟩ := h.step hnil i
    obtain ⟨s', hrun, h', hnil'⟩ := ih h₁ hnil₁
    refine ⟨s', ?_, h', hnil'⟩
    rw [EpollServer.run, hstep, EventLoop.run]
    simp only [ok_bind]
    rw [hrun]
    rfl

end Refines

theorem refines_new : new.Refines none EventLoop.new :=
  ⟨⟨fun _ => [], Links.represents_empty, rfl, fun h => absurd h.symm (Option.some_ne_none _),
    fun h => absurd h.symm (Option.some_ne_none _), fun h => absurd h.symm (Option.some_ne_none _),
    fun h => absurd h.symm (Option.some_ne_none _), fun h => absurd h.symm (Option.some_ne_none _),
    fun h => absurd h.symm (Option.some_ne_none _), fun h => absurd h.symm (Option.some_ne_none _),
    fun h => absurd h List.not_mem_nil, fun _ => rfl, fun _ => .nil⟩, fun _ => rfl⟩

/-- Whatever the callbacks do, the server uses no erased node and calls no missing callback, none
    of its checks fails, the kernel takes every change, and it calls what the event loop
    calls. -/
theorem exists_run_new_eq (is : List Input) :
    ∃ s, new.run is = .ok ((EventLoop.new.run is).1, s) := by
  obtain ⟨s, hrun, -⟩ := refines_new.run rfl is
  exact ⟨s, hrun⟩

end EpollServer

end DashDim
