import DashDim.Base.AlarmServer

/-!
# What the alarms do

The alarms that are set, in the order of their times (`Timers`): what `AlarmServer` is for,
without iterators and flags. A round calls what is due from a time on that never goes back: an
alarm set for a time before that of the one called last waits for the next round.

* `AlarmServer.Holds`: how the map, the set of all alarms and the alarms stand for it;
* `AlarmServer.Refines.run`: a run of the server makes the same calls.
-/

namespace DashDim

/-- The times and alarms. -/
abbrev Timers := List (ℤ × ℕ)

namespace Timers

variable (f : Timers)

/-- Takes an alarm off. -/
def cancel (a : ℕ) : Timers := f.filter (·.2 ≠ a)

/-- The deadline of an alarm; zero where it is not set. -/
def deadline (a : ℕ) : ℤ := ((f.find? (·.2 = a)).map Prod.fst).getD 0

/-- Sets an alarm: off its old place, and behind what is due at the same time. -/
def set (a : ℕ) (deadline : ℤ) : Timers := insertUpper Prod.fst (deadline, a) (f.cancel a)

/-- What an operation on an alarm does. -/
def apply : AlarmOp → Timers
  | .update a newDeadline granularity =>
    if newDeadline = 0 then f.cancel a
    else if |newDeadline - f.deadline a| < granularity then f else f.set a newDeadline
  | .cancel a => f.cancel a
  | .destroy a => f.cancel a

/-- What is called of the alarms from the time `t` on. -/
def callLoop (now : ℤ) : ℕ → List (List AlarmOp) → ℤ → Timers →
    Except AlarmFault (List (ℤ × ℕ) × Timers)
  | 0, _, _, _ => .error .endless
  | fuel + 1, behaviours, t, f =>
    match f.find? (t ≤ ·.1) with
    | none => .ok ([], f)
    | some (t', a) =>
      if now < t' then .ok ([], f)
      else do
        let (calls, f) ← callLoop now fuel behaviours.tail t'
          (behaviours.headI.foldl apply (f.cancel a))
        pure ((t', a) :: calls, f)

/-- A round at a time: the calls from the front of the list on. -/
def round (now : ℤ) (fuel : ℕ) (behaviours : List (List AlarmOp)) :
    Except AlarmFault (List (ℤ × ℕ) × Timers) :=
  f.callLoop now fuel behaviours ((f.head?.map Prod.fst).getD 0)

/-- One input: an operation, or a round with the calls it made. -/
def step (f : Timers) : AlarmServer.Input → Except AlarmFault (List (ℤ × ℕ) × Timers)
  | .op op => .ok ([], f.apply op)
  | .round now fuel behaviours => f.round now fuel behaviours

/-- A run over the inputs, with the calls each of them made. -/
def run (f : Timers) :
    List AlarmServer.Input → Except AlarmFault (List (List (ℤ × ℕ)) × Timers)
  | [] => .ok ([], f)
  | i :: is => do
    let (calls, f) ← f.step i
    let (rest, f) ← run f is
    pure (calls :: rest, f)

end Timers

/-- A node of the multimap as a time and an alarm. -/
def AlarmNode.timer (n : AlarmNode) : ℤ × ℕ := (n.time, n.cb)

namespace AlarmServer

variable {s : AlarmServer} {nodes : List AlarmNode} {cur : Option AlarmNode} {a : ℕ} {d : ℤ}
  {n : AlarmNode}

/-- The map holds the elements `nodes` of the alarms that are set, and that of the alarm that is
    called now, `cur`. -/
structure Holds (s : AlarmServer) (nodes : List AlarmNode) (cur : Option AlarmNode) : Prop where
  placed : Placed AlarmNode.time cur s.alarmMap nodes
  sorted : s.alarmMap.Pairwise fun n n' => n.time ≤ n'.time
  nodup : (s.alarmMap.map AlarmNode.token).Nodup
  apart : ∀ c ∈ cur, ∀ n ∈ nodes, n.token ≠ c.token
  fresh : ∀ n ∈ s.alarmMap, n.token < s.created
  armed : ∀ n ∈ nodes, s.alarms n.cb = ⟨n.time, true, n.token⟩
  times : ∀ n ∈ nodes, n.time ≠ 0
  idle : ∀ a, (∀ n ∈ nodes, n.cb ≠ a) →
    (s.alarms a).deadline = 0 ∧ (s.alarms a).registered = false
  all : ∀ a, a ∈ s.allAlarms ↔ ∃ n ∈ nodes, n.cb = a

/-- The state without an alarm that was set. -/
def taken (s : AlarmServer) (a : ℕ) : AlarmServer :=
  { s with
    alarmMap := s.alarmMap.filter (·.token ≠ (s.alarms a).token)
    allAlarms := s.allAlarms.erase a
    alarms := Function.update s.alarms a { s.alarms a with deadline := 0, registered := false } }

/-- The state with an alarm that was not set. -/
def put (s : AlarmServer) (a : ℕ) (d : ℤ) : AlarmServer :=
  { s with
    alarmMap := insertUpper AlarmNode.time ⟨s.created, d, a⟩ s.alarmMap
    created := s.created + 1
    allAlarms := insert a s.allAlarms
    alarms := Function.update s.alarms a ⟨d, true, s.created⟩ }

namespace Holds

theorem mem (h : s.Holds nodes cur) (hn : n ∈ nodes) : n ∈ s.alarmMap :=
  h.placed.mem_iff.2 (.inr hn)

theorem unique (h : s.Holds nodes cur) {n' : AlarmNode} (hn : n ∈ s.alarmMap)
    (hn' : n' ∈ s.alarmMap) (htoken : n.token = n'.token) : n = n' :=
  List.inj_on_of_nodup_map h.nodup hn hn' htoken

theorem deref_eq (h : s.Holds nodes cur) (hn : n ∈ s.alarmMap) : s.deref n.token = .ok n := by
  rw [deref]
  cases hfind : s.alarmMap.find? (·.token = n.token) with
  | none => simpa using List.find?_eq_none.1 hfind n hn
  | some n' =>
    have htoken := List.find?_some hfind
    rw [h.unique (List.mem_of_find?_eq_some hfind) hn (by simpa using htoken)]

/-- The element of an alarm that is set is the one its token points to. -/
theorem token_eq_iff (h : s.Holds nodes cur) (hn : n ∈ nodes) {n' : AlarmNode} (hn' : n' ∈ nodes) :
    n'.token = n.token ↔ n'.cb = n.cb := by
  constructor
  · intro htoken
    rw [h.unique (h.mem hn') (h.mem hn) htoken]
  · intro hcb
    have heq := (h.armed n' hn').symm.trans ((congrArg s.alarms hcb).trans (h.armed n hn))
    exact congrArg QuicEpollAlarm.token heq

theorem taken (h : s.Holds nodes cur) (hn : n ∈ nodes) :
    (s.taken n.cb).Holds (nodes.filter (·.cb ≠ n.cb)) cur := by
  have htoken : (s.alarms n.cb).token = n.token := by rw [h.armed n hn]
  have hfilter : nodes.filter (·.cb ≠ n.cb) = nodes.filter (·.token ≠ n.token) :=
    List.filter_congr fun n' hn' => by simp [h.token_eq_iff hn hn']
  rw [AlarmServer.taken, htoken]
  constructor
  · rw [hfilter]
    exact h.placed.filter fun c hc => by simpa using (h.apart c hc n hn).symm
  · exact h.sorted.filter _
  · exact h.nodup.sublist (List.filter_sublist.map _)
  · exact fun c hc m hm => h.apart c hc m (List.mem_of_mem_filter hm)
  · exact fun m hm => h.fresh m (List.mem_of_mem_filter hm)
  · intro m hm
    obtain ⟨hm, hcb⟩ := List.mem_filter.1 hm
    exact (Function.update_of_ne (by simpa using hcb) ..).trans (h.armed m hm)
  · exact fun m hm => h.times m (List.mem_of_mem_filter hm)
  · intro a ha
    by_cases heq : a = n.cb
    · subst heq
      simp
    · dsimp only
      rw [Function.update_of_ne heq]
      refine h.idle a fun m hm hcb => ha m (List.mem_filter.2 ⟨hm, ?_⟩) hcb
      simpa [hcb] using heq
  · intro a
    simp only [Finset.mem_erase, h.all, List.mem_filter]
    constructor
    · rintro ⟨hne, m, hm, rfl⟩
      exact ⟨m, ⟨hm, by simpa using hne⟩, rfl⟩
    · rintro ⟨m, ⟨hm, hne⟩, rfl⟩
      exact ⟨by simpa using hne, m, hm, rfl⟩

theorem put (h : s.Holds nodes cur) (ha : ∀ n ∈ nodes, n.cb ≠ a) (hd : d ≠ 0) :
    (s.put a d).Holds (insertUpper AlarmNode.time ⟨s.created, d, a⟩ nodes) cur := by
  constructor
  · exact h.placed.insert _
  · exact sorted_insertUpper h.sorted _
  · refine (((perm_insertUpper _ _).map _).nodup_iff).2
      (List.nodup_cons.2 ⟨fun hmem => ?_, h.nodup⟩)
    -- the iterator is new, so that it points to nothing else
    obtain ⟨m, hm, htoken⟩ := List.mem_map.1 hmem
    exact (h.fresh m hm).ne htoken
  · intro c hc m hm
    rcases mem_insertUpper.1 hm with rfl | hm
    · exact (h.fresh c (h.placed.mem_iff.2 (.inl hc))).ne'
    · exact h.apart c hc m hm
  · intro m hm
    rcases mem_insertUpper.1 hm with rfl | hm
    · exact Nat.lt_succ_self _
    · exact (h.fresh m hm).trans (Nat.lt_succ_self _)
  · intro m hm
    rcases mem_insertUpper.1 hm with rfl | hm
    · exact Function.update_self ..
    · exact (Function.update_of_ne (ha m hm) ..).trans (h.armed m hm)
  · intro m hm
    rcases mem_insertUpper.1 hm with rfl | hm
    · exact hd
    · exact h.times m hm
  · intro b hb
    have hba : b ≠ a := (hb _ (mem_insertUpper.2 (.inl rfl))).symm
    rw [AlarmServer.put]
    dsimp only
    rw [Function.update_of_ne hba]
    exact h.idle b fun m hm => hb m (mem_insertUpper.2 (.inr hm))
  · intro b
    simp only [AlarmServer.put, Finset.mem_insert, h.all, mem_insertUpper, exists_eq_or_imp,
      eq_comm]

/-- What is written to an alarm that is not set is not looked at. -/
theorem write (h : s.Holds nodes cur) (ha : ∀ n ∈ nodes, n.cb ≠ a) (token : ℕ) :
    Holds { s with alarms := Function.update s.alarms a ⟨0, false, token⟩ } nodes cur := by
  refine ⟨h.placed, h.sorted, h.nodup, h.apart, h.fresh, fun n hn => ?_, h.times, fun b hb => ?_,
    h.all⟩
  · exact (Function.update_of_ne (ha n hn) ..).trans (h.armed n hn)
  · by_cases hba : b = a
    · subst hba
      simp
    · simpa [Function.update_of_ne hba] using h.idle b hb

/-- An alarm is set, if an element of the map is its. -/
theorem deadline_ne_zero (h : s.Holds nodes cur) (hn : n ∈ nodes) :
    (s.alarms n.cb).deadline ≠ 0 := by
  rw [h.armed n hn]
  exact h.times n hn

theorem unregisterIfRegistered_eq (h : s.Holds nodes cur) (hn : n ∈ nodes) (al : QuicEpollAlarm)
    (hregistered : al.registered = true) (htoken : al.token = n.token) :
    unregisterIfRegistered { s with alarms := Function.update s.alarms n.cb al } n.cb =
      .ok { s.taken n.cb with
        alarms := Function.update s.alarms n.cb { al with registered := false } } := by
  obtain ⟨deadline, registered, token⟩ := al
  obtain rfl : registered = true := hregistered
  obtain rfl : token = n.token := htoken
  have hderef : deref { s with alarms := Function.update s.alarms n.cb ⟨deadline, true, n.token⟩ }
      n.token = .ok n := h.deref_eq (h.mem hn)
  rw [unregisterIfRegistered]
  simp only [Function.update_self, if_true, unregisterAlarm]
  rw [hderef]
  simp [AlarmServer.taken, modify, erase, h.armed n hn]

theorem cancel_eq (h : s.Holds nodes cur) (hn : n ∈ nodes) :
    s.cancel n.cb = .ok (s.taken n.cb) := by
  rw [cancel, if_neg (h.deadline_ne_zero hn), cancelImpl, if_neg (by simp [modify])]
  have harmed := h.armed n hn
  rw [modify, h.unregisterIfRegistered_eq hn _ (by rw [harmed]) (by rw [harmed])]
  rfl

theorem cancel_eq_self (h : s.Holds nodes cur) (ha : ∀ n ∈ nodes, n.cb ≠ a) :
    s.cancel a = .ok s :=
  if_pos (h.idle a ha).1

/-- Setting an alarm that is not set. -/
theorem set_eq (h : s.Holds nodes cur) (ha : ∀ n ∈ nodes, n.cb ≠ a) (hd : d ≠ 0) :
    (s.modify a fun al => { al with deadline := d }).setImpl a = .ok (s.put a d) := by
  have hall : a ∉ s.allAlarms := fun hmem => by
    obtain ⟨n, hn, rfl⟩ := (h.all a).1 hmem
    exact ha n hn rfl
  rw [setImpl]
  simp [modify, hd, registerAlarm, hall, emplace, onRegistration, (h.idle a ha).2,
    AlarmServer.put]

/-- Setting an alarm that is set for another time. -/
theorem update_eq (h : s.Holds nodes cur) (hn : n ∈ nodes) (hd : d ≠ 0) :
    (s.modify n.cb fun al => { al with deadline := d }).updateImpl n.cb =
      .ok ((s.taken n.cb).put n.cb d) := by
  have harmed := h.armed n hn
  have hderef : deref (s.modify n.cb fun al => { al with deadline := d }) n.token = .ok n :=
    h.deref_eq (h.mem hn)
  have hall : insert n.cb (s.allAlarms.erase n.cb) = s.allAlarms :=
    Finset.insert_erase ((h.all n.cb).2 ⟨n, hn, rfl⟩)
  simp only [modify, harmed] at hderef ⊢
  rw [updateImpl]
  simp only [Function.update_self, hd, if_false, if_true, reregisterAlarm]
  rw [hderef]
  simp [AlarmServer.taken, AlarmServer.put, modify, erase, emplace, harmed, hall]

/-! ## The timers -/

theorem map_filter (a : ℕ) :
    (nodes.filter (·.cb ≠ a)).map AlarmNode.timer =
      Timers.cancel (nodes.map AlarmNode.timer) a := by
  rw [Timers.cancel, List.filter_map]
  rfl

theorem map_insert (n : AlarmNode) (nodes : List AlarmNode) :
    (insertUpper AlarmNode.time n nodes).map AlarmNode.timer =
      insertUpper Prod.fst n.timer (nodes.map AlarmNode.timer) :=
  have hkey : ∀ n : AlarmNode, n.timer.1 = n.time := fun _ => rfl
  map_insertUpper hkey n nodes

theorem deadline_eq (h : s.Holds nodes cur) (a : ℕ) :
    Timers.deadline (nodes.map AlarmNode.timer) a = (s.alarms a).deadline := by
  rw [Timers.deadline, List.find?_map]
  cases hfind : nodes.find? ((fun x => decide (x.2 = a)) ∘ AlarmNode.timer) with
  | none =>
    have hidle := h.idle a fun n hn hcb =>
      List.find?_eq_none.1 hfind n hn (decide_eq_true hcb)
    simp [hidle.1]
  | some n =>
    have hfound := List.find?_some hfind
    have hcb : n.cb = a := of_decide_eq_true hfound
    rw [← hcb, h.armed n (List.mem_of_find?_eq_some hfind)]
    rfl

theorem cancel_of_idle (ha : ∀ n ∈ nodes, n.cb ≠ a) :
    Timers.cancel (nodes.map AlarmNode.timer) a = nodes.map AlarmNode.timer := by
  rw [← map_filter, List.filter_eq_self.2 fun n hn => by simpa using ha n hn]

end Holds

/-- The server stands for the timers. -/
def Refines (s : AlarmServer) (cur : Option AlarmNode) (f : Timers) : Prop :=
  ∃ nodes, s.Holds nodes cur ∧ f = nodes.map AlarmNode.timer

namespace Refines

variable {f : Timers}

theorem cancel (h : s.Refines cur f) (a : ℕ) :
    ∃ s', s.cancel a = .ok s' ∧ s'.Refines cur (f.cancel a) := by
  obtain ⟨nodes, hs, rfl⟩ := h
  by_cases ha : ∃ n ∈ nodes, n.cb = a
  · obtain ⟨n, hn, rfl⟩ := ha
    exact ⟨_, hs.cancel_eq hn, _, hs.taken hn, (Holds.map_filter _).symm⟩
  · push Not at ha
    exact ⟨s, hs.cancel_eq_self ha, nodes, hs, Holds.cancel_of_idle ha⟩

theorem destroy (h : s.Refines cur f) (a : ℕ) :
    ∃ s', s.destroy a = .ok s' ∧ s'.Refines cur (f.cancel a) := by
  obtain ⟨nodes, hs, rfl⟩ := h
  by_cases ha : ∃ n ∈ nodes, n.cb = a
  · obtain ⟨n, hn, rfl⟩ := ha
    have htaken := hs.taken hn
    refine ⟨{ s.taken n.cb with alarms := Function.update (s.taken n.cb).alarms n.cb .new }, ?_, _,
      htaken.write (fun m hm => by simpa using (List.mem_filter.1 hm).2) 0,
      (Holds.map_filter _).symm⟩
    have harmed := hs.armed n hn
    have hout := hs.unregisterIfRegistered_eq hn (s.alarms n.cb) (by rw [harmed])
      (by rw [harmed])
    rw [Function.update_eq_self] at hout
    rw [AlarmServer.destroy, hout]
    simp [modify, AlarmServer.taken]
  · push Not at ha
    refine ⟨_, ?_, nodes, hs.write ha 0, Holds.cancel_of_idle ha⟩
    rw [AlarmServer.destroy, unregisterIfRegistered, (hs.idle a ha).2]
    rfl

theorem update (h : s.Refines cur f) (a : ℕ) (newDeadline granularity : ℤ) :
    ∃ s', s.update a newDeadline granularity = .ok s' ∧
      s'.Refines cur (f.apply (.update a newDeadline granularity)) := by
  by_cases hd : newDeadline = 0
  · obtain ⟨s', hs', h'⟩ := h.cancel a
    exact ⟨s', (if_pos hd).trans hs', by rwa [Timers.apply, if_pos hd]⟩
  · obtain ⟨nodes, hs, rfl⟩ := h
    rw [AlarmServer.update, if_neg hd, Timers.apply, if_neg hd, hs.deadline_eq]
    by_cases hnear : |newDeadline - (s.alarms a).deadline| < granularity
    · rw [if_pos hnear, if_pos hnear]
      exact ⟨s, rfl, nodes, hs, rfl⟩
    · rw [if_neg hnear, if_neg hnear]
      by_cases ha : ∃ n ∈ nodes, n.cb = a
      · obtain ⟨n, hn, rfl⟩ := ha
        refine ⟨_, (if_pos (hs.deadline_ne_zero hn)).trans (hs.update_eq hn hd), _,
          (hs.taken hn).put (fun m hm => by simpa using (List.mem_filter.1 hm).2) hd, ?_⟩
        rw [Holds.map_insert, Holds.map_filter]
        rfl
      · push Not at ha
        refine ⟨_, (if_neg (not_not.2 (hs.idle a ha).1)).trans (hs.set_eq ha hd), _,
          hs.put ha hd, ?_⟩
        rw [Holds.map_insert, Timers.set, Holds.cancel_of_idle ha]
        rfl

theorem apply (h : s.Refines cur f) (op : AlarmOp) :
    ∃ s', s.apply op = .ok s' ∧ s'.Refines cur (f.apply op) := by
  cases op with
  | update a newDeadline granularity => exact h.update a newDeadline granularity
  | cancel a => exact h.cancel a
  | destroy a => exact h.destroy a

theorem foldlM_apply (h : s.Refines cur f) (ops : List AlarmOp) :
    ∃ s', ops.foldlM AlarmServer.apply s = .ok s' ∧ s'.Refines cur (ops.foldl Timers.apply f) := by
  induction ops generalizing s f with
  | nil => exact ⟨s, rfl, h⟩
  | cons op ops ih =>
    obtain ⟨s₁, hop, h₁⟩ := h.apply op
    obtain ⟨s', hops, h'⟩ := ih h₁
    refine ⟨s', ?_, h'⟩
    rw [List.foldlM_cons, hop]
    exact hops

end Refines

/-! ## Rounds -/

/-- The same outcome: neither ends, or the results are the same. -/
inductive Agrees {ρ : Type} : Except AlarmFault (ρ × AlarmServer) → Except AlarmFault (ρ × Timers) →
    Prop
  | endless : Agrees (.error .endless) (.error .endless)
  | ok {s : AlarmServer} {f : Timers} (r : ρ) (h : s.Refines none f) :
      Agrees (.ok (r, s)) (.ok (r, f))

namespace Holds

variable {c : AlarmNode} {pre post : List AlarmNode} {t : ℤ}

theorem eq_alarmMap (h : s.Holds nodes none) : s.alarmMap = nodes := by
  have hplaced := h.placed
  cases hplaced with
  | none l => rfl

/-- The alarm `c` is called: it is not set, but its element is still in the map. -/
theorem call (h : s.Holds (pre ++ c :: post) none) (hpre : ∀ b ∈ pre, b.time < c.time) :
    Holds { s with
      allAlarms := s.allAlarms.erase c.cb
      alarms := Function.update s.alarms c.cb ⟨0, false, c.token⟩ } (pre ++ post) (some c) := by
  have hmap := h.eq_alarmMap
  have hsorted := h.sorted
  have hnodup := h.nodup
  rw [hmap] at hsorted hnodup
  have hsub : (pre ++ post).Sublist (pre ++ c :: post) :=
    (List.sublist_cons_self c post).append_left pre
  have hpost : ∀ b ∈ post, c.time ≤ b.time :=
    (List.pairwise_cons.1 (List.pairwise_append.1 hsorted).2.1).1
  have hc : c ∈ pre ++ c :: post := by simp
  have happart : ∀ n ∈ pre ++ post, n.token ≠ c.token := by
    intro n hn htoken
    rw [List.map_append, List.map_cons, List.nodup_middle] at hnodup
    refine (List.nodup_cons.1 hnodup).1 ?_
    rw [← List.map_append, ← htoken]
    exact List.mem_map_of_mem hn
  -- an alarm is in the map once, as its token is that of its element
  have hcb : ∀ n ∈ pre ++ post, n.cb ≠ c.cb := fun n hn heq =>
    happart n hn ((h.token_eq_iff hc (hsub.subset hn)).2 heq)
  refine ⟨hmap ▸ .some hpre hpost, h.sorted, h.nodup, fun c' hc' => ?_, h.fresh, fun n hn => ?_,
    fun n hn => h.times n (hsub.subset hn), fun a ha => ?_, fun a => ?_⟩
  · obtain rfl : c = c' := by simpa using hc'
    exact happart
  · exact (Function.update_of_ne (hcb n hn) ..).trans (h.armed n (hsub.subset hn))
  · by_cases hac : a = c.cb
    · subst hac
      simp
    · dsimp only
      rw [Function.update_of_ne hac]
      refine h.idle a fun n hn heq => ?_
      rcases List.mem_append.1 hn with hn | hn
      · exact ha n (List.mem_append_left _ hn) heq
      · rcases List.mem_cons.1 hn with rfl | hn
        · exact hac heq.symm
        · exact ha n (List.mem_append_right _ hn) heq
  · simp only [Finset.mem_erase, h.all]
    constructor
    · rintro ⟨hne, n, hn, rfl⟩
      refine ⟨n, ?_, rfl⟩
      rcases List.mem_append.1 hn with hn | hn
      · exact List.mem_append_left _ hn
      · rcases List.mem_cons.1 hn with rfl | hn
        · exact absurd rfl hne
        · exact List.mem_append_right _ hn
    · rintro ⟨n, hn, rfl⟩
      exact ⟨hcb n hn, n, hsub.subset hn, rfl⟩

/-- What is left of the map when the call is over, and what is next. -/
theorem finish (h : s.Holds nodes (some c)) :
    ∃ pre post, nodes = pre ++ post ∧ (∀ b ∈ pre, b.time < c.time) ∧
      (∀ b ∈ post, c.time ≤ b.time) ∧ s.next c.token = .ok (post.head?.map AlarmNode.token) ∧
      (s.erase c.token).Holds (pre ++ post) none := by
  obtain ⟨hplaced, hsorted, hnodup, happart, hfresh, harmed, htimes, hidle, hall⟩ := h
  generalize hmap : s.alarmMap = l at hplaced hsorted hnodup hfresh
  cases hplaced with
  | @some c pre post hpre hpost =>
    have htoken : ∀ n ∈ pre ++ post, decide (n.token ≠ c.token) = true := fun n hn =>
      decide_eq_true (happart c rfl n hn)
    have herase : (s.erase c.token).alarmMap = pre ++ post := by
      rw [erase, hmap, List.filter_append, List.filter_cons_of_neg (by simp),
        ← List.filter_append, List.filter_eq_self.2 htoken]
    have hsub : (pre ++ post).Sublist (pre ++ c :: post) :=
      (List.sublist_cons_self c post).append_left pre
    refine ⟨pre, post, rfl, hpre, hpost, ?_, herase ▸ .none _, herase ▸ hsorted.sublist hsub,
      herase ▸ hnodup.sublist (hsub.map _), fun _ hc => absurd hc (by simp),
      herase ▸ fun n hn => hfresh n (hsub.subset hn), harmed, htimes, hidle, hall⟩
    rw [next, hmap, List.dropWhile_append_of_pos fun n hn => htoken n (List.mem_append_left _ hn),
      List.dropWhile_cons_of_neg (by simp)]

/-- Calling an alarm: what its delegate does is done without it. -/
theorem onAlarm (h : s.Holds (pre ++ c :: post) none) (hpre : ∀ b ∈ pre, b.time < c.time)
    (ops : List AlarmOp) :
    ∃ s', AlarmServer.onAlarm { s with allAlarms := s.allAlarms.erase c.cb } c.cb ops =
        .ok (true, s') ∧
      s'.Refines (some c) (ops.foldl Timers.apply
        (Timers.cancel ((pre ++ c :: post).map AlarmNode.timer) c.cb)) := by
  have hc : c ∈ pre ++ c :: post := by simp
  have hcall := h.call hpre
  have hcancel : Timers.cancel ((pre ++ c :: post).map AlarmNode.timer) c.cb =
      (pre ++ post).map AlarmNode.timer := by
    have hcb : ∀ n ∈ pre ++ post, n.cb ≠ c.cb := fun n hn heq => by
      have hset := hcall.deadline_ne_zero hn
      simp [heq] at hset
    rw [← map_filter, List.filter_append, List.filter_cons_of_neg (by simp), ← List.filter_append,
      List.filter_eq_self.2 fun n hn => by simpa using hcb n hn]
  have hrefines : Refines _ (some c) ((pre ++ post).map AlarmNode.timer) := ⟨_, hcall, rfl⟩
  obtain ⟨s', hops, h'⟩ := hrefines.foldlM_apply ops
  refine ⟨s', ?_, hcancel ▸ h'⟩
  rw [AlarmServer.onAlarm]
  simp only [modify, h.armed c hc, Function.update_self, Function.update_idem,
    h.times c hc, if_false]
  rw [hops]
  rfl

theorem find?_timer (hpre : ∀ b ∈ pre, b.time < t) (post : List AlarmNode) :
    ((pre ++ post).map AlarmNode.timer).find? (t ≤ ·.1) =
      (post.map AlarmNode.timer).find? (t ≤ ·.1) := by
  rw [List.map_append, List.find?_append, List.find?_eq_none.2, Option.none_or]
  simpa [AlarmNode.timer] using hpre

/-- From any time on, the loop over the map calls what is due of the timers. -/
theorem callLoop (h : s.Holds (pre ++ post) none) (hpre : ∀ b ∈ pre, b.time < t)
    (hpost : ∀ b ∈ post, t ≤ b.time) (now : ℤ) (fuel : ℕ) (behaviours : List (List AlarmOp)) :
    Agrees (s.callLoop now fuel behaviours (post.head?.map AlarmNode.token))
      (Timers.callLoop now fuel behaviours t ((pre ++ post).map AlarmNode.timer)) := by
  induction fuel generalizing s pre post t behaviours with
  | zero => exact .endless
  | succ fuel ih =>
    rw [Timers.callLoop, find?_timer hpre]
    cases post with
    | nil => exact .ok [] ⟨_, h, rfl⟩
    | cons c post =>
      have hc : t ≤ c.time := hpost c List.mem_cons_self
      have hcpre : ∀ b ∈ pre, b.time < c.time := fun b hb => (hpre b hb).trans_le hc
      have hfind : ((c :: post).map AlarmNode.timer).find? (t ≤ ·.1) =
          some (c.time, c.cb) :=
        List.find?_cons_of_pos (decide_eq_true hc)
      rw [hfind, List.head?_cons, Option.map_some, AlarmServer.callLoop,
        h.deref_eq (h.mem (by simp))]
      simp only [ok_bind]
      by_cases hnow : now < c.time
      · rw [if_pos hnow, if_pos hnow]
        exact .ok [] ⟨_, h, rfl⟩
      · rw [if_neg hnow, if_neg hnow]
        obtain ⟨s₁, hcalled, nodes, h₁, htimers⟩ := h.onAlarm hcpre behaviours.headI
        -- the element called is still in the map, and what is next comes from there
        obtain ⟨pre₂, post₂, rfl, hpre₂, hpost₂, hnext, h₂⟩ := h₁.finish
        have hrest := ih h₂ hpre₂ hpost₂ behaviours.tail
        rw [hcalled, htimers]
        simp only [ok_bind, hnext, if_true]
        generalize AlarmServer.callLoop now fuel behaviours.tail _ _ = x at hrest ⊢
        generalize Timers.callLoop now fuel behaviours.tail c.time _ = y at hrest ⊢
        cases hrest with
        | endless => exact .endless
        | ok r h' => exact .ok ((c.time, c.cb) :: r) h'

end Holds

namespace Refines

variable {f : Timers}

theorem step (h : s.Refines none f) (i : Input) : Agrees (s.step i) (f.step i) := by
  cases i with
  | op op =>
    obtain ⟨s', hop, h'⟩ := h.apply op
    rw [AlarmServer.step, hop]
    exact .ok [] h'
  | round now fuel behaviours =>
    obtain ⟨nodes, hs, rfl⟩ := h
    have hsorted := hs.sorted
    rw [hs.eq_alarmMap] at hsorted
    rw [AlarmServer.step, callAndReregisterAlarmEvents, hs.eq_alarmMap, Timers.step, Timers.round]
    have hs' : s.Holds ([] ++ nodes) none := hs
    refine hs'.callLoop (by simp) (fun b hb => ?_) now fuel behaviours
    cases nodes with
    | nil => exact absurd hb List.not_mem_nil
    | cons n nodes =>
      rcases List.mem_cons.1 hb with rfl | hb
      · exact le_rfl
      · exact (List.pairwise_cons.1 hsorted).1 b hb

/-- A run of the server makes the calls of the timers. -/
theorem run (h : s.Refines none f) (is : List Input) : Agrees (s.run is) (f.run is) := by
  induction is generalizing s f with
  | nil => exact .ok [] h
  | cons i is ih =>
    have hstep := h.step i
    rw [AlarmServer.run, Timers.run]
    generalize s.step i = x at hstep ⊢
    generalize f.step i = y at hstep ⊢
    cases hstep with
    | endless => exact .endless
    | ok calls h₁ =>
      have hrest := ih h₁
      simp only [ok_bind]
      generalize AlarmServer.run _ is = x at hrest ⊢
      generalize Timers.run _ is = y at hrest ⊢
      cases hrest with
      | endless => exact .endless
      | ok rest h' => exact .ok (calls :: rest) h'

end Refines

theorem holds_new : new.Holds [] none :=
  ⟨.none _, .nil, .nil, by simp, by simp [new], by simp, by simp, fun _ _ => ⟨rfl, rfl⟩,
    by simp [new]⟩

theorem refines_new : new.Refines none [] := ⟨[], holds_new, rfl⟩

/-- Whatever the delegates do, the server uses no iterator that points to nothing and fails no
    check, and it calls what the timers call; a round that does not end has none of these either. -/
theorem map_run_new_eq (is : List Input) :
    (new.run is).map Prod.fst = (Timers.run [] is).map Prod.fst := by
  have h := refines_new.run is
  generalize new.run is = x at h ⊢
  generalize Timers.run [] is = y at h ⊢
  cases h with
  | endless => rfl
  | ok r h => rfl

end AlarmServer

end DashDim
