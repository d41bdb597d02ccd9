import DashDim.Base.Timers
import DashDim.Lib.Serving

/-!
# What is due is called

What a round of alarms calls, seen from an alarm: it is called if it is due, with the time it was
set for, unless the delegate of another alarm has set, cancelled or destroyed it before. If the
delegates set alarms for later only, then the round ends.

* `AlarmServer.calls_of_ended`: what a round calls that ends;
* `AlarmServer.ends_of_later`: rounds that end.
-/

namespace DashDim

/-- The alarm of an operation. -/
def AlarmOp.alarm : AlarmOp → ℕ
  | .update a _ _ => a
  | .cancel a => a
  | .destroy a => a

/-- An operation that sets no alarm for the time `now` or before. -/
def AlarmOp.Later (now : ℤ) : AlarmOp → Prop
  | .update _ newDeadline _ => newDeadline = 0 ∨ now < newDeadline
  | .cancel _ => True
  | .destroy _ => True

namespace Timers

variable {f f' : Timers} {a : ℕ} {d t now : ℤ} {fuel : ℕ} {behaviours : List (List AlarmOp)}
  {calls : List (ℤ × ℕ)}

/-- The timers are in the order of their times, one for each alarm. -/
structure Ordered (f : Timers) : Prop where
  sorted : f.Pairwise fun x y => x.1 ≤ y.1
  nodup : (f.map Prod.snd).Nodup

namespace Ordered

theorem eq_of_mem (h : f.Ordered) {d' : ℤ} (hd : (d, a) ∈ f) (hd' : (d', a) ∈ f) : d = d' :=
  congrArg Prod.fst (List.inj_on_of_nodup_map h.nodup hd hd' rfl)

theorem cancel (h : f.Ordered) (a : ℕ) : (f.cancel a).Ordered :=
  ⟨h.sorted.filter _, h.nodup.sublist (List.filter_sublist.map _)⟩

theorem set (h : f.Ordered) (a : ℕ) (d : ℤ) : (f.set a d).Ordered := by
  refine ⟨sorted_insertUpper (h.cancel a).sorted _, ?_⟩
  rw [Timers.set, ((perm_insertUpper _ _).map _).nodup_iff, List.map_cons, List.nodup_cons]
  refine ⟨fun hmem => ?_, (h.cancel a).nodup⟩
  obtain ⟨x, hx, hxa⟩ := List.mem_map.1 hmem
  simp [Timers.cancel, hxa] at hx

theorem apply (h : f.Ordered) (op : AlarmOp) : (f.apply op).Ordered := by
  cases op with
  | update a newDeadline granularity =>
    rw [Timers.apply]
    split_ifs
    · exact h.cancel a
    · exact h
    · exact h.set a newDeadline
  | cancel a => exact h.cancel a
  | destroy a => exact h.cancel a

theorem foldl_apply (h : f.Ordered) (ops : List AlarmOp) : (ops.foldl Timers.apply f).Ordered := by
  induction ops generalizing f with
  | nil => exact h
  | cons op ops ih => exact ih (h.apply op)

end Ordered

theorem mem_cancel {b : ℕ} : (d, a) ∈ f.cancel b ↔ (d, a) ∈ f ∧ a ≠ b := by
  simp [cancel]

/-- An operation on another alarm leaves an alarm as it is. -/
theorem mem_apply {op : AlarmOp} (ha : op.alarm ≠ a) : (d, a) ∈ f.apply op ↔ (d, a) ∈ f := by
  have hcancel : (d, a) ∈ f.cancel op.alarm ↔ (d, a) ∈ f := by
    rw [mem_cancel, and_iff_left ha.symm]
  cases op with
  | update b newDeadline granularity =>
    rw [apply]
    split_ifs
    · exact hcancel
    · rfl
    · have hne : (d, a) ≠ (newDeadline, b) := fun heq => ha (congrArg Prod.snd heq).symm
      rw [set, mem_insertUpper, or_iff_right hne]
      exact hcancel
  | cancel b => exact hcancel
  | destroy b => exact hcancel

theorem mem_foldl_apply {ops : List AlarmOp} (ha : ∀ op ∈ ops, op.alarm ≠ a) :
    (d, a) ∈ ops.foldl apply f ↔ (d, a) ∈ f := by
  induction ops generalizing f with
  | nil => rfl
  | cons op ops ih =>
    obtain ⟨hop, hops⟩ := List.forall_mem_cons.1 ha
    rw [List.foldl_cons, ih hops, mem_apply hop]

/-- What is found is the first in the order of times. -/
theorem Ordered.le_of_find? (h : f.Ordered) {x y : ℤ × ℕ} (hx : f.find? (t ≤ ·.1) = some x)
    (hy : y ∈ f) (hty : t ≤ y.1) : x.1 ≤ y.1 := by
  obtain ⟨-, pre, post, rfl, hpre⟩ := List.find?_eq_some_iff_append.1 hx
  rcases List.mem_append.1 hy with hy | hy
  · exact absurd hty (by simpa using hpre y hy)
  · rcases List.mem_cons.1 hy with rfl | hy
    · exact le_rfl
    · exact (List.pairwise_cons.1 (List.pairwise_append.1 h.sorted).2.1).1 y hy

/-- One call of a round that ends, and what comes after it. -/
theorem callLoop_cases (h : callLoop now fuel behaviours t f = .ok (calls, f')) :
    (calls = [] ∧ ∀ x ∈ f.find? (t ≤ ·.1), now < x.1) ∨
      ∃ fuel' t' a rest, fuel = fuel' + 1 ∧ f.find? (t ≤ ·.1) = some (t', a) ∧ t' ≤ now ∧
        calls = (t', a) :: rest ∧
        callLoop now fuel' behaviours.tail t' (behaviours.headI.foldl apply (f.cancel a)) =
          .ok (rest, f') := by
  cases fuel with
  | zero => cases h
  | succ fuel =>
    rw [callLoop] at h
    cases hfind : f.find? (t ≤ ·.1) with
    | none =>
      rw [hfind] at h
      cases h
      exact .inl ⟨rfl, by simp⟩
    | some x =>
      obtain ⟨t', a⟩ := x
      rw [hfind] at h
      dsimp only at h
      split_ifs at h with hnow
      · cases h
        exact .inl ⟨rfl, by simpa using hnow⟩
      · cases hrest : callLoop now fuel behaviours.tail t'
          (behaviours.headI.foldl apply (f.cancel a)) with
        | error e =>
          rw [hrest] at h
          cases h
        | ok r =>
          rw [hrest] at h
          cases h
          exact .inr ⟨fuel, t', a, r.1, rfl, rfl, not_lt.1 hnow, rfl, hrest⟩

/-- The calls are in the order of their times, and none is early. -/
theorem calls_sorted (h : callLoop now fuel behaviours t f = .ok (calls, f')) :
    calls.Pairwise (fun x y => x.1 ≤ y.1) ∧ ∀ x ∈ calls, t ≤ x.1 ∧ x.1 ≤ now := by
  induction calls generalizing fuel behaviours t f with
  | nil => simp
  | cons x calls ih =>
    rcases callLoop_cases h with ⟨hnil, -⟩ | ⟨fuel, t', a, rest, -, hfind, hnow, hcalls, hrest⟩
    · cases hnil
    · obtain ⟨rfl, rfl⟩ := List.cons.inj hcalls
      obtain ⟨hsorted, hbetween⟩ := ih hrest
      have ht : t ≤ t' := by simpa using List.find?_some hfind
      refine ⟨List.pairwise_cons.2 ⟨fun y hy => (hbetween y hy).1, hsorted⟩, fun y hy => ?_⟩
      rcases List.mem_cons.1 hy with rfl | hy
      · exact ⟨ht, hnow⟩
      · exact ⟨ht.trans (hbetween y hy).1, (hbetween y hy).2⟩

/-- An alarm is called with the time it was set for, if no delegate has touched it before. -/
theorem mem_of_called (h : callLoop now fuel behaviours t f = .ok (calls, f')) {j : ℕ}
    (hj : calls[j]? = some (d, a))
    (ha : ∀ i < j, ∀ op ∈ behaviours.getD i default, op.alarm ≠ a) : (d, a) ∈ f := by
  induction calls generalizing fuel behaviours t f j with
  | nil => simp at hj
  | cons x calls ih =>
    rcases callLoop_cases h with ⟨hnil, -⟩ | ⟨fuel, t', b, rest, -, hfind, -, hcalls, hrest⟩
    · cases hnil
    · obtain ⟨rfl, rfl⟩ := List.cons.inj hcalls
      cases j with
      | zero =>
        obtain ⟨rfl, rfl⟩ := Prod.mk.inj (Option.some.inj hj)
        exact List.mem_of_find?_eq_some hfind
      | succ j =>
        have hmem := ih hrest hj fun i hi => by
          rw [← getD_succ_eq]
          exact ha (i + 1) (Nat.succ_lt_succ hi)
        have hhead := ha 0 (Nat.succ_pos j)
        rw [getD_zero_eq_headI] at hhead
        exact (mem_cancel.1 ((mem_foldl_apply hhead).1 hmem)).1

/-- What is due is called, or a delegate that was called has touched it. -/
theorem called_or_touched (hf : f.Ordered)
    (h : callLoop now fuel behaviours t f = .ok (calls, f')) (hmem : (d, a) ∈ f) (ht : t ≤ d)
    (hd : d ≤ now) :
    (d, a) ∈ calls ∨ ∃ i < calls.length, ∃ op ∈ behaviours.getD i default, op.alarm = a := by
  induction calls generalizing fuel behaviours t f with
  | nil =>
    rcases callLoop_cases h with ⟨-, hnone⟩ | ⟨_, _, _, _, -, -, -, hcalls, -⟩
    · cases hfind : f.find? (t ≤ ·.1) with
      | none => simpa [ht] using List.find?_eq_none.1 hfind (d, a) hmem
      | some x =>
        have hlt := hnone x hfind
        have hle := hf.le_of_find? hfind hmem ht
        exact absurd (hlt.trans_le hle) (not_lt.2 hd)
    · cases hcalls
  | cons x calls ih =>
    rcases callLoop_cases h with ⟨hnil, -⟩ | ⟨fuel, t', b, rest, -, hfind, -, hcalls, hrest⟩
    · cases hnil
    · obtain ⟨rfl, rfl⟩ := List.cons.inj hcalls
      -- the alarm called is not later than `a`, so that `a` is still to come if it is another one
      have hle : t' ≤ d := hf.le_of_find? hfind hmem ht
      by_cases hab : a = b
      · subst hab
        rw [hf.eq_of_mem hmem (List.mem_of_find?_eq_some hfind)]
        exact .inl List.mem_cons_self
      · by_cases hhead : ∃ op ∈ behaviours.headI, op.alarm = a
        · exact .inr ⟨0, Nat.succ_pos _, by rwa [getD_zero_eq_headI]⟩
        · push Not at hhead
          have hmem' := (mem_foldl_apply hhead).2 (mem_cancel.2 ⟨hmem, hab⟩)
          rcases ih ((hf.cancel b).foldl_apply _) hrest hmem' hle with hcall | ⟨i, hi, hop⟩
          · exact .inl (List.mem_cons_of_mem _ hcall)
          · exact .inr ⟨i + 1, Nat.succ_lt_succ hi, by rwa [getD_succ_eq]⟩

/-! ## Rounds that end -/

/-- What is due. -/
def due (now : ℤ) (f : Timers) : ℕ := f.countP (·.1 ≤ now)

theorem due_cancel_le (a : ℕ) : due now (f.cancel a) ≤ due now f := List.filter_sublist.countP_le

theorem due_apply_le {op : AlarmOp} (h : op.Later now) : due now (f.apply op) ≤ due now f := by
  cases op with
  | update a newDeadline granularity =>
    rw [apply]
    split_ifs with hzero
    · exact due_cancel_le a
    · exact le_rfl
    · have hlater : ¬ newDeadline ≤ now := not_le.2 (h.resolve_left hzero)
      rw [set, due, (perm_insertUpper _ _).countP_eq,
        List.countP_cons_of_neg (by simpa using hlater)]
      exact due_cancel_le a
  | cancel a => exact due_cancel_le a
  | destroy a => exact due_cancel_le a

theorem due_foldl_apply_le {ops : List AlarmOp} (h : ∀ op ∈ ops, op.Later now) :
    due now (ops.foldl apply f) ≤ due now f := by
  induction ops generalizing f with
  | nil => exact le_rfl
  | cons op ops ih =>
    obtain ⟨hop, hops⟩ := List.forall_mem_cons.1 h
    exact (ih hops).trans (due_apply_le hop)

theorem due_cancel_lt (h : (d, a) ∈ f) (hd : d ≤ now) : due now (f.cancel a) < due now f := by
  induction f with
  | nil => exact absurd h List.not_mem_nil
  | cons x f ih =>
    by_cases hxa : x.2 = a
    · have hcancel : cancel (x :: f) a = cancel f a := List.filter_cons_of_neg (by simpa using hxa)
      rw [hcancel]
      rcases List.mem_cons.1 h with rfl | h
      · rw [due, due, List.countP_cons_of_pos (by simpa using hd)]
        exact Nat.lt_succ_of_le (due_cancel_le a)
      · refine (ih h).trans_le ?_
        exact (List.sublist_cons_self x f).countP_le
    · have hcancel : cancel (x :: f) a = x :: cancel f a :=
        List.filter_cons_of_pos (by simpa using hxa)
      rcases List.mem_cons.1 h with rfl | h
      · exact absurd rfl hxa
      · rw [hcancel, due, due, List.countP_cons, List.countP_cons]
        exact Nat.add_lt_add_right (ih h) _

theorem headI_later (h : ∀ ops ∈ behaviours, ∀ op ∈ ops, op.Later now) :
    ∀ op ∈ behaviours.headI, op.Later now := by
  cases behaviours with
  | nil => exact fun op hop => absurd hop List.not_mem_nil
  | cons ops behaviours => exact h ops List.mem_cons_self

theorem exists_callLoop (hfuel : due now f < fuel)
    (h : ∀ ops ∈ behaviours, ∀ op ∈ ops, op.Later now) (t : ℤ) :
    ∃ r, callLoop now fuel behaviours t f = .ok r := by
  induction fuel generalizing behaviours t f with
  | zero => exact absurd hfuel (Nat.not_lt_zero _)
  | succ fuel ih =>
    rw [callLoop]
    cases hfind : f.find? (t ≤ ·.1) with
    | none => exact ⟨_, rfl⟩
    | some x =>
      obtain ⟨t', a⟩ := x
      dsimp only
      split_ifs with hnow
      · exact ⟨_, rfl⟩
      · have hlt := due_cancel_lt (List.mem_of_find?_eq_some hfind) (not_lt.1 hnow)
        have hle := due_foldl_apply_le (f := f.cancel a) (headI_later h)
        -- the call takes one off what is due, and the delegate adds nothing to it
        have htail : ∀ ops ∈ behaviours.tail, ∀ op ∈ ops, op.Later now := fun ops hops =>
          h ops (List.mem_of_mem_tail hops)
        obtain ⟨r, hr⟩ := ih (hle.trans_lt (hlt.trans_le (Nat.lt_succ_iff.1 hfuel))) htail t'
        rw [hr]
        exact ⟨_, rfl⟩

theorem later_of_apply {op : AlarmOp} (hop : op.Later now) (h : ∀ d, (d, a) ∈ f → now < d)
    (hmem : (d, a) ∈ f.apply op) : now < d := by
  cases op with
  | update b newDeadline granularity =>
    rw [apply] at hmem
    split_ifs at hmem with hzero
    · exact h d (mem_cancel.1 hmem).1
    · exact h d hmem
    · rcases mem_insertUpper.1 hmem with heq | hmem
      · obtain ⟨rfl, -⟩ := Prod.mk.inj heq
        exact hop.resolve_left hzero
      · exact h d (mem_cancel.1 hmem).1
  | cancel b => exact h d (mem_cancel.1 hmem).1
  | destroy b => exact h d (mem_cancel.1 hmem).1

theorem later_of_foldl_apply {ops : List AlarmOp} (hops : ∀ op ∈ ops, op.Later now)
    (h : ∀ d, (d, a) ∈ f → now < d) (hmem : (d, a) ∈ ops.foldl apply f) : now < d := by
  induction ops generalizing f with
  | nil => exact h d hmem
  | cons op ops ih =>
    obtain ⟨hop, hops⟩ := List.forall_mem_cons.1 hops
    exact ih hops (fun d hd => later_of_apply hop h hd) hmem

/-- An alarm that is set for later, if at all, is not called. -/
theorem not_called_of_later (hb : ∀ ops ∈ behaviours, ∀ op ∈ ops, op.Later now)
    (hcalls : callLoop now fuel behaviours t f = .ok (calls, f'))
    (h : ∀ d, (d, a) ∈ f → now < d) : a ∉ calls.map Prod.snd := by
  induction calls generalizing fuel behaviours t f with
  | nil => simp
  | cons x calls ih =>
    rcases callLoop_cases hcalls with ⟨hnil, -⟩ | ⟨fuel, t', b, rest, -, hfind, hnow, hcons, hrest⟩
    · cases hnil
    · obtain ⟨rfl, rfl⟩ := List.cons.inj hcons
      have hab : a ≠ b := by
        rintro rfl
        exact absurd (h t' (List.mem_of_find?_eq_some hfind)) (not_lt.2 hnow)
      have hlast := ih (fun ops hops => hb ops (List.mem_of_mem_tail hops)) hrest fun d hd =>
        later_of_foldl_apply (headI_later hb) (fun d hd => h d (mem_cancel.1 hd).1) hd
      simpa [hab] using hlast

theorem calls_nodup (hb : ∀ ops ∈ behaviours, ∀ op ∈ ops, op.Later now)
    (hcalls : callLoop now fuel behaviours t f = .ok (calls, f')) :
    (calls.map Prod.snd).Nodup := by
  induction calls generalizing fuel behaviours t f with
  | nil => simp
  | cons x calls ih =>
    rcases callLoop_cases hcalls with ⟨hnil, -⟩ | ⟨fuel, t', b, rest, -, -, -, hcons, hrest⟩
    · cases hnil
    · obtain ⟨rfl, rfl⟩ := List.cons.inj hcons
      have htail : ∀ ops ∈ behaviours.tail, ∀ op ∈ ops, op.Later now := fun ops hops =>
        hb ops (List.mem_of_mem_tail hops)
      refine List.nodup_cons.2 ⟨not_called_of_later htail hrest fun d hd => ?_, ih htail hrest⟩
      exact later_of_foldl_apply (headI_later hb) (fun d hd => absurd rfl (mem_cancel.1 hd).2) hd

end Timers

/-! ## The server -/

namespace AlarmServer

variable {s s' : AlarmServer} {f : Timers} {now : ℤ} {fuel : ℕ} {behaviours : List (List AlarmOp)}
  {calls : List (ℤ × ℕ)} {is : List Input} {results : List (List (ℤ × ℕ))}

theorem Holds.ordered {nodes : List AlarmNode} (h : s.Holds nodes none) :
    Timers.Ordered (nodes.map AlarmNode.timer) := by
  have hsorted := h.sorted
  have hnodup := h.nodup
  rw [h.eq_alarmMap] at hsorted hnodup
  refine ⟨List.pairwise_map.2 hsorted, ?_⟩
  rw [List.map_map]
  refine (List.nodup_map_iff_inj_on (List.Nodup.of_map _ hnodup)).2 fun n hn n' hn' hcb => ?_
  exact h.unique (h.mem hn) (h.mem hn') ((h.token_eq_iff hn' hn).2 hcb)

theorem Refines.mem_iff (h : s.Refines none f) {d : ℤ} {a : ℕ} :
    (d, a) ∈ f ↔ d ≠ 0 ∧ (s.alarms a).deadline = d := by
  obtain ⟨nodes, hs, rfl⟩ := h
  constructor
  · intro hmem
    obtain ⟨n, hn, heq⟩ := List.mem_map.1 hmem
    obtain ⟨rfl, rfl⟩ := Prod.mk.inj heq
    exact ⟨hs.times n hn, by rw [hs.armed n hn]⟩
  · rintro ⟨hd, rfl⟩
    by_cases ha : ∃ n ∈ nodes, n.cb = a
    · obtain ⟨n, hn, rfl⟩ := ha
      rw [hs.armed n hn]
      exact List.mem_map_of_mem hn
    · push Not at ha
      exact absurd (hs.idle a ha).1 hd

theorem refines_of_run (h : new.run is = .ok (results, s)) : ∃ f : Timers, s.Refines none f := by
  have hrun := refines_new.run is
  rw [h] at hrun
  generalize Timers.run [] is = y at hrun
  cases hrun with
  | ok r h => exact ⟨_, h⟩

theorem Refines.ordered (h : s.Refines none f) : f.Ordered := by
  obtain ⟨nodes, hs, rfl⟩ := h
  exact hs.ordered

/-- The round of the timers is that of the server, if this one ends. -/
theorem Refines.round_eq (h : s.Refines none f)
    (hround : s.callAndReregisterAlarmEvents now fuel behaviours = .ok (calls, s')) :
    ∃ f', f.round now fuel behaviours = .ok (calls, f') := by
  have hstep := h.step (.round now fuel behaviours)
  rw [AlarmServer.step, hround, Timers.step] at hstep
  generalize f.round now fuel behaviours = y at hstep ⊢
  cases hstep with
  | ok r h => exact ⟨_, rfl⟩

/-- After any run, a round that ends calls alarms in the order of their times and none early;
    each at the time it was set for, unless delegates called before have touched it, and all that
    were due but for those that these have touched. -/
theorem calls_of_ended (h : new.run is = .ok (results, s))
    (hround : s.callAndReregisterAlarmEvents now fuel behaviours = .ok (calls, s')) :
    calls.Pairwise (fun x y => x.1 ≤ y.1) ∧ (∀ x ∈ calls, x.1 ≤ now) ∧
      (∀ j d a, calls[j]? = some (d, a) →
        (∀ i < j, ∀ op ∈ behaviours.getD i default, op.alarm ≠ a) → (s.alarms a).deadline = d) ∧
      ∀ a, (s.alarms a).deadline ≠ 0 → (s.alarms a).deadline ≤ now →
        ((s.alarms a).deadline, a) ∈ calls ∨
          ∃ i < calls.length, ∃ op ∈ behaviours.getD i default, op.alarm = a := by
  obtain ⟨f, hf⟩ := refines_of_run h
  obtain ⟨f', hloop⟩ := hf.round_eq hround
  rw [Timers.round] at hloop
  have hsorted := Timers.calls_sorted hloop
  refine ⟨hsorted.1, fun x hx => (hsorted.2 x hx).2, fun j d a hj ha => ?_, fun a hset hdue => ?_⟩
  · exact (hf.mem_iff.1 (Timers.mem_of_called hloop hj ha)).2
  · have hmem : ((s.alarms a).deadline, a) ∈ f := hf.mem_iff.2 ⟨hset, rfl⟩
    refine Timers.called_or_touched hf.ordered hloop hmem ?_ hdue
    have hordered := hf.ordered.sorted
    cases f with
    | nil => exact absurd hmem List.not_mem_nil
    | cons x f =>
      rcases List.mem_cons.1 hmem with heq | hmem
      · exact (congrArg Prod.fst heq).ge
      · exact (List.pairwise_cons.1 hordered).1 _ hmem

theorem calls_of_ended_earlier : ∃ s calls s',
    new.run [.op (.update 1 100 0), .op (.update 2 50 0)] = .ok ([[], []], s) ∧
      s.callAndReregisterAlarmEvents 80 3 [[.update 2 90 0]] = .ok (calls, s') ∧
        (((s.alarms 2).deadline, 2) ∈ calls ∨
          ∃ i < calls.length, ∃ op ∈ [[AlarmOp.update 2 90 0]].getD i default, op.alarm = 2) := by
  obtain ⟨-, -, -, h⟩ := calls_of_ended
    (rfl : new.run [.op (.update 1 100 0), .op (.update 2 50 0)] = .ok ([[], []], _))
    (rfl : callAndReregisterAlarmEvents _ 80 3 [[.update 2 90 0]] = .ok (_, _))
  exact ⟨_, _, _, rfl, rfl, h 2 (by decide) (by decide)⟩

/-- If delegates set alarms for later than now only, then a round ends, as soon as it may call all
    that is due, and calls no alarm twice. -/
theorem ends_of_later (h : new.run is = .ok (results, s))
    (hfuel : s.alarmMap.countP (·.time ≤ now) < fuel)
    (hlater : ∀ ops ∈ behaviours, ∀ op ∈ ops, op.Later now) :
    ∃ calls s', s.callAndReregisterAlarmEvents now fuel behaviours = .ok (calls, s') ∧
      (calls.map Prod.snd).Nodup := by
  obtain ⟨f, hf⟩ := refines_of_run h
  have hdue : Timers.due now f = s.alarmMap.countP (·.time ≤ now) := by
    obtain ⟨nodes, hs, rfl⟩ := hf
    rw [hs.eq_alarmMap, Timers.due, List.countP_map]
    rfl
  obtain ⟨⟨calls, f'⟩, hloop⟩ := Timers.exists_callLoop (hdue ▸ hfuel) hlater
    ((f.head?.map Prod.fst).getD 0)
  have hstep := hf.step (.round now fuel behaviours)
  rw [AlarmServer.step, Timers.step, Timers.round, hloop] at hstep
  generalize s.callAndReregisterAlarmEvents now fuel behaviours = x at hstep ⊢
  cases hstep with
  | ok r h => exact ⟨calls, _, rfl, Timers.calls_nodup hlater hloop⟩

theorem ends_of_later_again : ∃ s,
    new.run [.op (.update 1 100 0), .op (.update 2 50 0)] = .ok ([[], []], s) ∧
      ∃ calls s', s.callAndReregisterAlarmEvents 80 3 [[.update 2 90 0]] = .ok (calls, s') ∧
        (calls.map Prod.snd).Nodup := by
  refine ⟨_, rfl, ends_of_later
    (rfl : new.run [.op (.update 1 100 0), .op (.update 2 50 0)] = .ok ([[], []], _)) ?_ ?_⟩
  · decide
  · simp [AlarmOp.Later]

end AlarmServer

end DashDim
