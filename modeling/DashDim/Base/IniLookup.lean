import DashDim.Base.IniLines

/-!
# What `ini_get` finds

A settings file says which value a key has in a section (`entries`), whatever its lines look like.
What `ini_get` finds in the buffer that `split_data` leaves is the value of the first entry that the
section and the key are those of, in capitals or not.

* `Ini.getLoop_items`: the walk over the strings of the buffer;
* `Ini.get_render`: a file that is read back.
-/

namespace DashDim

namespace Ini

/-! ## What a file says -/

/-- What is left of the lines of a file, in their order. -/
def items (last : Line) (ls : List Line) : List Line.Item := (ls ++ [last]).filterMap Line.item

/-- The strings of the buffer that an item stands for. -/
def Line.Item.strings : Line.Item → List Bytes
  | header name => [bracket :: name]
  | entry key value => [key, value]

/-- The section, the key and the value of every entry. -/
def entries (sect : Bytes) : List Line.Item → List (Bytes × Bytes × Bytes)
  | [] => []
  | .header name :: l => entries name l
  | .entry key value :: l => (sect, key, value) :: entries sect l

/-- The strings differ in the case of letters at most. -/
def SameText (a b : Bytes) : Prop := a.map tolower = b.map tolower

instance (a b : Bytes) : Decidable (SameText a b) := inferInstanceAs (Decidable (_ = _))

/-- The value of the first entry with the key, in the section if one is asked for. -/
def lookup (sect : Option Bytes) (key : Bytes) (l : List (Bytes × Bytes × Bytes)) : Option Bytes :=
  (l.find? fun e => (∀ s ∈ sect, SameText s e.1) ∧ SameText e.2.1 key).map (·.2.2)

/-! ## The strings of the buffer -/

/-- The strings of a buffer: what is between its zeros. -/
def strings (data : Bytes) : List Bytes := (data.splitOn 0).filter (· ≠ [])

theorem strings_append_zero (a b : Bytes) : strings (a ++ 0 :: b) = strings a ++ strings b := by
  rw [strings, List.splitOn_append_cons_self, List.filter_append]
  rfl

theorem strings_nil : strings [] = [] := rfl

theorem strings_of_not_mem {s : Bytes} (hs : 0 ∉ s) (hne : s ≠ []) : strings s = [s] := by
  rw [strings, List.splitOn_eq_singleton hs, List.filter_singleton, decide_eq_true hne]
  rfl

theorem strings_zero_cons (b : Bytes) : strings (0 :: b) = strings b := by
  rw [← List.nil_append (0 :: b), strings_append_zero, strings_nil, List.nil_append]

theorem strings_zeros_append (n : ℕ) (b : Bytes) : strings (zeros n ++ b) = strings b := by
  induction n with
  | zero => rfl
  | succ n ih => rw [zeros_succ, List.cons_append, strings_zero_cons, ih]

theorem strings_zeros (n : ℕ) : strings (zeros n) = [] := by
  rw [← List.append_nil (zeros n), strings_zeros_append, strings_nil]

theorem strings_append_zeros {s : Bytes} (hs : 0 ∉ s) (hne : s ≠ []) (n : ℕ) :
    strings (s ++ zeros n) = [s] := by
  cases n with
  | zero => rw [zeros, List.replicate_zero, List.append_nil, strings_of_not_mem hs hne]
  | succ n =>
    rw [zeros_succ, strings_append_zero, strings_of_not_mem hs hne, strings_zeros, List.append_nil]

theorem strings_dropZeros (d : Bytes) : strings (d.dropWhile (· = 0)) = strings d := by
  induction d with
  | nil => rfl
  | cons c d ih =>
    rw [List.dropWhile_cons]
    split_ifs with hc
    · rw [ih, of_decide_eq_true hc, strings_zero_cons]
    · rfl

/-- The string at the start, and what is behind its end. -/
theorem exists_string {d : Bytes} {c : UInt8} (hc : d.head? = some c) (hne : c ≠ 0) :
    0 ∉ d.takeWhile (· ≠ 0) ∧ (∃ w, d.takeWhile (· ≠ 0) = c :: w) ∧
      ∀ b ∈ (d.dropWhile (· ≠ 0)).head?, b = 0 := by
  obtain ⟨w, rfl⟩ := List.head?_eq_some_iff.1 hc
  refine ⟨fun h => ?_, ⟨w.takeWhile (· ≠ 0), ?_⟩, fun b hb => ?_⟩
  · have hall := List.all_eq_true.1 (List.all_takeWhile (p := (· ≠ 0)) (l := c :: w)) 0 h
    exact of_decide_eq_true hall rfl
  · rw [List.takeWhile_cons, if_pos (decide_eq_true hne)]
  · have hnot := List.head?_dropWhile_not (· ≠ 0) (c :: w)
    rw [Option.mem_def.1 hb] at hnot
    exact of_not_not (of_decide_eq_false (by simpa using hnot))

theorem strings_of_head_ne {d : Bytes} {c : UInt8} (hc : d.head? = some c) (hne : c ≠ 0) :
    strings d = d.takeWhile (· ≠ 0) :: strings ((d.dropWhile (· ≠ 0)).dropWhile (· = 0)) := by
  obtain ⟨htake, ⟨w, hw⟩, hhead⟩ := exists_string hc hne
  have htakene : d.takeWhile (· ≠ 0) ≠ [] := by
    rw [hw]
    exact List.cons_ne_nil _ _
  rw [strings_dropZeros]
  conv_lhs => rw [← List.takeWhile_append_dropWhile (p := (· ≠ 0)) (l := d)]
  cases hrest : d.dropWhile (· ≠ 0) with
  | nil => rw [List.append_nil, strings_of_not_mem htake htakene, strings_nil]
  | cons b l =>
    have hb : b = 0 := hhead b (by rw [hrest]; rfl)
    rw [hb, strings_append_zero, strings_of_not_mem htake htakene, strings_zero_cons]
    rfl

theorem Piece.value_ne_zero_of_mem {pieces : List Piece} (h : ∀ x ∈ pieces, x.WellFormed) :
    0 ∉ pieces.map Piece.value := by
  intro hmem
  obtain ⟨x, hx, hzero⟩ := List.mem_map.1 hmem
  exact (h x hx).value_ne_zero hzero

theorem Value.meaning_spec {v : Value} (hv : v.WellFormed) {value : Bytes}
    (h : v.meaning = some value) : 0 ∉ value ∧ value ≠ [] := by
  cases v with
  | missing => exact absurd h (Option.some_ne_none value).symm
  | plain value' trailing =>
    obtain rfl := Option.some.inj h
    obtain ⟨hvalue, ⟨c, hc, -⟩, -⟩ := hv
    exact ⟨fun h => (hvalue _ h).1 rfl, List.ne_nil_of_mem (List.mem_of_mem_head? hc)⟩
  | quoted pieces tail =>
    cases pieces with
    | nil => exact absurd h (Option.some_ne_none value).symm
    | cons x pieces =>
      obtain rfl := Option.some.inj h
      exact ⟨Piece.value_ne_zero_of_mem hv.1, List.cons_ne_nil _ _⟩

namespace Line

/-- What the strings of an item look like. -/
def Item.WellFormed : Item → Prop
  | header name => 0 ∉ name
  | entry key value => 0 ∉ key ∧ (∃ c ∈ key.head?, c ≠ bracket) ∧ 0 ∉ value ∧ value ≠ []

variable {l : Line}

theorem item_wellFormed (hl : l.WellFormed) : ∀ i ∈ l.item, i.WellFormed := by
  cases l with
  | blank b => exact fun i hi => absurd hi (Option.not_mem_none i)
  | comment indent text => exact fun i hi => absurd hi (Option.not_mem_none i)
  | other indent text => exact fun i hi => absurd hi (Option.not_mem_none i)
  | header indent name b =>
    intro i hi
    obtain rfl := Option.some.inj hi
    exact fun h => (hl.2.1 0 h).1 rfl
  | entry indent key before after value =>
    intro i hi
    obtain ⟨v, hv, rfl⟩ := Option.map_eq_some_iff.1 hi
    obtain ⟨-, hkey, ⟨c, hc, -, hbracket, -⟩, -, -, -, hvalue⟩ := hl
    exact ⟨fun h => (hkey 0 h).1 rfl, ⟨c, hc, hbracket⟩, Value.meaning_spec hvalue hv⟩

theorem strings_image (hl : l.WellFormed) :
    strings l.image = l.item.toList.flatMap Item.strings := by
  cases l with
  | blank b => exact strings_zeros _
  | comment indent text =>
    rw [image, strings_zeros_append, strings_zeros]
    rfl
  | other indent text =>
    rw [image, strings_zeros_append, strings_zeros]
    rfl
  | header indent name b =>
    have hname : 0 ∉ bracket :: name := List.not_mem_cons_of_ne_of_not_mem (by decide)
      (item_wellFormed hl _ rfl)
    rw [image, strings_zeros_append, ← List.cons_append, List.append_assoc, List.singleton_append,
      ← zeros_succ, strings_append_zeros hname (List.cons_ne_nil _ _)]
    rfl
  | entry indent key before after value =>
    rw [image, strings_zeros_append]
    cases hv : value.meaning with
    | none =>
      rw [Value.leaves_of_none hv, strings_zeros, item, hv]
      rfl
    | some v =>
      obtain ⟨hkey, ⟨c, hc, -⟩, hvalue, hne⟩ :=
        item_wellFormed hl (.entry key v) (by rw [item, hv]; rfl)
      have hkeyne : key ≠ [] := List.ne_nil_of_mem (List.mem_of_mem_head? hc)
      rw [Value.leaves_of_some hv, Nat.add_right_comm, zeros_succ, List.append_assoc,
        List.cons_append, strings_append_zero, strings_of_not_mem hkey hkeyne,
        strings_zeros_append, strings_append_zeros hvalue hne, item, hv]
      rfl

end Line

theorem strings_image {last : Line} {ls : List Line} (hlast : last.WellFormed)
    (hls : ∀ l ∈ ls, l.WellFormed) :
    strings (image last ls) = (items last ls).flatMap Line.Item.strings := by
  induction ls with
  | nil =>
    rw [image, Line.strings_image hlast, items, List.nil_append]
    cases hitem : last.item with
    | none => rw [List.filterMap_cons_none hitem]; rfl
    | some i => rw [List.filterMap_cons_some hitem]; rfl
  | cons l ls ih =>
    obtain ⟨hl, hls⟩ := List.forall_mem_cons.1 hls
    rw [image, strings_append_zero, Line.strings_image hl, ih hls, items, items, List.cons_append]
    cases hitem : l.item with
    | none => rw [List.filterMap_cons_none hitem]; rfl
    | some i =>
      rw [List.filterMap_cons_some hitem, List.flatMap_cons, Option.toList_some,
        List.flatMap_singleton]

/-! ## Looking up -/

variable {pre : Bytes} {fuel : ℕ}

theorem tolower_ne_zero {c : UInt8} (hc : c ≠ 0) : tolower c ≠ 0 := by
  rw [tolower]
  split_ifs with h
  · intro hzero
    have hnat := congrArg UInt8.toNat hzero
    have hle := UInt8.le_iff_toNat_le.1 h.2
    rw [UInt8.toNat_add] at hnat
    change (c.toNat + 32) % 256 = 0 at hnat
    change c.toNat ≤ 90 at hle
    omega
  · exact hc

theorem signed_inj {a b : UInt8} : a.toInt8.toInt = b.toInt8.toInt ↔ a = b :=
  ⟨fun h => congrArg Int8.toUInt8 (Int8.toInt_inj.1 h), fun h => by rw [h]⟩

theorem strcmpci_eq_zero {a b : Bytes} (ha : 0 ∉ a) (hb : 0 ∉ b) :
    strcmpci a b = 0 ↔ SameText a b := by
  induction a generalizing b with
  | nil =>
    cases b with
    | nil => exact iff_of_true rfl rfl
    | cons d b =>
      refine iff_of_false (fun h => ?_) (fun h => absurd h.symm (List.cons_ne_nil _ _))
      rw [strcmpci, Int.zero_sub, Int.neg_eq_zero] at h
      refine tolower_ne_zero (fun hd => hb (hd ▸ List.mem_cons_self)) (signed_inj.1 (h.trans rfl))
  | cons c a ih =>
    obtain ⟨hc, ha⟩ := not_or.1 (mt List.mem_cons.2 ha)
    cases b with
    | nil =>
      refine iff_of_false (fun h => ?_) (fun h => absurd h (List.cons_ne_nil _ _))
      rw [strcmpci] at h
      exact tolower_ne_zero (Ne.symm hc) (signed_inj.1 (h.trans rfl))
    | cons d b =>
      obtain ⟨hd, hb⟩ := not_or.1 (mt List.mem_cons.2 hb)
      have hiff : SameText (c :: a) (d :: b) ↔ tolower c = tolower d ∧ SameText a b := by
        rw [SameText, List.map_cons, List.map_cons, List.cons.injEq]
        rfl
      rw [strcmpci, hiff]
      split_ifs with hne
      · exact iff_of_false hne fun h => hne (by rw [h.1, Int.sub_self])
      · rw [ih ha hb, and_iff_right (signed_inj.1 (Int.sub_eq_zero.1 (not_not.1 hne)))]

theorem cString_at (pre d : Bytes) :
    cString (pre ++ d) pre.length = some (d.takeWhile (· ≠ 0)) := by
  rw [cString_of_le (by rw [List.length_append]; exact Nat.le_add_right _ _), List.drop_left]

theorem skipZeros_at (d : Bytes) (hfuel : d.length < fuel) :
    skipZeros fuel (pre ++ d) pre.length = some (pre ++ d.takeWhile (· = 0)).length := by
  induction d generalizing pre fuel with
  | nil =>
    obtain ⟨fuel, rfl⟩ := Nat.exists_eq_succ_of_ne_zero (Nat.ne_of_gt hfuel)
    rw [skipZeros, List.append_nil, if_neg (lt_irrefl _), List.takeWhile_nil, List.append_nil]
  | cons c d ih =>
    obtain ⟨fuel, rfl⟩ := Nat.exists_eq_succ_of_ne_zero (Nat.ne_of_gt (Nat.zero_lt_of_lt hfuel))
    rw [skipZeros, if_pos lt_length_append, load_at, Option.bind_eq_bind, Option.bind_some,
      List.headD_cons, List.takeWhile_cons]
    by_cases hc : c = 0
    · rw [if_pos hc, if_pos (decide_eq_true hc), append_cons_assoc pre c, length_concat pre c,
        ih (Nat.lt_of_succ_lt_succ hfuel), ← append_cons_assoc]
    · rw [if_neg hc, if_neg (mt of_decide_eq_true hc), List.append_nil]

/-- What is behind the string at a place, from the next one on. -/
def behind (d : Bytes) : Bytes := (d.dropWhile (· ≠ 0)).dropWhile (· = 0)

theorem next_at (pre d : Bytes) :
    ∃ pre', pre ++ d = pre' ++ behind d ∧ next (pre ++ d) pre.length = some pre'.length := by
  have hscan : strcspn ((pre ++ d).length + 1) (pre ++ d) [] pre.length =
      some (pre ++ d.takeWhile (· ≠ 0)).length := by
    conv_lhs => rw [← List.takeWhile_append_dropWhile (p := (· ≠ 0)) (l := d)]
    refine strcspn_at (fun c hc => ⟨?_, List.not_mem_nil⟩) (.inl ?_) ?_
    · exact of_decide_eq_true
        (List.all_eq_true.1 (List.all_takeWhile (p := (· ≠ 0)) (l := d)) c hc)
    · cases hrest : d.dropWhile (· ≠ 0) with
      | nil => rfl
      | cons b l =>
        have hnot := List.head?_dropWhile_not (· ≠ 0) d
        rw [hrest] at hnot
        exact of_not_not (of_decide_eq_false (by simpa using hnot))
    · simp only [List.length_append]
      omega
  have hsplit : pre ++ d = (pre ++ d.takeWhile (· ≠ 0)) ++ d.dropWhile (· ≠ 0) := by
    rw [List.append_assoc, List.takeWhile_append_dropWhile]
  refine ⟨(pre ++ d.takeWhile (· ≠ 0)) ++ (d.dropWhile (· ≠ 0)).takeWhile (· = 0), ?_, ?_⟩
  · rw [behind, List.append_assoc (pre ++ _), List.takeWhile_append_dropWhile]
    exact hsplit
  · rw [next, hscan, Option.bind_eq_bind, Option.bind_some]
    rw [hsplit]
    refine skipZeros_at _ ?_
    rw [← hsplit, List.length_append]
    have hle := (List.dropWhile_sublist (· ≠ (0 : UInt8)) (l := d)).length_le
    omega

theorem head_behind (d : Bytes) : ∀ c ∈ (behind d).head?, c ≠ 0 := by
  intro c hc hzero
  have hnot := List.head?_dropWhile_not (· = 0) (d.dropWhile (· ≠ 0))
  rw [show (d.dropWhile (· ≠ 0)).dropWhile (· = 0) = behind d from rfl, Option.mem_def.1 hc] at hnot
  simp [hzero] at hnot

/-- From a string on: the string, with its first byte, and those behind it. -/
theorem strings_eq_cons {d s : Bytes} {ss : List Bytes} (hd : ∀ c ∈ d.head?, c ≠ 0)
    (h : strings d = s :: ss) :
    d.takeWhile (· ≠ 0) = s ∧ strings (behind d) = ss ∧ ∃ c w, d = c :: w ∧ s.head? = some c := by
  cases d with
  | nil => exact absurd h (List.cons_ne_nil s ss).symm
  | cons c w =>
    have hc := hd c rfl
    rw [strings_of_head_ne rfl hc] at h
    obtain ⟨rfl, rfl⟩ := List.cons.inj h
    obtain ⟨-, ⟨w', hw'⟩, -⟩ := exists_string (d := c :: w) rfl hc
    exact ⟨rfl, rfl, c, w, rfl, by rw [hw']; rfl⟩

/-- The next place is behind this one. -/
theorem length_behind_lt {pre' d : Bytes} (hsplit : pre ++ d = pre' ++ behind d)
    (hnext : next (pre ++ d) pre.length = some pre'.length) (hne : d ≠ []) :
    (behind d).length < d.length := by
  have hpos := List.length_pos_iff.2 hne
  obtain ⟨q, hq, -, -, hmove⟩ := next_spec
    (by rw [List.length_append]; omega : pre.length ≤ (pre ++ d).length)
  have hlt := hmove (by rw [List.length_append]; omega)
  have hlen := congrArg List.length hsplit
  rw [hnext] at hq
  rw [← Option.some.inj hq] at hlt
  rw [List.length_append, List.length_append] at hlen
  omega

section Lookup

variable {sect : Option Bytes} {key current : Bytes} {d : Bytes} {ss : List Bytes}

/-- A round of `ini_get` at the header of a section. -/
theorem getLoop_header {name : Bytes} (hd : ∀ c ∈ d.head?, c ≠ 0)
    (h : strings d = (bracket :: name) :: ss) : ∃ pre', pre ++ d = pre' ++ behind d ∧
      (behind d).length < d.length ∧ strings (behind d) = ss ∧
      getLoop (fuel + 1) (pre ++ d) pre.length current sect key =
        getLoop fuel (pre' ++ behind d) pre'.length name sect key := by
  obtain ⟨htake, hbehind, c, w, rfl, hc⟩ := strings_eq_cons hd h
  obtain rfl := Option.some.inj hc
  obtain ⟨pre', hsplit, hnext⟩ := next_at pre (bracket :: w)
  rw [List.takeWhile_cons, if_pos (by decide)] at htake
  refine ⟨pre', hsplit, length_behind_lt hsplit hnext (List.cons_ne_nil _ _), hbehind, ?_⟩
  have hname : cString (pre ++ bracket :: w) (pre.length + 1) = some name := by
    rw [append_cons_assoc, length_concat pre bracket, cString_at, (List.cons.inj htake).2]
  rw [getLoop, if_pos lt_length_append, load_at, Option.bind_eq_bind, Option.bind_some,
    List.headD_cons, if_pos rfl, hname, hnext, ← hsplit]
  rfl

/-- A round of `ini_get` at a key: it finds the value behind it, or passes both. -/
theorem getLoop_entry {name value : Bytes} (hd : ∀ c ∈ d.head?, c ≠ 0)
    (hname : ∃ c ∈ name.head?, c ≠ bracket) (h : strings d = name :: value :: ss) :
    ∃ pre₁ pre₂ : Bytes, pre ++ d = pre₂ ++ behind (behind d) ∧
      cString (pre ++ d) pre₁.length = some value ∧
      (behind (behind d)).length < d.length ∧ strings (behind (behind d)) = ss ∧
      getLoop (fuel + 1) (pre ++ d) pre.length current sect key =
        if (∀ s ∈ sect, strcmpci s current = 0) ∧ strcmpci name key = 0 then some (some pre₁.length)
        else getLoop fuel (pre₂ ++ behind (behind d)) pre₂.length current sect key := by
  obtain ⟨htake, hbehind, c, w, hdw, hc⟩ := strings_eq_cons hd h
  obtain ⟨htake', hbehind', c', w', hdw', -⟩ := strings_eq_cons (head_behind d) hbehind
  have hne : d ≠ [] := by
    rw [hdw]
    exact List.cons_ne_nil _ _
  have hne' : behind d ≠ [] := by
    rw [hdw']
    exact List.cons_ne_nil _ _
  obtain ⟨pre₁, hsplit₁, hnext₁⟩ := next_at pre d
  obtain ⟨pre₂, hsplit₂, hnext₂⟩ := next_at pre₁ (behind d)
  have hlt₁ := length_behind_lt hsplit₁ hnext₁ hne
  have hlt₂ := length_behind_lt hsplit₂ hnext₂ hne'
  refine ⟨pre₁, pre₂, hsplit₁.trans hsplit₂, ?_, by omega, hbehind', ?_⟩
  · rw [hsplit₁, cString_at, htake']
  obtain ⟨b, hb, hbracket⟩ := hname
  obtain rfl : b = c := Option.some.inj ((Option.mem_def.1 hb).symm.trans hc)
  have hplace : pre.length < (pre ++ d).length := by
    rw [hdw]
    exact lt_length_append
  have hload : load (pre ++ d) pre.length = some b := by rw [load_at, hdw, List.headD_cons]
  rw [← hsplit₁] at hnext₂
  rw [← hsplit₂, ← hsplit₁, getLoop, if_pos hplace, hload, Option.bind_eq_bind, Option.bind_some,
    if_neg hbracket, hnext₁, Option.bind_eq_bind, Option.bind_some, cString_at, htake,
    Option.bind_eq_bind, Option.bind_some, hnext₂]
  rfl

/-- `ini_get` walks over the strings of the items. -/
theorem getLoop_items {items : List Line.Item} (hitems : ∀ i ∈ items, i.WellFormed)
    (hsect : ∀ s ∈ sect, 0 ∉ s) (hkey : 0 ∉ key) (hcurrent : 0 ∉ current)
    (hd : ∀ c ∈ d.head?, c ≠ 0) (hstrings : strings d = items.flatMap Line.Item.strings)
    (hfuel : d.length < fuel) : ∃ r, getLoop fuel (pre ++ d) pre.length current sect key = some r ∧
      r.bind (cString (pre ++ d)) = lookup sect key (entries current items) := by
  induction items generalizing pre d current fuel with
  | nil =>
    obtain ⟨fuel, rfl⟩ := Nat.exists_eq_succ_of_ne_zero (Nat.ne_of_gt (Nat.zero_lt_of_lt hfuel))
    cases d with
    | nil =>
      refine ⟨none, ?_, rfl⟩
      rw [getLoop, List.append_nil, if_neg (lt_irrefl _)]
    | cons c w =>
      rw [strings_of_head_ne rfl (hd c rfl)] at hstrings
      exact absurd hstrings (List.cons_ne_nil _ _)
  | cons i items ih =>
    obtain ⟨fuel, rfl⟩ := Nat.exists_eq_succ_of_ne_zero (Nat.ne_of_gt (Nat.zero_lt_of_lt hfuel))
    obtain ⟨hi, hrest⟩ := List.forall_mem_cons.1 hitems
    cases i with
    | header name =>
      obtain ⟨pre', hsplit, hlt, hbehind, hloop⟩ := getLoop_header hd hstrings
      rw [hloop, hsplit]
      exact ih hrest hi (head_behind d) hbehind (by omega)
    | entry name value =>
      obtain ⟨hname, hstart, -, -⟩ := hi
      obtain ⟨pre₁, pre₂, hsplit, hvalue, hlt, hbehind, hloop⟩ :=
        getLoop_entry hd hstart hstrings
      have hmatch : ((∀ s ∈ sect, strcmpci s current = 0) ∧ strcmpci name key = 0) ↔
          ((∀ s ∈ sect, SameText s current) ∧ SameText name key) := by
        rw [strcmpci_eq_zero hname hkey]
        refine and_congr_left fun _ => forall₂_congr fun s hs => ?_
        exact strcmpci_eq_zero (hsect s hs) hcurrent
      rw [hloop, entries, lookup, List.find?_cons]
      by_cases hfound : (∀ s ∈ sect, SameText s current) ∧ SameText name key
      · rw [decide_eq_true hfound]
        exact ⟨some pre₁.length, if_pos (hmatch.2 hfound), hvalue⟩
      · rw [if_neg (mt hmatch.1 hfound), decide_eq_false hfound, hsplit]
        exact ih hrest hcurrent (head_behind _) hbehind (by omega)

/-- The string that `ini_get` finds in the buffer, if it finds one. -/
theorem exists_get_render (sect : Option Bytes) (key : Bytes) (last : Line) (ls : List Line)
    (hlast : last.WellFormed) (hls : ∀ l ∈ ls, l.WellFormed) (hsect : ∀ s ∈ sect, 0 ∉ s)
    (hkey : 0 ∉ key) :
    ∃ data r, splitData (render last ls) = some data ∧ get data sect key = some r ∧
      r.bind (cString data) = lookup sect key (entries [] (items last ls)) := by
  have hitems : ∀ i ∈ items last ls, i.WellFormed := by
    intro i hi
    obtain ⟨l, hl, hi⟩ := List.mem_filterMap.1 hi
    rcases List.mem_append.1 hl with hl | hl
    · exact Line.item_wellFormed (hls l hl) i hi
    · rw [List.mem_singleton.1 hl] at hi
      exact Line.item_wellFormed hlast i hi
  have hstrings := strings_image hlast hls
  refine ⟨image last ls, ?_⟩
  rw [splitData_render hlast hls]
  generalize image last ls = data at hstrings ⊢
  have hload : load data 0 = some (data.headD 0) := load_at [] data
  rw [get, hload, Option.bind_eq_bind, Option.bind_some]
  by_cases hzero : data.headD 0 = 0
  · -- the buffer starts with zeros, or it is empty
    have hbehind : strings (behind data) = strings data := by
      rw [behind, strings_dropZeros]
      cases data with
      | nil => rfl
      | cons c w => rw [List.dropWhile_cons, if_neg (by simpa using hzero)]
    obtain ⟨pre, hpre, hnext⟩ := next_at [] data
    rw [List.nil_append] at hpre hnext
    obtain ⟨r, hr, hfound⟩ := @getLoop_items pre (data.length + 1) sect key [] _ _
      hitems hsect hkey List.not_mem_nil (head_behind data) (hbehind.trans hstrings) (by
        have hlen := congrArg List.length hpre
        rw [List.length_append] at hlen
        omega)
    rw [← hpre] at hr hfound
    rw [if_pos hzero, show next data 0 = some pre.length from hnext]
    exact ⟨r, rfl, hr, hfound⟩
  · have hhead : ∀ c ∈ data.head?, c ≠ 0 := by
      intro c hc
      rwa [List.headD_eq_head?_getD, Option.mem_def.1 hc] at hzero
    obtain ⟨r, hr, hfound⟩ := @getLoop_items [] (data.length + 1) sect key [] _ _
      hitems hsect hkey List.not_mem_nil hhead hstrings (Nat.lt_succ_self _)
    rw [if_neg hzero]
    exact ⟨r, rfl, hr, hfound⟩

/-- What `ini_get` finds in the buffer is the value of the first entry of the file that the section
    and the key are those of, and where there is none, the null pointer. -/
theorem get_render (sect : Option Bytes) (key : Bytes) (last : Line) (ls : List Line)
    (hlast : last.WellFormed) (hls : ∀ l ∈ ls, l.WellFormed) (hsect : ∀ s ∈ sect, 0 ∉ s)
    (hkey : 0 ∉ key) :
    ∃ data r, splitData (render last ls) = some data ∧ get data sect key = some r ∧
      r.bind (cString data) = lookup sect key (entries [] (items last ls)) ∧
      (r = none ↔ lookup sect key (entries [] (items last ls)) = none) := by
  obtain ⟨data, r, hdata, hr, hfound⟩ := exists_get_render sect key last ls hlast hls hsect hkey
  refine ⟨data, r, hdata, hr, hfound, ?_⟩
  -- a pointer that is returned points to a string
  obtain ⟨r', hr', hle⟩ := get_spec data sect key
  cases hr.symm.trans hr'
  rw [← hfound]
  cases r with
  | none => exact iff_of_true rfl rfl
  | some v =>
    refine iff_of_false (Option.some_ne_none v) ?_
    rw [Option.bind_some, cString_of_le (hle v rfl)]
    exact Option.some_ne_none _

/-- A comment, `[Net]`, ` port = "8 0" ; x`, and at the end `port=1`: asked for `PORT` in `net`. -/
theorem get_render_port : ∃ data r,
    splitData (render (.entry [] [112, 111, 114, 116] [] [] (.plain [49] []))
      [.comment [] [104, 105], .header [] [78, 101, 116] [ret],
        .entry [space] [112, 111, 114, 116] [space] [space]
          (.quoted [⟨false, 56⟩, ⟨false, space⟩, ⟨true, 48⟩] [space, semicolon, 120])]) =
      some data ∧ get data (some [110, 101, 116]) [80, 79, 82, 84] = some r ∧
    r.bind (cString data) = some [56, space, 48] ∧ r ≠ none := by
  have hport : ∀ c ∈ ([112, 111, 114, 116] : Bytes), c ≠ 0 ∧ c ≠ equals ∧ c ≠ newline := by
    simp [equals, newline]
  have hname : ∀ c ∈ ([78, 101, 116] : Bytes), c ≠ 0 ∧ c ≠ closing ∧ c ≠ newline := by
    simp [closing, newline]
  have hblank : ∀ b, IsBlank b → ∀ c ∈ [b], IsBlank c := fun b hb => List.forall_mem_singleton.2 hb
  suffices hwell : _ ∧ _ ∧ _ ∧ _ by
    obtain ⟨data, r, hdata, hr, hvalue, hnull⟩ := get_render (some [110, 101, 116])
      [80, 79, 82, 84] _ _ hwell.1 hwell.2.1 hwell.2.2.1 hwell.2.2.2
    exact ⟨data, r, hdata, hr, hvalue, fun hnone => Option.some_ne_none _ (hnull.1 hnone)⟩
  refine ⟨?_, ?_, ?_, ?_⟩
  · exact ⟨List.forall_mem_nil _, hport, ⟨112, rfl, by decide⟩, ⟨116, rfl, by decide⟩,
      List.forall_mem_nil _, List.forall_mem_nil _, List.forall_mem_singleton.2 (by decide),
      ⟨49, rfl, by decide⟩, ⟨49, rfl, by decide⟩, List.forall_mem_nil _⟩
  · refine List.forall_mem_cons.2 ⟨⟨List.forall_mem_nil _, by decide⟩, List.forall_mem_cons.2
      ⟨⟨List.forall_mem_nil _, hname, hblank ret (by decide)⟩, List.forall_mem_singleton.2 ?_⟩⟩
    refine ⟨hblank space (by decide), hport, ⟨112, rfl, by decide⟩, ⟨116, rfl, by decide⟩,
      hblank space (by decide), hblank space (by decide), ?_, by decide⟩
    refine List.forall_mem_cons.2 ⟨?_, List.forall_mem_cons.2 ⟨?_, List.forall_mem_singleton.2 ?_⟩⟩
    · exact ⟨by decide, by decide, by decide⟩
    · exact ⟨by decide, by decide, by decide⟩
    · exact ⟨by decide, by decide, by decide⟩
  · intro s hs
    obtain rfl := Option.some.inj hs
    decide
  · decide

end Lookup

end Ini

end DashDim
