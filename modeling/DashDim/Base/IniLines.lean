import Mathlib.Data.List.Induction
import DashDim.Base.Ini

/-!
# The lines of a settings file

The lines that the programs' settings files are made of (`Line`): headers of sections, keys with
values, which may be in quotes, comments, and lines that say nothing; blanks may stand around every
part. What `split_data` does to each is done without regard to the lines around it (`Splits`), so
what it leaves of a file is what it leaves of the lines.

* `Ini.splitEntry_at`, `Ini.splitValue_at`: a line with a `=`, up to its value and from there on;
* `Ini.splitData_render`: the buffer after `split_data`.
-/

namespace DashDim

namespace Ini

/-! ## Lines -/

/-- The blanks that are trimmed at the ends of a line. -/
def IsBlank (c : UInt8) : Prop := c = space ∨ c = tab ∨ c = ret

instance (c : UInt8) : Decidable (IsBlank c) := inferInstanceAs (Decidable (_ ∨ _ ∨ _))

/-- A byte between quotes, which may be escaped. -/
structure Piece where
  escape : Bool
  byte : UInt8

namespace Piece

/-- A piece as the file has it. -/
def text (x : Piece) : Bytes := if x.escape then [backslash, x.byte] else [x.byte]

/-- The byte a piece stands for. -/
def value (x : Piece) : UInt8 := if x.escape then escaped x.byte else x.byte

/-- What a piece may be: no zero and no end of line, and a quote or a backslash only
    when escaped. -/
structure WellFormed (x : Piece) : Prop where
  nonzero : x.byte ≠ 0
  inline : x.byte ≠ ret ∧ x.byte ≠ newline
  plain : x.escape = false → x.byte ≠ quote ∧ x.byte ≠ backslash

end Piece

/-- What stands behind the `=` of a line. -/
inductive Value where
  | missing
  | plain (value trailing : Bytes)
  | quoted (pieces : List Piece) (tail : Bytes)

namespace Value

/-- A value as the file has it. -/
def text : Value → Bytes
  | missing => []
  | plain value trailing => value ++ trailing
  | quoted pieces tail => quote :: (pieces.flatMap Piece.text ++ quote :: tail)

/-- The value, when there is one: an empty one is none. -/
def meaning : Value → Option Bytes
  | missing => none
  | plain value _ => some value
  | quoted [] _ => none
  | quoted pieces _ => some (pieces.map Piece.value)

/-- What a value may be, in each of its three forms. -/
def WellFormed : Value → Prop
  | missing => True
  | plain value trailing =>
    (∀ c ∈ value, c ≠ 0 ∧ c ≠ newline) ∧ (∃ c ∈ value.head?, ¬ IsBlank c ∧ c ≠ quote) ∧
      (∃ c ∈ value.getLast?, ¬ IsBlank c) ∧ ∀ c ∈ trailing, IsBlank c
  | quoted pieces tail => (∀ x ∈ pieces, x.WellFormed) ∧ newline ∉ tail

end Value

/-- A line, without the end of the line. -/
inductive Line where
  | blank (blanks : Bytes)
  | comment (indent text : Bytes)
  | header (indent name blanks : Bytes)
  | entry (indent key before after : Bytes) (value : Value)
  | other (indent text : Bytes)

namespace Line

/-- A line as the file has it, without its end. -/
def text : Line → Bytes
  | blank blanks => blanks
  | comment indent text => indent ++ semicolon :: text
  | header indent name blanks => indent ++ bracket :: (name ++ closing :: blanks)
  | entry indent key before after value =>
    indent ++ (key ++ (before ++ equals :: (after ++ value.text)))
  | other indent text => indent ++ text

/-- What a key, or a line that says nothing, starts with. -/
def Starts (c : UInt8) : Prop := ¬ IsBlank c ∧ c ≠ bracket ∧ c ≠ semicolon

instance (c : UInt8) : Decidable (Starts c) := inferInstanceAs (Decidable (_ ∧ _ ∧ _))

/-- What a line says. -/
inductive Item where
  | header (name : Bytes)
  | entry (key value : Bytes)

/-- What is left of a line once it is parsed, if anything. -/
def item : Line → Option Item
  | header _ name _ => some (.header name)
  | entry _ key _ _ value => value.meaning.map (.entry key)
  | _ => none

/-- What a line may be, in each of its five forms. -/
def WellFormed : Line → Prop
  | blank blanks => ∀ c ∈ blanks, IsBlank c
  | comment indent text => (∀ c ∈ indent, IsBlank c) ∧ newline ∉ text
  | header indent name blanks => (∀ c ∈ indent, IsBlank c) ∧
      (∀ c ∈ name, c ≠ 0 ∧ c ≠ closing ∧ c ≠ newline) ∧ ∀ c ∈ blanks, IsBlank c
  | entry indent key before after value => (∀ c ∈ indent, IsBlank c) ∧
      (∀ c ∈ key, c ≠ 0 ∧ c ≠ equals ∧ c ≠ newline) ∧ (∃ c ∈ key.head?, Starts c) ∧
      (∃ c ∈ key.getLast?, ¬ IsBlank c) ∧ (∀ c ∈ before, IsBlank c) ∧
      (∀ c ∈ after, IsBlank c) ∧ value.WellFormed
  | other indent text => (∀ c ∈ indent, IsBlank c) ∧
      (∀ c ∈ text, c ≠ 0 ∧ c ≠ equals ∧ c ≠ newline) ∧ ∃ c ∈ text.head?, Starts c

end Line

/-- The file: its lines, the last of which nothing ends. -/
def render (last : Line) : List Line → Bytes
  | [] => last.text
  | l :: ls => l.text ++ newline :: render last ls

/-! ## Splitting a line -/

variable {pre rest : Bytes} {fuel limit : ℕ}

/-- So many zero bytes. -/
def zeros (n : ℕ) : Bytes := List.replicate n 0

@[simp] theorem length_zeros (n : ℕ) : (zeros n).length = n := List.length_replicate

theorem zeros_succ (n : ℕ) : zeros (n + 1) = 0 :: zeros n := rfl

theorem zeros_one : zeros 1 = [0] := rfl

theorem zeros_add (m n : ℕ) : zeros (m + n) = zeros m ++ zeros n := List.replicate_add ..

theorem zeros_append_cons (n : ℕ) (l : Bytes) : zeros n ++ 0 :: l = zeros (n + 1) ++ l := by
  rw [zeros_add, List.append_assoc]
  rfl

/-- What is behind a line is the end of the file, or of the line. -/
def EndsLine (rest : Bytes) : Prop := rest.headD newline = newline

theorem EndsLine.headD_zero (h : EndsLine rest) : rest.headD 0 = 0 ∨ rest.headD 0 = newline := by
  cases rest with
  | nil => exact .inl rfl
  | cons c rest => exact .inr h

theorem load_at (pre rest : Bytes) : load (pre ++ rest) pre.length = some (rest.headD 0) := by
  rw [load, List.append_assoc, List.getElem?_append_right le_rfl, Nat.sub_self]
  cases rest <;> rfl

theorem store_at (pre : Bytes) (c d : UInt8) (rest : Bytes) :
    store (pre ++ c :: rest) pre.length d = some (pre ++ d :: rest) := by
  rw [store_of_lt (by rw [List.length_append, List.length_cons]; omega),
    List.set_append_right _ _ le_rfl, Nat.sub_self]
  rfl

theorem lt_length_append {c : UInt8} : pre.length < (pre ++ c :: rest).length := by
  rw [List.length_append, List.length_cons]
  omega

theorem append_cons_assoc (pre : Bytes) (c : UInt8) (rest : Bytes) :
    pre ++ c :: rest = (pre ++ [c]) ++ rest := (List.append_cons ..)

theorem length_concat (pre : Bytes) (c : UInt8) : pre.length + 1 = (pre ++ [c]).length := by
  rw [List.length_append, List.length_singleton]

theorem strcspn_at {reject w : Bytes} (hw : ∀ c ∈ w, c ≠ 0 ∧ c ∉ reject)
    (hrest : rest.headD 0 = 0 ∨ rest.headD 0 ∈ reject) (hfuel : w.length < fuel) :
    strcspn fuel (pre ++ (w ++ rest)) reject pre.length = some (pre ++ w).length := by
  induction w generalizing pre fuel with
  | nil =>
    obtain ⟨fuel, rfl⟩ := Nat.exists_eq_succ_of_ne_zero (Nat.ne_of_gt hfuel)
    rw [strcspn, List.nil_append, load_at, Option.bind_eq_bind, Option.bind_some, if_pos hrest,
      List.append_nil]
  | cons c w ih =>
    obtain ⟨fuel, rfl⟩ := Nat.exists_eq_succ_of_ne_zero (Nat.ne_of_gt (Nat.zero_lt_of_lt hfuel))
    obtain ⟨hc, hw⟩ := List.forall_mem_cons.1 hw
    rw [strcspn, load_at, Option.bind_eq_bind, Option.bind_some]
    rw [if_neg (by exact not_or.2 hc), List.cons_append, append_cons_assoc, length_concat pre c,
      ih hw (Nat.lt_of_succ_lt_succ hfuel), ← append_cons_assoc]

theorem discardLine_at {w : Bytes} (hw : newline ∉ w) (hrest : EndsLine rest)
    (hfuel : w.length < fuel) : discardLine fuel (pre ++ (w ++ rest)) pre.length =
      some (pre ++ (zeros w.length ++ rest), (pre ++ zeros w.length).length) := by
  induction w generalizing pre fuel with
  | nil =>
    obtain ⟨fuel, rfl⟩ := Nat.exists_eq_succ_of_ne_zero (Nat.ne_of_gt hfuel)
    rw [discardLine]
    cases rest with
    | nil =>
      rw [if_neg (by rw [List.append_nil, List.append_nil]; exact lt_irrefl _)]
      simp [zeros]
    | cons c rest =>
      rw [List.nil_append, if_pos lt_length_append, load_at, Option.bind_eq_bind,
        Option.bind_some, if_neg (by exact not_not.2 hrest)]
      simp [zeros]
  | cons c w ih =>
    obtain ⟨fuel, rfl⟩ := Nat.exists_eq_succ_of_ne_zero (Nat.ne_of_gt (Nat.zero_lt_of_lt hfuel))
    obtain ⟨hc, hw⟩ := not_or.1 (mt List.mem_cons.2 hw)
    rw [discardLine, List.cons_append, if_pos lt_length_append, load_at, Option.bind_eq_bind,
      Option.bind_some, if_pos (by exact Ne.symm hc), store_at, Option.bind_eq_bind,
      Option.bind_some, append_cons_assoc, length_concat pre 0,
      ih hw (Nat.lt_of_succ_lt_succ hfuel), List.length_cons, zeros_succ]
    simp only [List.append_assoc, List.cons_append, List.nil_append]

theorem trimBack_at {b : Bytes} (hb : ∀ c ∈ b, IsBlank c) (hpre : ∃ c ∈ pre.getLast?, ¬ IsBlank c) :
    trimBack (pre ++ (b ++ rest)) (pre ++ b).length = some (pre ++ (zeros b.length ++ rest)) := by
  induction b using List.reverseRecOn generalizing rest with
  | nil =>
    obtain ⟨c, hc, hblank⟩ := hpre
    obtain ⟨pre, rfl⟩ := List.getLast?_eq_some_iff.1 hc
    rw [List.append_nil, ← length_concat, trimBack, List.append_assoc, load_at,
      Option.bind_eq_bind, Option.bind_some, if_neg (by exact hblank)]
    simp [zeros]
  | append_singleton b c ih =>
    obtain ⟨hb, hc⟩ := List.forall_mem_append.1 hb
    rw [← List.append_assoc pre b [c], ← length_concat, trimBack, List.append_assoc b,
      ← List.append_assoc pre b, List.singleton_append, load_at, Option.bind_eq_bind,
      Option.bind_some, if_pos (by exact hc c (List.mem_singleton_self c)), store_at,
      Option.bind_eq_bind, Option.bind_some, List.append_assoc, ih hb, ← length_concat,
      zeros_append_cons]

theorem isBlank_iff {c : UInt8} : c = space ∨ c = ret ∨ c = tab ↔ IsBlank c :=
  or_congr_right or_comm

theorem clearBlanks_at {b : Bytes} (c : UInt8) (hb : ∀ c ∈ b, IsBlank c)
    (hrest : ¬ IsBlank (rest.headD 0)) (hfuel : b.length < fuel) :
    clearBlanks fuel (pre ++ c :: (b ++ rest)) pre.length =
      some (pre ++ (zeros (b.length + 1) ++ rest), (pre ++ zeros (b.length + 1)).length) := by
  induction b generalizing pre c fuel with
  | nil =>
    obtain ⟨fuel, rfl⟩ := Nat.exists_eq_succ_of_ne_zero (Nat.ne_of_gt hfuel)
    rw [clearBlanks, store_at, Option.bind_eq_bind, Option.bind_some, List.nil_append,
      append_cons_assoc, length_concat pre 0, load_at, Option.bind_eq_bind, Option.bind_some,
      if_neg (mt isBlank_iff.1 hrest)]
    simp only [List.length_nil, Nat.zero_add, zeros_one, List.append_assoc, List.singleton_append]
  | cons d b ih =>
    obtain ⟨fuel, rfl⟩ := Nat.exists_eq_succ_of_ne_zero (Nat.ne_of_gt (Nat.zero_lt_of_lt hfuel))
    obtain ⟨hd, hb⟩ := List.forall_mem_cons.1 hb
    rw [clearBlanks, store_at, Option.bind_eq_bind, Option.bind_some, List.cons_append,
      append_cons_assoc, length_concat pre 0, load_at, Option.bind_eq_bind, Option.bind_some,
      List.headD_cons, if_pos (isBlank_iff.2 hd),
      ih d hb (Nat.lt_of_succ_lt_succ hfuel), List.length_cons, zeros_succ (b.length + 1)]
    simp only [List.append_assoc, List.cons_append, List.nil_append]

namespace Piece

variable {x : Piece}

theorem text_ne_nil : x.text ≠ [] := by
  rw [text]
  split_ifs <;> exact List.cons_ne_nil _ _

theorem WellFormed.newline_not_mem (hx : x.WellFormed) : newline ∉ x.text := by
  rw [text]
  split_ifs
  · exact List.not_mem_cons_of_ne_of_not_mem (by decide) (by simpa using hx.inline.2.symm)
  · simpa using hx.inline.2.symm

theorem escaped_ne_zero {c : UInt8} (hc : c ≠ 0) : escaped c ≠ 0 := by
  rw [escaped]
  split_ifs <;> first | decide | exact hc

theorem WellFormed.value_ne_zero (hx : x.WellFormed) : x.value ≠ 0 := by
  rw [value]
  split_ifs
  · exact escaped_ne_zero hx.nonzero
  · exact hx.nonzero

/-- Every byte but a zero can be written between quotes. -/
theorem exists_piece {c : UInt8} (hc : c ≠ 0) : ∃ x : Piece, x.WellFormed ∧ x.value = c := by
  by_cases hret : c = ret
  · exact ⟨⟨true, 114⟩, ⟨by decide, by decide, fun h => nomatch h⟩, hret ▸ rfl⟩
  by_cases hline : c = newline
  · exact ⟨⟨true, 110⟩, ⟨by decide, by decide, fun h => nomatch h⟩, hline ▸ rfl⟩
  by_cases hquote : c = quote ∨ c = backslash
  · refine ⟨⟨true, c⟩, ⟨hc, ⟨hret, hline⟩, fun h => nomatch h⟩, ?_⟩
    rcases hquote with rfl | rfl <;> rfl
  · exact ⟨⟨false, c⟩, ⟨hc, ⟨hret, hline⟩, fun _ => not_or.1 hquote⟩, rfl⟩

/-- Every string has a spelling in quotes. -/
theorem exists_pieces {s : Bytes} (hs : 0 ∉ s) :
    ∃ pieces : List Piece, (∀ x ∈ pieces, x.WellFormed) ∧ pieces.map value = s := by
  induction s with
  | nil => exact ⟨[], fun x hx => absurd hx List.not_mem_nil, rfl⟩
  | cons c s ih =>
    obtain ⟨hc, hrest⟩ := not_or.1 (mt List.mem_cons.2 hs)
    obtain ⟨x, hx, rfl⟩ := exists_piece (Ne.symm hc)
    obtain ⟨pieces, hpieces, rfl⟩ := ih hrest
    exact ⟨x :: pieces, List.forall_mem_cons.2 ⟨hx, hpieces⟩, rfl⟩

theorem length_le_text (pieces : List Piece) :
    pieces.length ≤ (pieces.flatMap Piece.text).length := by
  induction pieces with
  | nil => exact le_rfl
  | cons x pieces ih =>
    have hpos := List.length_pos_iff.2 (text_ne_nil (x := x))
    rw [List.flatMap_cons, List.length_append, List.length_cons]
    omega

end Piece

/-- A byte of the value is written, and what it was read from is left behind. -/
theorem unescapeLoop_round {x : Piece} (hx : x.WellFormed) (g : UInt8) (gap : Bytes) :
    unescapeLoop (fuel + 1) (pre ++ g :: (gap ++ (x.text ++ rest))) (pre ++ g :: gap).length
        pre.length =
      unescapeLoop fuel ((pre ++ [x.value]) ++ ((gap ++ x.text) ++ rest))
        ((pre ++ [x.value]) ++ (gap ++ x.text)).length (pre ++ [x.value]).length := by
  have hload : ∀ l, load (pre ++ g :: (gap ++ l)) (pre ++ g :: gap).length = some (l.headD 0) := by
    intro l
    rw [← List.cons_append, ← List.append_assoc]
    exact load_at _ _
  have hload' : ∀ c l, load (pre ++ g :: (gap ++ c :: l)) ((pre ++ g :: gap).length + 1) =
      some (l.headD 0) := by
    intro c l
    rw [← List.cons_append, ← List.append_assoc, append_cons_assoc, length_concat _ c]
    exact load_at _ _
  have hlt : ∀ c l, (pre ++ g :: gap).length < (pre ++ g :: (gap ++ c :: l)).length := by
    intro c l
    rw [← List.cons_append, ← List.append_assoc]
    exact lt_length_append
  have hlen : ∀ (c : UInt8) (w : Bytes),
      ((pre ++ [c]) ++ (gap ++ w)).length = (pre ++ g :: gap).length + w.length := by
    intro c w
    simp only [List.length_append, List.length_cons, List.length_nil]
    omega
  obtain ⟨hzero, ⟨hret, hline⟩, hplain⟩ := hx
  obtain ⟨esc, c⟩ := x
  cases esc with
  | false =>
    obtain ⟨hquote, hesc⟩ := hplain rfl
    have htext : Piece.text ⟨false, c⟩ = [c] := rfl
    rw [htext, hlen, unescapeLoop, List.singleton_append, if_pos (hlt _ _), hload,
      Option.bind_eq_bind, Option.bind_some, List.headD_cons, if_pos ⟨hquote, hret, hline⟩,
      if_neg (by exact hesc), store_at, Option.bind_eq_bind, Option.bind_some, ← length_concat]
    simp [Piece.value]
  | true =>
    have htext : Piece.text ⟨true, c⟩ = [backslash, c] := rfl
    rw [htext, hlen, unescapeLoop, List.cons_append, List.singleton_append, if_pos (hlt _ _),
      hload, Option.bind_eq_bind, Option.bind_some, List.headD_cons, if_pos (by decide),
      if_pos rfl, hload', Option.bind_eq_bind, Option.bind_some, List.headD_cons,
      if_neg (by exact not_or.2 ⟨hret, not_or.2 ⟨hline, hzero⟩⟩), store_at, Option.bind_some,
      ← length_concat]
    simp [Piece.value]

theorem unescapeLoop_nil (gap : Bytes) (q : ℕ) (hfuel : 0 < fuel) :
    unescapeLoop fuel (pre ++ (gap ++ quote :: rest)) (pre ++ gap).length q =
      some (pre ++ (gap ++ quote :: rest), q) := by
  obtain ⟨fuel, rfl⟩ := Nat.exists_eq_succ_of_ne_zero (Nat.ne_of_gt hfuel)
  rw [unescapeLoop, ← List.append_assoc pre gap, if_pos lt_length_append, load_at,
    Option.bind_eq_bind, Option.bind_some, List.headD_cons, if_neg (fun h => h.1 rfl)]

/-- The value is written over the quote and the escapes before it; what it does not reach is left
    as it was. -/
theorem unescapeLoop_at {pieces : List Piece} (hpieces : ∀ x ∈ pieces, x.WellFormed)
    {gap : Bytes} (hne : gap ≠ []) (hgap : newline ∉ gap) (hfuel : pieces.length < fuel) :
    ∃ gap', newline ∉ gap' ∧
      gap'.length + pieces.length = gap.length + (pieces.flatMap Piece.text).length ∧
      unescapeLoop fuel (pre ++ (gap ++ (pieces.flatMap Piece.text ++ quote :: rest)))
        (pre ++ gap).length pre.length =
      some (pre ++ (pieces.map Piece.value ++ (gap' ++ quote :: rest)),
        (pre ++ pieces.map Piece.value).length) := by
  induction pieces generalizing pre gap fuel with
  | nil =>
    refine ⟨gap, hgap, rfl, ?_⟩
    rw [List.flatMap_nil, List.nil_append, unescapeLoop_nil gap _ hfuel, List.map_nil,
      List.nil_append, List.append_nil]
  | cons x pieces ih =>
    obtain ⟨fuel, rfl⟩ := Nat.exists_eq_succ_of_ne_zero (Nat.ne_of_gt (Nat.zero_lt_of_lt hfuel))
    obtain ⟨hx, hpieces⟩ := List.forall_mem_cons.1 hpieces
    obtain ⟨g, gap, rfl⟩ := List.exists_cons_of_ne_nil hne
    have hnew : newline ∉ gap ++ x.text := List.not_mem_append
      (fun h => hgap (List.mem_cons_of_mem _ h)) hx.newline_not_mem
    obtain ⟨gap', hgap', hlen, h⟩ := @ih (pre ++ [x.value]) fuel hpieces _
      (List.append_ne_nil_of_right_ne_nil _ Piece.text_ne_nil) hnew (Nat.lt_of_succ_lt_succ hfuel)
    refine ⟨gap', hgap', ?_, ?_⟩
    · rw [List.length_append] at hlen
      rw [List.flatMap_cons, List.length_append, List.length_cons, List.length_cons]
      omega
    · rw [List.flatMap_cons, List.append_assoc x.text, List.cons_append,
        unescapeLoop_round hx g gap, h, List.map_cons]
      simp only [List.append_assoc, List.cons_append, List.nil_append]

/-! ## Splitting a key and a value -/

theorem IsBlank.inline {c : UInt8} (h : IsBlank c) : c ≠ 0 ∧ c ≠ equals ∧ c ≠ newline := by
  rcases h with rfl | rfl | rfl <;> decide

theorem EndsLine.not_blank (h : EndsLine rest) : ¬ IsBlank (rest.headD 0) := by
  rcases h.headD_zero with h | h <;> rw [h] <;> decide

theorem newline_not_mem_zeros (n : ℕ) : newline ∉ zeros n := fun h =>
  absurd (List.eq_of_mem_replicate h) (by decide)

theorem getLast?_append_of_mem {w : Bytes} {c : UInt8} (h : c ∈ w.getLast?) (pre : Bytes) :
    c ∈ (pre ++ w).getLast? := by
  rw [Option.mem_def] at h
  rw [List.getLast?_append, h]
  rfl

theorem headD_append_of_mem {w : Bytes} {c : UInt8} (h : c ∈ w.head?) (rest : Bytes) (d : UInt8) :
    (w ++ rest).headD d = c := by
  obtain ⟨w, rfl⟩ := List.head?_eq_some_iff.1 h
  rfl

/-- What is left of a line up to its value, when `w` is what was left of it up to there. -/
def Value.leaves (v : Value) (w : Bytes) : Bytes :=
  match v.meaning with
  | some value => w ++ (value ++ zeros (v.text.length - value.length))
  | none => zeros (w.length + v.text.length)

theorem Value.leaves_of_some {v : Value} {value : Bytes} (h : v.meaning = some value) (w : Bytes) :
    v.leaves w = w ++ (value ++ zeros (v.text.length - value.length)) := by
  rw [leaves, h]

theorem Value.leaves_of_none {v : Value} (h : v.meaning = none) (w : Bytes) :
    v.leaves w = zeros (w.length + v.text.length) := by
  rw [leaves, h]

/-- Everything up to the value: the blanks around the `=` become zeros. -/
theorem splitEntry_at {key before after t : Bytes}
    (hkey : ∀ c ∈ key, c ≠ 0 ∧ c ≠ equals ∧ c ≠ newline) (hlast : ∃ c ∈ key.getLast?, ¬ IsBlank c)
    (hbefore : ∀ c ∈ before, IsBlank c) (hafter : ∀ c ∈ after, IsBlank c)
    (ht : ¬ IsBlank (t.headD 0)) (hfuel : key.length + (before.length + 1 + after.length) < fuel) :
    splitEntry fuel (pre ++ (key ++ (before ++ equals :: (after ++ t)))) pre.length =
      splitValue fuel (pre ++ ((key ++ zeros (before.length + 1 + after.length)) ++ t)) pre.length
        (pre ++ (key ++ zeros (before.length + 1 + after.length))).length := by
  have hscan : strcspn fuel (pre ++ (key ++ (before ++ equals :: (after ++ t))))
      [equals, newline] pre.length = some (pre ++ (key ++ before)).length := by
    rw [← List.append_assoc key]
    refine strcspn_at (fun c hc => ?_) (.inr List.mem_cons_self)
      (by rw [List.length_append]; omega)
    have hin : c ≠ 0 ∧ c ≠ equals ∧ c ≠ newline :=
      (List.mem_append.1 hc).elim (hkey c) fun hc => (hbefore c hc).inline
    exact ⟨hin.1, by simpa using hin.2⟩
  have hload : load (pre ++ (key ++ (before ++ equals :: (after ++ t))))
      (pre ++ (key ++ before)).length = some equals := by
    rw [← List.append_assoc key, ← List.append_assoc pre, load_at]
    rfl
  have htrim : trimBack (pre ++ (key ++ (before ++ equals :: (after ++ t))))
      (pre ++ (key ++ before)).length =
        some (pre ++ (key ++ (zeros before.length ++ equals :: (after ++ t)))) := by
    obtain ⟨c, hc, hblank⟩ := hlast
    rw [← List.append_assoc pre key, ← List.append_assoc pre key, ← List.append_assoc pre key]
    exact trimBack_at hbefore ⟨c, getLast?_append_of_mem hc pre, hblank⟩
  have hclear : clearBlanks fuel (pre ++ (key ++ (zeros before.length ++ equals :: (after ++ t))))
      (pre ++ (key ++ before)).length =
        some (pre ++ ((key ++ zeros (before.length + 1 + after.length)) ++ t),
          (pre ++ (key ++ zeros (before.length + 1 + after.length))).length) := by
    have h := @clearBlanks_at (pre ++ (key ++ zeros before.length)) t fuel after
      equals hafter ht (by omega)
    rw [Nat.add_assoc, Nat.add_comm 1, zeros_add]
    simp only [List.append_assoc, List.length_append, length_zeros] at h ⊢
    exact h
  rw [splitEntry, hscan, Option.bind_eq_bind, Option.bind_some, hload, Option.bind_eq_bind,
    Option.bind_some, if_neg (not_not.2 rfl), htrim, Option.bind_eq_bind, Option.bind_some, hclear]
  rfl

/-- The whole line is discarded: what is before the value, and the value. -/
theorem discardLine_append {w t : Bytes} (hw : newline ∉ w) (ht : newline ∉ t)
    (hrest : EndsLine rest) (hfuel : w.length + t.length < fuel) :
    discardLine fuel (pre ++ (w ++ (t ++ rest))) pre.length =
      some (pre ++ (zeros (w.length + t.length) ++ rest),
        (pre ++ zeros (w.length + t.length)).length) := by
  rw [← List.append_assoc w, ← List.length_append]
  exact discardLine_at (List.not_mem_append hw ht) hrest (by rwa [List.length_append])

theorem splitValue_plain {value trailing : Bytes} {lineStart : ℕ}
    (hv : (Value.plain value trailing).WellFormed) (hrest : EndsLine rest)
    (hfuel : value.length + trailing.length < fuel) :
    splitValue fuel (pre ++ (value ++ (trailing ++ rest))) lineStart pre.length =
      some (pre ++ ((value ++ zeros trailing.length) ++ rest),
        (pre ++ (value ++ zeros trailing.length)).length) := by
  obtain ⟨hvalue, ⟨c, hc, hblank, hquote⟩, ⟨d, hd, hlast⟩, htrailing⟩ := hv
  have hfirst := hvalue c (List.mem_of_mem_head? hc)
  have hscan := @strcspn_at pre rest fuel [newline] (value ++ trailing) (fun c hc => ?_)
    (hrest.headD_zero.imp_right fun h => List.mem_singleton.2 h)
    (by rwa [List.length_append])
  · have htrim := @trimBack_at (pre ++ value) rest trailing htrailing
      ⟨d, getLast?_append_of_mem hd _, hlast⟩
    simp only [List.append_assoc] at hscan htrim ⊢
    rw [splitValue, load_at, Option.bind_eq_bind, Option.bind_some, headD_append_of_mem hc,
      if_neg (not_or.2 ⟨hfirst.2, hfirst.1⟩), if_neg hquote, hscan, Option.bind_eq_bind,
      Option.bind_some, htrim, Option.bind_eq_bind, Option.bind_some]
    simp only [List.length_append, length_zeros]
  · have hin : c ≠ 0 ∧ c ≠ newline := (List.mem_append.1 hc).elim (hvalue c) fun hc =>
      ⟨(htrailing c hc).inline.1, (htrailing c hc).inline.2.2⟩
    exact ⟨hin.1, by simpa using hin.2⟩

/-- A value in quotes, and what is behind it up to the end of the line. -/
theorem splitValue_quoted {x : Piece} {pieces : List Piece} {tail : Bytes} {lineStart : ℕ}
    (hv : (Value.quoted (x :: pieces) tail).WellFormed) (hrest : EndsLine rest)
    (hfuel : (Value.quoted (x :: pieces) tail).text.length < fuel) :
    splitValue fuel (pre ++ ((Value.quoted (x :: pieces) tail).text ++ rest)) lineStart
        pre.length =
      some (pre ++ (((x :: pieces).map Piece.value ++
          zeros ((Value.quoted (x :: pieces) tail).text.length - (pieces.length + 1))) ++ rest),
        (pre ++ ((x :: pieces).map Piece.value ++ zeros
          ((Value.quoted (x :: pieces) tail).text.length - (pieces.length + 1)))).length) := by
  obtain ⟨hpieces, htail⟩ := hv
  have hlen := Piece.length_le_text (x :: pieces)
  have htextlen : (Value.quoted (x :: pieces) tail).text.length =
      ((x :: pieces).flatMap Piece.text).length + tail.length + 2 := by
    rw [Value.text, List.length_cons, List.length_append, List.length_cons]
    omega
  obtain ⟨gap, hgap, hgaplen, h⟩ := @unescapeLoop_at pre (tail ++ rest) fuel (x :: pieces) hpieces
    [quote] (List.cons_ne_nil quote []) (by decide) (by omega)
  rw [List.length_singleton, List.length_cons] at hgaplen
  have hgaplen' : (gap ++ quote :: tail).length = gap.length + tail.length + 1 := by
    rw [List.length_append, List.length_cons, Nat.add_assoc]
  -- what the value has not been written over is discarded with the rest of the line
  have hdiscard := @discardLine_at (pre ++ (x :: pieces).map Piece.value) rest fuel
    (gap ++ quote :: tail) (List.not_mem_append hgap
      (List.not_mem_cons_of_ne_of_not_mem (by decide) htail)) hrest (by omega)
  have hsub : (Value.quoted (x :: pieces) tail).text.length - (pieces.length + 1) =
      (gap ++ quote :: tail).length := by
    rw [htextlen, hgaplen']
    omega
  have hne : (pre ++ (x :: pieces).map Piece.value).length ≠ pre.length := by
    rw [List.length_append, List.map_cons, List.length_cons]
    omega
  rw [List.singleton_append] at h
  rw [hsub, splitValue, load_at, Value.text, List.cons_append, List.headD_cons,
    Option.bind_eq_bind, Option.bind_some, if_neg (by decide), if_pos rfl, unescapeQuotedValue,
    length_concat pre quote, List.append_assoc (List.flatMap _ _), List.cons_append, h,
    Option.bind_eq_bind, Option.bind_some]
  dsimp only
  rw [if_neg hne]
  simp only [List.append_assoc, List.cons_append] at hdiscard ⊢
  exact hdiscard

/-- The value: it stays, up to where it ends, or the line is discarded. -/
theorem splitValue_at (v : Value) (hv : v.WellFormed) {w : Bytes} (hw : newline ∉ w)
    (hrest : EndsLine rest) (hfuel : w.length + v.text.length < fuel) :
    splitValue fuel (pre ++ (w ++ (v.text ++ rest))) pre.length (pre ++ w).length =
      some (pre ++ (v.leaves w ++ rest), (pre ++ v.leaves w).length) := by
  have hload : load (pre ++ (w ++ (v.text ++ rest))) (pre ++ w).length =
      some ((v.text ++ rest).headD 0) := by
    rw [← List.append_assoc pre, load_at]
  cases v with
  | missing =>
    rw [splitValue, hload, Option.bind_eq_bind, Option.bind_some,
      if_pos (by exact hrest.headD_zero.symm)]
    exact discardLine_append hw List.not_mem_nil hrest hfuel
  | plain value trailing =>
    have hsub : (Value.plain value trailing).text.length - value.length = trailing.length := by
      rw [Value.text, List.length_append, Nat.add_sub_cancel_left]
    have h := @splitValue_plain (pre ++ w) rest fuel value trailing pre.length hv hrest
      (by rw [Value.text, List.length_append] at hfuel; omega)
    rw [Value.leaves_of_some rfl, hsub, Value.text]
    simp only [List.append_assoc] at h ⊢
    exact h
  | quoted pieces tail =>
    cases pieces with
    | nil =>
      -- the value in quotes is empty, which makes the line one without a value
      have htail : newline ∉ (Value.quoted [] tail).text :=
        List.not_mem_cons_of_ne_of_not_mem (by decide)
          (List.not_mem_cons_of_ne_of_not_mem (by decide) hv.2)
      have hdiscard := @discardLine_append pre rest fuel w _ hw htail hrest hfuel
      have h := @unescapeLoop_nil (pre ++ w) (tail ++ rest) fuel [quote] (pre ++ w).length
        (by omega)
      have htext : (Value.quoted [] tail).text ++ rest = quote :: quote :: (tail ++ rest) := rfl
      rw [List.singleton_append, List.append_assoc] at h
      rw [Value.leaves_of_none rfl, splitValue, hload, Option.bind_eq_bind, Option.bind_some, htext,
        List.headD_cons, if_neg (by decide), if_pos rfl, unescapeQuotedValue,
        length_concat (pre ++ w) quote, h, Option.bind_eq_bind, Option.bind_some]
      dsimp only
      rw [if_pos rfl]
      exact hdiscard
    | cons x pieces =>
      have h := @splitValue_quoted (pre ++ w) rest fuel x pieces tail pre.length hv hrest (by omega)
      have hlen : ((x :: pieces).map Piece.value).length = pieces.length + 1 := by
        rw [List.length_map, List.length_cons]
      rw [Value.leaves_of_some rfl, hlen]
      simp only [List.append_assoc] at h ⊢
      exact h

/-! ## Splitting the file -/

/-- What `split_data` leaves of a line. -/
def Line.image : Line → Bytes
  | blank blanks => zeros blanks.length
  | comment indent text => zeros indent.length ++ zeros (text.length + 1)
  | header indent name blanks =>
    zeros indent.length ++ (bracket :: (name ++ [0]) ++ zeros blanks.length)
  | entry indent key before after value =>
    zeros indent.length ++ value.leaves (key ++ zeros (before.length + 1 + after.length))
  | other indent text => zeros indent.length ++ zeros text.length

/-- From the start of a text on, `split_data` comes to its end and leaves its image. -/
def Splits (limit : ℕ) (text image rest : Bytes) : Prop :=
  ∀ (pre : Bytes) (fuel : ℕ), (text ++ rest).length < fuel → ∃ fuel', rest.length < fuel' ∧
    splitLoop limit fuel (pre ++ (text ++ rest)) pre.length =
      splitLoop limit fuel' (pre ++ (image ++ rest)) (pre ++ image).length

namespace Splits

theorem nil (limit : ℕ) (rest : Bytes) : Splits limit [] [] rest := fun pre fuel hfuel =>
  ⟨fuel, hfuel, by rw [List.append_nil]⟩

theorem append {a a' b b' : Bytes} (h : Splits limit a a' (b ++ rest))
    (h' : Splits limit b b' rest) : Splits limit (a ++ b) (a' ++ b') rest := by
  intro pre fuel hfuel
  rw [List.append_assoc] at hfuel
  obtain ⟨fuel₁, hfuel₁, h₁⟩ := h pre fuel hfuel
  obtain ⟨fuel₂, hfuel₂, h₂⟩ := h' (pre ++ a') fuel₁ hfuel₁
  refine ⟨fuel₂, hfuel₂, ?_⟩
  rw [List.append_assoc, h₁, ← List.append_assoc pre, h₂]
  simp only [List.append_assoc]

/-- A byte that takes one round. -/
theorem one {c d : UInt8} (h : ∀ (pre : Bytes) (fuel : ℕ),
    splitLoop limit (fuel + 1) (pre ++ c :: rest) pre.length =
      splitLoop limit fuel (pre ++ d :: rest) (pre.length + 1)) :
    Splits limit [c] [d] rest := by
  intro pre fuel hfuel
  obtain ⟨fuel, rfl⟩ := Nat.exists_eq_succ_of_ne_zero (Nat.ne_of_gt (Nat.zero_lt_of_lt hfuel))
  refine ⟨fuel, Nat.lt_of_succ_lt_succ hfuel, ?_⟩
  rw [List.singleton_append, h, List.singleton_append, length_concat pre d]

theorem space {c : UInt8} (hc : c = ret ∨ c = newline ∨ c = tab ∨ c = Ini.space) :
    Splits limit [c] [0] rest := by
  refine one fun pre fuel => ?_
  rw [splitLoop, if_pos lt_length_append, load_at, Option.bind_eq_bind, Option.bind_some,
    List.headD_cons, if_pos hc, store_at]
  rfl

theorem zero : Splits limit [0] [0] rest := by
  refine one fun pre fuel => ?_
  rw [splitLoop, if_pos lt_length_append, load_at, Option.bind_eq_bind, Option.bind_some,
    List.headD_cons, if_neg (by decide), if_pos rfl]

theorem blanks {b : Bytes} (hb : ∀ c ∈ b, IsBlank c) : Splits limit b (zeros b.length) rest := by
  induction b with
  | nil => exact nil limit rest
  | cons c b ih =>
    obtain ⟨hc, hb⟩ := List.forall_mem_cons.1 hb
    have hspace : c = ret ∨ c = newline ∨ c = tab ∨ c = Ini.space := by
      rcases hc with rfl | rfl | rfl <;> decide
    exact (space hspace).append (ih hb)

theorem comment {text : Bytes} (htext : newline ∉ text) (hrest : EndsLine rest)
    (hlimit : text.length + 1 < limit) :
    Splits limit (semicolon :: text) (zeros (text.length + 1)) rest := by
  intro pre fuel hfuel
  obtain ⟨fuel, rfl⟩ := Nat.exists_eq_succ_of_ne_zero (Nat.ne_of_gt (Nat.zero_lt_of_lt hfuel))
  have hdiscard := @discardLine_at pre rest limit (semicolon :: text)
    (List.not_mem_cons_of_ne_of_not_mem (by decide) htext) hrest hlimit
  rw [List.cons_append] at hdiscard hfuel ⊢
  refine ⟨fuel, ?_, ?_⟩
  · rw [List.length_cons, List.length_append] at hfuel
    omega
  · rw [splitLoop, if_pos lt_length_append, load_at, Option.bind_eq_bind, Option.bind_some,
      List.headD_cons, if_neg (by decide), if_neg (by decide), if_neg (by decide), if_pos rfl,
      hdiscard]
    rfl

theorem header {name : Bytes} (hname : ∀ c ∈ name, c ≠ 0 ∧ c ≠ closing ∧ c ≠ newline)
    (hlimit : name.length + 1 < limit) :
    Splits limit (bracket :: (name ++ [closing])) (bracket :: (name ++ [0])) rest := by
  intro pre fuel hfuel
  obtain ⟨fuel, rfl⟩ := Nat.exists_eq_succ_of_ne_zero (Nat.ne_of_gt (Nat.zero_lt_of_lt hfuel))
  have hscan := @strcspn_at pre (closing :: rest) limit [closing, newline] (bracket :: name)
    (fun c hc => ?_) (.inr List.mem_cons_self) hlimit
  · -- the pointer stays at the zero that ends the name, which takes a round of its own
    have hfuel' : ([0] ++ rest).length < fuel := by
      simp only [List.length_append, List.length_cons, List.length_nil] at hfuel ⊢
      omega
    obtain ⟨fuel', hlt, h⟩ := zero (pre ++ bracket :: name) fuel hfuel'
    refine ⟨fuel', hlt, ?_⟩
    simp only [List.cons_append, List.append_assoc, List.nil_append] at h hscan ⊢
    rw [splitLoop, if_pos lt_length_append, load_at, Option.bind_eq_bind, Option.bind_some,
      List.headD_cons, if_neg (by decide), if_neg (by decide), if_pos rfl, hscan,
      Option.bind_eq_bind, Option.bind_some, ← List.cons_append, ← List.append_assoc, store_at,
      Option.bind_eq_bind, Option.bind_some, List.append_assoc, List.cons_append, h]
  · rcases List.mem_cons.1 hc with rfl | hc
    · decide
    · exact ⟨(hname c hc).1, by simpa using (hname c hc).2⟩

/-- A line that is no header and no comment takes one round. -/
theorem entry {c : UInt8} {w text image : Bytes} (htext : text = c :: w) (hc : Line.Starts c)
    (hzero : c ≠ 0) (hline : c ≠ newline)
    (h : ∀ pre : Bytes, splitEntry limit (pre ++ (text ++ rest)) pre.length =
      some (pre ++ (image ++ rest), (pre ++ image).length)) : Splits limit text image rest := by
  subst htext
  intro pre fuel hfuel
  obtain ⟨fuel, rfl⟩ := Nat.exists_eq_succ_of_ne_zero (Nat.ne_of_gt (Nat.zero_lt_of_lt hfuel))
  obtain ⟨hblank, hbracket, hsemicolon⟩ := hc
  have hnot : ¬(c = ret ∨ c = newline ∨ c = tab ∨ c = Ini.space) := by
    rintro (h | h | h | h)
    · exact hblank (.inr (.inr h))
    · exact hline h
    · exact hblank (.inr (.inl h))
    · exact hblank (.inl h)
  have hentry := h pre
  rw [List.cons_append] at hentry hfuel ⊢
  refine ⟨fuel, ?_, ?_⟩
  · rw [List.length_cons, List.length_append] at hfuel
    omega
  · rw [splitLoop, if_pos lt_length_append, load_at, Option.bind_eq_bind, Option.bind_some,
      List.headD_cons, if_neg hnot, if_neg hzero, if_neg hbracket, if_neg hsemicolon, hentry]
    rfl

/-- A line without a `=` is discarded. -/
theorem other {text : Bytes} (htext : ∀ c ∈ text, c ≠ 0 ∧ c ≠ equals ∧ c ≠ newline)
    (hstart : ∃ c ∈ text.head?, Line.Starts c) (hrest : EndsLine rest)
    (hlimit : text.length < limit) : Splits limit text (zeros text.length) rest := by
  obtain ⟨c, hc, hstart⟩ := hstart
  obtain ⟨w, hw⟩ := List.head?_eq_some_iff.1 hc
  have hmem := htext c (List.mem_of_mem_head? hc)
  refine entry hw hstart hmem.1 hmem.2.2 fun pre => ?_
  have hne : rest.headD 0 ≠ equals := by
    rcases hrest.headD_zero with h | h <;> rw [h] <;> decide
  rw [splitEntry, strcspn_at (fun c hc => ⟨(htext c hc).1, by simpa using (htext c hc).2⟩)
    (hrest.headD_zero.imp_right fun h => by rw [h]; decide) hlimit, Option.bind_eq_bind,
    Option.bind_some, ← List.append_assoc, load_at, Option.bind_eq_bind, Option.bind_some,
    if_pos hne, List.append_assoc]
  exact discardLine_at (fun h => (htext _ h).2.2 rfl) hrest hlimit

theorem not_blank_text {v : Value} (hv : v.WellFormed) (hrest : EndsLine rest) :
    ¬ IsBlank ((v.text ++ rest).headD 0) := by
  cases v with
  | missing => exact hrest.not_blank
  | plain value trailing =>
    obtain ⟨-, ⟨c, hc, hblank, -⟩, -⟩ := hv
    rw [Value.text, List.append_assoc, headD_append_of_mem hc]
    exact hblank
  | quoted pieces tail =>
    rw [Value.text, List.cons_append, List.headD_cons]
    decide

theorem keyValue {key before after : Bytes} {v : Value}
    (hkey : ∀ c ∈ key, c ≠ 0 ∧ c ≠ equals ∧ c ≠ newline) (hstart : ∃ c ∈ key.head?, Line.Starts c)
    (hlast : ∃ c ∈ key.getLast?, ¬ IsBlank c) (hbefore : ∀ c ∈ before, IsBlank c)
    (hafter : ∀ c ∈ after, IsBlank c) (hv : v.WellFormed) (hrest : EndsLine rest)
    (hlimit : key.length + (before.length + 1 + after.length) + v.text.length < limit) :
    Splits limit (key ++ (before ++ equals :: (after ++ v.text)))
      (v.leaves (key ++ zeros (before.length + 1 + after.length))) rest := by
  obtain ⟨c, hc, hstart⟩ := hstart
  obtain ⟨w, hw⟩ := List.head?_eq_some_iff.1 hc
  have hmem := hkey c (List.mem_of_mem_head? hc)
  have hleft : newline ∉ key ++ zeros (before.length + 1 + after.length) :=
    List.not_mem_append (fun h => (hkey _ h).2.2 rfl) (newline_not_mem_zeros _)
  refine entry (w := w ++ (before ++ equals :: (after ++ v.text))) (by rw [hw, List.cons_append])
    hstart hmem.1 hmem.2.2 fun pre => ?_
  simp only [List.append_assoc, List.cons_append]
  rw [splitEntry_at hkey hlast hbefore hafter (not_blank_text hv hrest) (by omega),
    List.append_assoc, ← List.append_assoc key, splitValue_at v hv hleft hrest]
  rw [List.length_append, length_zeros]
  exact hlimit

theorem line {l : Line} (hl : l.WellFormed) (hrest : EndsLine rest)
    (hlimit : l.text.length < limit) : Splits limit l.text l.image rest := by
  cases l with
  | blank b => exact blanks hl
  | comment indent text =>
    obtain ⟨hindent, htext⟩ := hl
    rw [Line.text, List.length_append, List.length_cons] at hlimit
    exact (blanks hindent).append (comment htext hrest (by omega))
  | header indent name b =>
    obtain ⟨hindent, hname, hb⟩ := hl
    have htext : (Line.header indent name b).text =
        indent ++ (bracket :: (name ++ [closing]) ++ b) := by
      rw [Line.text, List.cons_append, List.append_assoc, List.singleton_append]
    rw [htext, List.length_append, List.length_append, List.length_cons,
      List.length_append] at hlimit
    rw [htext]
    exact (blanks hindent).append ((header hname (by omega)).append (blanks hb))
  | entry indent key before after value =>
    obtain ⟨hindent, hkey, hstart, hlast, hbefore, hafter, hvalue⟩ := hl
    simp only [Line.text, List.length_append, List.length_cons] at hlimit
    exact (blanks hindent).append
      (keyValue hkey hstart hlast hbefore hafter hvalue hrest (by omega))
  | other indent text =>
    obtain ⟨hindent, htext, hstart⟩ := hl
    rw [Line.text, List.length_append] at hlimit
    exact (blanks hindent).append (other htext hstart hrest (by omega))

end Splits

/-- The buffer after `split_data`. -/
def image (last : Line) : List Line → Bytes
  | [] => last.image
  | l :: ls => l.image ++ 0 :: image last ls

theorem splits_render {last : Line} {ls : List Line} (hlast : last.WellFormed)
    (hls : ∀ l ∈ ls, l.WellFormed) (hlimit : (render last ls).length < limit) :
    Splits limit (render last ls) (image last ls) [] := by
  induction ls with
  | nil => exact Splits.line hlast rfl hlimit
  | cons l ls ih =>
    obtain ⟨hl, hls⟩ := List.forall_mem_cons.1 hls
    rw [render, List.length_append, List.length_cons] at hlimit
    have hline : Splits limit l.text l.image (([newline] ++ render last ls) ++ []) :=
      Splits.line hl rfl (by omega)
    exact hline.append ((Splits.space (.inr (.inl rfl))).append (ih hls (by omega)))

/-- What `split_data` leaves of a file. -/
theorem splitData_render {last : Line} {ls : List Line} (hlast : last.WellFormed)
    (hls : ∀ l ∈ ls, l.WellFormed) : splitData (render last ls) = some (image last ls) := by
  have hlt : (render last ls ++ []).length < (render last ls).length + 1 := by
    rw [List.append_nil]
    exact Nat.lt_succ_self _
  obtain ⟨fuel, hfuel, h⟩ := splits_render hlast hls (Nat.lt_succ_self _) [] _ hlt
  obtain ⟨fuel, rfl⟩ := Nat.exists_eq_succ_of_ne_zero (Nat.ne_of_gt hfuel)
  rw [List.nil_append, List.append_nil, List.nil_append, List.append_nil, List.length_nil,
    List.nil_append] at h
  rw [splitData, h, splitLoop, if_neg (lt_irrefl _)]

end Ini

end DashDim
