import Mathlib.Data.List.TakeDrop
import DashDim.Lib.Bytes

/-!
# The reader of the settings

`ini_t` reads a settings file into one buffer and splits it in place: headers of sections, keys
and values become strings that end with a zero, and everything else is zeros. `ini_get` walks over
the strings. A pointer is a position in the buffer; `none` is an access outside the buffer, or a
loop that is not done after as many rounds as it may have.

* `Ini.splitData_spec`, `Ini.get_spec`: what each of the two does to a buffer, whatever it holds;
* `Ini.get_splitData`: with any file, neither happens.
-/

namespace DashDim

namespace Ini

/-! ## The bytes that mean something -/

/-- `'\t'`. -/
def tab : UInt8 := 9

/-- `'\n'`. -/
def newline : UInt8 := 10

/-- `'\r'`. -/
def ret : UInt8 := 13

/-- The space. -/
def space : UInt8 := 32

/-- The double quote. -/
def quote : UInt8 := 34

/-- `';'`, which starts a comment. -/
def semicolon : UInt8 := 59

/-- `'='`. -/
def equals : UInt8 := 61

/-- `'['`, which starts a section. -/
def bracket : UInt8 := 91

/-- The backslash. -/
def backslash : UInt8 := 92

/-- `']'`. -/
def closing : UInt8 := 93

/-! ## The buffer -/

/-- The byte at a pointer. Behind the file is a zero. -/
def load (data : Bytes) (p : ℕ) : Option UInt8 := (data ++ [0])[p]?

/-- Writing to a pointer. What is behind the file stays a zero. -/
def store (data : Bytes) (p : ℕ) (c : UInt8) : Option Bytes :=
  if p < data.length then some (data.set p c)
  else if p = data.length ∧ c = 0 then some data
  else none

/-- The string at a pointer. -/
def cString (data : Bytes) (p : ℕ) : Option Bytes :=
  if p ≤ data.length then some ((data.drop p).takeWhile (· ≠ 0)) else none

/-- Where `strcspn` ends from `p` on, and `strlen` when it rejects nothing. -/
def strcspn : ℕ → Bytes → List UInt8 → ℕ → Option ℕ
  | 0, _, _, _ => none
  | fuel + 1, data, reject, p => do
    let c ← load data p
    if c = 0 ∨ c ∈ reject then some p else strcspn fuel data reject (p + 1)

/-! ## Splitting -/

/-- The bytes at and before a pointer, here the one before `p`. -/
def trimBack (data : Bytes) : ℕ → Option Bytes
  | 0 => some data
  | p + 1 => do
    let c ← load data p
    if c = space ∨ c = tab ∨ c = ret then
      let data ← store data p 0
      trimBack data p
    else some data

/-- `discard_line`: zeros from `p` to the end of the line or of the data. -/
def discardLine : ℕ → Bytes → ℕ → Option (Bytes × ℕ)
  | 0, _, _ => none
  | fuel + 1, data, p =>
    if p < data.length then do
      let c ← load data p
      if c ≠ newline then
        let data ← store data p 0
        discardLine fuel data (p + 1)
      else some (data, p)
    else some (data, p)

/-- What an escaped byte stands for. -/
def escaped (c : UInt8) : UInt8 :=
  if c = 114 then ret else if c = 110 then newline else if c = 116 then tab else c

/-- The loop of `unescape_quoted_value`: it reads at `p` and writes at `q`. -/
def unescapeLoop : ℕ → Bytes → ℕ → ℕ → Option (Bytes × ℕ)
  | 0, _, _, _ => none
  | fuel + 1, data, p, q =>
    if p < data.length then do
      let c ← load data p
      if c ≠ quote ∧ c ≠ ret ∧ c ≠ newline then
        if c = backslash then
          let c ← load data (p + 1)
          if c = ret ∨ c = newline ∨ c = 0 then some (data, q)
          else
            let data ← store data q (escaped c)
            unescapeLoop fuel data (p + 2) (q + 1)
        else
          let data ← store data q c
          unescapeLoop fuel data (p + 1) (q + 1)
      else some (data, q)
    else some (data, q)

/-- `unescape_quoted_value`: the value moves one place to the left as its quotes and
    escapes go. -/
def unescapeQuotedValue (fuel : ℕ) (data : Bytes) (p : ℕ) : Option (Bytes × ℕ) :=
  unescapeLoop fuel data (p + 1) p

/-- The `=` and the blanks after it. -/
def clearBlanks : ℕ → Bytes → ℕ → Option (Bytes × ℕ)
  | 0, _, _ => none
  | fuel + 1, data, p => do
    let data ← store data p 0
    let c ← load data (p + 1)
    if c = space ∨ c = ret ∨ c = tab then clearBlanks fuel data (p + 1) else some (data, p + 1)

/-- What stands behind the `=`: the end of the line, a value in quotes, or a plain value. -/
def splitValue (fuel : ℕ) (data : Bytes) (lineStart p : ℕ) : Option (Bytes × ℕ) := do
  let c ← load data p
  if c = newline ∨ c = 0 then discardLine fuel data lineStart
  else if c = quote then
    let (data, q) ← unescapeQuotedValue fuel data p
    if q = p then discardLine fuel data lineStart else discardLine fuel data q
  else
    let p ← strcspn fuel data [newline] p
    let data ← trimBack data p
    some (data, p)

/-- A line that is no header and no comment: a key and a value, or nothing. -/
def splitEntry (fuel : ℕ) (data : Bytes) (lineStart : ℕ) : Option (Bytes × ℕ) := do
  let p ← strcspn fuel data [equals, newline] lineStart
  let c ← load data p
  if c ≠ equals then discardLine fuel data lineStart
  else
    let data ← trimBack data p
    let (data, p) ← clearBlanks fuel data p
    splitValue fuel data lineStart p

/-- The loop of `split_data`. The loops inside it may have `limit` rounds. -/
def splitLoop (limit : ℕ) : ℕ → Bytes → ℕ → Option Bytes
  | 0, _, _ => none
  | fuel + 1, data, p =>
    if p < data.length then do
      let c ← load data p
      if c = ret ∨ c = newline ∨ c = tab ∨ c = space then
        let data ← store data p 0
        splitLoop limit fuel data (p + 1)
      else if c = 0 then splitLoop limit fuel data (p + 1)
      else if c = bracket then
        let p ← strcspn limit data [closing, newline] p
        let data ← store data p 0
        splitLoop limit fuel data p
      else if c = semicolon then
        let (data, p) ← discardLine limit data p
        splitLoop limit fuel data p
      else
        let (data, p) ← splitEntry limit data p
        splitLoop limit fuel data p
    else some data

/-- `split_data`, as `ini_load` calls it on what the file holds. -/
def splitData (file : Bytes) : Option Bytes := splitLoop (file.length + 1) (file.length + 1) file 0

/-! ## Looking up -/

/-- Skips the zeros between two strings, as the loops of `next` and of `ini_get` do. -/
def skipZeros : ℕ → Bytes → ℕ → Option ℕ
  | 0, _, _ => none
  | fuel + 1, data, p =>
    if p < data.length then do
      let c ← load data p
      if c = 0 then skipZeros fuel data (p + 1) else some p
    else some p

/-- The string after the one at `p`. -/
def next (data : Bytes) (p : ℕ) : Option ℕ := do
  let p ← strcspn (data.length + 1) data [] p
  skipZeros (data.length + 1) data p

/-- `tolower`, in the C locale. -/
def tolower (c : UInt8) : UInt8 := if 65 ≤ c ∧ c ≤ 90 then c + 32 else c

/-- The strings without the zeros they end with; the bytes are those of a `char`, which is
    signed. -/
def strcmpci : Bytes → Bytes → ℤ
  | [], [] => 0
  | [], b :: _ => 0 - (tolower b).toInt8.toInt
  | a :: _, [] => (tolower a).toInt8.toInt
  | a :: as, b :: bs =>
    let d := (tolower a).toInt8.toInt - (tolower b).toInt8.toInt
    if d ≠ 0 then d else strcmpci as bs

/-- The loop of `ini_get`. What it finds is the pointer to the value. -/
def getLoop : ℕ → Bytes → ℕ → Bytes → Option Bytes → Bytes → Option (Option ℕ)
  | 0, _, _, _, _, _ => none
  | fuel + 1, data, p, currentSection, sect, key =>
    if p < data.length then do
      let c ← load data p
      if c = bracket then
        let currentSection ← cString data (p + 1)
        let p ← next data p
        getLoop fuel data p currentSection sect key
      else
        let val ← next data p
        let name ← cString data p
        if (∀ s ∈ sect, strcmpci s currentSection = 0) ∧ strcmpci name key = 0 then some (some val)
        else
          let p ← next data val
          getLoop fuel data p currentSection sect key
    else some none

/-- `ini_get`; the section may be a null pointer. -/
def get (data : Bytes) (sect : Option Bytes) (key : Bytes) : Option (Option ℕ) := do
  let c ← load data 0
  let p ← if c = 0 then next data 0 else some 0
  getLoop (data.length + 1) data p [] sect key

/-! ## Inside the buffer -/

variable {data data' : Bytes} {p q : ℕ} {c : UInt8}

theorem load_of_lt (h : p < data.length) : load data p = data[p]? := by
  rw [load, List.getElem?_append_left h]

theorem load_length (data : Bytes) : load data data.length = some 0 := by
  rw [load, List.getElem?_append_right le_rfl, Nat.sub_self]
  rfl

theorem exists_load (h : p ≤ data.length) : ∃ c, load data p = some c := by
  rcases h.lt_or_eq with h | rfl
  · exact ⟨data[p], (load_of_lt h).trans (List.getElem?_eq_getElem h)⟩
  · exact ⟨0, load_length data⟩

theorem lt_of_load (h : p ≤ data.length) (hc : load data p = some c) (hne : c ≠ 0) :
    p < data.length := by
  refine h.lt_of_ne fun heq => hne ?_
  rw [heq, load_length] at hc
  exact (Option.some.inj hc).symm

theorem store_of_lt (h : p < data.length) (c : UInt8) : store data p c = some (data.set p c) :=
  if_pos h

theorem load_set (h : p < data.length) (c : UInt8) (i : ℕ) :
    load (data.set p c) i = if i = p then some c else load data i := by
  split_ifs with hi
  · rw [hi, load_of_lt (by rwa [List.length_set]), List.getElem?_set_self h]
  · rw [load, load]
    by_cases hlt : i < data.length
    · rw [List.getElem?_append_left (by rwa [List.length_set]), List.getElem?_append_left hlt,
        List.getElem?_set_ne (Ne.symm hi)]
    · rw [List.getElem?_append_right (by rw [List.length_set]; exact not_lt.1 hlt),
        List.getElem?_append_right (not_lt.1 hlt), List.length_set]

/-- The buffer after something is overwritten by zeros. -/
structure Zeroed (data data' : Bytes) : Prop where
  length_eq : data'.length = data.length
  load_eq : ∀ i, load data' i = load data i ∨ load data' i = some 0

theorem Zeroed.refl (data : Bytes) : Zeroed data data := ⟨rfl, fun _ => .inl rfl⟩

theorem Zeroed.trans {data'' : Bytes} (h : Zeroed data data') (h' : Zeroed data' data'') :
    Zeroed data data'' := by
  refine ⟨h'.length_eq.trans h.length_eq, fun i => ?_⟩
  rcases h'.load_eq i with hi | hi
  · exact (h.load_eq i).imp hi.trans hi.trans
  · exact .inr hi

theorem exists_store (h : p ≤ data.length) : ∃ data', store data p 0 = some data' ∧
    Zeroed data data' := by
  rcases h.lt_or_eq with h | rfl
  · refine ⟨data.set p 0, store_of_lt h 0, List.length_set, fun i => ?_⟩
    rw [load_set h]
    split_ifs
    · exact .inr rfl
    · exact .inl rfl
  · exact ⟨data, by rw [store, if_neg (lt_irrefl _), if_pos ⟨rfl, rfl⟩], Zeroed.refl data⟩

theorem strcspn_spec (reject : List UInt8) (fuel : ℕ) (hp : p ≤ data.length)
    (hfuel : data.length < fuel + p) : ∃ q, strcspn fuel data reject p = some q ∧ p ≤ q ∧
      q ≤ data.length ∧ ∀ c, load data p = some c → c ≠ 0 → c ∉ reject → p < q := by
  induction fuel generalizing p with
  | zero => omega
  | succ fuel ih =>
    obtain ⟨c, hc⟩ := exists_load hp
    rw [strcspn, hc]
    change ∃ q, (if c = 0 ∨ c ∈ reject then some p
      else strcspn fuel data reject (p + 1)) = some q ∧ _
    by_cases hstop : c = 0 ∨ c ∈ reject
    · refine ⟨p, if_pos hstop, le_rfl, hp, fun c' hc' hne hnot => ?_⟩
      obtain rfl := Option.some.inj hc'
      exact absurd hstop (not_or.2 ⟨hne, hnot⟩)
    · have hlt := lt_of_load hp hc (not_or.1 hstop).1
      obtain ⟨q, hq, hle, hlen, -⟩ := ih (p := p + 1) hlt (by omega)
      exact ⟨q, (if_neg hstop).trans hq, by omega, hlen, fun _ _ _ _ => hle⟩

theorem trimBack_spec (hp : p ≤ data.length) :
    ∃ data', trimBack data p = some data' ∧ Zeroed data data' := by
  induction p generalizing data with
  | zero => exact ⟨data, rfl, Zeroed.refl data⟩
  | succ p ih =>
    obtain ⟨c, hc⟩ := exists_load (Nat.le_of_succ_le hp)
    obtain ⟨data', hstore, hzero⟩ := exists_store (Nat.le_of_succ_le hp)
    rw [trimBack, hc]
    change ∃ data'', (if c = space ∨ c = tab ∨ c = ret then
      (store data p 0).bind fun data => trimBack data p else some data) = some data'' ∧ _
    split_ifs with hblank
    · rw [hstore]
      obtain ⟨data'', htrim, hzero'⟩ := ih
        (hzero.length_eq ▸ Nat.le_of_succ_le hp : p ≤ data'.length)
      exact ⟨data'', htrim, hzero.trans hzero'⟩
    · exact ⟨data, rfl, Zeroed.refl data⟩

theorem discardLine_spec (fuel : ℕ) (hp : p ≤ data.length) (hfuel : data.length < fuel + p) :
    ∃ data' q, discardLine fuel data p = some (data', q) ∧ Zeroed data data' ∧ p ≤ q ∧
      q ≤ data.length ∧ (p < data.length → load data p ≠ some newline → p < q) := by
  induction fuel generalizing data p with
  | zero => omega
  | succ fuel ih =>
    rw [discardLine]
    by_cases hlt : p < data.length
    · obtain ⟨c, hc⟩ := exists_load hp
      obtain ⟨data', hstore, hzero⟩ := exists_store hp
      rw [if_pos hlt, hc, hstore]
      change ∃ data'' q, (if c ≠ newline then discardLine fuel data' (p + 1)
        else some (data, p)) = some (data'', q) ∧ _
      split_ifs with hline
      · obtain ⟨data'', q, hq, hzero', hle, hlen, -⟩ := @ih data' (p + 1)
          (hzero.length_eq ▸ hlt) (by rw [hzero.length_eq]; omega)
        exact ⟨data'', q, hq, hzero.trans hzero', by omega, hzero.length_eq ▸ hlen,
          fun _ _ => hle⟩
      · exact ⟨data, p, rfl, Zeroed.refl data, le_rfl, hp, fun _ hne =>
          absurd (congrArg some (not_not.1 hline)) hne⟩
    · exact ⟨data, p, if_neg hlt, Zeroed.refl data, le_rfl, hp, fun h => absurd h hlt⟩

theorem clearBlanks_spec (fuel : ℕ) (hp : p < data.length) (hfuel : data.length < fuel + p) :
    ∃ data' q, clearBlanks fuel data p = some (data', q) ∧ Zeroed data data' ∧ p < q ∧
      q ≤ data.length := by
  induction fuel generalizing data p with
  | zero => omega
  | succ fuel ih =>
    obtain ⟨data', hstore, hzero⟩ := exists_store hp.le
    obtain ⟨c, hc⟩ := exists_load (hzero.length_eq ▸ hp : p + 1 ≤ data'.length)
    rw [clearBlanks, hstore]
    change ∃ data'' q, ((load data' (p + 1)).bind fun c =>
      if c = space ∨ c = ret ∨ c = tab then clearBlanks fuel data' (p + 1)
      else some (data', p + 1)) = some (data'', q) ∧ _
    rw [hc, Option.bind_some]
    split_ifs with hblank
    · have hne : c ≠ 0 := by
        rintro rfl
        exact absurd hblank (by decide)
      have hlt := lt_of_load (hzero.length_eq ▸ hp) hc hne
      obtain ⟨data'', q, hq, hzero', hle, hlen⟩ := @ih data' (p + 1) hlt
        (by rw [hzero.length_eq]; omega)
      exact ⟨data'', q, hq, hzero.trans hzero', by omega, hzero.length_eq ▸ hlen⟩
    · exact ⟨data', p + 1, rfl, hzero, Nat.lt_succ_self p, hp⟩

/-- The value that is unescaped is written behind what is read, and not before its start. -/
theorem unescapeLoop_spec (fuel : ℕ) (hp : p ≤ data.length) (hqp : q < p)
    (hfuel : data.length < fuel + p) : ∃ data' q', unescapeLoop fuel data p q = some (data', q') ∧
      data'.length = data.length ∧ q ≤ q' ∧ q' ≤ data.length ∧ (q' = q → data' = data) := by
  induction fuel generalizing data p q with
  | zero => omega
  | succ fuel ih =>
    rw [unescapeLoop]
    have hstop : ∃ data' q', some (data, q) = some (data', q') ∧ data'.length = data.length ∧
        q ≤ q' ∧ q' ≤ data.length ∧ (q' = q → data' = data) :=
      ⟨data, q, rfl, rfl, le_rfl, by omega, fun _ => rfl⟩
    by_cases hlt : p < data.length
    · obtain ⟨c, hc⟩ := exists_load hp
      rw [if_pos hlt, hc]
      -- a byte that is written, after one or two that are read
      have hgo : ∀ c p', p < p' → p' ≤ data.length → ∃ data' q',
          ((store data q c).bind fun data => unescapeLoop fuel data p' (q + 1)) =
            some (data', q') ∧ data'.length = data.length ∧ q ≤ q' ∧ q' ≤ data.length ∧
            (q' = q → data' = data) := by
        intro c p' hpp' hp'
        rw [store_of_lt (hqp.trans hlt)]
        obtain ⟨data', q', hq', hlen, hle, hle', -⟩ := @ih (data.set q c) p' (q + 1)
          (by rwa [List.length_set]) (by omega) (by rw [List.length_set]; omega)
        rw [List.length_set] at hlen hle'
        exact ⟨data', q', hq', hlen, by omega, hle', fun h => by omega⟩
      change ∃ data' q', (if c ≠ quote ∧ c ≠ ret ∧ c ≠ newline then
        (if c = backslash then (load data (p + 1)).bind fun c =>
          if c = ret ∨ c = newline ∨ c = 0 then some (data, q)
          else (store data q (escaped c)).bind fun data => unescapeLoop fuel data (p + 2) (q + 1)
        else (store data q c).bind fun data => unescapeLoop fuel data (p + 1) (q + 1))
        else some (data, q)) = some (data', q') ∧ _
      split_ifs with hin hesc
      · obtain ⟨c', hc'⟩ := exists_load (hlt : p + 1 ≤ data.length)
        rw [hc', Option.bind_some]
        split_ifs with hend
        · exact hstop
        · have hlt' := lt_of_load hlt hc' (not_or.1 (not_or.1 hend).2).2
          exact hgo _ _ (by omega) hlt'
      · exact hgo _ _ (Nat.lt_succ_self p) hlt
      · exact hstop
    · rw [if_neg hlt]
      exact hstop

/-- Whatever a line turns out to be, the pointer moves on from its start. -/
theorem splitValue_spec {limit lineStart : ℕ} (hlt : lineStart < p) (hp : p ≤ data.length)
    (hline : load data lineStart ≠ some newline) (hlimit : data.length < limit) :
    ∃ data' q, splitValue limit data lineStart p = some (data', q) ∧
      data'.length = data.length ∧ lineStart < q ∧ q ≤ data.length := by
  have hdiscard : ∃ data' q, discardLine limit data lineStart = some (data', q) ∧
      data'.length = data.length ∧ lineStart < q ∧ q ≤ data.length := by
    obtain ⟨data', q, hq, hzero, -, hlen, hmove⟩ := discardLine_spec limit
      (by omega : lineStart ≤ data.length) (by omega)
    exact ⟨data', q, hq, hzero.length_eq, hmove (by omega) hline, hlen⟩
  obtain ⟨c, hc⟩ := exists_load hp
  rw [splitValue, hc, Option.bind_eq_bind, Option.bind_some]
  split_ifs with hmissing hquote
  · exact hdiscard
  · have hplt := lt_of_load hp hc fun h => hmissing (.inr h)
    obtain ⟨data', q, hq, hlen, hle, hle', hsame⟩ := unescapeLoop_spec limit
      (hplt : p + 1 ≤ data.length) (Nat.lt_succ_self p) (by omega)
    rw [unescapeQuotedValue, hq, Option.bind_eq_bind, Option.bind_some]
    dsimp only
    split_ifs with hempty
    · rw [hsame hempty]
      exact hdiscard
    · obtain ⟨data'', q', hq', hzero, hle'', hlen', -⟩ := discardLine_spec limit
        (hlen.symm ▸ hle' : q ≤ data'.length) (by omega)
      exact ⟨data'', q', hq', hzero.length_eq.trans hlen, by omega, hlen ▸ hlen'⟩
  · obtain ⟨q, hq, hle, hlen, -⟩ := strcspn_spec [newline] limit hp (by omega)
    obtain ⟨data', htrim, hzero⟩ := trimBack_spec hlen
    rw [hq, Option.bind_eq_bind, Option.bind_some, htrim]
    exact ⟨data', q, rfl, hzero.length_eq, by omega, hlen⟩

theorem splitEntry_spec {limit lineStart : ℕ} (hlt : lineStart < data.length)
    (hline : load data lineStart ≠ some newline) (hlimit : data.length < limit) :
    ∃ data' q, splitEntry limit data lineStart = some (data', q) ∧
      data'.length = data.length ∧ lineStart < q ∧ q ≤ data.length := by
  obtain ⟨p, hp, hle, hlen, -⟩ := strcspn_spec [equals, newline] limit hlt.le (by omega)
  obtain ⟨c, hc⟩ := exists_load hlen
  rw [splitEntry, hp, Option.bind_eq_bind, Option.bind_some, hc, Option.bind_eq_bind,
    Option.bind_some]
  by_cases hne : c ≠ equals
  · obtain ⟨data', q, hq, hzero, -, hlen', hmove⟩ := discardLine_spec limit hlt.le (by omega)
    rw [if_pos hne]
    exact ⟨data', q, hq, hzero.length_eq, hmove hlt hline, hlen'⟩
  · have hplt := lt_of_load hlen hc (by rw [not_not.1 hne]; decide)
    obtain ⟨data₁, htrim, hzero₁⟩ := trimBack_spec hlen
    obtain ⟨data₂, q, hclear, hzero₂, hpq, hq⟩ := clearBlanks_spec limit
      (hzero₁.length_eq ▸ hplt : p < data₁.length) (by rw [hzero₁.length_eq]; omega)
    have hzero := hzero₁.trans hzero₂
    -- the key and the blanks are overwritten by zeros only
    have hline₂ : load data₂ lineStart ≠ some newline := by
      rcases hzero.load_eq lineStart with h | h <;> rw [h]
      · exact hline
      · exact fun h => absurd (Option.some.inj h) (by decide)
    obtain ⟨data₃, r, hr, hlen₃, hlt₃, hle₃⟩ := splitValue_spec
      (lt_of_le_of_lt hle hpq) (hzero₂.length_eq ▸ hq) hline₂ (hzero.length_eq ▸ hlimit)
    rw [if_neg hne, htrim, Option.bind_eq_bind, Option.bind_some, hclear]
    exact ⟨data₃, r, hr, hlen₃.trans hzero.length_eq, hlt₃, hzero.length_eq ▸ hle₃⟩

theorem splitLoop_spec {limit : ℕ} (fuel : ℕ) (hp : p ≤ data.length)
    (hlimit : data.length < limit) (hfuel : data.length < fuel + p) :
    ∃ data', splitLoop limit fuel data p = some data' ∧ data'.length = data.length := by
  induction fuel generalizing data p with
  | zero => omega
  | succ fuel ih =>
    rw [splitLoop]
    by_cases hlt : p < data.length
    · have hgo : ∀ {data' q}, data'.length = data.length → p < q → q ≤ data.length →
          ∃ data'', splitLoop limit fuel data' q = some data'' ∧ data''.length = data.length := by
        intro data' q hlen hpq hq
        obtain ⟨data'', h, hlen'⟩ := @ih data' q (hlen ▸ hq) (hlen ▸ hlimit)
          (by omega)
        exact ⟨data'', h, hlen'.trans hlen⟩
      obtain ⟨c, hc⟩ := exists_load hp
      rw [if_pos hlt, hc, Option.bind_eq_bind, Option.bind_some]
      split_ifs with hblank hzero hbracket hcomment
      · obtain ⟨data', hstore, hzero⟩ := exists_store hp
        rw [hstore]
        exact hgo hzero.length_eq (Nat.lt_succ_self p) hlt
      · exact hgo rfl (Nat.lt_succ_self p) hlt
      · obtain ⟨q, hq, -, hlen, hmove⟩ := strcspn_spec [closing, newline] limit hp (by omega)
        obtain ⟨data', hstore, hzero'⟩ := exists_store hlen
        rw [hq, Option.bind_eq_bind, Option.bind_some, hstore]
        exact hgo hzero'.length_eq (hmove c hc hzero (by rw [hbracket]; decide)) hlen
      · obtain ⟨data', q, hq, hzero', -, hlen, hmove⟩ := discardLine_spec limit hp (by omega)
        rw [hq]
        refine hgo hzero'.length_eq (hmove hlt ?_) hlen
        rw [hc, hcomment]
        decide
      · obtain ⟨data', q, hq, hlen, hpq, hqlen⟩ := splitEntry_spec hlt
          (fun h => hblank (.inr (.inl (Option.some.inj (hc.symm.trans h))))) hlimit
        rw [hq]
        exact hgo hlen hpq hqlen
    · exact ⟨data, if_neg hlt, rfl⟩

/-- Whatever is in the file, `split_data` ends, and it stays inside the buffer. -/
theorem splitData_spec (file : Bytes) :
    ∃ data, splitData file = some data ∧ data.length = file.length :=
  splitLoop_spec _ (Nat.zero_le _) (Nat.lt_succ_self _) (Nat.lt_succ_self _)

theorem skipZeros_spec (fuel : ℕ) (hp : p ≤ data.length) (hfuel : data.length < fuel + p) :
    ∃ q, skipZeros fuel data p = some q ∧ p ≤ q ∧ q ≤ data.length ∧
      (p < data.length → load data p = some 0 → p < q) := by
  induction fuel generalizing p with
  | zero => omega
  | succ fuel ih =>
    rw [skipZeros]
    by_cases hlt : p < data.length
    · obtain ⟨c, hc⟩ := exists_load hp
      rw [if_pos hlt, hc, Option.bind_eq_bind, Option.bind_some]
      split_ifs with hzero
      · obtain ⟨q, hq, hle, hlen, -⟩ := ih (p := p + 1) hlt (by omega)
        exact ⟨q, hq, by omega, hlen, fun _ _ => hle⟩
      · exact ⟨p, rfl, le_rfl, hp, fun _ h => absurd (Option.some.inj h) hzero⟩
    · exact ⟨p, if_neg hlt, le_rfl, hp, fun h => absurd h hlt⟩

theorem next_spec (hp : p ≤ data.length) :
    ∃ q, next data p = some q ∧ p ≤ q ∧ q ≤ data.length ∧ (p < data.length → p < q) := by
  obtain ⟨e, he, hle, hlen, hmove⟩ := strcspn_spec [] (data.length + 1) hp (by omega)
  obtain ⟨q, hq, hle', hlen', hmove'⟩ := skipZeros_spec (data.length + 1) hlen (by omega)
  rw [next, he, Option.bind_eq_bind, Option.bind_some]
  refine ⟨q, hq, hle.trans hle', hlen', fun hlt => ?_⟩
  obtain ⟨c, hc⟩ := exists_load hp
  by_cases hzero : c = 0
  · rcases hle.lt_or_eq with h | rfl
    · exact h.trans_le hle'
    · exact hmove' hlt (hzero ▸ hc)
  · exact (hmove c hc hzero List.not_mem_nil).trans_le hle'

theorem cString_of_le (h : p ≤ data.length) :
    cString data p = some ((data.drop p).takeWhile (· ≠ 0)) := if_pos h

theorem getLoop_spec (sect : Option Bytes) (key : Bytes) (fuel : ℕ) (current : Bytes)
    (hp : p ≤ data.length) (hfuel : data.length < fuel + p) :
    ∃ r, getLoop fuel data p current sect key = some r ∧ ∀ v ∈ r, v ≤ data.length := by
  induction fuel generalizing p current with
  | zero => omega
  | succ fuel ih =>
    rw [getLoop]
    by_cases hlt : p < data.length
    · obtain ⟨c, hc⟩ := exists_load hp
      obtain ⟨q, hq, -, hlen, hmove⟩ := next_spec hp
      have hpq := hmove hlt
      rw [if_pos hlt, hc, Option.bind_eq_bind, Option.bind_some]
      split_ifs with hbracket
      · rw [cString_of_le (p := p + 1) hlt, hq]
        exact ih _ hlen (by omega)
      · obtain ⟨q', hq', hle, hlen', -⟩ := next_spec hlen
        rw [hq, cString_of_le hp, Option.bind_eq_bind, Option.bind_some, Option.bind_eq_bind,
          Option.bind_some]
        split_ifs with hfound
        · exact ⟨some q, rfl, fun v hv => Option.some.inj hv ▸ hlen⟩
        · rw [hq']
          exact ih _ hlen' (by omega)
    · exact ⟨none, if_neg hlt, fun v hv => absurd hv (Option.not_mem_none v)⟩

/-- Whatever the buffer holds, `ini_get` ends, it stays inside the buffer, and what it returns
    points into it. -/
theorem get_spec (data : Bytes) (sect : Option Bytes) (key : Bytes) :
    ∃ r, get data sect key = some r ∧ ∀ v ∈ r, v ≤ data.length := by
  obtain ⟨c, hc⟩ := exists_load (Nat.zero_le data.length)
  obtain ⟨q, hq, -, hlen, -⟩ := next_spec (Nat.zero_le data.length)
  rw [get, hc, Option.bind_eq_bind, Option.bind_some, hq]
  split_ifs with hzero
  · exact getLoop_spec sect key _ _ hlen (by omega)
  · exact getLoop_spec sect key _ _ (Nat.zero_le _) (by omega)

/-- Whatever is in a settings file, reading it and asking it for a key stays inside its buffer and
    ends, and what is returned is a string in the buffer. -/
theorem get_splitData (file : Bytes) (sect : Option Bytes) (key : Bytes) :
    ∃ data r, splitData file = some data ∧ data.length = file.length ∧
      get data sect key = some r ∧ ∀ v ∈ r, (cString data v).isSome := by
  obtain ⟨data, hdata, hlen⟩ := splitData_spec file
  obtain ⟨r, hr, hle⟩ := get_spec data sect key
  refine ⟨data, r, hdata, hlen, hr, fun v hv => ?_⟩
  rw [cString_of_le (hle v hv)]
  rfl

end Ini

end DashDim
