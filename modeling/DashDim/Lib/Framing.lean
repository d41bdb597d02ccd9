import Mathlib.Data.List.Basic

/-!
# Frames in a stream

A stream of tokens carries frames one after the other. The receiver gets it in
chunks cut anywhere: it keeps what it has got, and takes the complete frames off
the front whenever a chunk comes.

A `Framing` is an encoding of frames with a function that recognises the frame a
list of tokens starts with. The theorems do not depend on anything else:

* `Framing.drain_append`: taking the frames of a list cut in two is taking those
  of its first part, and then those of what is left followed by the second;
* `Framing.feedAll_eq`: so the chunks do not matter;
* `Framing.drain_prefix`: what a prefix of encoded frames gives, and what it
  leaves, which is a proper prefix of the next one.
-/

namespace DashDim

/-- An encoding of the frames `β` in lists of tokens `α`. A list that starts with a
    frame is recognised, with the frame and its length, whatever follows. -/
structure Framing (α β : Type*) where
  /-- The tokens of a frame. -/
  encode : β → List α
  /-- The frame at the start of a list, and its length. -/
  parse : List α → Option (β × ℕ)
  parse_encode (b : β) (rest : List α) : parse (encode b ++ rest) = some (b, (encode b).length)
  parse_append {xs : List α} {p : β × ℕ} (ys : List α) : parse xs = some p →
    parse (xs ++ ys) = some p
  parse_length {xs : List α} {b : β} {n : ℕ} : parse xs = some (b, n) → 0 < n ∧ n ≤ xs.length

namespace Framing

variable {α β : Type*} (F : Framing α β)

/-- The tokens of frames one after the other. -/
def encodeAll (bs : List β) : List α := bs.flatMap F.encode

/-- The frames taken off the front of a list, and what is left of it. -/
def drain (xs : List α) : List β × List α :=
  match h : F.parse xs with
  | none => ([], xs)
  | some (b, n) =>
    have : (xs.drop n).length < xs.length := by
      have hn := F.parse_length h
      rw [List.length_drop]
      omega
    (b :: (drain (xs.drop n)).1, (drain (xs.drop n)).2)
  termination_by xs.length
  decreasing_by all_goals exact this

/-- A receiver that holds `xs` and gets a chunk: the frames it takes, and what it
    holds then. -/
def feed (xs chunk : List α) : List β × List α := F.drain (xs ++ chunk)

/-- A receiver that holds `xs` and gets one chunk after the other. -/
def feedAll : List α → List (List α) → List β × List α
  | xs, [] => ([], xs)
  | xs, chunk :: chunks =>
    let (bs, ys) := F.feed xs chunk
    let (bs', zs) := feedAll ys chunks
    (bs ++ bs', zs)

variable {F}

@[simp] theorem encodeAll_nil : F.encodeAll [] = [] := rfl

@[simp] theorem encodeAll_cons (b : β) (bs : List β) :
    F.encodeAll (b :: bs) = F.encode b ++ F.encodeAll bs := rfl

theorem encodeAll_append (bs bs' : List β) :
    F.encodeAll (bs ++ bs') = F.encodeAll bs ++ F.encodeAll bs' := List.flatMap_append

theorem drain_of_none {xs : List α} (h : F.parse xs = none) : F.drain xs = ([], xs) := by
  rw [drain]
  split
  · rfl
  · next heq => rw [h] at heq; cases heq

theorem drain_of_some {xs : List α} {b : β} {n : ℕ} (h : F.parse xs = some (b, n)) :
    F.drain xs = (b :: (F.drain (xs.drop n)).1, (F.drain (xs.drop n)).2) := by
  rw [drain]
  split
  · next heq => rw [h] at heq; cases heq
  · next heq =>
    rw [h] at heq
    cases heq
    rfl

/-- Where there is no frame, all is left. -/
theorem drain_snd_of_fst_nil {xs : List α} (h : (F.drain xs).1 = []) : (F.drain xs).2 = xs := by
  cases hparse : F.parse xs with
  | none => rw [drain_of_none hparse]
  | some p =>
    rw [drain_of_some (b := p.1) (n := p.2) hparse] at h
    cases h

theorem parse_nil : F.parse [] = none := by
  cases h : F.parse [] with
  | none => rfl
  | some p =>
    have hn := F.parse_length (b := p.1) (n := p.2) h
    rw [List.length_nil] at hn
    omega

/-- What is left has no frame at its start. -/
theorem parse_drain (xs : List α) : F.parse (F.drain xs).2 = none := by
  induction xs using Framing.drain.induct F with
  | case1 xs h =>
    rw [drain_of_none h]
    exact h
  | case2 xs b n h _ ih =>
    rw [drain_of_some h]
    exact ih

/-- Draining is the same in two steps. -/
theorem drain_append (xs ys : List α) :
    F.drain (xs ++ ys) = ((F.drain xs).1 ++ (F.drain ((F.drain xs).2 ++ ys)).1,
      (F.drain ((F.drain xs).2 ++ ys)).2) := by
  induction xs using Framing.drain.induct F with
  | case1 xs h =>
    rw [drain_of_none h]
    rfl
  | case2 xs b n h _ ih =>
    have hdrop : (xs ++ ys).drop n = xs.drop n ++ ys :=
      List.drop_append_of_le_length (F.parse_length h).2
    rw [drain_of_some (F.parse_append ys h), hdrop, ih, drain_of_some h]
    rfl

/-- A frame at the start is taken. -/
theorem drain_encode_append (b : β) (ys : List α) :
    F.drain (F.encode b ++ ys) = (b :: (F.drain ys).1, (F.drain ys).2) := by
  rw [drain_of_some (F.parse_encode b ys), List.drop_left]

/-- Encoded frames are all taken. -/
theorem drain_encodeAll (bs : List β) : F.drain (F.encodeAll bs) = (bs, []) := by
  induction bs with
  | nil => exact drain_of_none parse_nil
  | cons b bs ih => rw [encodeAll_cons, drain_encode_append, ih]

/-- Chunks one by one give what they give at once. -/
theorem feedAll_eq {xs : List α} (h : F.parse xs = none) (chunks : List (List α)) :
    F.feedAll xs chunks = F.drain (xs ++ chunks.flatten) := by
  induction chunks generalizing xs with
  | nil => rw [feedAll, List.flatten_nil, List.append_nil, drain_of_none h]
  | cons chunk chunks ih =>
    rw [List.flatten_cons, ← List.append_assoc, drain_append (xs ++ chunk)]
    simp only [feedAll, feed, ih (parse_drain _)]

/-! ## Prefixes of encoded frames -/

/-- A proper prefix of a frame is not recognised. -/
theorem parse_incomplete {b : β} {xs ys : List α} (h : xs ++ ys = F.encode b) (hne : ys ≠ []) :
    F.parse xs = none := by
  cases hp : F.parse xs with
  | none => rfl
  | some p =>
    obtain ⟨b', n⟩ := p
    have hwhole := F.parse_append ys hp
    have henc := F.parse_encode b []
    rw [List.append_nil, ← h, hwhole] at henc
    cases henc
    have hlen := (F.parse_length hp).2
    have hpos := List.length_pos_iff.2 hne
    rw [List.length_append] at hlen
    omega

/-- A receiver that has got a part of encoded frames has taken those that are
    complete, and holds the bytes of the next one it has got so far. -/
theorem drain_prefix {bs : List β} {xs ys : List α} (h : xs ++ ys = F.encodeAll bs) :
    ∃ todo, bs = (F.drain xs).1 ++ todo ∧ (F.drain xs).2 ++ ys = F.encodeAll todo ∧
      (todo = [] ∧ (F.drain xs).2 = [] ∨
        ∃ b rest, todo = b :: rest ∧ ∃ zs, zs ≠ [] ∧ (F.drain xs).2 ++ zs = F.encode b) := by
  induction bs generalizing xs with
  | nil =>
    obtain ⟨rfl, rfl⟩ := List.append_eq_nil_iff.1 h
    rw [drain_of_none parse_nil]
    exact ⟨[], rfl, rfl, .inl ⟨rfl, rfl⟩⟩
  | cons b bs ih =>
    rw [encodeAll_cons] at h
    rcases List.append_eq_append_iff.1 h with ⟨zs, henc, hys⟩ | ⟨zs, hxs, hzs⟩
    · rcases eq_or_ne zs [] with rfl | hne
      · -- the part ends where the first frame does
        rw [List.append_nil] at henc
        rw [List.nil_append] at hys
        have hd := drain_encode_append (F := F) b []
        rw [List.append_nil, drain_of_none parse_nil] at hd
        rw [← henc, hd]
        obtain ⟨todo, hbs, hrest, hor⟩ := @ih [] (by rw [hys]; rfl)
        rw [drain_of_none parse_nil] at hbs hrest hor
        exact ⟨todo, by rw [hbs]; rfl, hrest, hor⟩
      · rw [drain_of_none (parse_incomplete henc.symm hne)]
        exact ⟨b :: bs, rfl, h,
          .inr ⟨b, bs, rfl, zs, hne, henc.symm⟩⟩
    · obtain ⟨todo, hbs, hrest, hor⟩ := ih hzs.symm
      rw [hxs, drain_encode_append]
      exact ⟨todo, by rw [List.cons_append, ← hbs], hrest, hor⟩

end Framing

end DashDim
