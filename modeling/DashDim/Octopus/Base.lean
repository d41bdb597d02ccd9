import DashDim.Codec.Reader
import DashDim.Lib.Sending

/-!
# Sockets of the octopus proxy

What hands and dispatchers of `octopus/octopus_base.cc` have in common: a socket, bytes
that wait to be sent, and the two functions that send them. What the calls of `send()`
answer is a list: how many bytes each takes, none for an error; the list may be of any
length, and a call without an answer fails.

A failed check throws out of the event loop; `CheckFailure` says which one.
-/

namespace DashDim

/-- `OctopusConnStatus`. -/
inductive OctopusConnStatus
  | connMin
  | connConnecting
  | connConnected
  | connDisconn
  deriving DecidableEq, Repr

/-- `OctopusSignalCode`. -/
inductive OctopusSignalCode
  | sigConnFailed
  | sigConnDisconn
  | sigDstConnected
  | sigDstFailed
  deriving DecidableEq, Repr

/-- The message that carries a session's addresses. -/
def octopusMsgMeta : UInt8 := 1

/-- The message that the destination is connected. -/
def octopusMsgDstConnected : UInt8 := 2

/-- The message that the destination could not be reached. -/
def octopusMsgDstFailed : UInt8 := 3

namespace Octopus

/-- The bytes of one write. -/
def kSegmentSize : ℕ := 1500

/-- The size of the buffers. -/
def kBufferSize : ℕ := 1500

/-- The checks that may fail. -/
inductive CheckFailure
  /-- a hand that has all of its first message has a dispatcher -/
  | dispatcher
  /-- nothing is left of the first message of a hand -/
  | rest
  /-- nothing comes with the first message of a hand -/
  | remaining
  /-- a closed socket has nothing to send -/
  | pending
  /-- a dispatcher that gets connected has no ready hands -/
  | readyHands
  deriving DecidableEq, Repr

/-- A socket: whether it is open, the bytes read and not used, those to send, those
    that were sent; and whether its object is about to be deleted. -/
structure OctopusBase where
  fdOpen : Bool := true
  status : OctopusConnStatus := .connMin
  rb : Bytes := []
  wb : Bytes := []
  sent : Bytes := []
  destroyed : Bool := false
  deriving DecidableEq, Repr

/-- Sending in segments: the bytes sent, those that remain, and the answers left. -/
def sendLoop : List ℕ → Bytes → Bytes × Bytes × List ℕ
  | [], data => ([], data, [])
  | n :: answers, data =>
    if data = [] then ([], [], n :: answers)
    else
      let n := min n (min kSegmentSize data.length)
      if n = 0 then ([], data, answers)
      else
        let (out, remain, answers) := sendLoop answers (data.drop n)
        (data.take n ++ out, remain, answers)

theorem sendLoop_eq (answers : List ℕ) (data : Bytes) :
    sendLoop answers data = sendPieces kSegmentSize answers data := by
  induction answers generalizing data with
  | nil => rfl
  | cons n answers ih =>
    rw [sendLoop, sendPieces]
    simp only [List.isEmpty_iff, ih]

theorem sendLoop_append (answers : List ℕ) (data : Bytes) :
    (sendLoop answers data).1 ++ (sendLoop answers data).2.1 = data := by
  rw [sendLoop_eq, sendPieces_append]

namespace OctopusBase

/-- `FlushBuffer`; a closed descriptor with bytes pending is the failed `CHECK`. -/
def flushBuffer (answers : List ℕ) (b : OctopusBase) :
    Except CheckFailure (OctopusBase × List ℕ) :=
  if b.fdOpen then
    let (out, remain, answers) := sendLoop answers b.wb
    .ok ({ b with wb := remain, sent := b.sent ++ out }, answers)
  else if b.wb = [] then .ok (b, answers)
  else .error .pending

/-- `Sink`: what cannot be sent waits, after what waits already. -/
def sink (answers : List ℕ) (pv : Bytes) (b : OctopusBase) :
    Except CheckFailure (OctopusBase × List ℕ) :=
  match b.flushBuffer answers with
  | .error e => .error e
  | .ok (b, answers) =>
    if b.wb = [] ∧ b.fdOpen = true then
      let (out, remain, answers) := sendLoop answers pv
      .ok ({ b with wb := remain, sent := b.sent ++ out }, answers)
    else .ok ({ b with wb := b.wb ++ pv }, answers)

/-- `CloseFd`. -/
def closeFd (b : OctopusBase) : OctopusBase := { b with fdOpen := false }

/-- `DeleteSelf`: posts the deletion. -/
def deleteSelf (b : OctopusBase) : OctopusBase := { b with destroyed := true }

/-- What sending does not change. -/
structure SameSocket (b b' : OctopusBase) : Prop where
  fdOpen : b'.fdOpen = b.fdOpen
  status : b'.status = b.status
  rb : b'.rb = b.rb
  destroyed : b'.destroyed = b.destroyed

theorem flushBuffer_same {answers answers' : List ℕ} {b b' : OctopusBase}
    (h : b.flushBuffer answers = .ok (b', answers')) : SameSocket b b' := by
  rw [flushBuffer] at h
  split_ifs at h
  · cases h
    exact ⟨rfl, rfl, rfl, rfl⟩
  · cases h
    exact ⟨rfl, rfl, rfl, rfl⟩

theorem sink_same {answers answers' : List ℕ} {pv : Bytes} {b b' : OctopusBase}
    (h : b.sink answers pv = .ok (b', answers')) : SameSocket b b' := by
  rw [sink] at h
  split at h
  · cases h
  · next b₁ answers₁ hflush =>
    have hsame := flushBuffer_same hflush
    split_ifs at h
    · cases h
      exact ⟨hsame.fdOpen, hsame.status, hsame.rb, hsame.destroyed⟩
    · cases h
      exact ⟨hsame.fdOpen, hsame.status, hsame.rb, hsame.destroyed⟩

/-- What `send()` took, followed by what waits. -/
def content (b : OctopusBase) : Bytes := b.sent ++ b.wb

theorem flushBuffer_content {b : OctopusBase} (hopen : b.fdOpen = true) (answers : List ℕ) :
    ∃ b' answers', b.flushBuffer answers = .ok (b', answers') ∧ b'.fdOpen = true ∧
      b'.content = b.content := by
  rw [flushBuffer, if_pos hopen]
  refine ⟨_, _, rfl, hopen, ?_⟩
  dsimp only [content]
  rw [List.append_assoc, sendLoop_append]

theorem sink_content {b : OctopusBase} (hopen : b.fdOpen = true) (answers : List ℕ)
    (pv : Bytes) : ∃ b' answers', b.sink answers pv = .ok (b', answers') ∧ b'.fdOpen = true ∧
      b'.content = b.content ++ pv := by
  obtain ⟨b₁, answers₁, hflush, hopen₁, hcontent⟩ := flushBuffer_content hopen answers
  rw [content] at hcontent
  rw [sink, hflush]
  dsimp only
  split_ifs with hempty
  · rw [hempty.1, List.append_nil] at hcontent
    refine ⟨_, _, rfl, hopen₁, ?_⟩
    dsimp only [content]
    rw [List.append_assoc, sendLoop_append, hcontent]
    rfl
  · refine ⟨_, _, rfl, hopen₁, ?_⟩
    dsimp only [content]
    rw [← List.append_assoc, hcontent]
    rfl

/-- Sending fails no check but one. -/
theorem flushBuffer_error {answers : List ℕ} {b : OctopusBase} {e : CheckFailure}
    (h : b.flushBuffer answers = .error e) : e = .pending := by
  rw [flushBuffer] at h
  split_ifs at h
  cases h
  rfl

theorem sink_error {answers : List ℕ} {pv : Bytes} {b : OctopusBase} {e : CheckFailure}
    (h : b.sink answers pv = .error e) : e = .pending := by
  rw [sink] at h
  split at h
  · next hflush =>
    cases h
    exact flushBuffer_error hflush
  · split_ifs at h

end OctopusBase

end Octopus

end DashDim
