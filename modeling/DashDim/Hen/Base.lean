import DashDim.Lib.Bytes
import DashDim.Lib.Sending

/-!
# Sockets of the hen proxy

`HenBase` of `hen/hen_base.cc`, as far as it writes. What is passed in always waits: it
is sent when the socket can be written. A failed check throws out of the event loop.

* `sink_content`, `flushBuffer_content`: no byte is lost or repeated.
-/

namespace DashDim

namespace Hen

/-- The bytes of one read and of one write. -/
def kBufferSize : ℕ := 1500

/-- The check of `FlushBuffer`: a closed socket has nothing to send. -/
inductive CheckFailure
  | pending
  deriving DecidableEq, Repr

/-- A socket: whether it is open, the bytes to send, and those that `send()` took. -/
structure HenBase where
  fdOpen : Bool := true
  wb : Bytes := []
  sent : Bytes := []
  deriving DecidableEq, Repr

namespace HenBase

/-- `Sink`; what it does when the other side is connected is commented out. -/
def sink (pv : Bytes) (b : HenBase) : HenBase :=
  if b.fdOpen then { b with wb := b.wb ++ pv } else b

/-- `FlushBuffer`; a closed descriptor with bytes pending is the failed `CHECK`. -/
def flushBuffer (answers : List ℕ) (b : HenBase) : Except CheckFailure HenBase :=
  if b.fdOpen then
    let (out, remain, _) := sendPieces kBufferSize answers b.wb
    .ok { b with wb := remain, sent := b.sent ++ out }
  else if b.wb = [] then .ok b
  else .error .pending

/-- What `send()` took, followed by what waits. -/
def content (b : HenBase) : Bytes := b.sent ++ b.wb

theorem sink_content {b : HenBase} (hopen : b.fdOpen = true) (pv : Bytes) :
    (b.sink pv).fdOpen = true ∧ (b.sink pv).content = b.content ++ pv := by
  rw [sink, if_pos hopen]
  refine ⟨hopen, ?_⟩
  rw [content, content, List.append_assoc]

theorem flushBuffer_content {b : HenBase} (hopen : b.fdOpen = true) (answers : List ℕ) :
    ∃ b', b.flushBuffer answers = .ok b' ∧ b'.fdOpen = true ∧ b'.content = b.content := by
  rw [flushBuffer, if_pos hopen]
  refine ⟨_, rfl, hopen, ?_⟩
  dsimp only [content]
  rw [List.append_assoc, sendPieces_append]

end HenBase

end Hen

end DashDim
