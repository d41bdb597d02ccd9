import DashDim.Tpproxy.Connection

/-!
# Sockets of the multipath proxy

`SocketBase` of `tpproxy/mpproxy_types.cc` is what paths and servers have in common: a
descriptor, the bytes to write to it and those read from it, and the bits of
`io_status_`. An object has two sides, its descriptor and its entity, which is what it
stands for in the proxy. Its deletion is posted (`destroyed`) when both are closed, and
done later (`freed`).

* `flushBuffer_content`, `writeDataToFd_content`: no byte is lost or repeated;
* `checkToDeleteSelf_eq`, `closeFd_destroyed`: when a deletion is posted, and that it stays so.
-/

namespace DashDim

/-- What a function that sends is answered: by the rounds of `flushBuffer`, and by a
    `send()` outside of it. -/
structure SendCall where
  flush : List SendAnswer := []
  direct : ℕ := 0

/-- A socket: beside the descriptor, `FD_WAIT_CLOSE` and the write buffer, the other
    bits of `io_status_`, the bytes read and not used, and all that `send()` took. -/
structure SocketBase extends TcpConnection where
  connecting : Bool := false
  fdClosed : Bool := false
  entityClosed : Bool := false
  entityWaitClose : Bool := false
  fdReadBuffer : Bytes := []
  sent : Bytes := []
  destroyed : Bool := false
  freed : Bool := false

namespace SocketBase

/-- The constructor. -/
def new (fd : ℤ) : SocketBase :=
  { fd := fd, isConnected := false, fdWaitClose := false, fdWriteBuffer := [] }

/-- `FlushBuffer`. -/
def flushBuffer (answers : List SendAnswer) (s : SocketBase) : SocketBase :=
  let (out, base) := s.toTcpConnection.flushBuffer answers
  { s with toTcpConnection := base, sent := s.sent ++ out }

/-- `DeleteSelf`: posts the deletion. -/
def deleteSelf (s : SocketBase) : SocketBase := { s with destroyed := true }

/-- `CheckToDeleteSelf`: only once the descriptor and the entity are both closed. -/
def checkToDeleteSelf (s : SocketBase) : SocketBase :=
  if s.fdClosed ∧ s.entityClosed then s.deleteSelf else s

/-- `CloseFd`. -/
def closeFd (s : SocketBase) : SocketBase :=
  (if s.fd > 0 then { s with fd := -1, fdClosed := true, entityWaitClose := true }
    else s).checkToDeleteSelf

/-- `CheckCloseFd`: closes once it waits for that and nothing is pending. -/
def checkCloseFd (s : SocketBase) : SocketBase :=
  if s.fdWaitClose ∧ s.fdWriteBuffer.length = 0 then s.closeFd else s

/-- `OnWriteEvent`. -/
def onWriteEvent (answers : List SendAnswer) (s : SocketBase) : SocketBase :=
  (s.flushBuffer answers).checkCloseFd

/-- `TpServerBase::WriteDataToFd` -/
def writeDataToFd (call : SendCall) (pv : Bytes) (s : SocketBase) : SocketBase :=
  if s.fd < 0 then s
  else
    let s := s.flushBuffer call.flush
    if s.fdWriteBuffer.length > 0 then { s with fdWriteBuffer := s.fdWriteBuffer ++ pv }
    else
      let sent := min call.direct pv.length
      { s with fdWriteBuffer := pv.drop sent, sent := s.sent ++ pv.take sent }

/-! ## Writing -/

/-- What `send()` took, followed by what waits. -/
def content (s : SocketBase) : Bytes := s.sent ++ s.fdWriteBuffer

@[simp] theorem flushBuffer_fd (answers : List SendAnswer) (s : SocketBase) :
    (s.flushBuffer answers).fd = s.fd := by
  rw [flushBuffer, TcpConnection.flushBuffer]
  split_ifs <;> rfl

@[simp] theorem flushBuffer_content (answers : List SendAnswer) (s : SocketBase) :
    (s.flushBuffer answers).content = s.content := by
  have hwrite := TcpConnection.onWriteEvent_eq answers s.toTcpConnection
  rw [TcpConnection.onWriteEvent, TcpConnection.checkCloseFd_fdWriteBuffer] at hwrite
  dsimp only [flushBuffer, content]
  rw [List.append_assoc, hwrite]

@[simp] theorem writeDataToFd_fd (call : SendCall) (pv : Bytes) (s : SocketBase) :
    (s.writeDataToFd call pv).fd = s.fd := by
  have hfd := s.flushBuffer_fd call.flush
  rw [writeDataToFd]
  dsimp only
  split_ifs
  · rfl
  · exact hfd
  · exact hfd

theorem writeDataToFd_content {s : SocketBase} (hfd : 0 < s.fd) (call : SendCall) (pv : Bytes) :
    (s.writeDataToFd call pv).content = s.content ++ pv := by
  have hflush := s.flushBuffer_content call.flush
  rw [content] at hflush
  rw [writeDataToFd, if_neg (by omega)]
  dsimp only
  split_ifs with hlen
  · rw [content, ← List.append_assoc, hflush]
  · obtain hnil := List.length_eq_zero_iff.1 (Nat.eq_zero_of_not_pos hlen)
    rw [hnil, List.append_nil] at hflush
    rw [content, List.append_assoc, List.take_append_drop, hflush]

/-! ## Closing -/

theorem checkToDeleteSelf_eq (s : SocketBase) : s.checkToDeleteSelf =
    { s with destroyed := s.destroyed || (s.fdClosed && s.entityClosed) } := by
  rw [checkToDeleteSelf]
  split_ifs with hclosed
  · rw [deleteSelf, hclosed.1, hclosed.2, Bool.and_self, Bool.or_true]
  · rw [← Bool.and_eq_true, Bool.not_eq_true] at hclosed
    rw [hclosed, Bool.or_false]

/-- What closing the descriptor changes. -/
theorem closeFd_eq (s : SocketBase) : s.closeFd =
    if s.fd > 0 then
      { s with
        fd := -1
        fdClosed := true
        entityWaitClose := true
        destroyed := s.destroyed || s.entityClosed }
    else { s with destroyed := s.destroyed || (s.fdClosed && s.entityClosed) } := by
  rw [closeFd, checkToDeleteSelf_eq]
  split_ifs
  · rw [Bool.true_and]
  · rfl

section closeFd

variable (s : SocketBase)

@[simp] theorem closeFd_fdReadBuffer : s.closeFd.fdReadBuffer = s.fdReadBuffer := by
  rw [closeFd_eq]
  split_ifs <;> rfl

@[simp] theorem closeFd_fdWaitClose : s.closeFd.fdWaitClose = s.fdWaitClose := by
  rw [closeFd_eq]
  split_ifs <;> rfl

@[simp] theorem closeFd_entityClosed : s.closeFd.entityClosed = s.entityClosed := by
  rw [closeFd_eq]
  split_ifs <;> rfl

@[simp] theorem checkCloseFd_entityClosed : s.checkCloseFd.entityClosed = s.entityClosed := by
  rw [checkCloseFd]
  split_ifs
  · exact s.closeFd_entityClosed
  · rfl

theorem closeFd_fd : ¬s.closeFd.fd > 0 := by
  rw [closeFd_eq]
  split_ifs with hfd
  · exact not_lt.2 (Int.negSucc_lt_zero 0).le
  · exact hfd

end closeFd

/-- What flushing changes. -/
theorem flushBuffer_eq (answers : List SendAnswer) (s : SocketBase) :
    ∃ wb sent, s.flushBuffer answers = { s with fdWriteBuffer := wb, sent := sent } := by
  rw [flushBuffer, TcpConnection.flushBuffer]
  split_ifs
  · exact ⟨s.fdWriteBuffer, s.sent ++ [], rfl⟩
  · exact ⟨_, _, rfl⟩

/-- Writing leaves what was read. -/
theorem onWriteEvent_fdReadBuffer (answers : List SendAnswer) (s : SocketBase) :
    (s.onWriteEvent answers).fdReadBuffer = s.fdReadBuffer := by
  obtain ⟨wb, sent, hflush⟩ := s.flushBuffer_eq answers
  rw [onWriteEvent, hflush, checkCloseFd]
  split_ifs
  · rw [closeFd_fdReadBuffer]
  · rfl

/-- A descriptor that is closed is not written. -/
theorem flushBuffer_of_closed (answers : List SendAnswer) {s : SocketBase} (hfd : s.fd < 0) :
    s.flushBuffer answers = s := by
  rw [flushBuffer, TcpConnection.flushBuffer, if_pos hfd]
  dsimp only
  rw [List.append_nil]

theorem writeDataToFd_of_closed (call : SendCall) (pv : Bytes) {s : SocketBase} (hfd : s.fd < 0) :
    s.writeDataToFd call pv = s := by
  rw [writeDataToFd, if_pos hfd]

/-- What writing data changes. -/
theorem writeDataToFd_eq (call : SendCall) (pv : Bytes) (s : SocketBase) :
    ∃ wb sent, s.writeDataToFd call pv = { s with fdWriteBuffer := wb, sent := sent } := by
  obtain ⟨wb, sent, hflush⟩ := s.flushBuffer_eq call.flush
  rw [writeDataToFd, hflush]
  dsimp only
  split_ifs
  · exact ⟨s.fdWriteBuffer, s.sent, rfl⟩
  · exact ⟨_, _, rfl⟩
  · exact ⟨_, _, rfl⟩

/-- A descriptor that is not to be closed is written only. -/
theorem onWriteEvent_eq (answers : List SendAnswer) {s : SocketBase}
    (hwait : s.fdWaitClose = false) :
    ∃ wb sent, s.onWriteEvent answers = { s with fdWriteBuffer := wb, sent := sent } := by
  obtain ⟨wb, sent, hflush⟩ := s.flushBuffer_eq answers
  refine ⟨wb, sent, ?_⟩
  rw [onWriteEvent, hflush, checkCloseFd, if_neg]
  rintro ⟨h, -⟩
  rw [hwait] at h
  cases h

/-- A deletion that is posted stays so. -/
theorem closeFd_destroyed {s : SocketBase} (h : s.destroyed = true) :
    s.closeFd.destroyed = true := by
  rw [closeFd, checkToDeleteSelf_eq]
  dsimp only
  split_ifs
  · rw [h, Bool.true_or]
  · rw [h, Bool.true_or]

theorem checkCloseFd_destroyed {s : SocketBase} (h : s.destroyed = true) :
    s.checkCloseFd.destroyed = true := by
  rw [checkCloseFd]
  split_ifs
  · exact closeFd_destroyed h
  · exact h

theorem onWriteEvent_destroyed {s : SocketBase} (answers : List SendAnswer)
    (h : s.destroyed = true) : (s.onWriteEvent answers).destroyed = true := by
  obtain ⟨wb, sent, hflush⟩ := s.flushBuffer_eq answers
  rw [onWriteEvent, hflush]
  exact checkCloseFd_destroyed h

end SocketBase

end DashDim
